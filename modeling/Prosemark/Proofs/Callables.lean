import Prosemark.Proofs.Mirror

/-!
# Runs that do without some callables

A run that calls none of some callables is the same whatever these do, and this is what is meant by
it here (`Block.EntersControlOnly`, `Block.CallsFunctionsOnly`). It can be told from one run: if the
callables would stop the run with some error, the run does not stop with it
(`Block.entersControlOnly_iff`, `Block.callsFunctionsOnly_iff`).

So a run that enters no direct callable of the host, whose other callables are functions of their
arguments, is mirrored by that of the tree carried over (`Block.EntersControlOnly.mirrored`).
-/

namespace Prosemark

open Run

/-! ## Runs and the callables of hosts -/

/-- Of direct callables, the run of the tree enters `if` and `for` only: it is the same whatever
those of the host do. -/
def Block.EntersControlOnly (tree : Block) (host : Host) (s : State) : Prop :=
  ∀ direct, (tree.meaning { host with direct := direct }).run.run s = (tree.meaning host).run.run s

/-- Apart from `if` and `for`, the run of the tree calls functions of arguments only: it is the same
whatever the other callables of the host do. -/
def Block.CallsFunctionsOnly (tree : Block) (host : Host) (s : State) : Prop :=
  ∀ applyInEnv direct,
    (tree.meaning { host with applyInEnv := applyInEnv, direct := direct }).run.run s =
      (tree.meaning host).run.run s

/-- The host whose direct callables do nothing but stop the run with the error. -/
def Host.stopDirect (stop : Error) (host : Host) : Host :=
  { host with direct := fun _ _ => throw (.raised stop) }

/-- The host whose callables, but for functions of arguments, do nothing but stop the run with the
error. -/
def Host.stopOthers (stop : Error) (host : Host) : Host :=
  { host.stopDirect stop with applyInEnv := fun _ _ env _ => (.error (.raised stop), env) }

/-- No result is every error. -/
theorem exists_error_ne {α : Type} (r : Except Error α) : ∃ stop, r ≠ .error stop := by
  by_cases h : r = .error (.render .groupNotExpected (.ofOffset 0))
  · refine ⟨.render .groupNotExpected (.ofOffset 1), ?_⟩
    rw [h]
    intro hsame
    cases hsame
  · exact ⟨_, h⟩

/-! ## Callables that stop a run -/

section Stops

variable {host host' : Host} {tree : Block} {alike : State → State → Prop} {stop : Error}
  {s s' : State}

/-- A run that is the same whatever error some callables stop it with is not stopped by them. -/
theorem Block.exists_ne_error {hosts : Error → Host}
    (hsame : ∀ stop, (tree.meaning (hosts stop)).run.run s = (tree.meaning host).run.run s) :
    ∃ stop, ((tree.meaning (hosts stop)).run.run s).1 ≠ .error stop := by
  obtain ⟨stop, hstop⟩ := exists_error_ne ((tree.meaning host).run.run s).1
  refine ⟨stop, ?_⟩
  rw [hsame]
  exact hstop

/-- A run that is the same whatever error some callables stop it with is mirrored where these do
anything else. -/
theorem Block.meaning_mirrored {place : Nat → Nat} {hosts : Error → Host}
    (hhosts : ∀ stop, (hosts stop).Mirrors host' tree.nodes place alike stop)
    (hsame : ∀ stop, (tree.meaning (hosts stop)).run.run s = (tree.meaning host).run.run s)
    (h : alike s s') :
    Carried place ((tree.meaning host).run.run s).1
        (((tree.carry place id).meaning host').run.run s').1 ∧
      alike ((tree.meaning host).run.run s).2
        (((tree.carry place id).meaning host').run.run s').2 := by
  obtain ⟨stop, hstop⟩ := Block.exists_ne_error hsame
  have hrun := Block.meaning_mirrors (hhosts stop) tree (List.Subset.refl _) s s' h
  have hends := hrun.resolve_left hstop
  rwa [hsame] at hends

theorem Event.carry_id (event : Event) : event.carry id = event := by
  cases event <;> rfl

/-- The states are the same one, with an environment that has the property. -/
def State.Keeps (keeps : Environment → Prop) (s s' : State) : Prop :=
  s = s' ∧ keeps s.env

variable (host host') in
/-- Where the callables of a host are those of another one or stop the run, the other one goes
through the same states while the run goes on. What is true of the environment stays true if loops
and functions keep it. -/
theorem Host.mirrors_of_stops {keeps : Environment → Prop} {nodes : List Token}
    (happly : host.apply = host'.apply)
    (hevaluate : ∀ {env callable}, keeps env →
      env.get? Environment.evaluatorKey = some (.evaluator callable) → ∀ number phrase,
        host.evaluatePhrase callable number phrase env =
          host'.evaluatePhrase callable number phrase env)
    (happlyInEnv : ∀ code number env args, keeps env →
      (host.applyInEnv code number env args).1 = .error (.raised stop) ∨
        host.applyInEnv code number env args = host'.applyInEnv code number env args ∧
          keeps (host.applyInEnv code number env args).2)
    (hdirect : ∀ code call, host.direct code call = throw (.raised stop))
    (hbind : ∀ {c name env}, .command c ∈ nodes → Command.loopName? c = some name → ∀ v,
      keeps env → keeps (env.insert name v)) :
    host.Mirrors host' nodes id (State.Keeps keeps) stop where
  logged event h := ⟨by rw [h.1, event.carry_id], h.2⟩
  evaluator h := by rw [h.1]
  evaluate _ _ hbound h := by
    obtain ⟨rfl, hkeeps⟩ := h
    exact .inr (hevaluate hkeeps hbound _ _)
  bindName hc hname v h := by
    obtain ⟨rfl, hkeeps⟩ := h
    exact ⟨rfl, hbind hc hname v hkeeps⟩
  apply _ _ h := by rw [h.1, happly]
  applyInEnv {s s'} code args h := by
    obtain ⟨rfl, hkeeps⟩ := h
    refine (happlyInEnv code s.log.size s.env args hkeeps).imp_right fun ⟨hsame, hafter⟩ => ?_
    rw [← hsame]
    exact ⟨rfl, rfl, hafter⟩
  direct := hdirect

/-- Where a run is not stopped, it does not matter what would have stopped it. -/
theorem Block.meaning_eq_of_ne {keeps : Environment → Prop}
    (hhost : host.Mirrors host' tree.nodes id (State.Keeps keeps) stop)
    (hs : keeps s.env) (h : ((tree.meaning host).run.run s).1 ≠ .error stop) :
    (tree.meaning host').run.run s = (tree.meaning host).run.run s := by
  have hrun := Block.meaning_mirrors hhost tree (List.Subset.refl _) s s ⟨rfl, hs⟩
  rw [tree.carry_id] at hrun
  obtain ⟨hresult, hafter, -⟩ := hrun.resolve_left h
  exact Prod.ext hresult.eq.symm hafter.symm

/-- A run enters no direct callable of the host if one that would stop it with some error does not
stop it. -/
theorem Block.entersControlOnly_iff :
    tree.EntersControlOnly host s ↔
      ∃ stop, ((tree.meaning (host.stopDirect stop)).run.run s).1 ≠ .error stop := by
  constructor
  · intro h
    exact Block.exists_ne_error fun stop => h _
  · rintro ⟨stop, hstop⟩ direct
    have hmirrors (direct) : (host.stopDirect stop).Mirrors { host with direct := direct }
        tree.nodes id (State.Keeps fun _ => True) stop :=
      (host.stopDirect stop).mirrors_of_stops { host with direct := direct } rfl
        (fun _ _ _ _ => rfl) (fun _ _ _ _ _ => .inr ⟨rfl, trivial⟩) (fun _ _ => rfl)
        (fun _ _ _ _ => trivial)
    have hsame (direct) := meaning_eq_of_ne (hmirrors direct) trivial hstop
    exact (hsame direct).trans (hsame host.direct).symm

/-- A run calls functions of arguments only if the other callables of the host, where they would
stop it with some error, do not stop it. -/
theorem Block.callsFunctionsOnly_iff :
    tree.CallsFunctionsOnly host s ↔
      ∃ stop, ((tree.meaning (host.stopOthers stop)).run.run s).1 ≠ .error stop := by
  constructor
  · intro h
    exact Block.exists_ne_error fun stop => h _ _
  · rintro ⟨stop, hstop⟩ applyInEnv direct
    have hmirrors (applyInEnv direct) : (host.stopOthers stop).Mirrors
        { host with applyInEnv := applyInEnv, direct := direct } tree.nodes id
        (State.Keeps fun _ => True) stop :=
      (host.stopOthers stop).mirrors_of_stops
        { host with applyInEnv := applyInEnv, direct := direct } rfl (fun _ _ _ _ => rfl)
        (fun _ _ _ _ _ => .inl rfl) (fun _ _ => rfl) (fun _ _ _ _ => trivial)
    have hsame (applyInEnv direct) := meaning_eq_of_ne (hmirrors applyInEnv direct) trivial hstop
    exact (hsame applyInEnv direct).trans (hsame host.applyInEnv host.direct).symm

end Stops

/-! ## Functions of their arguments -/

/-- The functions and the evaluators of the host are functions of their arguments: they do not see
which call it is. -/
structure Host.Functional (host : Host) : Prop where
  apply (code : String) (number number' : Nat) (args : Arguments) :
    host.apply code number args = host.apply code number' args
  applyInEnv (code : String) (number number' : Nat) (env : Environment) (args : Arguments) :
    host.applyInEnv code number env args = host.applyInEnv code number' env args
  evaluate (code : String) (number number' : Nat) (phrase : String) (env : Environment) :
    host.evaluate code number phrase env = host.evaluate code number' phrase env

/-- Functions of their arguments tell states apart by the environment only. -/
theorem Host.Functional.mirrors {host : Host} (h : host.Functional) (stop : Error)
    (nodes : List Token) (place : Nat → Nat) :
    (host.stopDirect stop).Mirrors host nodes place (fun s s' => s.env = s'.env) stop where
  logged _ henv := henv
  evaluator henv := congrArg _ henv
  evaluate {s s' _ phrase callable} _ _ _ henv := by
    unfold Host.evaluatePhrase
    rw [henv]
    split
    · exact .inr rfl
    · exact .inr (h.evaluate _ _ _ _ _)
  bindName _ _ v henv := congrArg (Environment.insert _ v) henv
  apply code args _ := h.apply code _ _ args
  applyInEnv {s s'} code args henv := by
    have hresult := h.applyInEnv code s.log.size s'.log.size s'.env args
    rw [henv]
    exact .inr ⟨congrArg Prod.fst hresult, congrArg Prod.snd hresult⟩
  direct _ _ := rfl

/-- A run that enters no direct callable of the host is mirrored wherever the tree stands. -/
theorem Block.EntersControlOnly.mirrored {host : Host} {tree : Block} {s s' : State}
    (h : tree.EntersControlOnly host s) (hhost : host.Functional) (henv : s.env = s'.env)
    (place : Nat → Nat) :
    Carried place ((tree.meaning host).run.run s).1
        (((tree.carry place id).meaning host).run.run s').1 ∧
      ((tree.meaning host).run.run s).2.env =
        (((tree.carry place id).meaning host).run.run s').2.env :=
  Block.meaning_mirrored (fun stop => hhost.mirrors stop tree.nodes place) (fun _ => h _) henv

end Prosemark
