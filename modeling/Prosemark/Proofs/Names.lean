import Prosemark.Proofs.SpanIndependence

/-!
# Names that a document reads and binds

Where a run calls functions of arguments only, apart from `if` and `for`, the environment is
written to by loops, and by nothing else: names that are in the options of no loop stay bound as
they were, also where the run fails (`interpret_binds_loop_names`).

Where phrases have their standard values, such a run reads only names that the tree mentions, its
phrases and its identifiers, and those of the evaluator, the extras and the symbols. So it comes out
the same in environments that agree on these, and leaves them in agreement
(`interpret_mentioned`).
-/

namespace Prosemark

open Run

/-! ## Names that loops bind -/

/-- The name that the node binds if it is a loop. -/
def Token.loopBinding? : Token → Option String
  | .command c => c.loopName?
  | _ => none

/-- The names in the options of the shape that those of a loop have. -/
def Block.loopNames (tree : Block) : List String :=
  tree.nodes.filterMap Token.loopBinding?

theorem Block.mem_loopNames {tree : Block} {c : Command} {name : String}
    (hc : .command c ∈ tree.nodes) (h : c.loopName? = some name) : name ∈ tree.loopNames :=
  List.mem_filterMap.2 ⟨.command c, hc, h⟩

/-- The environment binds all but some names as the other one does, and is that one if there are no
such names. -/
structure Environment.SameBut (names : List String) (env env' : Environment) : Prop where
  get?_eq {name : String} (h : name ∉ names) : env.get? name = env'.get? name
  eq_of_nil (h : names = []) : env = env'

theorem Environment.SameBut.insert {names : List String} {env env' : Environment}
    (h : env.SameBut names env') {name : String} (hname : name ∈ names) (v : Value) :
    (env.insert name v).SameBut names env' where
  get?_eq {key} hkey := by
    have hne : key ≠ name := fun heq => hkey (heq ▸ hname)
    rw [get?_insert, if_neg hne, h.get?_eq hkey]
  eq_of_nil hnil := by
    rw [hnil] at hname
    cases hname

/-- A run that calls functions of arguments only, apart from `if` and `for`, leaves all names bound
as they were but those in the options of loops, whether it succeeds or fails. If no command has
options of the shape of those, it leaves the environment as it was. -/
theorem interpret_binds_loop_names {host : Host} {tree : Block} {s : State}
    (h : tree.CallsFunctionsOnly host s) (source : String) :
    (∀ name ∉ tree.loopNames,
        (interpret host source tree s).2.env.get? name = s.env.get? name) ∧
      (tree.loopNames = [] → (interpret host source tree s).2.env = s.env) := by
  have hmirrors (stop) : (host.stopOthers stop).Mirrors host tree.nodes id
      (State.Keeps fun env => env.SameBut tree.loopNames s.env) stop :=
    (host.stopOthers stop).mirrors_of_stops host rfl (fun _ _ _ _ => rfl)
      (fun _ _ _ _ _ => .inl rfl) (fun _ _ => rfl)
      (fun hc hname v hsame => hsame.insert (Block.mem_loopNames hc hname) v)
  obtain ⟨-, -, hsame⟩ := Block.meaning_mirrored hmirrors (fun _ => h _ _)
    ⟨rfl, fun _ => rfl, fun _ => rfl⟩
  exact ⟨fun _ => hsame.get?_eq, hsame.eq_of_nil⟩

theorem Block.failingLoop_callsFunctionsOnly :
    (Block.failingLoop 0).CallsFunctionsOnly .memory .memory := by
  have hrun : (((Block.failingLoop 0).meaning (Host.memory.stopOthers .stopped)).run.run
      .memory).1 = .error (.render (.notCallable "i" "string") (.ofOffset 21)) :=
    eq_error_of_match (by decide +kernel)
  refine Block.callsFunctionsOnly_iff.2 ⟨.stopped, ?_⟩
  rw [hrun]
  simp [Error.stopped]

theorem Block.loopNames_failingLoop : (Block.failingLoop 0).loopNames = ["i"] := by
  decide +kernel

/-- The tree of `@f[=]`, which has no loop. -/
def Block.failingCall : Block :=
  ⟨⟨0, 5⟩, [.command ⟨⟨0, 5⟩, "f", .unfenced, some ⟨⟨3, 4⟩, [.operator ⟨3, 4⟩ "="]⟩, none⟩],
    .unfenced⟩

theorem Block.failingCall_callsFunctionsOnly :
    Block.failingCall.CallsFunctionsOnly .memory .memory := by
  have hrun : ((Block.failingCall.meaning (Host.memory.stopOthers .stopped)).run.run .memory).1 =
      .error (.render .misplacedEquals (.ofOffset 3)) :=
    eq_error_of_match (by decide +kernel)
  refine Block.callsFunctionsOnly_iff.2 ⟨.stopped, ?_⟩
  rw [hrun]
  simp [Error.stopped]

/-- A failing run binds the name of its loop and no other one, and without a loop it binds none. -/
theorem interpret_binds_loop_names_failingLoop :
    (Block.failingLoop 0).CallsFunctionsOnly .memory .memory ∧
      (Block.failingLoop 0).loopNames = ["i"] ∧
      (interpret .memory "" (.failingLoop 0) .memory).1 =
        .error (.render (.notCallable "i" "string") ⟨21, some ⟨1, 1⟩⟩) ∧
      ((interpret .memory "" (.failingLoop 0) .memory).2.env.get? "i").bind Value.string? =
        some "a" ∧
      (interpret .memory "" (.failingLoop 0) .memory).2.env.get? "f" =
        State.memory.env.get? "f" ∧
      Block.failingCall.CallsFunctionsOnly .memory .memory ∧ Block.failingCall.loopNames = [] ∧
      (interpret .memory "@f[=]" .failingCall .memory).2.env = State.memory.env := by
  obtain ⟨hsame, -⟩ := interpret_binds_loop_names Block.failingLoop_callsFunctionsOnly ""
  obtain ⟨-, hall⟩ := interpret_binds_loop_names Block.failingCall_callsFunctionsOnly "@f[=]"
  have hnone : Block.failingCall.loopNames = [] := by
    decide +kernel
  refine ⟨Block.failingLoop_callsFunctionsOnly, Block.loopNames_failingLoop, interpret_failingLoop,
    get?_failingLoop, hsame "f" ?_, Block.failingCall_callsFunctionsOnly, hnone, hall hnone⟩
  rw [Block.loopNames_failingLoop]
  decide

/-! ## Names that are mentioned -/

/-- The names that a run by the standard rules may read: those of the evaluator, the extras and the
symbols, the phrases of commands, and identifiers. -/
def Block.mentions (tree : Block) : List String :=
  Environment.evaluatorKey :: Environment.extrasKey :: Environment.symbolsKey ::
    tree.nodes.filterMap Token.phrase?

theorem Block.phrase_mem_mentions {tree : Block} {node : Token} {phrase : String}
    (hnode : node ∈ tree.nodes) (h : node.phrase? = some phrase) : phrase ∈ tree.mentions :=
  List.mem_cons_of_mem _ (List.mem_cons_of_mem _ (List.mem_cons_of_mem _
    (List.mem_filterMap.2 ⟨node, hnode, h⟩)))

/-- The environments bind the names in the same way. -/
def Environment.AgreeOn (names : List String) (env env' : Environment) : Prop :=
  ∀ name ∈ names, env.get? name = env'.get? name

theorem Environment.AgreeOn.insert {names : List String} {env env' : Environment}
    (h : env.AgreeOn names env') (name : String) (v : Value) :
    (env.insert name v).AgreeOn names (env'.insert name v) := by
  intro key hkey
  rw [get?_insert, get?_insert, h key hkey]

/-- The value of a phrase by the standard rules depends on what it, the extras and the symbols are
bound to. -/
theorem Phrase.evaluate_congr {phrase : String} {env env' : Environment}
    (hphrase : env.get? phrase = env'.get? phrase)
    (hextras : env.get? Environment.extrasKey = env'.get? Environment.extrasKey)
    (hsymbols : env.get? Environment.symbolsKey = env'.get? Environment.symbolsKey) :
    evaluate phrase env = evaluate phrase env' := by
  have hsymbol : symbol phrase env = symbol phrase env' := by
    unfold symbol Environment.contains entryOf?
    rw [hsymbols]
  unfold evaluate entryOf?
  rw [hextras, hphrase, hsymbol]

/-- Apart from `if`, `for` and the standard evaluator, the run of the tree calls functions of
arguments only: it is the same whatever the other callables of the host do. -/
def Block.CallsStandardOnly (tree : Block) (host : Host) (s : State) : Prop :=
  ∀ applyInEnv direct evaluate,
    (tree.meaning { host with
      applyInEnv := applyInEnv, direct := direct, evaluate := evaluate }).run.run s =
      (tree.meaning host).run.run s

/-- The host whose callables, but for functions of arguments, and whose evaluators do nothing but
stop the run with the error. -/
def Host.stopAll (stop : Error) (host : Host) : Host :=
  { host.stopOthers stop with evaluate := fun _ _ _ _ => .error (.raised stop) }

/-- The evaluator of phrases is the standard one. -/
def Environment.IsStandard (env : Environment) : Prop :=
  ∃ origin, env.get? evaluatorKey = some (.evaluator ⟨.standard, origin⟩)

section Standard

variable {host : Host} {tree : Block} {s s' : State}

/-- The standard evaluator stays if no loop may bind another one. -/
theorem Block.CallsFunctionsOnly.callsStandardOnly (h : tree.CallsFunctionsOnly host s)
    (hstandard : s.env.IsStandard) (hloops : Environment.evaluatorKey ∉ tree.loopNames) :
    tree.CallsStandardOnly host s := by
  intro applyInEnv direct evaluate
  have hmirrors (stop) : (host.stopOthers stop).Mirrors
      { host with applyInEnv := applyInEnv, direct := direct, evaluate := evaluate } tree.nodes id
      (State.Keeps Environment.IsStandard) stop := by
    refine (host.stopOthers stop).mirrors_of_stops _ rfl ?_ (fun _ _ _ _ _ => .inl rfl)
      (fun _ _ => rfl) ?_
    · rintro env callable ⟨origin, hkey⟩ hbound number phrase
      obtain rfl := Value.evaluator.inj (Option.some.inj (hbound.symm.trans hkey))
      rfl
    · rintro c name env hc hname v ⟨origin, hkey⟩
      have hne : Environment.evaluatorKey ≠ name := fun heq =>
        hloops (heq ▸ Block.mem_loopNames hc hname)
      refine ⟨origin, ?_⟩
      rw [Environment.get?_insert, if_neg hne, hkey]
  obtain ⟨stop, hstop⟩ := Block.exists_ne_error fun stop => h _ _
  have hsame := meaning_eq_of_ne (hmirrors stop) hstandard hstop
  exact hsame.trans (h _ _)

variable (happly : ∀ code number number' args,
  host.apply code number args = host.apply code number' args)

include happly

theorem Host.stopAll_mirrors (stop : Error) (tree : Block) :
    (host.stopAll stop).Mirrors host tree.nodes id
      (fun s s' => s.env.AgreeOn tree.mentions s'.env) stop where
  logged _ h := h
  evaluator h := h _ List.mem_cons_self
  evaluate {s s' node phrase callable} hnode hphrase _ h := by
    unfold Host.evaluatePhrase
    cases callable.code with
    | host code => exact .inl rfl
    | standard =>
      refine .inr (congrArg (Except.mapError _) ?_)
      refine Phrase.evaluate_congr (h _ (Block.phrase_mem_mentions hnode hphrase)) (h _ ?_) (h _ ?_)
        <;> simp [Block.mentions]
  bindName _ _ v h := h.insert _ v
  apply code args _ := happly code _ _ args
  applyInEnv _ _ _ := .inl rfl
  direct _ _ := rfl

/-- A run that calls functions of arguments only, apart from `if` and `for`, and has the standard
evaluator comes out the same in an environment that agrees on the names which the tree mentions, and
leaves the environments in agreement. A command with the name of the evaluator in options like those
of a loop has to be no loop, so that the run keeps to the standard evaluator. -/
theorem interpret_mentioned (hstandard : s.env.IsStandard) (hcalls : tree.CallsFunctionsOnly host s)
    (hloops : Environment.evaluatorKey ∈ tree.loopNames → tree.CallsStandardOnly host s)
    (hagree : s.env.AgreeOn tree.mentions s'.env) (source : String) :
    (interpret host source tree s).1 = (interpret host source tree s').1 ∧
      (interpret host source tree s).2.env.AgreeOn tree.mentions
        (interpret host source tree s').2.env := by
  have hrun : tree.CallsStandardOnly host s := by
    by_cases hkey : Environment.evaluatorKey ∈ tree.loopNames
    · exact hloops hkey
    · exact hcalls.callsStandardOnly hstandard hkey
  obtain ⟨hresult, hafter⟩ := Block.meaning_mirrored
    (fun stop => Host.stopAll_mirrors happly stop tree) (fun _ => hrun _ _ _) hagree
  rw [tree.carry_id] at hresult hafter
  exact ⟨congrArg (Except.mapError fun e : Error => e.locate source) hresult.eq, hafter⟩

end Standard

/-- A name that the tree does not mention makes no difference. -/
theorem interpret_mentioned_failingLoop :
    State.memory.env.IsStandard ∧
      (Block.failingLoop 0).CallsFunctionsOnly .memory .memory ∧
      Environment.evaluatorKey ∉ (Block.failingLoop 0).loopNames ∧
      (Block.failingLoop 0).mentions =
        ["_phrase_eval_", "_extras_", "_symbols_", "for", "i", "in", "f", "i", "i"] ∧
      State.memory.env.AgreeOn (Block.failingLoop 0).mentions
        (State.ofEnv (State.memory.env.insert "g" (.bool true))).env ∧
      (interpret .memory "" (.failingLoop 0)
          (.ofEnv (State.memory.env.insert "g" (.bool true)))).1 =
        .error (.render (.notCallable "i" "string") ⟨21, some ⟨1, 1⟩⟩) ∧
      ((interpret .memory "" (.failingLoop 0)
          (.ofEnv (State.memory.env.insert "g" (.bool true)))).2.env.get? "i").bind
        Value.string? = some "a" := by
  have hstandard : State.memory.env.IsStandard := ⟨_, rfl⟩
  have hkey : Environment.evaluatorKey ∉ (Block.failingLoop 0).loopNames := by
    rw [Block.loopNames_failingLoop]
    decide
  have hmentions : (Block.failingLoop 0).mentions =
      ["_phrase_eval_", "_extras_", "_symbols_", "for", "i", "in", "f", "i", "i"] := by
    decide +kernel
  have hagree : State.memory.env.AgreeOn (Block.failingLoop 0).mentions
      (State.ofEnv (State.memory.env.insert "g" (.bool true))).env := by
    rw [hmentions]
    intro name hname
    rw [State.ofEnv, Environment.get?_insert, if_neg]
    rintro rfl
    revert hname
    decide
  obtain ⟨hsame, hafter⟩ := interpret_mentioned (fun _ _ _ _ => rfl) hstandard
    Block.failingLoop_callsFunctionsOnly (fun h => absurd h hkey) hagree ""
  refine ⟨hstandard, Block.failingLoop_callsFunctionsOnly, hkey, hmentions, hagree,
    hsame.symm.trans interpret_failingLoop, ?_⟩
  rw [← hafter "i" (by rw [hmentions]; decide)]
  exact get?_failingLoop

end Prosemark
