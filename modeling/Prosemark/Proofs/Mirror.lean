import Mathlib.Data.List.Forall2
import Prosemark.Proofs.Account
import Prosemark.Proofs.Carry

/-!
# Runs side by side

A run mirrors another one if, from states that are alike, both end in states that are alike, with
the same value or with errors that differ in the place of a fault only (`Run.Mirrors`). What alike
means is a parameter, and so is the place that an offset of the first run is carried to.

If what is asked of two hosts comes out the same in states that are alike (`Host.Mirrors`), the run
of a tree under the first host is mirrored by that of the tree carried over under the second
(`Block.meaning_mirrors`). Hosts are asked about the phrases of the nodes of the tree, and names are
bound by its loops, so that nothing is required for others.

Some callables of the first host may do nothing but stop the run with an error that is chosen for
it. Nothing is said of a run that stops with this error, and any other has called none of them.
-/

namespace Prosemark

open Run

/-! ## Results and runs -/

/-- The results are the same, but for the place of a fault, which is carried over. -/
inductive Carried (place : Nat → Nat) {α : Type} : Except Error α → Except Error α → Prop
  | value (a : α) : Carried place (.ok a) (.ok a)
  | error (e : Error) : Carried place (.error e) (.error e)
  | fault (fault : RenderFault) (offset : Nat) :
      Carried place (.error (.render fault (.ofOffset offset)))
        (.error (.render fault (.ofOffset (place offset))))

theorem Carried.eq {α : Type} {r r' : Except Error α} (h : Carried id r r') : r = r' := by
  cases h <;> rfl

section Runs

variable (place : Nat → Nat) (alike : State → State → Prop) (stop : Error) {α β : Type}

/-- Unless the first run stops with the error, the runs end from the two states in states that are
alike, with results that are the same but for the place of a fault. -/
def Run.MirrorsAt (x y : Run α) (s s' : State) : Prop :=
  (x.run.run s).1 = .error stop ∨
    Carried place (x.run.run s).1 (y.run.run s').1 ∧ alike (x.run.run s).2 (y.run.run s').2

/-- From any states that are alike, the runs end in such states, with results that are the same but
for the place of a fault, unless the first run stops with the error. -/
def Run.Mirrors (x y : Run α) : Prop :=
  ∀ s s', alike s s' → x.MirrorsAt place alike stop y s s'

variable {place alike stop} {x y : Run α} {f g : α → Run β} {s s' : State}

theorem Run.mirrors_pure (a : α) : (pure a : Run α).Mirrors place alike stop (pure a) :=
  fun _ _ h => .inr ⟨.value a, h⟩

theorem Run.mirrors_fail (fault : RenderFault) (offset : Nat) :
    (fail fault offset : Run α).Mirrors place alike stop (fail fault (place offset)) :=
  fun _ _ h => .inr ⟨.fault fault offset, h⟩

theorem Run.mirrorsAt_ofResult {result result' : Except Failure α} {offset offset' : Nat}
    (hresult : result = result') (hoffset : offset' = place offset) (h : alike s s') :
    (ofResult offset result).MirrorsAt place alike stop (ofResult offset' result') s s' := by
  subst hresult hoffset
  cases result with
  | ok a => exact .inr ⟨.value a, h⟩
  | error failure =>
    cases failure with
    | foreign message => exact .inr ⟨.fault (.foreign message) offset, h⟩
    | raised e => exact .inr ⟨.error e, h⟩

theorem Run.mirrorsAt_of_stops (h : (x.run.run s).1 = .error stop) :
    x.MirrorsAt place alike stop y s s' :=
  .inl h

theorem Run.MirrorsAt.bind (hx : x.MirrorsAt place alike stop y s s')
    (hf : ∀ a, (f a).Mirrors place alike stop (g a)) :
    (x >>= f).MirrorsAt place alike stop (y >>= g) s s' := by
  unfold MirrorsAt at hx ⊢
  rw [run_bind, run_bind]
  generalize x.run.run s = p at hx ⊢
  generalize y.run.run s' = q at hx ⊢
  obtain ⟨r, t⟩ := p
  obtain ⟨r', t'⟩ := q
  rcases hx with hstop | ⟨hresult, halike⟩
  · obtain rfl : r = .error stop := hstop
    exact .inl rfl
  · cases hresult with
    | value a => exact hf a t t' halike
    | error e => exact .inr ⟨.error e, halike⟩
    | fault f offset => exact .inr ⟨.fault f offset, halike⟩

theorem Run.Mirrors.bind (hx : x.Mirrors place alike stop y)
    (hf : ∀ a, (f a).Mirrors place alike stop (g a)) :
    (x >>= f).Mirrors place alike stop (y >>= g) :=
  fun s s' h => (hx s s' h).bind hf

theorem Run.Mirrors.bind_pure (hx : x.Mirrors place alike stop y) (k : α → β) :
    (do return k (← x) : Run β).Mirrors place alike stop (do return k (← y)) :=
  hx.bind fun a => mirrors_pure (k a)

/-- Runs that log an event each and go on. The events may differ, and so may their numbers. -/
theorem Run.mirrorsAt_record_bind {event event' : Event} {k k' : Nat → Run α}
    (h : (k s.log.size).MirrorsAt place alike stop (k' s'.log.size) (s.logged event)
      (s'.logged event')) :
    (record event >>= k).MirrorsAt place alike stop (record event' >>= k') s s' := by
  unfold MirrorsAt at h ⊢
  rw [run_bind, run_bind, run_record, run_record]
  exact h

theorem Run.mirrorsAt_get_bind {k k' : State → Run α}
    (h : (k s).MirrorsAt place alike stop (k' s') s s') :
    (get >>= k).MirrorsAt place alike stop (get >>= k') s s' := by
  unfold MirrorsAt at h ⊢
  rw [run_bind, run_bind, run_get, run_get]
  exact h

theorem Run.mirrorsAt_modify_bind {u u' : State → State} {k k' : Unit → Run α}
    (h : (k ()).MirrorsAt place alike stop (k' ()) (u s) (u' s')) :
    (modify u >>= k).MirrorsAt place alike stop (modify u' >>= k') s s' := by
  unfold MirrorsAt at h ⊢
  rw [run_bind, run_bind, run_modify, run_modify]
  exact h

end Runs

/-! ## Names that loops bind -/

/-- The name that a loop with the tokens as its options binds. -/
def Token.loopName? : List Token → Option String
  | [name, keyword, _] => if keyword.isIdentifier "in" then name.name? else none
  | _ => none

/-- The first of three options, if it is an identifier and the second one is `in`: the name that the
command binds if it is a loop, under whatever name a loop is called. -/
def Command.loopName? (c : Command) : Option String :=
  c.options.bind fun g => Token.loopName? g.children

theorem Control.loopName?_of_header? {items : List Operand} {name : String} {iterable : Operand}
    (h : header? items = some (name, iterable)) :
    Token.loopName? (items.map (·.token)) = some name := by
  unfold header? at h
  split at h
  · split at h
    · next hkeyword =>
      obtain ⟨_, hname, he⟩ := Option.map_eq_some_iff.1 h
      cases he
      simp [Token.loopName?, hkeyword, hname]
    · cases h
  · cases h

/-! ## Nodes that are carried over -/

section Carry

variable (place : Nat → Nat)

theorem Text.meaning_carry (t : Text) : (t.carry place id).meaning = t.meaning := by
  simp only [Text.meaning, Text.isProse, Text.carry, map_id_text]
  rfl

variable (char : Char → Char)

theorem Token.span_carry (t : Token) : (t.carry place char).span = t.span.carry place := by
  cases t with
  | group g => cases g; rfl
  | block b => cases b; rfl
  | command c => cases c; rfl
  | _ => rfl

theorem Token.name?_carry (t : Token) : (t.carry place char).name? = t.name? := by
  cases t <;> rfl

theorem Token.symbols?_carry (t : Token) : (t.carry place char).symbols? = t.symbols? := by
  cases t <;> rfl

theorem Token.isOperator_carry (symbols : String) (t : Token) :
    (t.carry place char).isOperator symbols = t.isOperator symbols := by
  rw [isOperator, isOperator, symbols?_carry]

theorem Token.isIdentifier_carry (name : String) (t : Token) :
    (t.carry place char).isIdentifier name = t.isIdentifier name := by
  rw [isIdentifier, isIdentifier, name?_carry]

theorem Command.phrase_carry (c : Command) : (c.carry place id).phrase = c.phrase := by
  obtain ⟨span, phrase, e, options, body⟩ := c
  exact map_id_text phrase

theorem Command.span_carry (c : Command) : (c.carry place char).span = c.span.carry place := by
  cases c
  rfl

theorem Command.options_carry (c : Command) :
    (c.carry place char).options = Group.carryOption place char c.options := by
  cases c
  rfl

theorem Group.span_carry (g : Group) : (g.carry place char).span = g.span.carry place := by
  cases g
  rfl

end Carry

/-! ## Hosts side by side -/

/-- The event with its offset replaced. -/
def Event.carry (place : Nat → Nat) : Event → Event
  | evaluated phrase offset => evaluated phrase (place offset)
  | applied phrase offset => applied phrase (place offset)
  | entered phrase offset => entered phrase (place offset)

/-- What the nodes ask of the hosts comes out the same in states that are alike, and leaves them
alike; so does what is logged, and what their loops bind. But an evaluator and a function that gets
the environment may stop the run under the first host, and a direct callable does. -/
structure Host.Mirrors (host host' : Host) (nodes : List Token) (place : Nat → Nat)
    (alike : State → State → Prop) (stop : Error) : Prop where
  logged {s s' : State} (event : Event) (h : alike s s') :
    alike (s.logged event) (s'.logged (event.carry place))
  evaluator {s s' : State} (h : alike s s') :
    s.env.get? Environment.evaluatorKey = s'.env.get? Environment.evaluatorKey
  evaluate {s s' : State} {node : Token} {phrase : String} {callable : Handle EvaluatorCode}
    (mem : node ∈ nodes) (hphrase : node.phrase? = some phrase)
    (hbound : s.env.get? Environment.evaluatorKey = some (.evaluator callable))
    (h : alike s s') :
    host.evaluatePhrase callable s.log.size phrase s.env = .error (.raised stop) ∨
      host.evaluatePhrase callable s.log.size phrase s.env =
        host'.evaluatePhrase callable s'.log.size phrase s'.env
  bindName {s s' : State} {c : Command} {name : String} (mem : .command c ∈ nodes)
    (hname : c.loopName? = some name) (v : Value) (h : alike s s') :
    alike { s with env := s.env.insert name v } { s' with env := s'.env.insert name v }
  apply {s s' : State} (code : String) (args : Arguments) (h : alike s s') :
    host.apply code s.log.size args = host'.apply code s'.log.size args
  applyInEnv {s s' : State} (code : String) (args : Arguments) (h : alike s s') :
    (host.applyInEnv code s.log.size s.env args).1 = .error (.raised stop) ∨
      (host.applyInEnv code s.log.size s.env args).1 =
          (host'.applyInEnv code s'.log.size s'.env args).1 ∧
        alike { s with env := (host.applyInEnv code s.log.size s.env args).2 }
          { s' with env := (host'.applyInEnv code s'.log.size s'.env args).2 }
  direct (code : String) (call : Call) : host.direct code call = throw (.raised stop)

section Calls

variable {host host' : Host} {nodes : List Token} {place : Nat → Nat}
  {alike : State → State → Prop} {stop : Error}

theorem Host.Mirrors.phrase (hhost : host.Mirrors host' nodes place alike stop) {node : Token}
    {phrase : String} (hnode : node ∈ nodes) (hphrase : node.phrase? = some phrase) (offset : Nat) :
    (host.phrase phrase offset).Mirrors place alike stop (host'.phrase phrase (place offset)) := by
  intro s s' h
  have hlogged := hhost.logged (.evaluated phrase offset) h
  refine mirrorsAt_record_bind (mirrorsAt_get_bind ?_)
  dsimp only [State.logged]
  rw [← hhost.evaluator h]
  cases hbound : s.env.get? Environment.evaluatorKey with
  | none =>
    dsimp only
    split
    · exact mirrors_pure _ _ _ hlogged
    · exact mirrors_fail _ _ _ _ hlogged
  | some v =>
    cases v with
    | evaluator callable =>
      dsimp only
      rcases hhost.evaluate hnode hphrase hbound h with hstop | hresult
      · rw [hstop]
        exact mirrorsAt_of_stops rfl
      · exact mirrorsAt_ofResult hresult rfl hlogged
    | _ => exact mirrors_fail _ _ _ _ hlogged

/-! ## Control commands -/

variable (nodes place alike stop) in
/-- The second operand is the first one carried over, a node, and its value mirrors that of it. -/
structure Operand.Mirrors (item item' : Operand) : Prop where
  mem : item.token ∈ nodes
  token : item'.token = item.token.carry place id
  value : item.value.Mirrors place alike stop item'.value

variable (nodes place alike stop) in
/-- The second call is of the command of the first one carried over, and its parts mirror those. -/
structure Call.Mirrors (call call' : Call) : Prop where
  command : call'.command = call.command.carry place id
  mem : .command call.command ∈ nodes
  operands : List.Forall₂ (Operand.Mirrors nodes place alike stop) call.operands call'.operands
  loopName {name : String} {iterable : Operand}
    (hheader : Control.header? call.operands = some (name, iterable)) :
    call.command.loopName? = some name
  body : Option.Rel (Run.Mirrors place alike stop) call.body call'.body
  evaluate {node : Token} {phrase : String} (mem : node ∈ nodes)
    (hphrase : node.phrase? = some phrase) (offset : Nat) :
    (call.evaluate phrase offset).Mirrors place alike stop (call'.evaluate phrase (place offset))

namespace Operand.Mirrors

variable {item item' next next' : Operand} (h : item.Mirrors nodes place alike stop item')

include h

theorem isOperator (symbols : String) : item'.isOperator symbols = item.isOperator symbols := by
  rw [Operand.isOperator, Operand.isOperator, h.token, Token.isOperator_carry]

theorem isIdentifier (name : String) :
    item'.token.isIdentifier name = item.token.isIdentifier name := by
  rw [h.token, Token.isIdentifier_carry]

theorem name?_eq : item'.token.name? = item.token.name? := by
  rw [h.token, Token.name?_carry]

theorem start_eq : item'.token.span.start = place item.token.span.start := by
  rw [h.token, Token.span_carry]
  rfl

theorem keyword?_eq (hnext : next.Mirrors nodes place alike stop next') :
    item'.keyword? next' = item.keyword? next := by
  rw [keyword?, keyword?, hnext.isOperator, h.name?_eq]

end Operand.Mirrors

namespace Control

variable {items items' : List Operand}
  (h : List.Forall₂ (Operand.Mirrors nodes place alike stop) items items')

include h

theorem condition?_mirrors :
    condition? items = none ∧ condition? items' = none ∨
      ∃ negated cond cond', condition? items = some (negated, cond) ∧
        condition? items' = some (negated, cond') ∧ cond.Mirrors nodes place alike stop cond' := by
  match items, items', h with
  | [], [], .nil => exact .inl ⟨rfl, rfl⟩
  | [cond], [cond'], .cons hcond .nil => exact .inr ⟨false, cond, cond', rfl, rfl, hcond⟩
  | [negation, cond], [negation', cond'], .cons hnegation (.cons hcond .nil) =>
    simp only [condition?, hnegation.isIdentifier]
    split
    · exact .inr ⟨true, cond, cond', rfl, rfl, hcond⟩
    · exact .inl ⟨rfl, rfl⟩
  | _ :: _ :: _ :: _, _ :: _ :: _ :: _, .cons _ (.cons _ (.cons _ _)) => exact .inl ⟨rfl, rfl⟩

theorem header?_mirrors :
    header? items = none ∧ header? items' = none ∨
      ∃ name iterable iterable', header? items = some (name, iterable) ∧
        header? items' = some (name, iterable') ∧
        iterable.Mirrors nodes place alike stop iterable' := by
  match items, items', h with
  | [], [], .nil => exact .inl ⟨rfl, rfl⟩
  | [_], [_], .cons _ .nil => exact .inl ⟨rfl, rfl⟩
  | [_, _], [_, _], .cons _ (.cons _ .nil) => exact .inl ⟨rfl, rfl⟩
  | [name, keyword, iterable], [name', keyword', iterable'],
      .cons hname (.cons hkeyword (.cons hiterable .nil)) =>
    simp only [header?, hkeyword.isIdentifier, hname.name?_eq]
    split
    · cases name.token.name? with
      | none => exact .inl ⟨rfl, rfl⟩
      | some n => exact .inr ⟨n, iterable, iterable', rfl, rfl, hiterable⟩
    · exact .inl ⟨rfl, rfl⟩
  | _ :: _ :: _ :: _ :: _, _ :: _ :: _ :: _ :: _, .cons _ (.cons _ (.cons _ (.cons _ _))) =>
    exact .inl ⟨rfl, rfl⟩

end Control

namespace Call.Mirrors

variable {call call' : Call} (h : call.Mirrors nodes place alike stop call')

include h

theorem start_eq : call'.start = place call.start := by
  rw [Call.start, Call.start, h.command, Command.span_carry]
  rfl

theorem phrase_eq : call'.command.phrase = call.command.phrase := by
  rw [h.command, Command.phrase_carry]

theorem isBare_eq : call'.command.isBare = call.command.isBare := by
  rw [h.command, Command.isBare_carry]

theorem operandValue {item item' : Operand} (hitem : item.Mirrors nodes place alike stop item') :
    (call.operandValue item).Mirrors place alike stop (call'.operandValue item') := by
  obtain ⟨token, value⟩ := item
  obtain ⟨token', value'⟩ := item'
  obtain rfl : token' = token.carry place id := hitem.token
  cases token with
  | identifier span name => exact h.evaluate hitem.mem rfl span.start
  | _ => exact hitem.value

theorem parts_bind {α : Type} {f f' : Nat × Run Value → Run α} (name : String)
    (usage : RenderFault)
    (hf : ∀ start, ∀ body ∈ call.body, ∀ body' ∈ call'.body, body.Mirrors place alike stop body' →
      (f (start, body)).Mirrors place alike stop (f' (place start, body'))) :
    (call.parts name usage >>= f).Mirrors place alike stop (call'.parts name usage >>= f') := by
  have hfail : ∀ fault : RenderFault,
      (fail fault call.start >>= f).Mirrors place alike stop (fail fault call'.start >>= f') := by
    intro fault s s' hs
    rw [h.start_eq]
    exact mirrors_fail fault call.start s s' hs
  have hbody := h.body
  unfold Call.parts
  rw [h.command, Command.options_carry]
  cases call.command.options with
  | none => exact hfail usage
  | some g =>
    generalize hb : call.body = body at hbody ⊢
    generalize hb' : call'.body = body' at hbody ⊢
    cases hbody with
    | none => exact hfail (.bodyExpected name)
    | some hbody =>
      rw [Group.carryOption]
      dsimp only
      rw [pure_bind, pure_bind, Group.span_carry]
      exact hf _ _ hb _ hb' hbody

theorem conditional :
    (Control.conditional call).Mirrors place alike stop (Control.conditional call') := by
  refine h.parts_bind "if" .conditionUsage fun start body _ body' _ hbody => ?_
  dsimp only
  rcases Control.condition?_mirrors h.operands with
    ⟨hnone, hnone'⟩ | ⟨negated, cond, cond', hsome, hsome', hcond⟩
  · rw [hnone, hnone']
    exact mirrors_fail _ _
  · rw [hsome, hsome']
    refine (h.operandValue hcond).bind fun v => ?_
    split
    · exact hbody
    · exact mirrors_pure _

theorem iterate {body body' : Run Value} (hbody : body.Mirrors place alike stop body')
    (hhost : host.Mirrors host' nodes place alike stop) {name : String}
    (hname : call.command.loopName? = some name)
    (items : List Value) : (Control.iterate name body items).Mirrors place alike stop
      (Control.iterate name body' items) := by
  induction items with
  | nil => exact mirrors_pure _
  | cons item rest ih =>
    have hbind : (bindName name item).Mirrors place alike stop (bindName name item) :=
      fun s s' hs => .inr ⟨.value (), hhost.bindName h.mem hname item hs⟩
    exact hbind.bind fun _ => hbody.bind fun v => ih.bind_pure (v :: ·)

theorem loop (hhost : host.Mirrors host' nodes place alike stop) :
    (Control.loop call).Mirrors place alike stop (Control.loop call') := by
  refine h.parts_bind "for" .loopUsage fun start body _ body' _ hbody => ?_
  dsimp only
  rcases Control.header?_mirrors h.operands with
    ⟨hnone, hnone'⟩ | ⟨name, iterable, iterable', hsome, hsome', hiterable⟩
  · rw [hnone, hnone']
    exact mirrors_fail _ _
  · rw [hsome, hsome']
    refine (h.operandValue hiterable).bind fun v => ?_
    cases Control.items? v with
    | none =>
      rw [hiterable.start_eq]
      exact mirrors_fail _ _
    | some items => exact (h.iterate hbody hhost (h.loopName hsome) items).bind_pure Value.fragments

end Call.Mirrors

/-! ## Arguments -/

theorem Operand.Mirrors.positional {item item' : Operand}
    (h : item.Mirrors nodes place alike stop item') (groupStart : Nat) (inKeywords : Bool) :
    (item.positional groupStart inKeywords).Mirrors place alike stop
      (item'.positional (place groupStart) inKeywords) := by
  unfold Operand.positional
  rw [h.isOperator, Operand.start, Operand.start, h.start_eq]
  split
  · exact mirrors_fail _ _
  · split
    · exact mirrors_fail _ _
    · exact h.value

mutual

theorem Arguments.collect_mirrors (groupStart : Nat) : ∀ (items items' : List Operand)
    (inKeywords : Bool) (args : Arguments),
      List.Forall₂ (Operand.Mirrors nodes place alike stop) items items' →
        (collect groupStart inKeywords args items).Mirrors place alike stop
          (collect (place groupStart) inKeywords args items')
  | [], [], _, args, _ => mirrors_pure args
  | [item], [item'], inKeywords, args, .cons hitem .nil =>
    (hitem.positional groupStart inKeywords).bind_pure args.addPositional
  | item :: next :: rest, item' :: next' :: rest', inKeywords, args,
      .cons hitem (.cons hnext hrest) => by
    rw [collect, collect, hitem.keyword?_eq hnext]
    cases item.keyword? next with
    | none =>
      refine (hitem.positional groupStart inKeywords).bind fun v => ?_
      exact separated_mirrors groupStart _ _ inKeywords (args.addPositional v) (.cons hnext hrest)
    | some name =>
      simp only [Operand.start, hnext.start_eq, hitem.start_eq]
      match rest, rest', hrest with
      | [], [], .nil => exact mirrors_fail _ _
      | value :: after, value' :: after', .cons hvalue hafter =>
        dsimp only
        rw [hvalue.isOperator]
        split
        · exact mirrors_fail _ _
        · split
          · exact mirrors_fail _ _
          · refine hvalue.value.bind fun v => ?_
            exact separated_mirrors groupStart after after' true (args.addKeyword name v) hafter

theorem Arguments.separated_mirrors (groupStart : Nat) : ∀ (items items' : List Operand)
    (inKeywords : Bool) (args : Arguments),
      List.Forall₂ (Operand.Mirrors nodes place alike stop) items items' →
        (separated groupStart inKeywords args items).Mirrors place alike stop
          (separated (place groupStart) inKeywords args items')
  | [], [], _, args, _ => mirrors_pure args
  | item :: rest, item' :: rest', inKeywords, args, .cons hitem hrest => by
    rw [separated, separated, hitem.isOperator]
    split
    · exact collect_mirrors groupStart rest rest' inKeywords args hrest
    · rw [Operand.start, Operand.start, hitem.start_eq]
      exact mirrors_fail _ _

end

theorem Call.Mirrors.arguments {call call' : Call} (h : call.Mirrors nodes place alike stop call') :
    call.arguments.Mirrors place alike stop call'.arguments := by
  have hbody := h.body
  have hcollect (g : Group) (args : Arguments) :
      (Arguments.collect g.span.start false args call.operands).Mirrors place alike stop
        (Arguments.collect (g.carry place id).span.start false args call'.operands) := by
    rw [Group.span_carry]
    exact Arguments.collect_mirrors _ _ _ false args h.operands
  unfold Call.arguments
  rw [h.command, Command.options_carry]
  generalize call.body = body at hbody ⊢
  generalize call'.body = body' at hbody ⊢
  cases call.command.options with
  | none =>
    cases hbody with
    | none => exact (mirrors_pure _).bind mirrors_pure
    | some hbody => exact hbody.bind fun v => (mirrors_pure _).bind mirrors_pure
  | some g =>
    cases hbody with
    | none => exact (mirrors_pure _).bind (hcollect g)
    | some hbody => exact hbody.bind fun v => (mirrors_pure _).bind (hcollect g)

/-! ## Calls -/

namespace Host.Mirrors

variable (hhost : host.Mirrors host' nodes place alike stop)

include hhost

theorem callThrough {call call' : Call} (h : call.Mirrors nodes place alike stop call')
    (w : Wrapper) :
    (host.callThrough call w).Mirrors place alike stop (host'.callThrough call' w) := by
  unfold Host.callThrough
  rw [h.phrase_eq, h.start_eq]
  cases w with
  | direct callable =>
    intro s s' hs
    refine mirrorsAt_record_bind ?_
    have hlogged := hhost.logged (.entered call.command.phrase call.start) hs
    cases callable.code with
    | conditional => exact h.conditional _ _ hlogged
    | loop => exact h.loop hhost _ _ hlogged
    | host code =>
      dsimp only
      rw [hhost.direct]
      exact mirrorsAt_of_stops rfl
  | normal callable =>
    refine h.arguments.bind fun args s s' hs => mirrorsAt_record_bind ?_
    exact mirrorsAt_ofResult (hhost.apply callable.code args hs) rfl (hhost.logged _ hs)
  | normalWithEnv callable =>
    refine h.arguments.bind fun args s s' hs => ?_
    refine mirrorsAt_record_bind (mirrorsAt_get_bind (mirrorsAt_modify_bind ?_))
    rcases hhost.applyInEnv callable.code args hs with hstop | ⟨hresult, henv⟩
    · refine mirrorsAt_of_stops ?_
      rw [run_ofResult]
      exact congrArg (Except.mapError _) hstop
    · exact mirrorsAt_ofResult hresult rfl (hhost.logged _ henv)

theorem call {call call' : Call} (h : call.Mirrors nodes place alike stop call') :
    (host.call call).Mirrors place alike stop (host'.call call') := by
  have hphrase := hhost.phrase h.mem rfl call.start
  unfold Host.call
  rw [h.phrase_eq, h.start_eq, h.isBare_eq]
  refine hphrase.bind fun v => ?_
  split
  · exact mirrors_pure _
  · cases v with
    | wrapper w => exact hhost.callThrough h w
    | function callable => exact hhost.callThrough h (.normal callable)
    | _ => exact mirrors_fail _ _

end Host.Mirrors

/-! ## Trees -/

/-- The loop of a command binds the name that its options say. -/
theorem Command.loopName?_of_header? {c : Command} {name : String} {iterable : Operand}
    (h : Control.header? (c.call host).operands = some (name, iterable)) :
    c.loopName? = some name := by
  have hname := Control.loopName?_of_header? h
  obtain ⟨span, phrase, e, options, body⟩ := c
  cases options with
  | none => cases h
  | some g =>
    obtain ⟨gspan, children⟩ := g
    rw [Command.call, Group.optionOperands, Group.operands, Token.map_token_operands] at hname
    exact hname

theorem Command.call_mirrors {c : Command} (hc : c.nodes ⊆ nodes)
    (hoperands : List.Forall₂ (Operand.Mirrors nodes place alike stop)
      (Group.optionOperands host c.options)
      (Group.optionOperands host' (Group.carryOption place id c.options)))
    (hbody : Option.Rel (Run.Mirrors place alike stop) (Body.optionMeaning host c.body)
      (Body.optionMeaning host' (Body.carryOption place id c.body)))
    (hhost : host.Mirrors host' nodes place alike stop) :
    (c.call host).Mirrors nodes place alike stop ((c.carry place id).call host') where
  command := rfl
  mem := hc (Token.mem_nodes_self (.command c))
  operands := by
    rw [Command.call, Command.call, Command.options_carry]
    exact hoperands
  loopName := Command.loopName?_of_header?
  body := by
    obtain ⟨span, phrase, e, options, body⟩ := c
    exact hbody
  evaluate mem hphrase offset := hhost.phrase mem hphrase offset

section Trees

mutual

theorem Fragment.meaning_mirrors (hhost : host.Mirrors host' nodes place alike stop) :
    ∀ f : Fragment, f.nodes ⊆ nodes →
      (f.meaning host).Mirrors place alike stop ((f.carry place id).meaning host')
  | .text t, _ => by
    rw [Fragment.carry, Fragment.meaning, Fragment.meaning, t.meaning_carry]
    exact mirrors_pure _
  | .command c, h => Command.meaning_mirrors hhost c h
  | .block b, h => (Block.meaning_mirrors hhost b h).bind_pure Value.fragments

/-- What a tree means under one host is mirrored by what it means under the other, wherever it
stands. -/
theorem Block.meaning_mirrors (hhost : host.Mirrors host' nodes place alike stop) : ∀ b : Block,
    b.nodes ⊆ nodes → (b.meaning host).Mirrors place alike stop ((b.carry place id).meaning host')
  | ⟨_, children, _⟩, h => Fragment.meanings_mirror hhost children (List.cons_subset.1 h).2

theorem Fragment.meanings_mirror (hhost : host.Mirrors host' nodes place alike stop) :
    ∀ fs : List Fragment, Fragment.allNodes fs ⊆ nodes →
      (Fragment.meanings host fs).Mirrors place alike stop
        (Fragment.meanings host' (Fragment.carryAll place id fs))
  | [], _ => mirrors_pure _
  | f :: fs, h => by
    obtain ⟨hf, hfs⟩ := List.append_subset.1 h
    refine (Fragment.meaning_mirrors hhost f hf).bind fun v => ?_
    exact (Fragment.meanings_mirror hhost fs hfs).bind_pure _

theorem Command.meaning_mirrors (hhost : host.Mirrors host' nodes place alike stop) : ∀ c : Command,
    c.nodes ⊆ nodes → (c.meaning host).Mirrors place alike stop ((c.carry place id).meaning host')
  | ⟨span, phrase, e, options, body⟩, h => by
    obtain ⟨-, hparts⟩ := List.cons_subset.1 h
    obtain ⟨ho, hb⟩ := List.append_subset.1 hparts
    rw [Command.meaning_eq_call, Command.meaning_eq_call]
    exact hhost.call (Command.call_mirrors h (Group.operands_mirror hhost options ho)
      (Body.optionMeaning_mirrors hhost body hb) hhost)

theorem Group.operands_mirror (hhost : host.Mirrors host' nodes place alike stop) :
    ∀ o : Option Group, Group.optionNodes o ⊆ nodes →
      List.Forall₂ (Operand.Mirrors nodes place alike stop) (Group.optionOperands host o)
        (Group.optionOperands host' (Group.carryOption place id o))
  | none, _ => .nil
  | some ⟨_, children⟩, h => Token.operands_mirror hhost children (List.cons_subset.1 h).2

theorem Body.optionMeaning_mirrors (hhost : host.Mirrors host' nodes place alike stop) :
    ∀ o : Option Body, Body.optionNodes o ⊆ nodes →
      Option.Rel (Run.Mirrors place alike stop) (Body.optionMeaning host o)
        (Body.optionMeaning host' (Body.carryOption place id o))
  | none, _ => .none
  | some (.block b), h => .some ((Block.meaning_mirrors hhost b h).bind_pure Value.fragments)
  | some (.text t), _ => by
    refine .some ?_
    rw [t.meaning_carry]
    exact mirrors_pure _

theorem Token.operands_mirror (hhost : host.Mirrors host' nodes place alike stop) :
    ∀ ts : List Token, Token.allNodes ts ⊆ nodes →
      List.Forall₂ (Operand.Mirrors nodes place alike stop) (Token.operands host ts)
        (Token.operands host' (Token.carryAll place id ts))
  | [], _ => .nil
  | t :: ts, h => by
    obtain ⟨ht, hts⟩ := List.append_subset.1 h
    exact .cons ⟨ht t.mem_nodes_self, rfl, Token.meaning_mirrors hhost t ht⟩
      (Token.operands_mirror hhost ts hts)

theorem Token.meaning_mirrors (hhost : host.Mirrors host' nodes place alike stop) : ∀ t : Token,
    t.nodes ⊆ nodes → (t.meaning host).Mirrors place alike stop ((t.carry place id).meaning host')
  | .identifier span name, _ => mirrors_fail (.identifierNotExpected name) span.start
  | .operator span symbols, _ => mirrors_fail (.operatorNotExpected symbols) span.start
  | .number _ _, _ => mirrors_pure _
  | .group g, _ => by
    rw [Token.carry, Token.meaning, Token.meaning, Group.span_carry]
    exact mirrors_fail .groupNotExpected g.span.start
  | .block b, h => (Block.meaning_mirrors hhost b h).bind_pure Value.fragments
  | .text t, _ => by
    rw [Token.carry, Token.meaning, Token.meaning, t.meaning_carry]
    exact mirrors_pure _
  | .command c, h => Command.meaning_mirrors hhost c h

end

end Trees

end Calls

end Prosemark
