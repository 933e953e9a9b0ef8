import Prosemark.Proofs.Run

/-!
# What a run does, and in which order

When everything that a document calls gets arguments, the document alone says what is done with it:
the schedule lists the phrases that are evaluated and the callables that are applied, in order. A
run logs the events of the schedule, all of them if it succeeds and the first ones if it fails
(`Block.meaning_follows`). A direct callable may take the parts of its command in any order and any
number of times, so nothing is said of runs that enter one.

The body of a command comes before its options, although it stands after them.
-/

namespace Prosemark

open Run

/-! ## Schedules -/

mutual

/-- What is done with a fragment, in order. -/
def Fragment.schedule : Fragment → List Event
  | .text _ => []
  | .command c => c.schedule
  | .block b => b.schedule

def Block.schedule : Block → List Event
  | ⟨_, children, _⟩ => Fragment.schedules children

/-- What is done with some fragments, from left to right. -/
def Fragment.schedules : List Fragment → List Event
  | [] => []
  | f :: fs => f.schedule ++ Fragment.schedules fs

/-- The phrase of a command is evaluated first. Unless the command is bare, its body and its options
follow, and its callable comes last. -/
def Command.schedule : Command → List Event
  | ⟨span, phrase, _, options, body⟩ =>
    .evaluated phrase span.start ::
      if options.isNone && body.isNone then []
      else Body.optionSchedule body ++ Group.optionSchedule options ++ [.applied phrase span.start]

/-- What is done with the options of a command, if it has any. -/
def Group.optionSchedule : Option Group → List Event
  | none => []
  | some g => g.schedule

/-- What is done with the body of a command, if it has one. -/
def Body.optionSchedule : Option Body → List Event
  | none => []
  | some body => body.schedule

def Body.schedule : Body → List Event
  | .block b => b.schedule
  | .text _ => []

/-- What is done with the tokens of a group when it is the options of a command. -/
def Group.schedule : Group → List Event
  | ⟨_, children⟩ => Token.schedules children

/-- What is done with some tokens, from left to right. -/
def Token.schedules : List Token → List Event
  | [] => []
  | t :: ts => t.schedule ++ Token.schedules ts

/-- A group among tokens means nothing by itself, and no run goes on after it. -/
def Token.schedule : Token → List Event
  | .identifier _ _ => []
  | .operator _ _ => []
  | .number _ _ => []
  | .group g => g.schedule
  | .block b => b.schedule
  | .text _ => []
  | .command c => c.schedule

end

theorem Command.schedule_eq (c : Command) :
    c.schedule = .evaluated c.phrase c.span.start ::
      if c.isBare then []
      else Body.optionSchedule c.body ++ Group.optionSchedule c.options ++
        [.applied c.phrase c.span.start] := by
  obtain ⟨span, phrase, e, options, body⟩ := c
  rw [schedule, isBare]

theorem Token.schedule_of_isOperator {t : Token} {symbols : String}
    (h : t.isOperator symbols = true) : t.schedule = [] := by
  cases t with
  | operator span s => rw [schedule]
  | _ => simp [isOperator, symbols?] at h

theorem Token.schedule_of_name? {t : Token} {name : String} (h : t.name? = some name) :
    t.schedule = [] := by
  cases t with
  | identifier span s => rw [schedule]
  | _ => simp [name?] at h

/-! ## Direct callables -/

/-- The parts of the call only add to the log. -/
structure Call.Extends (call : Call) : Prop where
  operands : ∀ item ∈ call.operands, item.value.Extends
  body : ∀ body ∈ call.body, body.Extends
  evaluate (phrase : String) (offset : Nat) : (call.evaluate phrase offset).Extends

/-- The direct callables of the host do no more to the log than to run the parts they are given. -/
def Host.Extends (host : Host) : Prop :=
  ∀ code call, call.Extends →
    ∀ s, s.log.toList <+: ((host.direct code call).run.run s).2.log.toList

theorem Control.condition?_mem {items : List Operand} {negated : Bool} {cond : Operand}
    (h : condition? items = some (negated, cond)) : cond ∈ items := by
  unfold condition? at h
  split at h
  · cases h
    exact List.mem_cons_self
  · split at h
    · cases h
      simp
    · cases h
  · cases h

theorem Control.header?_mem {items : List Operand} {name : String} {iterable : Operand}
    (h : header? items = some (name, iterable)) : iterable ∈ items := by
  unfold header? at h
  split at h
  · split at h
    · obtain ⟨_, -, he⟩ := Option.map_eq_some_iff.1 h
      cases he
      simp
    · cases h
  · cases h

/-- A control command fails or goes on with the parts that it needs. -/
theorem Call.parts_bind_extends {α : Type} {call : Call} {f : Nat × Run Value → Run α}
    (name : String) (usage : RenderFault)
    (hf : ∀ n, ∀ body ∈ call.body, (f (n, body)).Extends) :
    (call.parts name usage >>= f).Extends := by
  unfold Call.parts
  split
  · exact (follows_fail _ _ []).extends
  · exact (follows_fail _ _ []).extends
  · next options body _ hbody =>
    rw [pure_bind]
    exact hf _ _ hbody

theorem Control.iterate_extends {body : Run Value} (hbody : body.Extends) (name : String)
    (items : List Value) : (iterate name body items).Extends := by
  induction items with
  | nil => exact (follows_pure _).extends
  | cons item rest ih =>
    refine Extends.bind (fun _ => List.prefix_rfl) fun _ => ?_
    exact hbody.bind fun v => ih.bind fun vs => (follows_pure _).extends

namespace Call.Extends

variable {call : Call} (h : call.Extends)

include h

theorem operandValue {item : Operand} (hitem : item ∈ call.operands) :
    (call.operandValue item).Extends := by
  unfold Call.operandValue
  split
  · exact h.evaluate _ _
  · exact h.operands item hitem

theorem conditional : (Control.conditional call).Extends := by
  apply Call.parts_bind_extends
  intro n body hbody
  dsimp only
  split
  · exact (follows_fail _ _ []).extends
  · next negated cond hcond =>
    refine (h.operandValue (Control.condition?_mem hcond)).bind fun v => ?_
    split
    · exact h.body body hbody
    · exact (follows_pure _).extends

theorem loop : (Control.loop call).Extends := by
  apply Call.parts_bind_extends
  intro n body hbody
  dsimp only
  split
  · exact (follows_fail _ _ []).extends
  · next name iterable hheader =>
    refine (h.operandValue (Control.header?_mem hheader)).bind fun v => ?_
    split
    · exact (follows_fail _ _ []).extends
    · next items _ =>
      exact (Control.iterate_extends (h.body body hbody) name items).bind fun vs =>
        (follows_pure _).extends

end Call.Extends

/-! ## Arguments -/

theorem Operand.positional_follows {item : Operand} (h : item.value.Follows item.token.schedule)
    (groupStart : Nat) (inKeywords : Bool) :
    (item.positional groupStart inKeywords).Follows item.token.schedule := by
  unfold positional
  split
  · exact follows_fail _ _ _
  · split
    · exact follows_fail _ _ _
    · exact h

theorem Operand.keyword?_eq_some_iff {item next : Operand} {name : String} :
    item.keyword? next = some name ↔
      next.token.isOperator "=" = true ∧ item.token.name? = some name := by
  rw [keyword?, isOperator, Option.ite_none_right_eq_some]

theorem Operand.schedule_of_keyword? {item next : Operand} {name : String}
    (h : item.keyword? next = some name) :
    item.token.schedule = [] ∧ next.token.schedule = [] := by
  obtain ⟨hnext, hitem⟩ := keyword?_eq_some_iff.1 h
  exact ⟨Token.schedule_of_name? hitem, Token.schedule_of_isOperator hnext⟩

mutual

/-- Options are interpreted in order; names, equals signs and commas do nothing. -/
theorem Arguments.collect_follows (groupStart : Nat) : ∀ (items : List Operand) (inKeywords : Bool)
    (args : Arguments), (∀ item ∈ items, item.value.Follows item.token.schedule) →
      (collect groupStart inKeywords args items).Follows (Token.schedules (items.map (·.token)))
  | [], inKeywords, args, _ => follows_pure args
  | [item], inKeywords, args, h => by
    have hitem := List.forall_mem_singleton.1 h
    have hv := (item.positional_follows hitem groupStart inKeywords).bind fun v =>
      follows_pure (args.addPositional v)
    exact hv
  | item :: next :: rest, inKeywords, args, h => by
    obtain ⟨hitem, htail⟩ := List.forall_mem_cons.1 h
    rw [collect]
    split
    · exact (item.positional_follows hitem groupStart inKeywords).bind fun v =>
        separated_follows groupStart (next :: rest) inKeywords _ htail
    · next name hname =>
      obtain ⟨hi, hn⟩ := Operand.schedule_of_keyword? hname
      split
      · exact follows_fail _ _ _
      · next value afterValue =>
        split
        · exact follows_fail _ _ _
        · split
          · exact follows_fail _ _ _
          · obtain ⟨-, hvalue, hafter⟩ := List.forall_mem_cons.1 htail |>.imp_right
              List.forall_mem_cons.1
            simp only [List.map_cons, Token.schedules, hi, hn, List.nil_append]
            exact hvalue.bind fun v => separated_follows groupStart afterValue true _ hafter

theorem Arguments.separated_follows (groupStart : Nat) : ∀ (items : List Operand)
    (inKeywords : Bool) (args : Arguments),
      (∀ item ∈ items, item.value.Follows item.token.schedule) →
        (separated groupStart inKeywords args items).Follows
          (Token.schedules (items.map (·.token)))
  | [], inKeywords, args, _ => follows_pure args
  | item :: rest, inKeywords, args, h => by
    rw [separated]
    split
    · next hcomma =>
      have hi : item.token.schedule = [] := Token.schedule_of_isOperator hcomma
      simp only [List.map_cons, Token.schedules, hi, List.nil_append]
      exact collect_follows groupStart rest inKeywords args (List.forall_mem_cons.1 h).2
    · exact follows_fail _ _ _

end

/-! ## Calls -/

/-- The parts of the call follow the schedules of the parts of its command. -/
structure Call.Follows (call : Call) : Prop where
  operands : ∀ item ∈ call.operands, item.value.Follows item.token.schedule
  options (g : Group) (h : call.command.options = some g) :
    g.schedule = Token.schedules (call.operands.map (·.token))
  body : ∀ body ∈ call.body, body.Follows (Body.optionSchedule call.command.body)
  bodiless : call.body = none → Body.optionSchedule call.command.body = []
  evaluate (phrase : String) (offset : Nat) : (call.evaluate phrase offset).Extends

theorem Call.Follows.extends {call : Call} (h : call.Follows) : call.Extends where
  operands item hitem := (h.operands item hitem).extends
  body body hbody := (h.body body hbody).extends
  evaluate := h.evaluate

/-- The body is interpreted before the options. -/
theorem Call.Follows.arguments {call : Call} (h : call.Follows) : call.arguments.Follows
    (Body.optionSchedule call.command.body ++ Group.optionSchedule call.command.options) := by
  unfold Call.arguments
  cases ho : call.command.options with
  | none =>
    rw [Group.optionSchedule, List.append_nil]
    cases hb : call.body with
    | none =>
      rw [h.bodiless hb]
      exact follows_pure _
    | some body => exact (h.body body hb).bind_nil fun v => follows_pure _
  | some g =>
    have hcollect : ∀ args, (Arguments.collect g.span.start false args call.operands).Follows
        (Group.optionSchedule (some g)) := by
      intro args
      rw [Group.optionSchedule, h.options g ho]
      exact Arguments.collect_follows _ _ _ _ h.operands
    cases hb : call.body with
    | none =>
      rw [h.bodiless hb]
      exact Follows.nil_bind (follows_pure _) hcollect
    | some body => exact (h.body body hb).bind fun v => Follows.nil_bind (follows_pure _) hcollect

namespace Host

variable {host : Host} {call : Call}

theorem phrase_follows (host : Host) (phrase : String) (offset : Nat) :
    (host.phrase phrase offset).Follows [.evaluated phrase offset] := by
  refine (follows_record _).bind_nil fun number => ?_
  refine Follows.nil_bind (follows_nil fun _ => rfl) fun s => ?_
  dsimp only
  split
  · exact follows_ofResult _ _
  · exact follows_fail _ _ _
  · split
    · exact follows_pure _
    · exact follows_fail _ _ _

theorem callThrough_follows (hhost : host.Extends) (h : call.Follows) (w : Wrapper) :
    (host.callThrough call w).Follows
      (Body.optionSchedule call.command.body ++ Group.optionSchedule call.command.options ++
        [.applied call.command.phrase call.start]) := by
  cases w with
  | direct callable =>
    refine follows_of_entered (fun number => ?_) _
    split
    · exact h.extends.conditional
    · exact h.extends.loop
    · next code _ => exact hhost code call h.extends
  | normal callable =>
    refine h.arguments.bind fun args => ?_
    exact (follows_record _).bind_nil fun number => follows_ofResult _ _
  | normalWithEnv callable =>
    refine h.arguments.bind fun args => (follows_record _).bind_nil fun number => ?_
    refine Follows.nil_bind (follows_nil fun _ => rfl) fun s => ?_
    exact Follows.nil_bind (follows_nil fun _ => rfl) fun _ => follows_ofResult _ _

theorem call_follows (hhost : host.Extends) (h : call.Follows) :
    (host.call call).Follows call.command.schedule := by
  rw [Command.schedule_eq]
  refine (host.phrase_follows _ _).bind fun v => ?_
  cases hbare : call.command.isBare with
  | true => exact follows_pure _
  | false =>
    simp only [Bool.false_eq_true, if_false]
    split
    · exact callThrough_follows hhost h _
    · exact callThrough_follows hhost h _
    · exact follows_fail _ _ _

end Host

/-! ## Trees -/

theorem Token.map_token_operands (host : Host) (ts : List Token) :
    (Token.operands host ts).map (·.token) = ts := by
  induction ts with
  | nil => rfl
  | cons t ts ih => rw [Token.operands, List.map_cons, ih]

section Trees

variable {host : Host}

mutual

theorem Fragment.meaning_follows (hhost : host.Extends) :
    ∀ f : Fragment, (f.meaning host).Follows f.schedule
  | .text _ => follows_pure _
  | .command c => Command.meaning_follows hhost c
  | .block b => (Block.meaning_follows hhost b).bind_nil fun _ => follows_pure _

/-- What a tree means is found by following its schedule. -/
theorem Block.meaning_follows (hhost : host.Extends) :
    ∀ b : Block, (b.meaning host).Follows b.schedule
  | ⟨_, children, _⟩ => Fragment.meanings_follow hhost children

theorem Fragment.meanings_follow (hhost : host.Extends) :
    ∀ fs : List Fragment, (Fragment.meanings host fs).Follows (Fragment.schedules fs)
  | [] => follows_pure _
  | f :: fs => (Fragment.meaning_follows hhost f).bind fun _ =>
      (Fragment.meanings_follow hhost fs).bind_nil fun _ => follows_pure _

theorem Command.meaning_follows (hhost : host.Extends) :
    ∀ c : Command, (c.meaning host).Follows c.schedule
  | ⟨span, phrase, e, options, body⟩ => by
    refine Host.call_follows hhost ⟨Group.operands_follow hhost options, ?_,
      Body.optionMeaning_follows hhost body, ?_, ?_⟩
    · rintro ⟨span, children⟩ rfl
      rw [Group.optionOperands, Group.operands, Token.map_token_operands, Group.schedule]
    · match body with
      | none => exact fun _ => rfl
      | some (.block b) => exact nofun
      | some (.text t) => exact nofun
    · exact fun phrase offset => (host.phrase_follows phrase offset).extends

theorem Group.operands_follow (hhost : host.Extends) :
    ∀ o : Option Group, ∀ item ∈ Group.optionOperands host o,
      item.value.Follows item.token.schedule
  | none => List.forall_mem_nil _
  | some ⟨_, children⟩ => Token.operands_follow hhost children

theorem Body.optionMeaning_follows (hhost : host.Extends) :
    ∀ o : Option Body, ∀ body ∈ Body.optionMeaning host o, body.Follows (Body.optionSchedule o)
  | none => nofun
  | some (.block b) => by
    rintro _ ⟨⟩
    exact (Block.meaning_follows hhost b).bind_nil fun _ => follows_pure _
  | some (.text t) => by
    rintro _ ⟨⟩
    exact follows_pure _

theorem Token.operands_follow (hhost : host.Extends) :
    ∀ ts : List Token, ∀ item ∈ Token.operands host ts, item.value.Follows item.token.schedule
  | [] => List.forall_mem_nil _
  | t :: ts =>
    List.forall_mem_cons.2 ⟨Token.meaning_follows hhost t, Token.operands_follow hhost ts⟩

theorem Token.meaning_follows (hhost : host.Extends) :
    ∀ t : Token, (t.meaning host).Follows t.schedule
  | .identifier _ _ => follows_fail _ _ _
  | .operator _ _ => follows_fail _ _ _
  | .number _ _ => follows_pure _
  | .group _ => follows_fail _ _ _
  | .block b => (Block.meaning_follows hhost b).bind_nil fun _ => follows_pure _
  | .text _ => follows_pure _
  | .command c => Command.meaning_follows hhost c

end

end Trees

/-! ## Documents -/

/-- Unless it enters a direct callable, a run of a source that is parsed logs the schedule of its
tree: the whole of it if it succeeds, the first events of it if it fails. -/
theorem run_follows {host : Host} (hhost : host.Extends) {sw : Switch} {source : String}
    {tree : Block} (h : parse sw source = .ok tree) (state : State) :
    ∃ new, (run host sw source state).2.log.toList = state.log.toList ++ new ∧
      ((∃ e ∈ new, e.isEntered = true) ∨
        new <+: tree.schedule ∧
          ∀ items, (run host sw source state).1 = .ok items → new = tree.schedule) := by
  obtain ⟨new, hlog, hnew⟩ := Block.meaning_follows hhost tree state
  rw [run_of_parse h]
  refine ⟨new, hlog, hnew.imp_right (And.imp_right fun hall items hitems => ?_)⟩
  dsimp only at hitems
  cases hr : ((tree.meaning host).run.run state).1 with
  | ok items => exact hall items hr
  | error e =>
    rw [hr] at hitems
    cases hitems

end Prosemark
