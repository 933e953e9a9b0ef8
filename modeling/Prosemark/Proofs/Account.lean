import Prosemark.Proofs.Schedule

/-!
# Accounts of runs

What is called is told from the log. An event is answered by the host in the state that it was
logged in: a phrase by the evaluator that is bound there, a command by what its phrase means on the
arguments that its parts mean (`Host.Answers`). An account of a run gives the answers to its events,
and says at which node it stops if it fails: with a fault of that node, or because the last event
was answered with a failure (`Host.Ends`).

The account of a run that is made of others is made of theirs (`Run.accounts_bind`), so that every
tree is accounted for (`Block.meaning_accounts`). A failure passes through the commands around the
node as it is.
-/

namespace Prosemark

open Run

/-! ## The nodes of a tree -/

mutual

/-- The nodes of a fragment, itself among them, as tokens. -/
def Fragment.nodes : Fragment → List Token
  | .text t => [.text t]
  | .command c => c.nodes
  | .block b => b.nodes

def Block.nodes : Block → List Token
  | ⟨span, children, enclosing⟩ =>
    .block ⟨span, children, enclosing⟩ :: Fragment.allNodes children

/-- The nodes of some fragments. -/
def Fragment.allNodes : List Fragment → List Token
  | [] => []
  | f :: fs => f.nodes ++ Fragment.allNodes fs

/-- The command itself and the nodes of its options and of its body. -/
def Command.nodes : Command → List Token
  | ⟨span, phrase, phraseEnclosing, options, body⟩ =>
    .command ⟨span, phrase, phraseEnclosing, options, body⟩ ::
      (Group.optionNodes options ++ Body.optionNodes body)

/-- The nodes of the options of a command, if it has any. -/
def Group.optionNodes : Option Group → List Token
  | none => []
  | some g => g.nodes

/-- The nodes of the body of a command, if it has one. -/
def Body.optionNodes : Option Body → List Token
  | none => []
  | some body => body.nodes

def Body.nodes : Body → List Token
  | .block b => b.nodes
  | .text t => [.text t]

def Group.nodes : Group → List Token
  | ⟨span, children⟩ => .group ⟨span, children⟩ :: Token.allNodes children

/-- The nodes of some tokens. -/
def Token.allNodes : List Token → List Token
  | [] => []
  | t :: ts => t.nodes ++ Token.allNodes ts

def Token.nodes : Token → List Token
  | .identifier span name => [.identifier span name]
  | .operator span symbols => [.operator span symbols]
  | .number span value => [.number span value]
  | .group g => g.nodes
  | .block b => b.nodes
  | .text t => [.text t]
  | .command c => c.nodes

end

/-! ## Answers of a host -/

/-- The phrase of a command, or the name of an identifier, which may be one. -/
def Token.phrase? : Token → Option String
  | .command c => some c.phrase
  | .identifier _ name => some name
  | _ => none

/-- The fault is one of the node. What a callable complains about is not. -/
inductive RenderFault.Blames : RenderFault → Token → Prop
  | identifierNotExpected {node : Token} {name : String} (h : node.name? = some name) :
      Blames (.identifierNotExpected name) node
  | operatorNotExpected {node : Token} {symbols : String} (h : node.symbols? = some symbols) :
      Blames (.operatorNotExpected symbols) node
  | groupNotExpected (g : Group) : Blames .groupNotExpected (.group g)
  | notCallable {c : Command} (h : c.isBare = false) (found : String) :
      Blames (.notCallable c.phrase found) (.command c)
  | evaluatorMissing {node : Token} {phrase : String} (h : node.phrase? = some phrase) :
      Blames (.evaluatorMissing Environment.evaluatorKey) node
  | evaluatorMistyped {node : Token} {phrase : String} (h : node.phrase? = some phrase)
      (found : String) : Blames (.evaluatorMistyped Environment.evaluatorKey found) node
  | valueExpected {node : Token} (h : node.isOperator "=" = true) (keyword : String) :
      Blames (.valueExpected keyword) node
  | duplicatedKeyword {node : Token} {keyword : String} (h : node.name? = some keyword) :
      Blames (.duplicatedKeyword keyword) node
  | misplacedEquals {node : Token} (h : node.isOperator "=" = true) : Blames .misplacedEquals node
  | positionalAfterKeyword (g : Group) : Blames .positionalAfterKeyword (.group g)
  | commaExpected {node : Token} (h : node.isOperator "," = false) : Blames .commaExpected node
  | conditionUsage (c : Command) : Blames .conditionUsage (.command c)
  | conditionOptions (g : Group) : Blames .conditionUsage (.group g)
  | loopUsage (c : Command) : Blames .loopUsage (.command c)
  | loopOptions (g : Group) : Blames .loopUsage (.group g)
  | bodyExpected (name : String) (c : Command) : Blames (.bodyExpected name) (.command c)
  | notIterable (found : String) (node : Token) : Blames (.notIterable found) node

/-- The state with one more event in its log. -/
def State.logged (event : Event) (s : State) : State :=
  { s with log := s.log.push event }

/-- What calling a value calls. -/
def Value.callee? : Value → Option Wrapper
  | .wrapper w => some w
  | .function callable => some (.normal callable)
  | _ => none

/-- The command with the runs that interpret its parts. -/
def Command.call (host : Host) (c : Command) : Call where
  command := c
  operands := Group.optionOperands host c.options
  body := Body.optionMeaning host c.body
  evaluate := host.phrase

/-- A phrase that the state has evaluated for a node: that of a command, or the name of an
identifier in the options of a control command which was just entered. -/
inductive Token.Evaluates (nodes : List Token) (s : State) : Token → String → Prop
  | phrase {c : Command} (mem : .command c ∈ nodes) : Evaluates nodes s (.command c) c.phrase
  | operand {c : Command} {g : Group} {span : Span} {name : String} (mem : .command c ∈ nodes)
      (options : c.options = some g) (child : .identifier span name ∈ g.children)
      (entered : s.log.back? = some (.entered c.phrase c.span.start)) :
      Evaluates nodes s (.identifier span name) name

theorem Token.Evaluates.phrase?_eq {nodes : List Token} {s : State} {node : Token}
    {phrase : String} (h : node.Evaluates nodes s phrase) : node.phrase? = some phrase := by
  cases h <;> rfl

/-- What the host answers to an event of a node, in the state in which the event is logged, and the
state after it. To enter a command, and to evaluate a phrase without an evaluator, asks the host
nothing. -/
inductive Host.Answers (host : Host) (nodes : List Token) (s : State) :
    Token → Event → Except Failure Value → State → Prop
  | evaluation {node : Token} {phrase : String} {callable : Handle EvaluatorCode}
      (evaluates : node.Evaluates nodes s phrase) (evaluator : s.env.evaluator? = some callable) :
      Answers host nodes s node (.evaluated phrase node.span.start)
        (host.evaluatePhrase callable s.log.size phrase s.env)
        (s.logged (.evaluated phrase node.span.start))
  | unevaluated {node : Token} {phrase : String} (evaluates : node.Evaluates nodes s phrase)
      (evaluator : s.env.evaluator? = Option.none) :
      Answers host nodes s node (.evaluated phrase node.span.start) (.ok .nothing)
        (s.logged (.evaluated phrase node.span.start))
  | application {c : Command} {v : Value} {callable : Handle String} {args : Arguments}
      {start mid : State} (mem : .command c ∈ nodes)
      (phrase : (host.phrase c.phrase c.span.start).run.run start = (.ok v, mid))
      (callee : v.callee? = some (.normal callable))
      (arguments : (c.call host).arguments.run.run mid = (.ok args, s)) :
      Answers host nodes s (.command c) (.applied c.phrase c.span.start)
        (host.apply callable.code s.log.size args) (s.logged (.applied c.phrase c.span.start))
  | applicationInEnv {c : Command} {v : Value} {callable : Handle String} {args : Arguments}
      {start mid : State} (mem : .command c ∈ nodes)
      (phrase : (host.phrase c.phrase c.span.start).run.run start = (.ok v, mid))
      (callee : v.callee? = some (.normalWithEnv callable))
      (arguments : (c.call host).arguments.run.run mid = (.ok args, s)) :
      Answers host nodes s (.command c) (.applied c.phrase c.span.start)
        (host.applyInEnv callable.code s.log.size s.env args).1
        ⟨(host.applyInEnv callable.code s.log.size s.env args).2,
          s.log.push (.applied c.phrase c.span.start)⟩
  | entry {c : Command} (mem : .command c ∈ nodes) :
      Answers host nodes s (.command c) (.entered c.phrase c.span.start) (.ok .nothing)
        (s.logged (.entered c.phrase c.span.start))
  | refusal {c : Command} {code : String} {failure : Failure} (mem : .command c ∈ nodes)
      (direct : host.direct code (c.call host) = throw failure) :
      Answers host nodes s (.command c) (.entered c.phrase c.span.start) (.error failure)
        (s.logged (.entered c.phrase c.span.start))

/-- Each of the events is answered with a value after the log and the events before it. -/
def Host.AllAnswered (host : Host) (nodes : List Token) : List Event → List Event → Prop
  | _, [] => True
  | log, event :: events =>
    (∃ s node v after, s.log.toList = log ∧ host.Answers nodes s node event (.ok v) after) ∧
      host.AllAnswered nodes (log ++ [event]) events

/-- How a run ends that logged some events. It gives a value, or it stops at a node: with a fault of
the node after all events were answered with a value, or with what the last event was answered. -/
inductive Host.Ends (host : Host) (nodes : List Token) {α : Type} (log events : List Event) :
    Except Error α → State → Prop
  | value {a : α} {after : State} (answered : host.AllAnswered nodes log events) :
      Ends host nodes log events (.ok a) after
  | fault {fault : RenderFault} {node : Token} {after : State}
      (answered : host.AllAnswered nodes log events) (mem : node ∈ nodes)
      (blames : fault.Blames node) :
      Ends host nodes log events (.error (.render fault (.ofOffset node.span.start))) after
  | failure {init : List Event} {last : Event} {failure : Failure} {node : Token}
      {before after : State} (split : events = init ++ [last])
      (answered : host.AllAnswered nodes log init) (reached : before.log.toList = log ++ init)
      (mem : node ∈ nodes) (answer : host.Answers nodes before node last (.error failure) after) :
      Ends host nodes log events (.error (failure.pin node.span.start)) after

section Ends

variable {α β : Type} {host : Host} {nodes : List Token} {log events more : List Event}
  {after : State}

theorem Host.AllAnswered.append (h : host.AllAnswered nodes log events)
    (hmore : host.AllAnswered nodes (log ++ events) more) :
    host.AllAnswered nodes log (events ++ more) := by
  induction events generalizing log with
  | nil => rwa [List.append_nil] at hmore
  | cons event events ih =>
    refine ⟨h.1, ih h.2 ?_⟩
    rwa [List.append_assoc]

/-- What is answered first does not change how a run goes on. -/
theorem Host.Ends.after_answered {result : Except Error α}
    (h : host.AllAnswered nodes log events)
    (hmore : host.Ends nodes (log ++ events) more result after) :
    host.Ends nodes log (events ++ more) result after := by
  cases hmore with
  | value answered => exact .value (h.append answered)
  | fault answered mem blames => exact .fault (h.append answered) mem blames
  | @failure init last failure node before _ split answered reached mem answer =>
    subst split
    refine .failure (List.append_assoc ..).symm (h.append answered) ?_ mem answer
    rw [reached, List.append_assoc]

theorem Host.Ends.of_error {e : Error}
    (h : host.Ends nodes log events (.error e : Except Error α) after) :
    host.Ends nodes log events (.error e : Except Error β) after := by
  cases h with
  | fault answered mem blames => exact .fault answered mem blames
  | failure split answered reached mem answer => exact .failure split answered reached mem answer

theorem Host.Ends.answered {a : α} (h : host.Ends nodes log events (.ok a) after) :
    host.AllAnswered nodes log events := by
  cases h with
  | value answered => exact answered

end Ends

/-! ## Accounts of runs -/

section Accounts

variable (host : Host) (nodes : List Token) (loose : Prop) {α β : Type}

/-- The run, from the state, logs events that the host answers. Nothing is said of a run that enters
a direct callable if the account is loose. -/
def Run.Accounts (x : Run α) (s : State) : Prop :=
  ∃ events, (x.run.run s).2.log.toList = s.log.toList ++ events ∧
    (loose ∧ (∃ e ∈ events, e.isEntered = true) ∨
      host.Ends nodes s.log.toList events (x.run.run s).1 (x.run.run s).2)

variable {host nodes loose} {x : Run α} {f : α → Run β} {s : State} {node : Token}

theorem Run.accounts_of_ok {a : α} {s' : State} (h : x.run.run s = (.ok a, s'))
    (hlog : s'.log = s.log) : x.Accounts host nodes loose s := by
  refine ⟨[], ?_, .inr ?_⟩
  · rw [h, List.append_nil, hlog]
  · rw [h]
    exact .value trivial

theorem Run.accounts_pure (a : α) (s : State) : (pure a : Run α).Accounts host nodes loose s :=
  accounts_of_ok rfl rfl

theorem Run.accounts_fail {fault : RenderFault} (hnode : node ∈ nodes) (h : fault.Blames node)
    (s : State) : (fail fault node.span.start : Run α).Accounts host nodes loose s :=
  ⟨[], (List.append_nil _).symm, .inr (.fault trivial hnode h)⟩

/-- A run that logs one event, and ends as the event is answered. -/
theorem Run.accounts_of_answers {x : Run Value} {event : Event} {result : Except Failure Value}
    {s' : State} (hrun : x.run.run s = (result.mapError (Failure.pin node.span.start), s'))
    (hlog : s'.log = s.log.push event) (hnode : node ∈ nodes)
    (h : host.Answers nodes s node event result s') : x.Accounts host nodes loose s := by
  refine ⟨[event], ?_, .inr ?_⟩
  · rw [hrun, hlog, Array.toList_push]
  · rw [hrun]
    cases result with
    | ok v => exact .value ⟨⟨s, node, v, s', rfl, h⟩, trivial⟩
    | error failure =>
      exact .failure (List.nil_append _).symm trivial (List.append_nil _).symm hnode h

theorem Run.accounts_record {event : Event} {v : Value} {s' : State}
    (h : host.Answers nodes s node event (.ok v) s') :
    (record event).Accounts host nodes loose s := by
  refine ⟨[event], Array.toList_push, .inr ?_⟩
  exact .value ⟨⟨s, node, v, s', rfl, h⟩, trivial⟩

theorem Run.accounts_bind (hx : x.Accounts host nodes loose s)
    (hf : ∀ a s', x.run.run s = (.ok a, s') → (f a).Accounts host nodes loose s') :
    (x >>= f).Accounts host nodes loose s := by
  obtain ⟨events, hlog, hends⟩ := hx
  unfold Accounts
  rw [run_bind]
  cases hr : x.run.run s with
  | mk result s' =>
    rw [hr] at hlog hends
    cases result with
    | error e => exact ⟨events, hlog, hends.imp_right .of_error⟩
    | ok a =>
      obtain ⟨more, hlog', hmore⟩ := hf a s' hr
      refine ⟨events ++ more, by rw [hlog', hlog, List.append_assoc], ?_⟩
      rcases hends with ⟨hloose, e, he, hentered⟩ | hends
      · exact .inl ⟨hloose, e, List.mem_append_left _ he, hentered⟩
      · rcases hmore with ⟨hloose, e, he, hentered⟩ | hmore
        · exact .inl ⟨hloose, e, List.mem_append_right _ he, hentered⟩
        · rw [hlog] at hmore
          exact .inr (hmore.after_answered hends.answered)

/-- A run that logs an event and goes on. -/
theorem Run.accounts_record_bind {event : Event} {v : Value} {s' : State} {g : Nat → Run α}
    (h : host.Answers nodes s node event (.ok v) s')
    (hg : (g s.log.size).Accounts host nodes loose (s.logged event)) :
    (record event >>= g).Accounts host nodes loose s := by
  refine accounts_bind (accounts_record h) fun number s'' hs'' => ?_
  rw [run_record] at hs''
  cases hs''
  exact hg

theorem Run.Accounts.bind_pure (hx : x.Accounts host nodes loose s) (g : α → β) :
    (do return g (← x) : Run β).Accounts host nodes loose s :=
  accounts_bind hx fun _ _ _ => accounts_pure _ _

theorem Run.Accounts.extends (h : ∀ s, x.Accounts host nodes loose s) : x.Extends := by
  intro s
  obtain ⟨events, hlog, -⟩ := h s
  exact ⟨events, hlog.symm⟩

end Accounts

/-! ## Phrases -/

theorem Environment.evaluator?_eq_some_iff {env : Environment} {callable : Handle EvaluatorCode} :
    env.evaluator? = some callable ↔ env.get? evaluatorKey = some (.evaluator callable) := by
  unfold evaluator?
  split
  · next found h => simp [h]
  · next h => simpa using h callable

variable {host : Host} {nodes : List Token} {loose : Prop} {s : State}

theorem Host.run_phrase {phrase : String} {offset : Nat} {callable : Handle EvaluatorCode}
    (h : s.env.evaluator? = some callable) :
    (host.phrase phrase offset).run.run s =
      ((host.evaluatePhrase callable s.log.size phrase s.env).mapError (Failure.pin offset),
        s.logged (.evaluated phrase offset)) := by
  unfold Host.phrase
  rw [run_bind, run_record]
  dsimp only
  rw [run_bind, run_get]
  dsimp only
  rw [Environment.evaluator?_eq_some_iff.1 h]
  exact run_ofResult _ _ _

theorem Host.phrase_accounts {node : Token} {phrase : String} (hnode : node ∈ nodes)
    (h : node.Evaluates nodes s phrase) :
    (host.phrase phrase node.span.start).Accounts host nodes loose s := by
  cases he : s.env.evaluator? with
  | some callable => exact accounts_of_answers (run_phrase he) rfl hnode (.evaluation h he)
  | none =>
    have hanswer : host.Answers nodes s node (.evaluated phrase node.span.start) _ _ :=
      .unevaluated h he
    refine accounts_record_bind hanswer ?_
    refine accounts_bind (accounts_of_ok (run_get _) rfl) fun state s' hs' => ?_
    rw [run_get] at hs'
    cases hs'
    dsimp only
    split
    · next callable hget =>
      have hsome : s.env.evaluator? = some callable := Environment.evaluator?_eq_some_iff.2 hget
      rw [he] at hsome
      cases hsome
    · exact accounts_fail hnode (.evaluatorMistyped h.phrase?_eq _) _
    · split
      · exact accounts_pure _ _
      · exact accounts_fail hnode (.evaluatorMissing h.phrase?_eq) _

/-! ## Control commands -/

variable (host nodes loose) in
/-- The operand is a node of the tree, and its value is accounted for. -/
structure Operand.Accounts (item : Operand) : Prop where
  mem : item.token ∈ nodes
  value (s : State) : item.value.Accounts host nodes loose s

variable (host nodes loose) in
/-- The parts of the call are accounted for, and are nodes of the tree. -/
structure Call.Accounts (call : Call) : Prop where
  command : .command call.command ∈ nodes
  options : ∀ g ∈ call.command.options, .group g ∈ nodes
  operands : ∀ item ∈ call.operands, item.Accounts host nodes loose
  body : ∀ body ∈ call.body, ∀ s, body.Accounts host nodes loose s
  evaluate : ∀ item ∈ call.operands, ∀ span name, item.token = .identifier span name → ∀ s,
    s.log.back? = some (.entered call.command.phrase call.start) →
      (call.evaluate name span.start).Accounts host nodes loose s

namespace Call.Accounts

variable {call : Call} (h : call.Accounts host nodes loose)

include h

theorem operandValue {item : Operand} (hitem : item ∈ call.operands)
    (hs : s.log.back? = some (.entered call.command.phrase call.start)) :
    (call.operandValue item).Accounts host nodes loose s := by
  unfold Call.operandValue
  split
  · next span name htoken => exact h.evaluate item hitem span name htoken s hs
  · exact (h.operands item hitem).value s

theorem parts_bind {α : Type} {f : Nat × Run Value → Run α} (name : String) {usage : RenderFault}
    (husage : usage.Blames (.command call.command))
    (hf : ∀ g ∈ call.command.options, ∀ body ∈ call.body,
      (f (g.span.start, body)).Accounts host nodes loose s) :
    (call.parts name usage >>= f).Accounts host nodes loose s := by
  unfold Call.parts
  split
  · exact accounts_bind (accounts_fail h.command husage s) nofun
  · exact accounts_bind (accounts_fail h.command (.bodyExpected name _) s) nofun
  · next options body hoptions hbody =>
    rw [pure_bind]
    exact hf options hoptions body hbody

theorem conditional (hs : s.log.back? = some (.entered call.command.phrase call.start)) :
    (Control.conditional call).Accounts host nodes loose s := by
  refine h.parts_bind "if" (.conditionUsage _) fun g hg body hbody => ?_
  dsimp only
  split
  · exact accounts_fail (h.options g hg) (.conditionOptions g) s
  · next negated cond hcond =>
    refine accounts_bind (h.operandValue (Control.condition?_mem hcond) hs) fun v s' _ => ?_
    split
    · exact h.body body hbody s'
    · exact accounts_pure _ _

omit h in
theorem iterate {body : Run Value} (hbody : ∀ s, body.Accounts host nodes loose s) (name : String)
    (items : List Value) : ∀ s, (Control.iterate name body items).Accounts host nodes loose s := by
  induction items with
  | nil => exact accounts_pure _
  | cons item rest ih =>
    intro s
    refine accounts_bind (accounts_of_ok rfl rfl) fun _ s₁ _ => ?_
    refine accounts_bind (hbody s₁) fun v s₂ _ => ?_
    exact (ih s₂).bind_pure _

theorem loop (hs : s.log.back? = some (.entered call.command.phrase call.start)) :
    (Control.loop call).Accounts host nodes loose s := by
  refine h.parts_bind "for" (.loopUsage _) fun g hg body hbody => ?_
  dsimp only
  split
  · exact accounts_fail (h.options g hg) (.loopOptions g) s
  · next name iterable hheader =>
    have hmem := Control.header?_mem hheader
    refine accounts_bind (h.operandValue hmem hs) fun v s' _ => ?_
    split
    · exact accounts_fail (h.operands iterable hmem).mem (.notIterable _ _) s'
    · next items _ => exact (iterate (h.body body hbody) name items s').bind_pure _

end Call.Accounts

/-! ## Arguments -/

theorem Operand.Accounts.positional {item : Operand} (h : item.Accounts host nodes loose)
    {g : Group} (hg : .group g ∈ nodes) (inKeywords : Bool) (s : State) :
    (item.positional g.span.start inKeywords).Accounts host nodes loose s := by
  unfold Operand.positional
  split
  · next hequals => exact accounts_fail h.mem (.misplacedEquals hequals) s
  · split
    · exact accounts_fail hg (.positionalAfterKeyword g) s
    · exact h.value s

mutual

theorem Arguments.collect_accounts {g : Group} (hg : .group g ∈ nodes) :
    ∀ (items : List Operand) (inKeywords : Bool) (args : Arguments),
      (∀ item ∈ items, item.Accounts host nodes loose) → ∀ s,
        (collect g.span.start inKeywords args items).Accounts host nodes loose s
  | [], inKeywords, args, _, s => accounts_pure args s
  | [item], inKeywords, args, h, s => by
    have hitem := h item (List.mem_singleton_self item)
    exact (hitem.positional hg inKeywords s).bind_pure _
  | item :: next :: rest, inKeywords, args, h, s => by
    obtain ⟨hitem, htail⟩ := List.forall_mem_cons.1 h
    obtain ⟨hnext, hrest⟩ := List.forall_mem_cons.1 htail
    rw [collect]
    split
    · refine accounts_bind (hitem.positional hg inKeywords s) fun v s' _ => ?_
      exact separated_accounts hg (next :: rest) inKeywords _ htail s'
    · next name hname =>
      obtain ⟨hequals, hn⟩ := Operand.keyword?_eq_some_iff.1 hname
      split
      · exact accounts_fail hnext.mem (.valueExpected hequals name) s
      · next value afterValue =>
        obtain ⟨hvalue, hafter⟩ := List.forall_mem_cons.1 hrest
        split
        · exact accounts_fail hnext.mem (.valueExpected hequals name) s
        · split
          · exact accounts_fail hitem.mem (.duplicatedKeyword hn) s
          · refine accounts_bind (hvalue.value s) fun v s' _ => ?_
            exact separated_accounts hg afterValue true _ hafter s'

theorem Arguments.separated_accounts {g : Group} (hg : .group g ∈ nodes) :
    ∀ (items : List Operand) (inKeywords : Bool) (args : Arguments),
      (∀ item ∈ items, item.Accounts host nodes loose) → ∀ s,
        (separated g.span.start inKeywords args items).Accounts host nodes loose s
  | [], inKeywords, args, _, s => accounts_pure args s
  | item :: rest, inKeywords, args, h, s => by
    obtain ⟨hitem, htail⟩ := List.forall_mem_cons.1 h
    rw [separated]
    split
    · exact collect_accounts hg rest inKeywords args htail s
    · next hcomma =>
      exact accounts_fail hitem.mem (.commaExpected (Bool.eq_false_iff.2 hcomma)) s

end

theorem Call.Accounts.arguments {call : Call} (h : call.Accounts host nodes loose) (s : State) :
    call.arguments.Accounts host nodes loose s := by
  unfold Call.arguments
  have hoptions : ∀ g ∈ call.command.options, ∀ args s',
      (Arguments.collect g.span.start false args call.operands).Accounts host nodes loose s' :=
    fun g hg args s' => Arguments.collect_accounts (h.options g hg) _ _ _ h.operands s'
  cases hb : call.body with
  | none =>
    refine accounts_bind (accounts_pure _ s) fun args s' _ => ?_
    split
    · next g hg => exact hoptions g hg args s'
    · exact accounts_pure _ _
  | some body =>
    refine accounts_bind (h.body body hb s) fun v s' _ => ?_
    refine accounts_bind (accounts_pure _ s') fun args s'' _ => ?_
    split
    · next g hg => exact hoptions g hg args s''
    · exact accounts_pure _ _

/-! ## Calls -/

/-- A command that is given to a direct callable of the host is not accounted for. -/
theorem Run.accounts_of_entered {phrase : String} {offset : Nat} {f : Nat → Run Value}
    (hloose : loose) (hf : ∀ n, (f n).Extends) :
    (record (.entered phrase offset) >>= f).Accounts host nodes loose s := by
  obtain ⟨rest, hrest⟩ := log_of_entered hf s
  exact ⟨_, hrest, .inl ⟨hloose, _, List.mem_cons_self, rfl⟩⟩

/-- The host has no direct callables, or they do no more to the log than to run the parts they are
given, which is enough for a loose account. -/
def Host.Accountable (host : Host) (loose : Prop) : Prop :=
  loose ∧ host.Extends ∨ ∀ code call, ∃ failure, host.direct code call = throw failure

theorem Call.Accounts.extends {call : Call} (h : call.Accounts host nodes loose)
    (hevaluate : ∀ phrase offset, (call.evaluate phrase offset).Extends) : call.Extends where
  operands item hitem := Run.Accounts.extends (h.operands item hitem).value
  body body hbody := Run.Accounts.extends (h.body body hbody)
  evaluate := hevaluate

namespace Host

variable {c : Command} (hhost : host.Accountable loose)
  (h : (c.call host).Accounts host nodes loose)

include hhost h

theorem callThrough_accounts {v : Value} {w : Wrapper} {start : State}
    (hphrase : (host.phrase c.phrase c.span.start).run.run start = (.ok v, s))
    (hv : v.callee? = some w) : (host.callThrough (c.call host) w).Accounts host nodes loose s := by
  cases w with
  | direct callable =>
    obtain ⟨code, origin⟩ := callable
    cases code with
    | conditional => exact accounts_record_bind (.entry h.command) (h.conditional Array.back?_push)
    | loop => exact accounts_record_bind (.entry h.command) (h.loop Array.back?_push)
    | host code =>
      rcases hhost with ⟨hloose, hextends⟩ | hhost
      · have hcall := h.extends fun phrase offset => (host.phrase_follows phrase offset).extends
        exact accounts_of_entered hloose fun n => hextends code _ hcall
      · obtain ⟨failure, hfailure⟩ := hhost code (c.call host)
        refine accounts_of_answers ?_ rfl h.command (.refusal h.command hfailure)
        unfold callThrough
        rw [run_bind, run_record]
        dsimp only
        rw [hfailure]
        rfl
  | normal callable =>
    refine accounts_bind (h.arguments s) fun args s' hargs => ?_
    refine accounts_of_answers ?_ rfl h.command (.application h.command hphrase hv hargs)
    rw [run_bind, run_record]
    exact run_ofResult _ _ _
  | normalWithEnv callable =>
    refine accounts_bind (h.arguments s) fun args s' hargs => ?_
    refine accounts_of_answers ?_ rfl h.command (.applicationInEnv h.command hphrase hv hargs)
    rw [run_bind, run_record]
    dsimp only
    rw [run_bind, run_get]
    dsimp only
    rw [run_bind, run_modify]
    exact run_ofResult _ _ _

theorem call_accounts (s : State) : (host.call (c.call host)).Accounts host nodes loose s := by
  have hphrase : (host.phrase c.phrase (Token.command c).span.start).Accounts host nodes loose s :=
    phrase_accounts h.command (.phrase h.command)
  refine accounts_bind hphrase fun v s' hv => ?_
  split
  · exact accounts_pure _ _
  · next hbare =>
    split
    · exact callThrough_accounts hhost h hv rfl
    · exact callThrough_accounts hhost h hv rfl
    · exact accounts_fail h.command (.notCallable (Bool.eq_false_iff.2 hbare) _) s'

end Host

/-! ## Trees -/

theorem Token.mem_nodes_self (t : Token) : t ∈ t.nodes := by
  cases t with
  | identifier => simp [nodes]
  | operator => simp [nodes]
  | number => simp [nodes]
  | text => simp [nodes]
  | group g =>
    obtain ⟨span, children⟩ := g
    simp [nodes, Group.nodes]
  | block b =>
    obtain ⟨span, children, e⟩ := b
    simp [nodes, Block.nodes]
  | command c =>
    obtain ⟨span, phrase, e, options, body⟩ := c
    simp [nodes, Command.nodes]

theorem Token.subset_allNodes (ts : List Token) : ts ⊆ Token.allNodes ts := by
  induction ts with
  | nil => exact List.nil_subset _
  | cons t ts ih =>
    rw [allNodes]
    refine List.cons_subset.2 ⟨List.mem_append_left _ t.mem_nodes_self, ?_⟩
    exact List.Subset.trans ih (List.subset_append_right _ _)

theorem Group.children_subset_nodes (g : Group) : g.children ⊆ g.nodes := by
  obtain ⟨span, children⟩ := g
  rw [nodes]
  exact List.Subset.trans (Token.subset_allNodes children) (List.subset_cons_self _ _)

theorem Command.nodes_group_subset (c : Command) {g : Group} (h : g ∈ c.options) :
    g.nodes ⊆ c.nodes := by
  obtain ⟨span, phrase, e, options, body⟩ := c
  obtain rfl : options = some g := h
  rw [nodes, Group.optionNodes]
  exact List.Subset.trans (List.subset_append_left _ _) (List.subset_cons_self _ _)

theorem Command.meaning_eq_call (host : Host) (c : Command) :
    c.meaning host = host.call (c.call host) := by
  obtain ⟨span, phrase, e, options, body⟩ := c
  rw [meaning]
  rfl

theorem Group.token_mem_of_operand {o : Option Group} {item : Operand}
    (h : item ∈ Group.optionOperands host o) : ∃ g ∈ o, item.token ∈ g.children := by
  cases o with
  | none => cases h
  | some g =>
    obtain ⟨span, children⟩ := g
    have hmem := List.mem_map_of_mem (f := (·.token)) h
    rw [optionOperands, operands, Token.map_token_operands] at hmem
    exact ⟨_, rfl, hmem⟩

/-- A command is accounted for if the values of its options and its body are. -/
theorem Command.call_accounts {c : Command} (hhost : host.Accountable loose)
    (hc : c.nodes ⊆ nodes)
    (hvalues : ∀ item ∈ Group.optionOperands host c.options, ∀ s,
      item.value.Accounts host nodes loose s)
    (hbody : ∀ body ∈ Body.optionMeaning host c.body, ∀ s, body.Accounts host nodes loose s)
    (s : State) : (c.meaning host).Accounts host nodes loose s := by
  have hself : .command c ∈ nodes := hc (Token.mem_nodes_self (.command c))
  have hoptions : ∀ g ∈ c.options, .group g ∈ nodes ∧ ∀ t ∈ g.children, t ∈ nodes := by
    intro g hg
    have hnodes : g.nodes ⊆ nodes := List.Subset.trans (c.nodes_group_subset hg) hc
    refine ⟨hnodes (Token.mem_nodes_self (.group g)), fun t ht => ?_⟩
    exact hnodes (g.children_subset_nodes ht)
  have hoperands : ∀ item ∈ (c.call host).operands, item.Accounts host nodes loose := by
    intro item hitem
    obtain ⟨g, hg, hchild⟩ := Group.token_mem_of_operand hitem
    exact ⟨(hoptions g hg).2 _ hchild, hvalues item hitem⟩
  rw [Command.meaning_eq_call]
  refine Host.call_accounts hhost ⟨hself, fun g hg => (hoptions g hg).1, hoperands, hbody, ?_⟩ s
  intro item hitem span name htoken s hentered
  obtain ⟨g, hg, hchild⟩ := Group.token_mem_of_operand hitem
  have hnode := (hoperands item hitem).mem
  rw [htoken] at hchild hnode
  have hphrase : (host.phrase name (Token.identifier span name).span.start).Accounts host nodes
      loose s :=
    Host.phrase_accounts hnode (.operand hself hg hchild hentered)
  exact hphrase

section Trees

mutual

theorem Fragment.meaning_accounts (hhost : host.Accountable loose) :
    ∀ f : Fragment, f.nodes ⊆ nodes → ∀ s,
    (f.meaning host).Accounts host nodes loose s
  | .text _, _, s => accounts_pure _ s
  | .command c, h, s => Command.meaning_accounts hhost c h s
  | .block b, h, s => (Block.meaning_accounts hhost b h s).bind_pure _

/-- What is called on the way to what a tree means is accounted for. -/
theorem Block.meaning_accounts (hhost : host.Accountable loose) :
    ∀ b : Block, b.nodes ⊆ nodes → ∀ s,
    (b.meaning host).Accounts host nodes loose s
  | ⟨_, children, _⟩, h, s => Fragment.meanings_account hhost children (List.cons_subset.1 h).2 s

theorem Fragment.meanings_account (hhost : host.Accountable loose) :
    ∀ fs : List Fragment, Fragment.allNodes fs ⊆ nodes → ∀ s,
    (Fragment.meanings host fs).Accounts host nodes loose s
  | [], _, s => accounts_pure _ s
  | f :: fs, h, s => by
    obtain ⟨hf, hfs⟩ := List.append_subset.1 h
    refine accounts_bind (Fragment.meaning_accounts hhost f hf s) fun v s' _ => ?_
    exact (Fragment.meanings_account hhost fs hfs s').bind_pure _

theorem Command.meaning_accounts (hhost : host.Accountable loose) :
    ∀ c : Command, c.nodes ⊆ nodes → ∀ s,
    (c.meaning host).Accounts host nodes loose s
  | ⟨span, phrase, e, options, body⟩, h, s => by
    obtain ⟨-, hparts⟩ := List.cons_subset.1 h
    obtain ⟨ho, hb⟩ := List.append_subset.1 hparts
    exact Command.call_accounts hhost h (Group.operands_account hhost options ho)
      (Body.optionMeaning_accounts hhost body hb) s

theorem Group.operands_account (hhost : host.Accountable loose) :
    ∀ o : Option Group, Group.optionNodes o ⊆ nodes →
    ∀ item ∈ Group.optionOperands host o, ∀ s, item.value.Accounts host nodes loose s
  | none, _ => List.forall_mem_nil _
  | some ⟨_, children⟩, h => Token.operands_account hhost children (List.cons_subset.1 h).2

theorem Body.optionMeaning_accounts (hhost : host.Accountable loose) :
    ∀ o : Option Body, Body.optionNodes o ⊆ nodes →
    ∀ body ∈ Body.optionMeaning host o, ∀ s, body.Accounts host nodes loose s
  | none, _ => nofun
  | some (.block b), h => by
    rintro _ ⟨⟩ s
    exact (Block.meaning_accounts hhost b h s).bind_pure _
  | some (.text _), _ => by
    rintro _ ⟨⟩ s
    exact accounts_pure _ s

theorem Token.operands_account (hhost : host.Accountable loose) :
    ∀ ts : List Token, Token.allNodes ts ⊆ nodes →
    ∀ item ∈ Token.operands host ts, ∀ s, item.value.Accounts host nodes loose s
  | [], _ => List.forall_mem_nil _
  | t :: ts, h => by
    obtain ⟨ht, hts⟩ := List.append_subset.1 h
    exact List.forall_mem_cons.2
      ⟨Token.meaning_accounts hhost t ht, Token.operands_account hhost ts hts⟩

theorem Token.meaning_accounts (hhost : host.Accountable loose) :
    ∀ t : Token, t.nodes ⊆ nodes → ∀ s,
    (t.meaning host).Accounts host nodes loose s
  | .identifier span name, h, s =>
    accounts_fail (h (Token.mem_nodes_self (.identifier span name))) (.identifierNotExpected rfl) s
  | .operator span symbols, h, s =>
    accounts_fail (h (Token.mem_nodes_self (.operator span symbols))) (.operatorNotExpected rfl) s
  | .number _ _, _, s => accounts_pure _ s
  | .group g, h, s =>
    accounts_fail (h (Token.mem_nodes_self (.group g))) (.groupNotExpected g) s
  | .block b, h, s => (Block.meaning_accounts hhost b h s).bind_pure _
  | .text _, _, s => accounts_pure _ s
  | .command c, h, s => Command.meaning_accounts hhost c h s

end

end Trees

end Prosemark
