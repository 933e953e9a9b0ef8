import Prosemark.Proofs.Account

/-!
# Fragment lists without nothings

A value is clean if no fragment list inside it has a nothing among its items. Runs keep values clean
when the callables do: only known callables are called, which give clean values for clean ones, and
of direct callables only `if` and `for` are known (`Host.KeepsClean`). Blocks leave nothings out of
their lists, and a loop puts none into its list since a body never means nothing, whatever the items
are to which it binds the name.

So the fragment list that a tree means is clean and without nothings, its flattening has neither
nothings nor fragment lists, and flattening that again changes nothing (`interpret_clean`).
-/

namespace Prosemark

open Run

/-! ## Clean values -/

section Values

variable (known : Value → Prop)

mutual

/-- No fragment list inside the value has a nothing among its items, and all callables inside it are
known. -/
def Value.Clean : Value → Prop
  | .list items => Value.AllClean items
  | .map entries => Value.EntriesClean entries
  | .fragments items => .nothing ∉ items ∧ Value.AllClean items
  | .function callable => known (.function callable)
  | .wrapper w => known (.wrapper w)
  | .evaluator callable => known (.evaluator callable)
  | .nothing | .bool _ | .int _ | .float _ | .string _ => True

/-- All of some values are clean. -/
def Value.AllClean : List Value → Prop
  | [] => True
  | v :: vs => v.Clean ∧ Value.AllClean vs

/-- The values of some entries are clean. -/
def Value.EntriesClean : List (String × Value) → Prop
  | [] => True
  | (_, v) :: rest => v.Clean ∧ Value.EntriesClean rest

end

/-- Everything that is bound in the environment is clean. -/
def Environment.Clean (env : Environment) : Prop :=
  ∀ name v, env.get? name = some v → v.Clean known

/-- All arguments are clean. -/
def Arguments.Clean (args : Arguments) : Prop :=
  Value.AllClean known args.positional ∧ Value.EntriesClean known args.keywords

end Values

section Clean

variable {known : Value → Prop}

theorem Value.allClean_iff {items : List Value} :
    Value.AllClean known items ↔ ∀ v ∈ items, v.Clean known := by
  induction items with
  | nil => simp [AllClean]
  | cons v vs ih => simp [AllClean, ih]

theorem Value.entriesClean_iff {entries : List (String × Value)} :
    Value.EntriesClean known entries ↔ ∀ entry ∈ entries, entry.2.Clean known := by
  induction entries with
  | nil => simp [EntriesClean]
  | cons entry rest ih => simp [EntriesClean, ih]

theorem Value.isNothing_iff {v : Value} : v.isNothing = true ↔ v = .nothing := by
  cases v <;> simp [isNothing]

theorem Value.fragments_clean_cons {v : Value} {vs : List Value} (hne : v ≠ .nothing)
    (hv : v.Clean known) (hvs : (Value.fragments vs).Clean known) :
    (Value.fragments (v :: vs)).Clean known := by
  refine ⟨?_, hv, hvs.2⟩
  rw [List.mem_cons, not_or]
  exact ⟨hne.symm, hvs.1⟩

theorem Value.EntriesClean.lookup {entries : List (String × Value)} {name : String} {v : Value}
    (h : Value.EntriesClean known entries) (hv : entries.lookup name = some v) :
    v.Clean known := by
  induction entries with
  | nil => simp at hv
  | cons entry rest ih =>
    obtain ⟨key, w⟩ := entry
    rw [List.lookup_cons] at hv
    split at hv
    · obtain rfl := Option.some.inj hv
      exact h.1
    · exact ih h.2 hv

theorem Environment.Clean.insert {env : Environment} (h : env.Clean known) (name : String)
    {v : Value} (hv : v.Clean known) : (env.insert name v).Clean known := by
  intro key w hw
  rw [get?_insert] at hw
  split at hw
  · obtain rfl := Option.some.inj hw
    exact hv
  · exact h key w hw

/-! ## Values of phrases -/

theorem Value.insertEntry_clean {entries : List (String × Value)} (key : String) {v : Value}
    (hv : v.Clean known) (h : Value.EntriesClean known entries) :
    Value.EntriesClean known (insertEntry key v entries) := by
  induction entries with
  | nil => exact ⟨hv, h⟩
  | cons entry rest ih =>
    obtain ⟨k, w⟩ := entry
    unfold insertEntry
    split
    · exact ⟨hv, h⟩
    · split
      · exact ⟨hv, h.2⟩
      · exact ⟨h.1, ih h.2⟩

theorem Value.ofEntries_clean {entries : List (String × Value)}
    (h : Value.EntriesClean known entries) : (Value.ofEntries entries).Clean known := by
  have hfold : ∀ sorted, Value.EntriesClean known sorted → Value.EntriesClean known
      (entries.foldl (fun sorted entry => insertEntry entry.1 entry.2 sorted) sorted) := by
    induction entries with
    | nil => exact fun sorted hsorted => hsorted
    | cons entry rest ih =>
      intro sorted hsorted
      exact ih h.2 _ (insertEntry_clean entry.1 h.1 hsorted)
  exact hfold [] trivial

mutual

/-- Data that is read from JSON has no fragment lists and no callables inside it. -/
theorem Value.ofJson_clean : ∀ j : Json, (Value.ofJson j).Clean known
  | .null => trivial
  | .bool _ => trivial
  | .integer n => by
    unfold ofJson
    split <;> trivial
  | .float _ => trivial
  | .string _ => trivial
  | .array items => Value.ofJsonItems_clean items
  | .object members => Value.ofEntries_clean (Value.ofJsonMembers_clean members)

theorem Value.ofJsonItems_clean : ∀ items : List Json,
    Value.AllClean known (Value.ofJsonItems items)
  | [] => trivial
  | j :: rest => ⟨Value.ofJson_clean j, Value.ofJsonItems_clean rest⟩

theorem Value.ofJsonMembers_clean : ∀ members : List (String × Json),
    Value.EntriesClean known (Value.ofJsonMembers members)
  | [] => trivial
  | (_, j) :: rest => ⟨Value.ofJson_clean j, Value.ofJsonMembers_clean rest⟩

end

namespace Phrase

variable {env : Environment} {phrase : String} {v : Value}

theorem entryOf?_clean {key : String} (h : env.Clean known)
    (hv : entryOf? key phrase env = some v) : v.Clean known := by
  unfold entryOf? at hv
  obtain ⟨entries, hentries, hlookup⟩ := Option.bind_eq_some_iff.1 hv
  obtain ⟨w, hw, hmap⟩ := Option.bind_eq_some_iff.1 hentries
  have hclean := h key w hw
  cases w <;> simp only [Value.entries?, Option.some.injEq, reduceCtorEq] at hmap
  subst hmap
  exact Value.EntriesClean.lookup hclean hlookup

theorem symbol_clean (h : env.Clean known) (hv : symbol phrase env = .ok v) : v.Clean known := by
  unfold symbol at hv
  split at hv
  · split at hv
    · next w hw =>
      obtain rfl := Except.ok.inj hv
      exact entryOf?_clean h hw
    · cases hv
  · split at hv
    · obtain rfl := Except.ok.inj hv
      trivial
    · split at hv
      · obtain rfl := Except.ok.inj hv
        trivial
      · cases hv

theorem literal_clean (hv : literal phrase = .ok v) : v.Clean known := by
  unfold literal at hv
  split at hv
  · obtain rfl := Except.ok.inj hv
    exact Value.ofJson_clean _
  · cases hv

/-- By the standard rules phrases have clean values in a clean environment. -/
theorem evaluate_clean (h : env.Clean known) (hv : evaluate phrase env = .ok v) :
    v.Clean known := by
  unfold evaluate at hv
  split at hv
  · obtain rfl := Except.ok.inj hv
    trivial
  · split at hv
    · next w hw =>
      obtain rfl := Except.ok.inj hv
      rcases Option.or_eq_some_iff.1 hw with hw | ⟨-, hw⟩
      · exact entryOf?_clean h hw
      · exact h phrase _ hw
    · split at hv
      · exact symbol_clean h hv
      · exact literal_clean hv

end Phrase

/-! ## Runs that keep values clean -/

variable (known) in
/-- If it starts with a clean environment and succeeds, the run leaves a clean environment, and its
result is good. -/
def Run.KeepsClean {α : Type} (x : Run α) (good : α → Prop) : Prop :=
  ∀ s a s', s.env.Clean known → x.run.run s = (.ok a, s') → good a ∧ s'.env.Clean known

section Runs

variable {α β : Type} {x : Run α} {f : α → Run β} {good : α → Prop} {better : β → Prop}

theorem Run.keepsClean_pure {a : α} (ha : good a) : (pure a : Run α).KeepsClean known good := by
  rintro s _ _ hs ⟨⟩
  exact ⟨ha, hs⟩

theorem Run.keepsClean_fail (fault : RenderFault) (offset : Nat) :
    (fail fault offset : Run α).KeepsClean known good := by
  intro s a s' _ h
  rw [run_fail] at h
  cases h

theorem Run.KeepsClean.bind (hx : x.KeepsClean known good)
    (hf : ∀ a, good a → (f a).KeepsClean known better) :
    (x >>= f).KeepsClean known better := by
  intro s b s' hs h
  rw [run_bind] at h
  cases hr : x.run.run s with
  | mk result mid =>
    rw [hr] at h
    cases result with
    | error e => cases h
    | ok a =>
      obtain ⟨ha, hmid⟩ := hx s a mid hs hr
      exact hf a ha mid b s' hmid h

theorem Run.keepsClean_record (event : Event) :
    (record event).KeepsClean known fun _ => True := by
  intro s a s' hs h
  rw [run_record] at h
  cases h
  exact ⟨trivial, hs⟩

theorem Run.keepsClean_get : (get : Run State).KeepsClean known fun s => s.env.Clean known := by
  intro s a s' hs h
  rw [run_get] at h
  cases h
  exact ⟨hs, hs⟩

theorem Run.keepsClean_bindName (name : String) {v : Value} (hv : v.Clean known) :
    (bindName name v).KeepsClean known fun _ => True := by
  intro s a s' hs h
  unfold bindName at h
  rw [run_modify] at h
  cases h
  exact ⟨trivial, hs.insert name hv⟩

theorem Run.keepsClean_ofResult {offset : Nat} {result : Except Failure α}
    (h : ∀ a, result = .ok a → good a) : (ofResult offset result).KeepsClean known good := by
  intro s a s' hs hr
  rw [run_ofResult] at hr
  cases result with
  | error failure => cases hr
  | ok b =>
    cases hr
    exact ⟨h _ rfl, hs⟩

/-- The environment after a call has to be clean only if the call succeeds. -/
theorem Run.keepsClean_setEnv {offset : Nat} {result : Except Failure α} {env : Environment}
    (h : ∀ a, result = .ok a → good a ∧ env.Clean known) :
    (do modify fun s => { s with env := env }; ofResult offset result : Run α).KeepsClean known
      good := by
  intro s a s' _ hr
  rw [run_bind, run_modify] at hr
  dsimp only at hr
  rw [run_ofResult] at hr
  cases result with
  | error failure => cases hr
  | ok b =>
    cases hr
    exact h _ rfl

end Runs

/-! ## Callables that keep values clean -/

variable (known) in
/-- Known callables of the host give clean values, and leave the environment clean, when what they
are given is clean; its direct callables are not known. -/
structure Host.KeepsClean (host : Host) : Prop where
  apply {v result : Value} {callable : Handle String} {number : Nat} {args : Arguments} :
    known v → v.callee? = some (.normal callable) → args.Clean known →
      host.apply callable.code number args = .ok result → result.Clean known
  applyInEnv {result : Value} {callable : Handle String} {number : Nat} {env after : Environment}
    {args : Arguments} :
    known (.wrapper (.normalWithEnv callable)) → env.Clean known → args.Clean known →
      host.applyInEnv callable.code number env args = (.ok result, after) →
        result.Clean known ∧ after.Clean known
  evaluate {result : Value} {code phrase : String} {origin : Origin} {number : Nat}
    {env : Environment} :
    known (.evaluator ⟨.host code, origin⟩) → env.Clean known →
      host.evaluate code number phrase env = .ok result → result.Clean known
  direct (code : String) (origin : Origin) : ¬known (.wrapper (.direct ⟨.host code, origin⟩))

variable {host : Host}

theorem Host.KeepsClean.evaluatePhrase (hhost : host.KeepsClean known)
    {callable : Handle EvaluatorCode} {number : Nat} {phrase : String} {env : Environment}
    {v : Value} (hknown : known (.evaluator callable)) (henv : env.Clean known)
    (hv : host.evaluatePhrase callable number phrase env = .ok v) : v.Clean known := by
  obtain ⟨code, origin⟩ := callable
  unfold Host.evaluatePhrase at hv
  split at hv
  · cases he : Phrase.evaluate phrase env with
    | error fault =>
      rw [he] at hv
      cases hv
    | ok w =>
      rw [he] at hv
      obtain rfl := Except.ok.inj hv
      exact Phrase.evaluate_clean henv he
  · next code hcode =>
    obtain rfl : _ = EvaluatorCode.host code := hcode
    exact hhost.evaluate hknown henv hv

theorem Host.KeepsClean.phrase (hhost : host.KeepsClean known) (phrase : String) (offset : Nat) :
    (host.phrase phrase offset).KeepsClean known (Value.Clean known) := by
  unfold Host.phrase
  refine (keepsClean_record _).bind fun number _ => ?_
  refine keepsClean_get.bind fun s hs => ?_
  dsimp only
  split
  · next callable hbound =>
    have hknown : known (.evaluator callable) := hs _ _ hbound
    exact keepsClean_ofResult fun v hv => hhost.evaluatePhrase hknown hs hv
  · exact keepsClean_fail _ _
  · split
    · exact keepsClean_pure trivial
    · exact keepsClean_fail _ _

/-! ## Control commands -/

variable (known) in
/-- The parts of the call keep values clean, and its body never means nothing. -/
structure Call.KeepsClean (call : Call) : Prop where
  operands : ∀ item ∈ call.operands, item.value.KeepsClean known (Value.Clean known)
  body : ∀ body ∈ call.body, body.KeepsClean known fun v => v ≠ .nothing ∧ v.Clean known
  evaluate (phrase : String) (offset : Nat) :
    (call.evaluate phrase offset).KeepsClean known (Value.Clean known)

theorem Control.items?_clean {v : Value} {items : List Value} (hv : v.Clean known)
    (h : items? v = some items) : ∀ item ∈ items, item.Clean known := by
  cases v <;> simp only [items?, Option.some.injEq, reduceCtorEq] at h
  all_goals subst h
  · simp only [List.mem_map]
    rintro _ ⟨c, -, rfl⟩
    trivial
  · exact Value.allClean_iff.1 hv
  · simp only [List.mem_map]
    rintro _ ⟨key, -, rfl⟩
    trivial
  · exact Value.allClean_iff.1 hv.2

namespace Call.KeepsClean

variable {call : Call} (h : call.KeepsClean known)

include h

theorem operandValue {item : Operand} (hitem : item ∈ call.operands) :
    (call.operandValue item).KeepsClean known (Value.Clean known) := by
  unfold Call.operandValue
  split
  · exact h.evaluate _ _
  · exact h.operands item hitem

theorem parts (name : String) (usage : RenderFault) :
    (call.parts name usage).KeepsClean known fun found =>
      found.2.KeepsClean known fun v => v ≠ .nothing ∧ v.Clean known := by
  unfold Call.parts
  split
  · exact keepsClean_fail _ _
  · exact keepsClean_fail _ _
  · next options body _ hbody => exact keepsClean_pure (h.body body hbody)

theorem conditional : (Control.conditional call).KeepsClean known (Value.Clean known) := by
  unfold Control.conditional
  refine (h.parts _ _).bind fun found hbody => ?_
  dsimp only
  split
  · exact keepsClean_fail _ _
  · next negated cond hcond =>
    refine (h.operandValue (Control.condition?_mem hcond)).bind fun v _ => ?_
    split
    · exact fun s w s' hs hw => ⟨(hbody s w s' hs hw).1.2, (hbody s w s' hs hw).2⟩
    · exact keepsClean_pure trivial

omit h in
/-- A loop puts no nothing into its list: its body never means nothing. -/
theorem iterate {body : Run Value}
    (hbody : body.KeepsClean known fun v => v ≠ .nothing ∧ v.Clean known) (name : String)
    {items : List Value} (hitems : ∀ item ∈ items, item.Clean known) :
    (Control.iterate name body items).KeepsClean known fun vs =>
      (Value.fragments vs).Clean known := by
  induction items with
  | nil => exact keepsClean_pure ⟨List.not_mem_nil, trivial⟩
  | cons item rest ih =>
    obtain ⟨hitem, hrest⟩ := List.forall_mem_cons.1 hitems
    unfold Control.iterate
    refine (keepsClean_bindName name hitem).bind fun _ _ => ?_
    refine hbody.bind fun v hv => ?_
    refine (ih hrest).bind fun vs hvs => ?_
    exact keepsClean_pure (Value.fragments_clean_cons hv.1 hv.2 hvs)

theorem loop : (Control.loop call).KeepsClean known (Value.Clean known) := by
  unfold Control.loop
  refine (h.parts _ _).bind fun found hbody => ?_
  dsimp only
  split
  · exact keepsClean_fail _ _
  · next name iterable hheader =>
    refine (h.operandValue (Control.header?_mem hheader)).bind fun v hv => ?_
    split
    · exact keepsClean_fail _ _
    · next items hitems =>
      refine (iterate hbody name (Control.items?_clean hv hitems)).bind fun vs hvs => ?_
      exact keepsClean_pure hvs

end Call.KeepsClean

/-! ## Arguments -/

theorem Arguments.Clean.addPositional {args : Arguments} (h : args.Clean known) {v : Value}
    (hv : v.Clean known) : (args.addPositional v).Clean known := by
  refine ⟨?_, h.2⟩
  simp only [Arguments.addPositional, Value.allClean_iff, List.forall_mem_append,
    List.forall_mem_singleton]
  exact ⟨Value.allClean_iff.1 h.1, hv⟩

theorem Arguments.Clean.addKeyword {args : Arguments} (h : args.Clean known) (name : String)
    {v : Value} (hv : v.Clean known) : (args.addKeyword name v).Clean known := by
  refine ⟨h.1, ?_⟩
  simp only [Arguments.addKeyword, Value.entriesClean_iff, List.forall_mem_append,
    List.forall_mem_singleton]
  exact ⟨Value.entriesClean_iff.1 h.2, hv⟩

theorem Operand.positional_keepsClean {item : Operand}
    (h : item.value.KeepsClean known (Value.Clean known)) (groupStart : Nat) (inKeywords : Bool) :
    (item.positional groupStart inKeywords).KeepsClean known (Value.Clean known) := by
  unfold Operand.positional
  split
  · exact keepsClean_fail _ _
  · split
    · exact keepsClean_fail _ _
    · exact h

mutual

theorem Arguments.collect_keepsClean (groupStart : Nat) :
    ∀ (items : List Operand) (inKeywords : Bool) (args : Arguments),
      (∀ item ∈ items, item.value.KeepsClean known (Value.Clean known)) → args.Clean known →
        (collect groupStart inKeywords args items).KeepsClean known (Arguments.Clean known)
  | [], inKeywords, args, _, hargs => keepsClean_pure hargs
  | [item], inKeywords, args, h, hargs => by
    have hitem := h item (List.mem_singleton_self item)
    refine (Operand.positional_keepsClean hitem groupStart inKeywords).bind fun v hv => ?_
    exact keepsClean_pure (hargs.addPositional hv)
  | item :: next :: rest, inKeywords, args, h, hargs => by
    obtain ⟨hitem, htail⟩ := List.forall_mem_cons.1 h
    obtain ⟨-, hrest⟩ := List.forall_mem_cons.1 htail
    rw [collect]
    split
    · refine (Operand.positional_keepsClean hitem groupStart inKeywords).bind fun v hv => ?_
      exact separated_keepsClean groupStart (next :: rest) _ _ htail (hargs.addPositional hv)
    · next name _ =>
      split
      · exact keepsClean_fail _ _
      · next value afterValue =>
        obtain ⟨hvalue, hafter⟩ := List.forall_mem_cons.1 hrest
        split
        · exact keepsClean_fail _ _
        · split
          · exact keepsClean_fail _ _
          · refine hvalue.bind fun v hv => ?_
            exact separated_keepsClean groupStart afterValue _ _ hafter (hargs.addKeyword name hv)

theorem Arguments.separated_keepsClean (groupStart : Nat) :
    ∀ (items : List Operand) (inKeywords : Bool) (args : Arguments),
      (∀ item ∈ items, item.value.KeepsClean known (Value.Clean known)) → args.Clean known →
        (separated groupStart inKeywords args items).KeepsClean known (Arguments.Clean known)
  | [], inKeywords, args, _, hargs => keepsClean_pure hargs
  | item :: rest, inKeywords, args, h, hargs => by
    rw [separated]
    split
    · exact collect_keepsClean groupStart rest _ _ (List.forall_mem_cons.1 h).2 hargs
    · exact keepsClean_fail _ _

end

theorem Call.KeepsClean.arguments {call : Call} (h : call.KeepsClean known) :
    call.arguments.KeepsClean known (Arguments.Clean known) := by
  have hempty : Arguments.empty.Clean known := ⟨trivial, trivial⟩
  unfold Call.arguments
  cases hb : call.body with
  | none =>
    refine (keepsClean_pure hempty).bind fun args hargs => ?_
    split
    · exact Arguments.collect_keepsClean _ _ _ _ h.operands hargs
    · exact keepsClean_pure hargs
  | some body =>
    refine (h.body body hb).bind fun v hv => ?_
    refine (keepsClean_pure (hempty.addPositional hv.2)).bind fun args hargs => ?_
    split
    · exact Arguments.collect_keepsClean _ _ _ _ h.operands hargs
    · exact keepsClean_pure hargs

/-! ## Calls -/

namespace Host.KeepsClean

variable {c : Call} (hhost : host.KeepsClean known) (h : c.KeepsClean known)

include hhost h

theorem callThrough {v : Value} {w : Wrapper} (hv : v.Clean known) (hw : v.callee? = some w) :
    (host.callThrough c w).KeepsClean known (Value.Clean known) := by
  have hknown : known v := by
    cases v <;> simp only [Value.callee?, reduceCtorEq] at hw <;> exact hv
  cases w with
  | direct callable =>
    obtain ⟨code, origin⟩ := callable
    refine (keepsClean_record _).bind fun _ _ => ?_
    cases code with
    | conditional => exact h.conditional
    | loop => exact h.loop
    | host code =>
      cases v <;> simp only [Value.callee?, Option.some.injEq, reduceCtorEq] at hw
      subst hw
      exact absurd hknown (hhost.direct code origin)
  | normal callable =>
    refine h.arguments.bind fun args hargs => ?_
    refine (keepsClean_record _).bind fun number _ => ?_
    exact keepsClean_ofResult fun result hresult => hhost.apply hknown hw hargs hresult
  | normalWithEnv callable =>
    cases v <;> simp only [Value.callee?, Option.some.injEq, reduceCtorEq] at hw
    subst hw
    refine h.arguments.bind fun args hargs => ?_
    refine (keepsClean_record _).bind fun number _ => ?_
    refine keepsClean_get.bind fun s hs => ?_
    exact keepsClean_setEnv fun result hresult =>
      hhost.applyInEnv hknown hs hargs (Prod.ext hresult rfl)

theorem call : (host.call c).KeepsClean known (Value.Clean known) := by
  unfold Host.call
  refine (hhost.phrase _ _).bind fun v hv => ?_
  split
  · exact keepsClean_pure hv
  · split
    · exact hhost.callThrough h hv rfl
    · exact hhost.callThrough h hv rfl
    · exact keepsClean_fail _ _

end Host.KeepsClean

/-! ## Trees -/

theorem Text.meaning_clean (t : Text) : t.meaning ≠ .nothing ∧ t.meaning.Clean known := by
  unfold meaning
  split <;> exact ⟨nofun, trivial⟩

mutual

theorem Fragment.meaning_keepsClean (hhost : host.KeepsClean known) : ∀ f : Fragment,
    (f.meaning host).KeepsClean known (Value.Clean known)
  | .text t => keepsClean_pure t.meaning_clean.2
  | .command c => Command.meaning_keepsClean hhost c
  | .block b => (Block.meaning_keepsClean hhost b).bind fun _ hitems => keepsClean_pure hitems

/-- A block means a clean fragment list without nothings. -/
theorem Block.meaning_keepsClean (hhost : host.KeepsClean known) : ∀ b : Block,
    (b.meaning host).KeepsClean known fun items => (Value.fragments items).Clean known
  | ⟨_, children, _⟩ => Fragment.meanings_keepClean hhost children

theorem Fragment.meanings_keepClean (hhost : host.KeepsClean known) : ∀ fs : List Fragment,
    (Fragment.meanings host fs).KeepsClean known fun items => (Value.fragments items).Clean known
  | [] => keepsClean_pure ⟨List.not_mem_nil, trivial⟩
  | f :: fs => by
    rw [Fragment.meanings]
    refine (Fragment.meaning_keepsClean hhost f).bind fun v hv => ?_
    refine (Fragment.meanings_keepClean hhost fs).bind fun vs hvs => ?_
    split
    · exact keepsClean_pure hvs
    · next hnothing =>
      rw [Value.isNothing_iff] at hnothing
      exact keepsClean_pure (Value.fragments_clean_cons hnothing hv hvs)

theorem Command.meaning_keepsClean (hhost : host.KeepsClean known) : ∀ c : Command,
    (c.meaning host).KeepsClean known (Value.Clean known)
  | ⟨span, phrase, e, options, body⟩ => by
    rw [Command.meaning_eq_call]
    exact hhost.call ⟨Group.optionOperands_keepClean hhost options,
      Body.optionMeaning_keepsClean hhost body, hhost.phrase⟩

theorem Group.optionOperands_keepClean (hhost : host.KeepsClean known) : ∀ o : Option Group,
    ∀ item ∈ Group.optionOperands host o, item.value.KeepsClean known (Value.Clean known)
  | none => List.forall_mem_nil _
  | some ⟨_, children⟩ => Token.operands_keepClean hhost children

/-- A body means a text or a fragment list, never nothing. -/
theorem Body.optionMeaning_keepsClean (hhost : host.KeepsClean known) : ∀ o : Option Body,
    ∀ body ∈ Body.optionMeaning host o,
      body.KeepsClean known fun v => v ≠ .nothing ∧ v.Clean known
  | none => nofun
  | some (.text t) => by
    rintro _ ⟨⟩
    exact keepsClean_pure t.meaning_clean
  | some (.block b) => by
    rintro _ ⟨⟩
    refine (Block.meaning_keepsClean hhost b).bind fun items hitems => ?_
    exact keepsClean_pure ⟨nofun, hitems⟩

theorem Token.operands_keepClean (hhost : host.KeepsClean known) : ∀ ts : List Token,
    ∀ item ∈ Token.operands host ts, item.value.KeepsClean known (Value.Clean known)
  | [] => List.forall_mem_nil _
  | t :: ts => List.forall_mem_cons.2
    ⟨Token.meaning_keepsClean hhost t, Token.operands_keepClean hhost ts⟩

theorem Token.meaning_keepsClean (hhost : host.KeepsClean known) : ∀ t : Token,
    (t.meaning host).KeepsClean known (Value.Clean known)
  | .identifier _ _ => keepsClean_fail _ _
  | .operator _ _ => keepsClean_fail _ _
  | .number _ value => by
    rw [Token.meaning]
    cases value <;> exact keepsClean_pure trivial
  | .group _ => keepsClean_fail _ _
  | .block b => (Block.meaning_keepsClean hhost b).bind fun _ hitems => keepsClean_pure hitems
  | .text t => keepsClean_pure t.meaning_clean.2
  | .command c => Command.meaning_keepsClean hhost c

end

/-! ## Flattening -/

/-- The value is neither nothing nor a fragment list. -/
def Value.IsLeaf (v : Value) : Prop :=
  v ≠ .nothing ∧ ∀ items, v ≠ .fragments items

theorem Value.leaves_eq_self {v : Value} (h : v.IsLeaf) : v.leaves = [v] := by
  cases v with
  | fragments items => exact absurd rfl (h.2 items)
  | _ => rfl

mutual

theorem Value.leaves_of_clean : ∀ v : Value, v ≠ .nothing → v.Clean known →
    ∀ leaf ∈ v.leaves, leaf.IsLeaf
  | .fragments items, _, h => Value.leavesOfItems_of_clean items h.1 h.2
  | .nothing, h, _ => absurd rfl h
  | .bool _, _, _ | .int _, _, _ | .float _, _, _ | .string _, _, _ | .list _, _, _
  | .map _, _, _ | .function _, _, _ | .wrapper _, _, _ | .evaluator _, _, _ => by
    simp [leaves, IsLeaf]

theorem Value.leavesOfItems_of_clean : ∀ items : List Value, .nothing ∉ items →
    Value.AllClean known items → ∀ leaf ∈ Value.leavesOfItems items, leaf.IsLeaf
  | [], _, _ => List.forall_mem_nil _
  | v :: vs, hnothing, h => by
    rw [List.mem_cons, not_or] at hnothing
    refine List.forall_mem_append.2 ⟨?_, ?_⟩
    · exact Value.leaves_of_clean v (Ne.symm hnothing.1) h.1
    · exact Value.leavesOfItems_of_clean vs hnothing.2 h.2

end

/-- What flattening gives for clean values is neither nothing nor a fragment list. -/
theorem Value.flatten_of_clean {items : List Value} (h : ∀ v ∈ items, v.Clean known) :
    ∀ leaf ∈ flatten items, leaf.IsLeaf := by
  induction items with
  | nil => exact List.forall_mem_nil _
  | cons v vs ih =>
    obtain ⟨hv, hvs⟩ := List.forall_mem_cons.1 h
    unfold flatten
    split
    · exact ih hvs
    · next hnothing =>
      rw [isNothing_iff] at hnothing
      exact List.forall_mem_append.2 ⟨v.leaves_of_clean hnothing hv, ih hvs⟩

theorem Value.flatten_eq_self {items : List Value} (h : ∀ v ∈ items, v.IsLeaf) :
    flatten items = items := by
  induction items with
  | nil => rfl
  | cons v vs ih =>
    obtain ⟨hv, hvs⟩ := List.forall_mem_cons.1 h
    have hnothing : v.isNothing = false := by
      rw [Bool.eq_false_iff, ne_eq, isNothing_iff]
      exact hv.1
    simp [flatten, hnothing, leaves_eq_self hv, ih hvs]

/-! ## Interpretation -/

/-- Where the environment is clean and the callables keep values clean, a successful run gives a
list of clean values without nothings, and leaves the environment clean. Flattening the list gives
neither nothings nor fragment lists, and flattening again changes nothing. -/
theorem interpret_clean (hhost : host.KeepsClean known) {source : String} {tree : Block}
    {s after : State} {items : List Value} (henv : s.env.Clean known)
    (h : interpret host source tree s = (.ok items, after)) :
    .nothing ∉ items ∧ (∀ v ∈ items, v.Clean known) ∧ after.env.Clean known ∧
      (∀ v ∈ Value.flatten items, v ≠ .nothing ∧ ∀ inner, v ≠ .fragments inner) ∧
      Value.flatten (Value.flatten items) = Value.flatten items := by
  have hrun : (tree.meaning host).run.run s = (.ok items, after) := by
    unfold interpret at h
    cases hr : (tree.meaning host).run.run s with
    | mk result last =>
      rw [hr] at h
      cases result with
      | error e => cases h
      | ok found => exact h
  obtain ⟨⟨hnothing, hitems⟩, hafter⟩ := Block.meaning_keepsClean hhost tree s items after henv hrun
  rw [Value.allClean_iff] at hitems
  have hflat := Value.flatten_of_clean hitems
  exact ⟨hnothing, hitems, hafter, hflat, Value.flatten_eq_self hflat⟩

end Clean

/-- The value is no direct callable of a host. -/
def Value.NotHostDirect (v : Value) : Prop :=
  ∀ code origin, v ≠ .wrapper (.direct ⟨.host code, origin⟩)

/-- A host whose functions give the list of their arguments. -/
def Host.listing : Host :=
  { Host.none with apply := fun _ _ args => .ok (.list args.positional) }

/-- The standard environment with a function of the host and a list that has a nothing in it. -/
def State.listing : State :=
  .ofEnv ((Environment.standard.insert "f" (.function ⟨"list", .given 0⟩)).insert "xs"
    (.list [.nothing, .fragments [.string "a", .int 1]]))

theorem Host.listing_keepsClean : Host.listing.KeepsClean Value.NotHostDirect where
  apply {v result callable number args} _ _ hargs hresult := by
    obtain rfl : Value.list args.positional = result := Except.ok.inj hresult
    exact hargs.1
  applyInEnv _ _ _ hresult := by cases hresult
  evaluate _ _ hresult := by cases hresult
  direct code origin h := h code origin rfl

theorem State.listing_clean : State.listing.env.Clean Value.NotHostDirect := by
  have hempty : Environment.empty.Clean Value.NotHostDirect := nofun
  have hstandard : Environment.standard.Clean Value.NotHostDirect := by
    refine ((hempty.insert _ ?_).insert _ ?_).insert _ ?_ <;>
      simp [Value.Clean, Value.NotHostDirect]
  refine (hstandard.insert _ ?_).insert _ ?_ <;>
    simp [Value.Clean, Value.AllClean, Value.NotHostDirect]

/-- A loop over a list with a nothing in it gives a list without. -/
theorem interpret_clean_loop :
    ∃ tree items after, parse .standard "@for[x in xs]\x7b@x;@f[@x]\x7d" = .ok tree ∧
      Host.listing.KeepsClean Value.NotHostDirect ∧
      State.listing.env.Clean Value.NotHostDirect ∧
      interpret .listing "@for[x in xs]\x7b@x;@f[@x]\x7d" tree .listing = (.ok items, after) ∧
      Value.render items = ";[]a1;[a1]" ∧ .nothing ∉ items ∧
      (∀ v ∈ items, v.Clean Value.NotHostDirect) ∧ after.env.Clean Value.NotHostDirect ∧
      Value.flatten (Value.flatten items) = Value.flatten items := by
  have hrender : ((run .listing .standard "@for[x in xs]\x7b@x;@f[@x]\x7d" .listing).1.map
      Value.render).toOption = some ";[]a1;[a1]" := by
    decide +kernel
  obtain ⟨items, hrun, hitems⟩ := exists_values_of_render hrender
  obtain ⟨tree, htree, -⟩ := exists_tree_of_run hrun
  rw [run, htree] at hrun
  obtain ⟨hnothing, hall, hafter, -, hflat⟩ :=
    interpret_clean Host.listing_keepsClean State.listing_clean hrun
  exact ⟨tree, items, _, htree, Host.listing_keepsClean, State.listing_clean, hrun, hitems,
    hnothing, hall, hafter, hflat⟩

end Prosemark
