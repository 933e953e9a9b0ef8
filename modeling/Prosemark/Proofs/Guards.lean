import Prosemark.Proofs.Positions
import Prosemark.Proofs.Rules
import Prosemark.Tree.Guarded

/-!
# Guards that are met

A guarded reader follows another reader if both end with the same flaw, or both with a result, and
the results are related (`Follows`); that goes on along a sequence of readers (`Follows.bind`). The
one thing that may keep it from doing so is an expression that is refused, for marks of which more
is known (`Context.Refuses`). Where a guard is met, the reader that has it does what it would do
without. At the offset of a cursor in the source the scanners find what stands at that cursor, and a
left text that they find opens a fence, so the readers that call no others follow those of cursors.
-/

namespace Prosemark

open Prosemark.Parser

namespace Fence

/-- The left text of a fence opens that fence. -/
theorem ofLeft?_left (fence : Fence) : ofLeft? fence.left = some fence := by
  have htake := fence.takeWhile_hash_left []
  have hdrop := fence.dropWhile_hash_left []
  rw [List.append_nil] at htake hdrop
  simp only [ofLeft?, htake, hdrop, List.length_replicate]
  obtain ⟨d, hashes⟩ := fence
  cases d <;> rfl

/-- The right text of a fence ends with `#` if the fence is padded. -/
theorem getLast?_right (fence : Fence) : fence.right.getLast? = some '#' ↔ 0 < fence.hashes := by
  obtain ⟨d, hashes⟩ := fence
  cases hashes with
  | zero => simpa [right] using closing_ne_hash d
  | succ k => simp [right, List.getLast?_cons, List.getLast?_replicate]

end Fence

namespace Guarded

/-! ## Runs -/

section Runs

variable {α β γ δ : Type} {state after : State} {R : List (List Char) → Prop}

theorem run_bind_of_ok {g : Reader α} {f : α → Reader β} {a : α}
    (h : g.run state = .ok (a, after)) : (g >>= f).run state = (f a).run after := by
  rw [StateT.run_bind, h]
  rfl

theorem run_bind_of_error {g : Reader α} {f : α → Reader β} {stop : Stop}
    (h : g.run state = .error stop) : (g >>= f).run state = .error stop := by
  rw [StateT.run_bind, h]
  rfl

/-- Both end with the same flaw, or both with a result, and the results are related, or else the
second one is refused an expression for marks of which `R` holds. -/
inductive Follows (R : List (List Char) → Prop) (Q : β → α → State → Prop) :
    Except Flaw β → Except Stop (α × State) → Prop
  | error (flaw : Flaw) : Follows R Q (.error flaw) (.error (.flaw flaw))
  | ok {b : β} {a : α} {after : State} (h : Q b a after) : Follows R Q (.ok b) (.ok (a, after))
  | refused {r : Except Flaw β} {marks : List (List Char)} (h : R marks) :
    Follows R Q r (.error (.marks marks))

theorem Follows.bind {P : β → α → State → Prop} {Q : δ → γ → State → Prop} {r : Except Flaw β}
    {g : Reader α} {k : β → Except Flaw δ} {f : α → Reader γ} (h : Follows R P r (g.run state))
    (hf : ∀ b a after, P b a after → Follows R Q (k b) ((f a).run after)) :
    Follows R Q (r >>= k) ((g >>= f).run state) := by
  rw [StateT.run_bind]
  generalize g.run state = result at h
  cases h with
  | error flaw => exact .error flaw
  | ok h => exact hf _ _ _ h
  | refused h => exact .refused h

theorem Follows.bind_checked {P : β → α → State → Prop} {Q : δ → γ → State → Prop}
    {r : Except Flaw β} {check : β → Except Flaw Unit} {g : Reader α} {k : β → Except Flaw δ}
    {f : α → Reader γ}
    (h : Follows R P (do
      let b ← r
      check b
      return b) (g.run state))
    (hf : ∀ b a after, P b a after → Follows R Q (k b) ((f a).run after)) :
    Follows R Q (do
      let b ← r
      check b
      k b) ((g >>= f).run state) := by
  simpa only [bind_assoc, pure_bind] using h.bind hf

/-- The run ends with a flaw, or with a result of which `P` holds, or it is refused an expression
for marks of which `R` holds. No other guard stops it. -/
inductive Safe (R : List (List Char) → Prop) (P : α → State → Prop) :
    Except Stop (α × State) → Prop
  | flaw (flaw : Flaw) : Safe R P (.error (.flaw flaw))
  | ok {a : α} {after : State} (h : P a after) : Safe R P (.ok (a, after))
  | refused {marks : List (List Char)} (h : R marks) : Safe R P (.error (.marks marks))

theorem Follows.safe {Q : β → α → State → Prop} {P : α → State → Prop} {r : Except Flaw β}
    {result : Except Stop (α × State)} (h : Follows R Q r result)
    (hP : ∀ b a after, Q b a after → P a after) : Safe R P result := by
  cases h with
  | error flaw => exact .flaw flaw
  | ok h => exact .ok (hP _ _ _ h)
  | refused h => exact .refused h

theorem Safe.bind {P : α → State → Prop} {Q : γ → State → Prop} {g : Reader α} {f : α → Reader γ}
    (h : Safe R P (g.run state)) (hf : ∀ a after, P a after → Safe R Q ((f a).run after)) :
    Safe R Q ((g >>= f).run state) := by
  rw [StateT.run_bind]
  generalize g.run state = result at h
  cases h with
  | flaw flaw => exact .flaw flaw
  | ok h => exact hf _ _ h
  | refused h => exact .refused h

end Runs

/-- Whether there is a scope around. -/
def State.isNested (state : State) : Bool :=
  state.depth != 0

/-! ## Guards that are met -/

section Guards

variable {state : State} {start stop offset outer : Nat} {closing : Option Fence}

theorem run_spanOf (h : start ≤ stop) :
    (spanOf start stop).run state = .ok (⟨start, stop⟩, state) := by
  rw [spanOf, if_pos h]
  rfl

theorem run_goOn (h : state.reached ≤ offset) : (goOn offset).run state = .ok ((), state) := by
  have hnot : ¬offset < state.reached := Nat.not_lt.2 h
  simp only [goOn, StateT.run_bind, StateT.run_get, pure_bind, hnot, if_false]
  rfl

theorem run_startAt (h : state.reached ≤ offset) :
    (startAt offset).run state = .ok ((), ⟨state.depth, offset + 1⟩) := by
  rw [startAt, run_bind_of_ok (run_goOn h)]
  rfl

theorem run_enter : (enter closing).run state =
    .ok ((), ⟨within closing state.depth, state.reached⟩) :=
  rfl

theorem run_leave (h : state.depth = within closing outer) :
    (leave closing).run state = .ok ((), ⟨outer, state.reached⟩) := by
  obtain ⟨depth, reached⟩ := state
  obtain rfl : depth = within closing outer := h
  cases closing <;> rfl

end Guards

/-! ## Expressions -/

namespace Context

/-- The fence is given, or its left text stands in the source. -/
def Meets (ctx : Context) (given : Option Fence) (fence : Fence) : Prop :=
  fence ∈ given ∨ fence.left <:+: ctx.source.toList

/-- The library refuses the expression for the marks, which end what is in a fence that is given or
stands in the source. -/
def Refuses (ctx : Context) (given : Option Fence) (marks : List (List Char)) : Prop :=
  ctx.builds marks = false ∧
    ∃ fence, ctx.Meets given fence ∧ (marks = [[ctx.sw.char], fence.right] ∨ marks = [fence.right])

theorem meets_of_passes {ctx : Context} (given : Option Fence) {fence : Fence} {cur start : Cursor}
    (hin : cur.In ctx.source) (hleft : cur.Passes fence.left start) : ctx.Meets given fence := by
  obtain ⟨before, hbefore⟩ := hin
  refine .inr ⟨before, start.rest, ?_⟩
  have hsource : ctx.source.toList = before ++ cur.rest := hbefore.rest_eq
  rw [hsource, hleft.rest_eq, List.append_assoc]

end Context

section Expressions

variable {ctx : Context} {given closing : Option Fence} {state : State} {α β : Type}
  {marks : Fence → List (List Char)}
  (hmarks : ∀ fence, marks fence = [[ctx.sw.char], fence.right] ∨ marks fence = [fence.right])
  (hmeets : ∀ fence ∈ closing, ctx.Meets given fence)

include hmarks hmeets

theorem run_build (state : State) : (ctx.build (closing.map marks)).run state = .ok ((), state) ∨
    ∃ refused, ctx.Refuses given refused ∧
      (ctx.build (closing.map marks)).run state = .error (.marks refused) := by
  cases closing with
  | none => exact .inl rfl
  | some fence =>
    simp only [Context.build, Option.map_some]
    cases hbuilds : ctx.builds (marks fence) with
    | true => exact .inl rfl
    | false => exact .inr ⟨_, ⟨hbuilds, fence, hmeets fence rfl, hmarks fence⟩, rfl⟩

/-- Where an expression is refused, there is nothing to show about what comes after it. -/
theorem Follows.after_build {Q : β → α → State → Prop} {r : Except Flaw β} {g : Reader α}
    (h : Follows (ctx.Refuses given) Q r (g.run state)) :
    Follows (ctx.Refuses given) Q r ((ctx.build (closing.map marks) >>= fun _ => g).run state) := by
  obtain hbuilt | ⟨refused, hrefused, hrun⟩ := run_build hmarks hmeets state
  · rwa [run_bind_of_ok hbuilt]
  · rw [run_bind_of_error hrun]
    exact .refused hrefused

theorem Safe.after_build {P : α → State → Prop} {g : Reader α}
    (h : Safe (ctx.Refuses given) P (g.run state)) :
    Safe (ctx.Refuses given) P ((ctx.build (closing.map marks) >>= fun _ => g).run state) := by
  obtain hbuilt | ⟨refused, hrefused, hrun⟩ := run_build hmarks hmeets state
  · rwa [run_bind_of_ok hbuilt]
  · rw [run_bind_of_error hrun]
    exact .refused hrefused

end Expressions

/-! ## Looking into the source -/

section Lookups

variable {ctx : Context} {cur : Cursor} {state : State} {d : Delimiter} {closing : Option Fence}
  {opener : Nat} {R : List (List Char) → Prop}

theorem rest?_eq (hin : cur.In ctx.source) : ctx.rest? cur.offset = some cur.rest := by
  rw [Context.rest?, Cursor.seek?_start_eq_some_iff.2 ⟨hin, rfl⟩]
  rfl

theorem match?_eq (hin : cur.In ctx.source) (scan : (cs : List Char) → Option (Cut cs)) :
    ctx.match? scan cur.offset = (scan cur.rest).map (Found.ofCut cur.offset) := by
  rw [Context.match?, rest?_eq hin, Option.map_eq_bind]
  rfl

theorem numeral?_eq (hin : cur.In ctx.source) : ctx.numeral? cur.offset =
    (Numeral.cut? cur.rest).map fun p => (p.1, Found.ofCut cur.offset p.2) := by
  rw [Context.numeral?, rest?_eq hin, Option.map_eq_bind]
  rfl

theorem skipBlanks_eq (hin : cur.In ctx.source) :
    ctx.skipBlanks cur.offset = (cur.skip Charset.isBlank).offset := by
  simp only [Context.skipBlanks, rest?_eq hin]
  rfl

/-- Where a fence opens, its left text is accepted. -/
theorem run_opening? (hin : cur.In ctx.source) :
    (ctx.opening? d cur.offset).run state =
      .ok ((Fence.cut? d cur.rest).map fun p => (p.1, Found.ofCut cur.offset p.2), state) := by
  rw [Context.opening?, match?_eq hin]
  cases hcut : Fence.cut? d cur.rest with
  | none => rfl
  | some p =>
    obtain ⟨fence, cut⟩ := p
    have hleft : Fence.ofLeft? cut.piece = some fence := by
      rw [(Fence.cut?_piece hcut).2, Fence.ofLeft?_left]
    simp only [Option.map_some, Found.ofCut, hleft]
    rfl

/-- The scope that ends with the right text of a fence, or with the document. -/
def scopeOf (opener : Nat) : Option Fence → Scope
  | none => .document
  | some fence => .braces fence opener

theorem right_scopeOf : (scopeOf opener closing).right = rightOf closing := by
  cases closing <;> rfl

/-- A lexeme takes up some of the text. -/
theorem past_spec {source : String} (hin : cur.In source) (cut : Cut cur.rest) :
    (cur.past cut).In source ∧ (cur.past cut).rest.length < cur.rest.length ∧
      cur.offset + 1 ≤ (cur.past cut).offset := by
  refine ⟨hin.passes (cur.passes_past cut), cur.past_lt cut, ?_⟩
  have hwidth := width_pos cut.piece_ne_nil
  show cur.offset + 1 ≤ cur.offset + width cut.piece
  omega

theorem past_break_in {source : String} (hin : cur.In source) (brk : Break cur.rest) :
    (⟨cur.offset + width brk.inner + width brk.mark, brk.rest⟩ : Cursor).In source := by
  have hinner := hin.passes (Cursor.passes_of_rest_eq brk.whole.symm)
  exact hinner.passes (Cursor.passes_of_rest_eq rfl)

theorem break?_eq (hin : cur.In ctx.source) (marks : List (List Char)) :
    ctx.break? (some marks) cur.offset =
      (Break.find? marks cur.rest).map (FoundBreak.ofBreak cur.offset) := by
  rw [Context.break?, rest?_eq hin, Option.map_eq_bind]
  rfl

/-- A switch takes up some of the text. -/
theorem past_switch_lt {sw : Switch} {brk : Break cur.rest} (h : brk.mark = [sw.char]) :
    brk.rest.length < cur.rest.length ∧
      cur.offset + 1 ≤ cur.offset + width brk.inner + width brk.mark := by
  have hmark : brk.mark ≠ [] := by
    rw [h]
    exact List.cons_ne_nil sw.char []
  have hwidth := width_pos hmark
  exact ⟨brk.rest_lt hmark, by omega⟩

/-- Prose of a document always ends. -/
theorem run_nextBreak_document (hin : cur.In ctx.source) :
    (ctx.nextBreak (ctx.fragmentMarks none) none opener cur.offset).run state =
      .ok (.ofBreak cur.offset (Break.ofDocument ctx.sw cur.rest), state) := by
  simp only [Context.nextBreak, Context.break?, Context.fragmentMarks, Option.map_none,
    rest?_eq hin]
  rfl

theorem fragmentBreak_follows (hin : cur.In ctx.source) :
    Follows R (fun brk found after => found = .ofBreak cur.offset brk ∧ after = state ∧
        (brk.mark = [ctx.sw.char] ∨ brk.mark = rightOf closing))
      ((scopeOf opener closing).nextBreak ctx.sw cur.rest)
      ((ctx.nextBreak (ctx.fragmentMarks closing) closing opener cur.offset).run state) := by
  have hmark : ∀ {brk}, (scopeOf opener closing).nextBreak ctx.sw cur.rest = .ok brk →
      brk.mark = [ctx.sw.char] ∨ brk.mark = rightOf closing := by
    intro brk hbrk
    rw [← right_scopeOf]
    exact (Scope.nextBreak_ok hbrk).2.imp_right And.left
  cases closing with
  | none =>
    rw [run_nextBreak_document hin]
    exact .ok ⟨rfl, rfl, hmark rfl⟩
  | some fence =>
    simp only [Context.nextBreak, Context.fragmentMarks, Option.map_some, break?_eq hin]
    simp only [scopeOf, Scope.nextBreak, Break.ofFragments?] at hmark ⊢
    cases hf : Break.find? [[ctx.sw.char], fence.right] cur.rest with
    | none => exact .error _
    | some brk =>
      rw [hf] at hmark
      exact .ok ⟨rfl, rfl, hmark rfl⟩

theorem run_textBreak_document (hin : cur.In ctx.source) :
    ∃ (found : FoundBreak) (next : Cursor),
      (ctx.nextBreak (Context.textMarks none) none opener cur.offset).run state =
        .ok (found, state) ∧
      next.In ctx.source ∧ cur.offset ≤ found.markStart ∧ found.markStart ≤ next.offset ∧
      found.stop = next.offset :=
  ⟨_, _, run_nextBreak_document hin, past_break_in hin _, Nat.le_add_right _ _,
    Nat.le_add_right _ _, rfl⟩

/-- A text that was read up to the right text of a fence. -/
structure Reaches (ctx : Context) (fence : Fence) (cur : Cursor)
    (step : Step (cur.rest.length + 1) (List Char × Nat)) (found : FoundBreak) : Prop where
  inner_eq : found.inner = step.value.1
  mark_eq : found.markStart = step.value.2
  stop_eq : found.stop = step.next.offset
  next_in : step.next.In ctx.source
  mark_le : cur.offset ≤ step.value.2
  next_eq : step.next.offset = step.value.2 + width fence.right

theorem textBreak_follows {fence : Fence} (hin : cur.In ctx.source) :
    Follows R (fun step found after => Reaches ctx fence cur step found ∧ after = state)
      (verbatim fence opener cur)
      ((ctx.nextBreak (Context.textMarks (some fence)) (some fence) opener cur.offset).run
        state) := by
  simp only [Context.nextBreak, Context.textMarks, Option.map_some, break?_eq hin, verbatim,
    Break.ofVerbatim?]
  cases hf : Break.find? [fence.right] cur.rest with
  | none => exact .error _
  | some brk =>
    have hmark : brk.mark = fence.right := List.mem_singleton.1 (Break.find?_spec hf).1
    refine .ok ⟨⟨rfl, rfl, rfl, past_break_in hin brk, Nat.le_add_right _ _, ?_⟩, rfl⟩
    rw [← hmark]

/-! ## Readers without calls -/

theorem orFlaw_follows {α : Type} (r : Except Flaw α) :
    Follows R (fun b a after => a = b ∧ after = state) r ((orFlaw r).run state) := by
  cases r with
  | error flaw => exact .error flaw
  | ok b => exact .ok ⟨rfl, rfl⟩

/-- The flaw that a further `#` is after the end of a scope. -/
def checkEnd (nested : Bool) (closing : Option Fence) (opener : Nat) (next : Cursor) :
    Except Flaw Unit :=
  match closing with
  | none => .ok ()
  | some fence => checkPadding nested fence opener next

theorem run_checkHashes {next : Cursor} (hin : next.In ctx.source) :
    (ctx.checkHashes closing opener next.offset).run state =
      if (state.depth = 0 ∧ (rightOf closing).getLast? = some '#') ∧ next.rest.head? = some '#' then
        .error (.flaw ⟨.unbalanced (enclosingOf closing).left (enclosingOf closing).right, opener⟩)
      else .ok ((), state) := by
  have hrest : (ctx.rest next.offset).run state = .ok (next.rest, state) := by
    rw [Context.rest, rest?_eq hin]
    rfl
  simp only [Context.checkHashes]
  rw [run_bind_of_ok rfl]
  by_cases hpadded : state.depth = 0 ∧ (rightOf closing).getLast? = some '#'
  · rw [if_pos hpadded, run_bind_of_ok hrest]
    by_cases hhash : next.rest.head? = some '#'
    · rw [if_pos hhash, if_pos ⟨hpadded, hhash⟩]
      rfl
    · rw [if_neg hhash, if_neg fun h => hhash h.2]
      rfl
  · rw [if_neg hpadded, if_neg fun h => hpadded h.1]
    rfl

theorem run_checkHashes_document {next : Cursor} (hin : next.In ctx.source) :
    (ctx.checkHashes none opener next.offset).run state = .ok ((), state) := by
  rw [run_checkHashes hin, if_neg (by simp [rightOf])]

theorem checkHashes_follows {next : Cursor} {nested : Bool} (hnested : nested = state.isNested)
    (hin : next.In ctx.source) :
    Follows R (fun _ _ after => after = state) (checkEnd nested closing opener next)
      ((ctx.checkHashes closing opener next.offset).run state) := by
  cases closing with
  | none =>
    rw [run_checkHashes_document hin]
    exact .ok rfl
  | some fence =>
    rw [run_checkHashes hin, hnested]
    simp only [rightOf, fence.getLast?_right, checkEnd, checkPadding, State.isNested,
      bne_eq_false_iff_eq, and_assoc]
    split
    · exact .error _
    · exact .ok rfl

theorem run_prose (offset : Nat) {cs : List Char} (brk : Break cs) :
    (prose (.ofBreak offset brk)).run state = .ok (Parser.prose offset brk.inner, state) := by
  obtain ⟨inner, mark, rest, whole⟩ := brk
  cases inner with
  | nil => rfl
  | cons c tail => exact run_bind_of_ok (run_spanOf (Nat.le_add_right offset (width (c :: tail))))

theorem atom_follows (hin : cur.In ctx.source) :
    Follows R (fun o o' after => o' = o.map (fun p => (p.1, (cur.past p.2).offset)) ∧ after = state)
      (Parser.atom? ctx.sw cur) ((atom? ctx cur.offset).run state) := by
  have hspan : ∀ cut : Cut cur.rest, (spanOf cur.offset (cur.offset + width cut.piece)).run state =
      .ok (lexemeSpan cur cut, state) := fun cut => run_spanOf (Nat.le_add_right _ _)
  rw [Parser.atom?, atom?, match?_eq hin, match?_eq hin, numeral?_eq hin]
  cases Lexeme.identifier? cur.rest with
  | some cut =>
    simp only [Option.map_some, Found.ofCut, run_bind_of_ok (hspan cut)]
    exact .ok ⟨rfl, rfl⟩
  | none =>
    cases Lexeme.operator? ctx.sw cur.rest with
    | some cut =>
      simp only [Option.map_some, Option.map_none, Found.ofCut, run_bind_of_ok (hspan cut)]
      exact .ok ⟨rfl, rfl⟩
    | none =>
      cases Numeral.cut? cur.rest with
      | none => exact .ok ⟨rfl, rfl⟩
      | some p =>
        refine .bind (orFlaw_follows _) ?_
        rintro number _ _ ⟨rfl, rfl⟩
        simp only [Found.ofCut, run_bind_of_ok (hspan p.2)]
        exact .ok ⟨rfl, rfl⟩

end Lookups

end Guarded

end Prosemark
