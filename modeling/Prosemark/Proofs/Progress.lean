import Prosemark.Proofs.Guards
import Prosemark.Proofs.Wrapping

/-!
# Progress

The guarded readers follow the readers of cursors (`guarding`), and no guard stops them but that on
the size of an expression. For that, three things are kept along a run: each offset that is passed
on is that of a cursor, the count of scopes tells whether there are braces around, and no loop or
call has started further on than where the next one starts. A reader has gone on when it ends, since
no lexeme is empty, nor is the right text of a fence. So from each character boundary on, the
readers end with a flaw or further on, or they are refused an expression (`readers_advance`).

What is refused is an expression for the right text of a fence. A block in braces is not read where
the library refuses theirs (`document_refused`), so a source can have too many `#` to be read.
-/

namespace Prosemark

open Prosemark.Parser

namespace Guarded

/-! ## What a reader leaves behind -/

/-- The reader ends with the value at the cursor `next`, which is not before the offset `least`, in
as many scopes as it started. Unless nothing follows, the next loop or call may start there. -/
inductive Ends {α : Type} (ctx : Context) (depth least : Nat) (followed : Bool) (value : α)
    (next : Cursor) : α × Nat → State → Prop
  | mk {reached : Nat} (hin : next.In ctx.source) (hleast : least ≤ next.offset)
      (hreached : followed = true → reached ≤ next.offset) :
    Ends ctx depth least followed value next (value, next.offset) ⟨depth, reached⟩

/-- Both readers find nothing, and nothing has changed, or both find the same. -/
inductive EndsFound {α : Type} {limit : Nat} (ctx : Context) (state : State) (least : Nat) :
    Option (Step limit α) → Option (α × Nat) → State → Prop
  | none : EndsFound ctx state least none none state
  | some {step : Step limit α} {result : α × Nat} {after : State}
      (h : Ends ctx state.depth least true step.value step.next result after) :
    EndsFound ctx state least (some step) (some result) after

section Readers

variable {ctx : Context} {given : Option Fence} {cur : Cursor} {state : State}

theorem EndsFound.orStay {α : Type} {least : Nat} {o : Option (Step cur.rest.length α)}
    {found : Option (α × Nat)} {after : State} (h : EndsFound ctx state least o found after)
    (hin : cur.In ctx.source) (hreached : state.reached ≤ cur.offset)
    (hleast : cur.offset ≤ least) :
    Ends ctx state.depth cur.offset true (Step.orStay cur o).value (Step.orStay cur o).next
      (orStay cur.offset found) after := by
  cases h with
  | none => exact .mk hin (Nat.le_refl _) fun _ => hreached
  | some h =>
    obtain ⟨hin, hnext, hreached⟩ := h
    exact .mk hin (Nat.le_trans hleast hnext) hreached

theorem text_follows {fence : Fence} {opener : Nat} {nested : Bool}
    (hnested : nested = state.isNested) (hmeets : ctx.Meets given fence) (hin : cur.In ctx.source)
    (hreached : state.reached ≤ cur.offset) :
    Follows (ctx.Refuses given)
      (fun inner => Ends ctx state.depth (cur.offset + width fence.right) true
        (⟨⟨cur.offset, inner.value.2⟩, String.ofList inner.value.1, fence.enclosing⟩ : Text)
        inner.next)
      (do
        let inner ← verbatim fence opener cur
        checkEnd nested (some fence) opener inner.next
        return inner)
      ((text ctx (some fence) opener cur.offset).run state) := by
  rw [text, run_bind_of_ok (run_startAt hreached)]
  refine .after_build (fun _ => .inr rfl) (by simpa using hmeets) (.bind (textBreak_follows hin) ?_)
  rintro inner found _ ⟨h, rfl⟩
  have hspan : cur.offset ≤ found.markStart := h.mark_eq ▸ h.mark_le
  rw [run_bind_of_ok (run_spanOf hspan), h.stop_eq, h.mark_eq, h.inner_eq]
  refine .bind (checkHashes_follows hnested h.next_in) ?_
  rintro _ _ _ rfl
  have hmark := h.mark_le
  have hnext := h.next_eq
  have hwidth := width_pos fence.right_ne_nil
  refine .ok (.mk h.next_in ?_ fun _ => by omega)
  show cur.offset + width fence.right ≤ inner.next.offset
  omega

end Readers

/-! ## One step of each reader -/

/-- What guarded readers do under a bound that is large enough for the text, if only the given fence
is not from the source. -/
structure Guarding (ctx : Context) (given : Option Fence) (fuel : Nat) : Prop where
  fragments_follow (closing : Option Fence) (opener : Nat) {bound : Nat} {nested : Bool}
    {cur : Cursor} {state : State} {h : 4 * cur.rest.length < bound}
    (hnested : nested = state.isNested) (hdocument : closing = none → state.depth = 0)
    (hmeets : ∀ fence ∈ closing, ctx.Meets given fence) (hin : cur.In ctx.source)
    (hreached : state.reached ≤ cur.offset) (hfuel : 4 * cur.rest.length + 1 < fuel) :
    Follows (ctx.Refuses given)
      (fun inner => Ends ctx state.depth (cur.offset + width (rightOf closing)) closing.isSome
        (⟨⟨cur.offset, inner.value.2⟩, inner.value.1, enclosingOf closing⟩ : Block) inner.next)
      (do
        let inner ← Parser.fragments ctx.sw bound (scopeOf opener closing) cur h
        checkEnd nested closing opener inner.next
        return inner)
      ((fragments ctx fuel closing opener cur.offset).run state)
  fragmentLoop_follows {closing : Option Fence} {opener bound : Nat} {cur : Cursor}
    {state : State} {h : 4 * cur.rest.length < bound}
    (hnested : (scopeOf opener closing).isNested = state.isNested) (hin : cur.In ctx.source)
    (hreached : state.reached ≤ cur.offset) (hfuel : 4 * cur.rest.length < fuel) :
    Follows (ctx.Refuses given)
      (fun inner result after => cur.offset ≤ inner.value.2 ∧
        Ends ctx state.depth (cur.offset + width (rightOf closing)) closing.isSome inner.value
          inner.next result after)
      (Parser.fragments ctx.sw bound (scopeOf opener closing) cur h)
      ((fragmentLoop ctx fuel closing opener cur.offset).run state)
  body_follows {bound : Nat} {nested : Bool} {cur : Cursor} {state : State}
    {h : 4 * cur.rest.length + 1 < bound} (hnested : nested = state.isNested)
    (hin : cur.In ctx.source) (hreached : state.reached ≤ cur.offset + 1)
    (hfuel : 4 * cur.rest.length < fuel) :
    Follows (ctx.Refuses given)
      (EndsFound ctx state (cur.offset + 1))
      (Parser.body? ctx.sw bound nested cur h)
      ((body? ctx fuel cur.offset).run state)
  expression_follows {start bound : Nat} {nested : Bool} {cur : Cursor} {state : State}
    {h : 4 * cur.rest.length + 2 < bound} (hnested : nested = state.isNested)
    (hstart : start ≤ cur.offset) (hin : cur.In ctx.source)
    (hreached : state.reached ≤ cur.offset) (hfuel : 4 * cur.rest.length + 1 < fuel) :
    Follows (ctx.Refuses given)
      (fun node => Ends ctx state.depth (cur.offset + 1) true node.value node.next)
      (Parser.expression ctx.sw bound nested start cur h)
      ((expression ctx fuel start cur.offset).run state)
  call_follows {start bound : Nat} {nested : Bool} {phrase : List Char} {e : Enclosing}
    {cur : Cursor} {state : State} {h : 4 * cur.rest.length + 3 < bound}
    (hnested : nested = state.isNested) (hstart : start ≤ cur.offset)
    (hin : cur.In ctx.source) (hreached : state.reached ≤ cur.offset)
    (hfuel : 4 * cur.rest.length + 1 < fuel) :
    Follows (ctx.Refuses given)
      (fun command => Ends ctx state.depth cur.offset true command.value command.next)
      (Parser.call ctx.sw bound nested start phrase e cur h)
      ((call ctx fuel start phrase e cur.offset).run state)
  group_follows {bound : Nat} {nested : Bool} {cur : Cursor} {state : State}
    {h : 4 * cur.rest.length + 1 < bound} (hnested : nested = state.isNested)
    (hin : cur.In ctx.source) (hreached : state.reached ≤ cur.offset + 1)
    (hfuel : 4 * cur.rest.length < fuel) :
    Follows (ctx.Refuses given)
      (EndsFound ctx state (cur.offset + 1))
      (Parser.group? ctx.sw bound nested cur h)
      ((group? ctx fuel cur.offset).run state)
  token_follows {bound : Nat} {nested : Bool} {cur : Cursor} {state : State}
    {h : 4 * cur.rest.length + 2 < bound} (hnested : nested = state.isNested)
    (hin : cur.In ctx.source) (hreached : state.reached ≤ cur.offset + 1)
    (hfuel : 4 * cur.rest.length + 1 < fuel) :
    Follows (ctx.Refuses given)
      (EndsFound ctx state (cur.offset + 1))
      (Parser.token? ctx.sw bound nested cur h)
      ((token? ctx fuel cur.offset).run state)
  tokens_follow (opener : Nat) {bound : Nat} {nested : Bool} {cur : Cursor} {state : State}
    {h : 4 * cur.rest.length + 3 < bound} (hnested : nested = state.isNested)
    (hin : cur.In ctx.source) (hreached : state.reached ≤ cur.offset)
    (hfuel : 4 * cur.rest.length + 3 < fuel) :
    Follows (ctx.Refuses given)
      (fun inner => Ends ctx state.depth (cur.offset + 1) true
        (⟨⟨cur.offset, inner.value.2⟩, inner.value.1⟩ : Group) inner.next)
      (Parser.tokens ctx.sw bound nested opener cur h)
      ((tokens ctx fuel opener cur.offset).run state)
  tokenLoop_follows {opener bound : Nat} {nested : Bool} {cur : Cursor} {state : State}
    {h : 4 * cur.rest.length + 3 < bound} (hnested : nested = state.isNested)
    (hin : cur.In ctx.source) (hreached : state.reached ≤ cur.offset)
    (hfuel : 4 * cur.rest.length + 2 < fuel) :
    Follows (ctx.Refuses given)
      (fun inner result after => cur.offset ≤ inner.value.2 ∧
        Ends ctx state.depth (cur.offset + 1) true inner.value inner.next result after)
      (Parser.tokens ctx.sw bound nested opener cur h)
      ((tokenLoop ctx fuel opener cur.offset).run state)

namespace Guarding

variable {ctx : Context} {given closing : Option Fence} {fuel bound opener start : Nat}
  {cur : Cursor} {state : State} (hg : Guarding ctx given fuel)

include hg

theorem fragmentLoop_follows_step {h : 4 * cur.rest.length < bound}
    (hnested : (scopeOf opener closing).isNested = state.isNested) (hin : cur.In ctx.source)
    (hreached : state.reached ≤ cur.offset) (hfuel : 4 * cur.rest.length < fuel + 1) :
    Follows (ctx.Refuses given)
      (fun inner result after => cur.offset ≤ inner.value.2 ∧
        Ends ctx state.depth (cur.offset + width (rightOf closing)) closing.isSome inner.value
          inner.next result after)
      (Parser.fragments ctx.sw bound (scopeOf opener closing) cur h)
      ((fragmentLoop ctx (fuel + 1) closing opener cur.offset).run state) := by
  obtain ⟨bound, rfl⟩ := Nat.exists_eq_add_of_lt h
  rw [Parser.fragments, fragmentLoop, run_bind_of_ok (run_startAt hreached)]
  refine .bind (fragmentBreak_follows hin) ?_
  rintro brk _ _ ⟨rfl, rfl, hmark⟩
  have hafter := past_break_in hin brk
  rw [run_bind_of_ok (run_prose _ brk)]
  by_cases hfound : (FoundBreak.ofBreak cur.offset brk).mark = [ctx.sw.char]
  · obtain ⟨hrest, hstart⟩ := past_switch_lt hfound
    rw [dif_pos ((Scope.isSwitch_iff _).2 hfound), if_pos hfound]
    refine .bind (hg.expression_follows hnested (Nat.le_add_right _ _) hafter hstart
      (by dsimp only; omega)) ?_
    rintro node _ _ ⟨hnode, hgone, hreached⟩
    have hgone : cur.offset + width brk.inner + width brk.mark + 1 ≤ node.next.offset := hgone
    have hnext : node.next.rest.length < brk.rest.length + 1 := node.lt
    refine .bind (hg.fragmentLoop_follows hnested hnode (hreached rfl) (by omega)) ?_
    rintro tail _ _ ⟨hstop, htail, hend, hreached⟩
    refine .ok ⟨?_, .mk htail ?_ hreached⟩
    · show cur.offset ≤ tail.value.2
      omega
    · show cur.offset + width (rightOf closing) ≤ tail.next.offset
      omega
  · have hright : brk.mark = rightOf closing := hmark.resolve_left hfound
    rw [dif_neg (mt (Scope.isSwitch_iff _).1 hfound), if_neg hfound]
    refine .ok ⟨Nat.le_add_right _ _, .mk hafter ?_ fun hsome => ?_⟩
    · show cur.offset + width (rightOf closing) ≤ cur.offset + width brk.inner + width brk.mark
      rw [hright]
      omega
    · show cur.offset + 1 ≤ cur.offset + width brk.inner + width brk.mark
      obtain ⟨fence, rfl⟩ := Option.isSome_iff_exists.1 hsome
      have hwidth := width_pos fence.right_ne_nil
      rw [hright, rightOf]
      omega

theorem fragments_follow_step {nested : Bool} {h : 4 * cur.rest.length < bound}
    (hnested : nested = state.isNested) (hdocument : closing = none → state.depth = 0)
    (hmeets : ∀ fence ∈ closing, ctx.Meets given fence) (hin : cur.In ctx.source)
    (hreached : state.reached ≤ cur.offset) (hfuel : 4 * cur.rest.length + 1 < fuel + 1) :
    Follows (ctx.Refuses given)
      (fun inner => Ends ctx state.depth (cur.offset + width (rightOf closing)) closing.isSome
        (⟨⟨cur.offset, inner.value.2⟩, inner.value.1, enclosingOf closing⟩ : Block) inner.next)
      (do
        let inner ← Parser.fragments ctx.sw bound (scopeOf opener closing) cur h
        checkEnd nested closing opener inner.next
        return inner)
      ((fragments ctx (fuel + 1) closing opener cur.offset).run state) := by
  have hinside : (scopeOf opener closing).isNested =
      State.isNested ⟨within closing state.depth, state.reached⟩ := by
    cases closing with
    | none => simp [scopeOf, Scope.isNested, State.isNested, within, hdocument rfl]
    | some fence => simp [scopeOf, Scope.isNested, State.isNested, within]
  rw [fragments]
  refine .after_build (fun _ => .inl rfl) hmeets ?_
  rw [run_bind_of_ok run_enter]
  refine .bind (hg.fragmentLoop_follows hinside hin hreached (by omega)) ?_
  rintro inner _ _ ⟨hstop, hnext, hleast, hreached⟩
  dsimp only
  rw [run_bind_of_ok (run_leave rfl), run_bind_of_ok (run_spanOf hstop)]
  refine .bind (checkHashes_follows hnested hnext) ?_
  rintro _ _ _ rfl
  exact .ok (.mk hnext hleast hreached)

theorem body_follows_step {nested : Bool}
    {h : 4 * cur.rest.length + 1 < bound} (hnested : nested = state.isNested)
    (hin : cur.In ctx.source) (hreached : state.reached ≤ cur.offset + 1)
    (hfuel : 4 * cur.rest.length < fuel + 1) :
    Follows (ctx.Refuses given)
      (EndsFound ctx state (cur.offset + 1))
      (Parser.body? ctx.sw bound nested cur h)
      ((body? ctx (fuel + 1) cur.offset).run state) := by
  obtain ⟨bound, rfl⟩ := Nat.exists_eq_add_of_lt h
  rw [Parser.body?, body?, run_bind_of_ok (run_opening? hin)]
  cases hbrace : Fence.cut? .brace cur.rest with
  | some p =>
    obtain ⟨fence, cut⟩ := p
    have hmeets := Context.meets_of_passes given hin (Fence.cut?_passes hbrace).2
    have hsome : some fence ≠ none := Option.some_ne_none fence
    obtain ⟨hpast, hrest, hstart⟩ := past_spec hin cut
    -- the guarded reader of fragments refuses a further `#` itself
    refine .bind_checked (hg.fragments_follow (some fence) cur.offset hnested (absurd · hsome)
      (by simpa using hmeets) hpast (by omega) (by omega)) ?_
    rintro inner _ _ ⟨hnext, hleast, hreached⟩
    have hgone : cur.offset + 1 ≤ inner.next.offset := by omega
    exact .ok (.some (.mk hnext hgone hreached))
  | none =>
    dsimp only [Option.map_none]
    rw [run_bind_of_ok (run_opening? hin)]
    cases hquote : Fence.cut? .quote cur.rest with
    | some p =>
      obtain ⟨fence, cut⟩ := p
      have hmeets := Context.meets_of_passes given hin (Fence.cut?_passes hquote).2
      obtain ⟨hpast, -, hstart⟩ := past_spec hin cut
      refine .bind_checked (text_follows hnested hmeets hpast (by omega)) ?_
      rintro inner _ _ ⟨hnext, hleast, hreached⟩
      have hgone : cur.offset + 1 ≤ inner.next.offset := by omega
      exact .ok (.some (.mk hnext hgone hreached))
    | none => exact .ok .none

theorem expression_follows_step {nested : Bool}
    {h : 4 * cur.rest.length + 2 < bound} (hnested : nested = state.isNested)
    (hstart : start ≤ cur.offset) (hin : cur.In ctx.source)
    (hreached : state.reached ≤ cur.offset) (hfuel : 4 * cur.rest.length + 1 < fuel + 1) :
    Follows (ctx.Refuses given)
      (fun node => Ends ctx state.depth (cur.offset + 1) true node.value node.next)
      (Parser.expression ctx.sw bound nested start cur h)
      ((expression ctx (fuel + 1) start cur.offset).run state) := by
  obtain ⟨bound, rfl⟩ := Nat.exists_eq_add_of_lt h
  rw [Parser.expression, expression, run_bind_of_ok (run_startAt hreached), match?_eq hin]
  cases hid : Lexeme.identifier? cur.rest with
  | some cut =>
    obtain ⟨hpast, hrest, hafter⟩ := past_spec hin cut
    refine .bind (hg.call_follows hnested (by omega) hpast hafter (by omega)) ?_
    rintro command _ _ ⟨hnext, hleast, hreached⟩
    have hgone : cur.offset + 1 ≤ command.next.offset := by omega
    exact .ok (.mk hnext hgone hreached)
  | none =>
    dsimp only [Option.map_none]
    rw [run_bind_of_ok (run_opening? hin)]
    cases hbar : Fence.cut? .bar cur.rest with
    | some p =>
      obtain ⟨fence, cut⟩ := p
      have hmeets := Context.meets_of_passes given hin (Fence.cut?_passes hbar).2
      obtain ⟨hpast, hrest, hafter⟩ := past_spec hin cut
      dsimp only [Option.map_some]
      refine .after_build (fun _ => .inr rfl) (by simpa using hmeets)
        (.bind (textBreak_follows hpast) ?_)
      rintro phrase found _ ⟨hphrase, rfl⟩
      have hmark := hphrase.mark_le
      have hnext := hphrase.next_eq
      have hphraseRest := phrase.lt
      rw [hphrase.inner_eq, hphrase.stop_eq]
      refine .bind (hg.call_follows hnested (by omega) hphrase.next_in (by dsimp only; omega)
        (by omega)) ?_
      rintro command _ _ ⟨hnext, hleast, hreached⟩
      have hgone : cur.offset + 1 ≤ command.next.offset := by omega
      exact .ok (.mk hnext hgone hreached)
    | none =>
      dsimp only [Option.map_none]
      refine .bind (hg.body_follows hnested hin (Nat.le_refl _) (by omega)) ?_
      rintro _ _ _ (_ | ⟨hnext, hleast, hreached⟩)
      · dsimp only
        rw [match?_eq hin]
        cases hsymbol : Lexeme.symbol? cur.rest with
        | some cut =>
          obtain ⟨hpast, -, hgone⟩ := past_spec hin cut
          have hspan : start ≤ (Found.ofCut cur.offset cut).stop :=
            Nat.le_trans hstart (Nat.le_of_succ_le hgone)
          dsimp only [Option.map_some]
          rw [run_bind_of_ok (run_spanOf hspan)]
          exact .ok (.mk hpast hgone fun _ => hgone)
        | none => exact .error _
      · exact .ok (.mk hnext hleast hreached)

theorem call_follows_step {nested : Bool} {phrase : List Char} {e : Enclosing}
    {h : 4 * cur.rest.length + 3 < bound} (hnested : nested = state.isNested)
    (hstart : start ≤ cur.offset) (hin : cur.In ctx.source)
    (hreached : state.reached ≤ cur.offset) (hfuel : 4 * cur.rest.length + 1 < fuel + 1) :
    Follows (ctx.Refuses given)
      (fun command => Ends ctx state.depth cur.offset true command.value command.next)
      (Parser.call ctx.sw bound nested start phrase e cur h)
      ((call ctx (fuel + 1) start phrase e cur.offset).run state) := by
  obtain ⟨bound, rfl⟩ := Nat.exists_eq_add_of_lt h
  rw [Parser.call, call, run_bind_of_ok (run_goOn hreached)]
  by_cases hphrase : phrase = []
  · rw [if_pos hphrase, if_pos hphrase, run_bind_of_ok (run_spanOf hstart)]
    exact .ok (.mk hin (Nat.le_refl _) fun _ => hreached)
  · rw [if_neg hphrase, if_neg hphrase]
    refine .bind (hg.group_follows hnested hin (by omega) (by omega)) ?_
    intro o found after ho
    have hoptions := ho.orStay hin hreached (Nat.le_succ _)
    have hrest := (Step.orStay cur o).lt
    generalize orStay cur.offset found = result at hoptions ⊢
    obtain ⟨hmid, hoptionsEnd, hreached⟩ := hoptions
    refine .bind (hg.body_follows hnested hmid (Nat.le_succ_of_le (hreached rfl)) (by omega)) ?_
    intro b found after hb
    have hbody := hb.orStay hmid (hreached rfl) (Nat.le_succ _)
    dsimp only
    generalize orStay _ found = result at hbody ⊢
    obtain ⟨hnext, hbodyEnd, hreached⟩ := hbody
    have hgone := Nat.le_trans hoptionsEnd hbodyEnd
    rw [run_bind_of_ok (run_spanOf (Nat.le_trans hstart hgone))]
    exact .ok (.mk hnext hgone hreached)

theorem group_follows_step {nested : Bool} {h : 4 * cur.rest.length + 1 < bound}
    (hnested : nested = state.isNested) (hin : cur.In ctx.source)
    (hreached : state.reached ≤ cur.offset + 1) (hfuel : 4 * cur.rest.length < fuel + 1) :
    Follows (ctx.Refuses given)
      (EndsFound ctx state (cur.offset + 1))
      (Parser.group? ctx.sw bound nested cur h)
      ((group? ctx (fuel + 1) cur.offset).run state) := by
  obtain ⟨bound, rfl⟩ := Nat.exists_eq_add_of_lt h
  rw [Parser.group?, group?, match?_eq hin]
  cases hopening : Lexeme.char? '[' cur.rest with
  | some cut =>
    obtain ⟨hpast, hrest, hafter⟩ := past_spec hin cut
    refine .bind (hg.tokens_follow cur.offset hnested hpast (by omega) (by omega)) ?_
    rintro inner _ _ ⟨hnext, hleast, hreached⟩
    have hgone : cur.offset + 1 ≤ inner.next.offset := by omega
    exact .ok (.some (.mk hnext hgone hreached))
  | none => exact .ok .none

theorem token_follows_step {nested : Bool} {h : 4 * cur.rest.length + 2 < bound}
    (hnested : nested = state.isNested) (hin : cur.In ctx.source)
    (hreached : state.reached ≤ cur.offset + 1) (hfuel : 4 * cur.rest.length + 1 < fuel + 1) :
    Follows (ctx.Refuses given)
      (EndsFound ctx state (cur.offset + 1))
      (Parser.token? ctx.sw bound nested cur h)
      ((token? ctx (fuel + 1) cur.offset).run state) := by
  obtain ⟨bound, rfl⟩ := Nat.exists_eq_add_of_lt h
  rw [Parser.token?, token?]
  refine .bind (atom_follows hin) ?_
  rintro (_ | ⟨token, cut⟩) _ _ ⟨rfl, rfl⟩
  · refine .bind (hg.body_follows hnested hin hreached (by omega)) ?_
    rintro _ _ _ (_ | ⟨hnext, hleast, hreached⟩)
    · dsimp only
      rw [match?_eq hin]
      cases hswitch : Lexeme.char? ctx.sw.char cur.rest with
      | some cut =>
        obtain ⟨hpast, hrest, hafter⟩ := past_spec hin cut
        refine .bind (hg.expression_follows hnested (by omega) hpast (by omega) (by omega)) ?_
        rintro node _ _ ⟨hnext, hleast, hreached⟩
        have hgone : cur.offset + 1 ≤ node.next.offset := by omega
        exact .ok (.some (.mk hnext hgone hreached))
      | none =>
        refine .bind (hg.group_follows hnested hin hreached (by omega)) ?_
        rintro _ _ _ (_ | ⟨hnext, hleast, hreached⟩)
        · exact .ok .none
        · exact .ok (.some (.mk hnext hleast hreached))
    · exact .ok (.some (.mk hnext hleast hreached))
  · obtain ⟨hpast, -, hgone⟩ := past_spec hin cut
    exact .ok (.some (.mk hpast hgone fun _ => Nat.le_trans hreached hgone))

theorem tokens_follow_step {nested : Bool} {h : 4 * cur.rest.length + 3 < bound}
    (hnested : nested = state.isNested) (hin : cur.In ctx.source)
    (hreached : state.reached ≤ cur.offset) (hfuel : 4 * cur.rest.length + 3 < fuel + 1) :
    Follows (ctx.Refuses given)
      (fun inner => Ends ctx state.depth (cur.offset + 1) true
        (⟨⟨cur.offset, inner.value.2⟩, inner.value.1⟩ : Group) inner.next)
      (Parser.tokens ctx.sw bound nested opener cur h)
      ((tokens ctx (fuel + 1) opener cur.offset).run state) := by
  rw [tokens, ← bind_pure (Parser.tokens ctx.sw bound nested opener cur h)]
  refine .bind (hg.tokenLoop_follows hnested hin hreached (by omega)) ?_
  rintro inner _ _ ⟨hstop, hnext, hleast, hreached⟩
  dsimp only
  rw [run_bind_of_ok (run_spanOf hstop)]
  exact .ok (.mk hnext hleast hreached)

theorem tokenLoop_follows_step {nested : Bool} {h : 4 * cur.rest.length + 3 < bound}
    (hnested : nested = state.isNested) (hin : cur.In ctx.source)
    (hreached : state.reached ≤ cur.offset) (hfuel : 4 * cur.rest.length + 2 < fuel + 1) :
    Follows (ctx.Refuses given)
      (fun inner result after => cur.offset ≤ inner.value.2 ∧
        Ends ctx state.depth (cur.offset + 1) true inner.value inner.next result after)
      (Parser.tokens ctx.sw bound nested opener cur h)
      ((tokenLoop ctx (fuel + 1) opener cur.offset).run state) := by
  obtain ⟨bound, rfl⟩ := Nat.exists_eq_add_of_lt h
  have hmid := hin.passes (cur.passes_skip Charset.isBlank)
  have hskip := cur.skip_le Charset.isBlank
  have hle : cur.offset ≤ (cur.skip Charset.isBlank).offset := Nat.le_add_right _ _
  rw [Parser.tokens, tokenLoop, run_bind_of_ok (run_startAt hreached), skipBlanks_eq hin]
  refine .bind (hg.token_follows hnested hmid (Nat.succ_le_succ hle) (by omega)) ?_
  rintro _ _ _ (_ | @⟨first, _, _, ⟨hnext, hgone, hreached⟩⟩)
  · dsimp only
    rw [match?_eq hmid]
    cases hclosing : Lexeme.char? ']' (cur.skip Charset.isBlank).rest with
    | some cut =>
      obtain ⟨hpast, -, hclose⟩ := past_spec hmid cut
      have hgone := Nat.le_trans (Nat.succ_le_succ hle) hclose
      exact .ok ⟨hle, .mk hpast hgone fun _ => hgone⟩
    | none => exact .error _
  · have hfirst := first.lt
    refine .bind (hg.tokenLoop_follows hnested hnext (hreached rfl) (by omega)) ?_
    rintro tail _ _ ⟨hstop, htail, hend, hreached⟩
    refine .ok ⟨?_, .mk htail ?_ hreached⟩
    · show cur.offset ≤ tail.value.2
      omega
    · show cur.offset + 1 ≤ tail.next.offset
      omega

end Guarding

/-- Under a bound that is large enough for the text, the guarded readers end as the readers do, or
with marks for which an expression is refused. -/
theorem guarding (ctx : Context) (given : Option Fence) (fuel : Nat) : Guarding ctx given fuel := by
  induction fuel with
  | zero =>
    -- no text is short enough for a bound of zero
    constructor <;> intros <;> omega
  | succ fuel ih =>
    exact
      { fragments_follow := fun _ _ => ih.fragments_follow_step
        fragmentLoop_follows := ih.fragmentLoop_follows_step
        body_follows := ih.body_follows_step
        expression_follows := ih.expression_follows_step
        call_follows := ih.call_follows_step
        group_follows := ih.group_follows_step
        token_follows := ih.token_follows_step
        tokens_follow := fun _ => ih.tokens_follow_step
        tokenLoop_follows := ih.tokenLoop_follows_step }

/-! ## Whole runs -/

section Whole

variable {ctx : Context} {given closing : Option Fence} {fuel opener : Nat} {cur : Cursor}
  {state : State}

/-- The reader ends with a flaw, or at a character boundary from `least` on, in as many scopes as it
started, or it is refused an expression for a fence that is given or stands in the source. -/
def Advances {α : Type} (ctx : Context) (given : Option Fence) (depth least : Nat)
    (result : Except Stop ((α × Nat) × State)) : Prop :=
  Safe (ctx.Refuses given) (fun found after => least ≤ found.2 ∧
    found.2 ≤ ctx.source.utf8ByteSize ∧ isBoundary ctx.source found.2 = true ∧
      after.depth = depth) result

theorem advances_of_in {α : Type} {depth least : Nat} {value : α} {next : Cursor} {reached : Nat}
    (hin : next.In ctx.source) (hleast : least ≤ next.offset) :
    Advances ctx given depth least (.ok ((value, next.offset), ⟨depth, reached⟩)) :=
  .ok ⟨hleast, hin.offset_le, isBoundary_iff.2 ⟨next, hin, rfl⟩, rfl⟩

theorem Follows.advances {α β : Type} {limit depth least : Nat} {followed : Bool}
    {f : Step limit β → α} {r : Except Flaw (Step limit β)}
    {result : Except Stop ((α × Nat) × State)}
    (h : Follows (ctx.Refuses given)
      (fun step => Ends ctx depth least followed (f step) step.next) r result) :
    Advances ctx given depth least result := by
  refine h.safe ?_
  rintro step _ _ ⟨hin, hleast, -⟩
  exact ⟨hleast, hin.offset_le, isBoundary_iff.2 ⟨step.next, hin, rfl⟩, rfl⟩

theorem expression_safe (given : Option Fence) {start : Nat} (hstart : start ≤ cur.offset)
    (hin : cur.In ctx.source) (hreached : state.reached ≤ cur.offset)
    (hfuel : 4 * cur.rest.length + 1 < fuel) :
    Safe (ctx.Refuses given) (fun found after => ∃ node : Step (cur.rest.length + 1) Fragment,
        Ends ctx state.depth (cur.offset + 1) true node.value node.next found after)
      ((expression ctx fuel start cur.offset).run state) := by
  have hfollows := (guarding ctx given fuel).expression_follows (h := Nat.lt_succ_self _) rfl hstart
    hin hreached hfuel
  exact hfollows.safe fun node _ _ h => ⟨node, h⟩

/-- The fragments of a document end well in any number of scopes. A document is in none when it is
read, so there is no reader of cursors that these follow. -/
theorem documentLoop_safe (given : Option Fence) (hin : cur.In ctx.source)
    (hreached : state.reached ≤ cur.offset) (hfuel : 4 * cur.rest.length < fuel) :
    Safe (ctx.Refuses given) (fun found after => cur.offset ≤ found.1.2 ∧
        ∃ next : Cursor, next.In ctx.source ∧ cur.offset ≤ next.offset ∧ found.2 = next.offset ∧
          after.depth = state.depth)
      ((fragmentLoop ctx fuel none opener cur.offset).run state) := by
  induction fuel generalizing cur state with
  | zero => omega
  | succ fuel ih =>
    rw [fragmentLoop, run_bind_of_ok (run_startAt hreached)]
    refine .bind ((fragmentBreak_follows hin).safe fun brk _ _ h => Exists.intro brk h) ?_
    rintro _ _ ⟨brk, rfl, rfl, -⟩
    have hafter := past_break_in hin brk
    rw [run_bind_of_ok (run_prose _ brk)]
    by_cases hfound : (FoundBreak.ofBreak cur.offset brk).mark = [ctx.sw.char]
    · obtain ⟨hrest, hstart⟩ := past_switch_lt hfound
      rw [if_pos hfound]
      refine .bind (expression_safe given (Nat.le_add_right _ _) hafter hstart
        (by dsimp only; omega)) ?_
      rintro _ _ ⟨node, hnode, hgone, hreached⟩
      have hgone : cur.offset + width brk.inner + width brk.mark + 1 ≤ node.next.offset := hgone
      have hnext : node.next.rest.length < brk.rest.length + 1 := node.lt
      refine .bind (ih hnode (hreached rfl) (by omega)) ?_
      rintro ⟨⟨tail, mark⟩, _⟩ after ⟨hmark, next, hin, hend, rfl, hdepth⟩
      have hmark : node.next.offset ≤ mark := hmark
      have hbefore : cur.offset ≤ node.next.offset := by omega
      exact .ok ⟨Nat.le_trans hbefore hmark, next, hin, Nat.le_trans hbefore hend, rfl, hdepth⟩
    · rw [if_neg hfound]
      refine .ok ⟨Nat.le_add_right _ _, _, hafter, ?_, rfl, rfl⟩
      dsimp only
      omega

theorem fragments_advance (hmeets : ∀ fence ∈ closing, ctx.Meets given fence)
    (hin : cur.In ctx.source) (hreached : state.reached ≤ cur.offset)
    (hfuel : 4 * cur.rest.length + 1 < fuel) :
    Advances ctx given state.depth (cur.offset + width (rightOf closing))
      ((fragments ctx fuel closing opener cur.offset).run state) := by
  cases closing with
  | some fence =>
    have hfollows := (guarding ctx given fuel).fragments_follow (some fence) opener
      (h := Nat.lt_succ_self _) rfl nofun hmeets hin hreached hfuel
    exact hfollows.advances
  | none =>
    obtain ⟨fuel, rfl⟩ := Nat.exists_eq_add_of_lt hfuel
    rw [fragments]
    refine .after_build (fun _ => .inl rfl) hmeets ?_
    rw [run_bind_of_ok run_enter]
    refine .bind (documentLoop_safe given hin hreached (by omega)) ?_
    rintro ⟨⟨children, mark⟩, _⟩ after ⟨hmark, next, hnext, hend, rfl, hdepth⟩
    dsimp only
    rw [run_bind_of_ok (run_leave hdepth), run_bind_of_ok (run_spanOf hmark),
      run_bind_of_ok (run_checkHashes_document hnext)]
    exact advances_of_in hnext hend

theorem text_advances (hmeets : ∀ fence ∈ closing, ctx.Meets given fence) (hin : cur.In ctx.source)
    (hreached : state.reached ≤ cur.offset) :
    Advances ctx given state.depth (cur.offset + width (rightOf closing))
      ((text ctx closing opener cur.offset).run state) := by
  cases closing with
  | some fence => exact (text_follows rfl (hmeets fence rfl) hin hreached).advances
  | none =>
    obtain ⟨found, next, hfound, hnext, hmark, hstop, hend⟩ := run_textBreak_document hin
    rw [text, run_bind_of_ok (run_startAt hreached)]
    refine .after_build (fun _ => .inr rfl) hmeets ?_
    rw [run_bind_of_ok hfound, run_bind_of_ok (run_spanOf hmark), hend,
      run_bind_of_ok (run_checkHashes_document hnext)]
    exact advances_of_in hnext (Nat.le_trans hmark hstop)

/-- Under a bound that is large enough, the guarded readers read the document that the readers
read, or find the same flaw, unless they are refused an expression. -/
theorem document_eq_or_refused (ctx : Context)
    (hfuel : 4 * ctx.source.toList.length + 1 < fuel) :
    document ctx fuel = (Parser.document ctx.sw ctx.source).mapError Stop.flaw ∨
      ∃ marks, document ctx fuel = .error (.marks marks) ∧ ctx.Refuses none marks := by
  have hchecked : ∀ {limit : Nat} (r : Except Flaw (Step limit (List Fragment × Nat))),
      (do
        let inner ← r
        checkEnd false none 0 inner.next
        return inner) = r := by
    intro limit r
    cases r <;> rfl
  have hfollows := (guarding ctx none fuel).fragments_follow none 0
    (h := Nat.lt_add_one (4 * (Cursor.start ctx.source).rest.length)) rfl (fun _ => rfl) nofun
    (Cursor.start_in ctx.source)
    (show (State.mk 0 0).reached ≤ (Cursor.start ctx.source).offset from Nat.le_refl 0) hfuel
  rw [show (State.mk 0 0).isNested = false from rfl, hchecked] at hfollows
  rw [document, Parser.document]
  change Follows _ _ (Parser.fragments ctx.sw _ .document _ _)
    ((fragments ctx fuel none 0 0).run ⟨0, 0⟩) at hfollows
  generalize (fragments ctx fuel none 0 0).run ⟨0, 0⟩ = result at hfollows ⊢
  generalize Parser.fragments ctx.sw _ .document _ _ = r at hfollows ⊢
  cases hfollows with
  | error flaw => exact .inl rfl
  | ok h =>
    obtain ⟨-, -, -⟩ := h
    exact .inl rfl
  | refused h => exact .inr ⟨_, rfl, h⟩

end Whole

end Guarded

open Guarded

/-- Wherever in a source they start, the readers end with a flaw or further on, by the right text of
the scope at least, at a character boundary, and in as many scopes as they started. No loop or call
starts where one has started before, and no slice, span or fence is refused. The only guard that can
stop them is that on expressions: the library refuses one for the marks of a fence of the source, or
of the fence that they are given. What they read of the whole source is otherwise what the readers
of cursors read. -/
theorem readers_advance (ctx : Context) (fuel : Nat)
    (hfuel : 4 * ctx.source.toList.length + 3 < fuel) :
    (∀ offset, isBoundary ctx.source offset = true → ∀ state : State, state.reached ≤ offset →
      (∀ start ≤ offset,
        Advances ctx none state.depth (offset + 1)
            ((Guarded.expression ctx fuel start offset).run state) ∧
          ∀ phrase enclosing, Advances ctx none state.depth offset
            ((Guarded.call ctx fuel start phrase enclosing offset).run state)) ∧
      (∀ opener, Advances ctx none state.depth (offset + 1)
        ((Guarded.tokens ctx fuel opener offset).run state)) ∧
      ∀ (closing : Option Fence) (opener : Nat),
        Advances ctx closing state.depth (offset + width (rightOf closing))
            ((Guarded.fragments ctx fuel closing opener offset).run state) ∧
          Advances ctx closing state.depth (offset + width (rightOf closing))
            ((Guarded.text ctx closing opener offset).run state)) ∧
    (Guarded.document ctx fuel = (Parser.document ctx.sw ctx.source).mapError Stop.flaw ∨
      ∃ marks, Guarded.document ctx fuel = .error (.marks marks) ∧ ctx.Refuses none marks) := by
  refine ⟨?_, document_eq_or_refused ctx (by omega)⟩
  intro offset hboundary state hreached
  obtain ⟨cur, hin, rfl⟩ := isBoundary_iff.1 hboundary
  have hrest : cur.rest.length ≤ ctx.source.toList.length := by
    obtain ⟨before, hbefore⟩ := hin
    exact hbefore.length_le
  have hguarding := guarding ctx none fuel
  refine ⟨?_, ?_, ?_⟩
  · intro start hstart
    refine ⟨?_, ?_⟩
    · exact (hguarding.expression_follows (h := Nat.lt_succ_self _) rfl hstart hin hreached
        (by omega)).advances
    · intro phrase enclosing
      exact (hguarding.call_follows (h := Nat.lt_succ_self _) rfl hstart hin hreached
        (by omega)).advances
  · intro opener
    exact (hguarding.tokens_follow opener (h := Nat.lt_succ_self _) rfl hin hreached
      (by omega)).advances
  · intro closing opener
    have hmeets : ∀ fence ∈ closing, ctx.Meets closing fence := fun fence hfence => .inl hfence
    exact ⟨fragments_advance hmeets hin hreached (by omega), text_advances hmeets hin hreached⟩

/-- A source in which the readers call each other, under a limit that no fence in it is over. -/
def Guarded.Context.nested : Context :=
  .limited .standard "é@f[x {y}]#{@|a|}#" 1000

/-- From the place after the switch on, and as a whole. -/
theorem readers_advance_nested :
    Advances .nested none 0 4 ((Guarded.expression .nested 100 2 3).run ⟨0, 0⟩) ∧
      ((Guarded.expression .nested 100 2 3).run ⟨0, 0⟩).toOption.map (·.1.2) = some 19 ∧
      Guarded.document .nested 100 =
        (Parser.document .standard "é@f[x {y}]#{@|a|}#").mapError Stop.flaw := by
  obtain ⟨hreaders, hdocument⟩ := readers_advance .nested 100 (by decide)
  have hexpression := ((hreaders 3 (by decide) ⟨0, 0⟩ (by decide)).1 2 (by decide)).1
  have hread : (Guarded.document .nested 100).toOption.isSome = true := by decide +kernel
  refine ⟨hexpression, by decide +kernel, hdocument.resolve_right ?_⟩
  rintro ⟨marks, hrefused, -⟩
  rw [hrefused] at hread
  exact Bool.false_ne_true hread

/-! ## Fences that are refused -/

namespace Guarded

section Refused

variable {ctx : Context} {fence : Fence} {fuel start opener : Nat} {cur inner : Cursor}
  {state : State}

theorem run_fragments_refused (hbuilds : ctx.builds [[ctx.sw.char], fence.right] = false) :
    (fragments ctx (fuel + 1) (some fence) opener start).run state =
      .error (.marks [[ctx.sw.char], fence.right]) := by
  have hbuild : (ctx.build (ctx.fragmentMarks (some fence))).run state =
      .error (.marks [[ctx.sw.char], fence.right]) := by
    simp only [Context.build, Context.fragmentMarks, Option.map_some, hbuilds]
    rfl
  rw [fragments, run_bind_of_error hbuild]

theorem run_expression_refused (hd : fence.delimiter = .brace)
    (hbuilds : ctx.builds [[ctx.sw.char], fence.right] = false) (hin : cur.In ctx.source)
    (hleft : cur.Passes fence.left inner) (hreached : state.reached ≤ cur.offset) :
    (expression ctx (fuel + 3) start cur.offset).run state =
      .error (.marks [[ctx.sw.char], fence.right]) := by
  obtain ⟨cut, hbrace, -⟩ := Fence.cut?_of_passes hleft
  rw [hd] at hbrace
  have hopens : Opens .brace cur.rest := hd ▸ hleft.opens
  have hid : Lexeme.identifier? cur.rest = none :=
    Lexeme.identifier?_eq_none_iff.2 hopens.isIdStart_head
  have hbar : Fence.cut? .bar cur.rest = none :=
    Fence.cut?_eq_none_iff.2 fun h => nomatch h.delimiter_unique hopens
  have hbody : (body? ctx (fuel + 2) cur.offset).run ⟨state.depth, cur.offset + 1⟩ =
      .error (.marks [[ctx.sw.char], fence.right]) := by
    rw [body?, run_bind_of_ok (run_opening? hin), hbrace]
    exact run_bind_of_error (run_fragments_refused hbuilds)
  rw [expression, run_bind_of_ok (run_startAt hreached), match?_eq hin, hid]
  dsimp only [Option.map_none]
  rw [run_bind_of_ok (run_opening? hin), hbar]
  exact run_bind_of_error hbody

theorem run_documentLoop_refused {before rest : List Char} (hd : fence.delimiter = .brace)
    (hbuilds : ctx.builds [[ctx.sw.char], fence.right] = false) (hin : cur.In ctx.source)
    (hrest : cur.rest = before ++ ([ctx.sw.char] ++ (fence.left ++ rest)))
    (hbefore : ctx.sw.char ∉ before) (hreached : state.reached ≤ cur.offset) :
    (fragmentLoop ctx (fuel + 4) none opener cur.offset).run state =
      .error (.marks [[ctx.sw.char], fence.right]) := by
  obtain ⟨brk, hbrk, -, hmark, hafter⟩ := Scope.document.nextBreak_of_mark hrest.symm
    ⟨hbefore, nofun⟩ (.inl rfl)
  obtain rfl := Except.ok.inj hbrk
  have hfound : (FoundBreak.ofBreak cur.offset (Break.ofDocument ctx.sw cur.rest)).mark =
      [ctx.sw.char] := hmark
  rw [fragmentLoop, run_bind_of_ok (run_startAt hreached),
    run_bind_of_ok (run_nextBreak_document hin), run_bind_of_ok (run_prose _ _), if_pos hfound]
  exact run_bind_of_error (run_expression_refused hd hbuilds (past_break_in hin _)
    (Cursor.passes_of_rest_eq hafter) (past_switch_lt hmark).2)

/-- A document is not read if its first expression is a block in braces for which the library
refuses an expression. -/
theorem document_refused (ctx : Context) {before rest : List Char} (hd : fence.delimiter = .brace)
    (hsource : ctx.source.toList = before ++ ([ctx.sw.char] ++ (fence.left ++ rest)))
    (hbefore : ctx.sw.char ∉ before)
    (hbuilds : ctx.builds [[ctx.sw.char], fence.right] = false) (fuel : Nat) :
    document ctx (fuel + 5) = .error (.marks [[ctx.sw.char], fence.right]) := by
  have hloop : (fragmentLoop ctx (fuel + 4) none 0 0).run ⟨0, 0⟩ =
      .error (.marks [[ctx.sw.char], fence.right]) :=
    run_documentLoop_refused hd hbuilds (Cursor.start_in ctx.source) hsource hbefore
      (Nat.le_refl 0)
  have hfragments : (fragments ctx (fuel + 5) none 0 0).run ⟨0, 0⟩ =
      .error (.marks [[ctx.sw.char], fence.right]) := by
    rw [fragments, run_bind_of_ok rfl, run_bind_of_ok run_enter]
    exact run_bind_of_error hloop
  rw [document, hfragments]
  rfl

end Refused

/-! ## The limit of the library -/

section Limit

variable {sw : Switch} {source : String} {limit : Nat} {marks : List (List Char)}

theorem Context.limited_builds_eq_false :
    (Context.limited sw source limit).builds marks = false ↔ limit < width marks.flatten := by
  simp [Context.limited]

/-- A fence stands in the source with its left text, which is as long as the right one. -/
theorem Context.lt_of_limited_refuses (h : (Context.limited sw source limit).Refuses none marks) :
    limit < source.utf8ByteSize + 4 := by
  obtain ⟨hbuilds, fence, hmeets, hmarks⟩ := h
  have hlimit := Context.limited_builds_eq_false.1 hbuilds
  obtain ⟨before, after, hsource⟩ := hmeets.resolve_left nofun
  have hwidth : width before + width fence.left + width after = source.utf8ByteSize := by
    rw [← width_toList, ← width_append, ← width_append, hsource]
    rfl
  have hswitch := sw.char.utf8Size_le_four
  rw [fence.width_left] at hwidth
  rcases hmarks with rfl | rfl
  · have hsum : limit < sw.char.utf8Size + (fence.hashes + 1) := by
      simpa [Context.limited, fence.width_right] using hlimit
    omega
  · have hsum : limit < fence.hashes + 1 := by
      simpa [fence.width_right] using hlimit
    omega

/-- Under the limit of the library, the guarded readers read what the readers read, unless the marks
of a fence are refused. -/
theorem document_limited (sw : Switch) (source : String) :
    document (.limited sw source Context.sizeLimit) (enough source) =
      match refused? sw source with
      | some marks => .error (.marks marks)
      | none => (Parser.document sw source).mapError Stop.flaw := by
  have hread : document (.limited sw source Context.sizeLimit) (enough source) =
        (Parser.document sw source).mapError Stop.flaw ∨
      ∃ marks, document (.limited sw source Context.sizeLimit) (enough source) =
          .error (.marks marks) ∧
        (Context.limited sw source Context.sizeLimit).Refuses none marks :=
    document_eq_or_refused (.limited sw source Context.sizeLimit)
      (show 4 * source.toList.length + 1 < enough source by simp [enough])
  by_cases hshort : source.utf8ByteSize + 4 ≤ Context.sizeLimit
  · rw [refused?, if_pos hshort]
    refine hread.resolve_right ?_
    rintro ⟨marks, -, hrefuses⟩
    have hlimit := Context.lt_of_limited_refuses hrefuses
    omega
  · rw [refused?, if_neg hshort]
    obtain hread | ⟨marks, hrefused, -⟩ := hread
    · rw [hread]
      cases Parser.document sw source <;> rfl
    · rw [hrefused]

/-- A document that is a block in braces with so many `#` is refused. -/
theorem document_refused_of_hashes (sw : Switch) (text : String) {hashes : Nat}
    (h : Context.sizeLimit ≤ hashes) :
    document (.limited sw (Fence.wrap ⟨.brace, hashes⟩ sw.text text) Context.sizeLimit)
        (enough (Fence.wrap ⟨.brace, hashes⟩ sw.text text)) =
      .error (.marks [[sw.char], Fence.right ⟨.brace, hashes⟩]) := by
  obtain ⟨fuel, hfuel⟩ := Nat.exists_eq_add_of_le'
    (show 5 ≤ enough (Fence.wrap ⟨.brace, hashes⟩ sw.text text) by
      simp [enough, Fence.wrap, Switch.text]
      omega)
  have hsource : (Fence.wrap ⟨.brace, hashes⟩ sw.text text).toList =
      [] ++ ([sw.char] ++ (Fence.left ⟨.brace, hashes⟩ ++
        (text.toList ++ Fence.right ⟨.brace, hashes⟩))) := by
    simp [Fence.wrap, Fence.enclosing, Switch.text]
  have hwide : Context.sizeLimit < width [[sw.char], Fence.right ⟨.brace, hashes⟩].flatten := by
    simp [Fence.width_right]
    omega
  rw [hfuel]
  exact document_refused (.limited sw _ Context.sizeLimit) rfl hsource List.not_mem_nil
    (Context.limited_builds_eq_false.2 hwide) fuel

end Limit

end Guarded

/-- The library does not build the expression for braces with 400000 `#`, so that a document with a
block in them is not read. -/
theorem readers_refused :
    Guarded.document
        (.limited .standard (Fence.wrap ⟨.brace, 400000⟩ "@" "x") Context.sizeLimit)
        (enough (Fence.wrap ⟨.brace, 400000⟩ "@" "x")) =
      .error (.marks [['@'], Fence.right ⟨.brace, 400000⟩]) := by
  have htext : Switch.standard.text = "@" := by decide
  have hover : Context.sizeLimit ≤ 400000 := by decide
  have hrefused := document_refused_of_hashes .standard "x" hover
  rw [htext] at hrefused
  exact hrefused

end Prosemark
