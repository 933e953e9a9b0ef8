import Prosemark.Proofs.Carry
import Prosemark.Proofs.Rules

/-!
# The same text further on

Readers look ahead only, and offsets show in what they find, never in how they find it. So where the
same text stands further on, a reader ends in the same way: with the same tree or with the same
flaw, moved by the distance (`shifting`). The bounds play no part in this either.
-/

namespace Prosemark

/-- The flaw, further on by `d` bytes. -/
def Flaw.shift (d : Nat) (flaw : Flaw) : Flaw :=
  ⟨flaw.fault, d + flaw.offset⟩

namespace Parser

/-- The scope, opened further on by `d` bytes. -/
def Scope.shift (d : Nat) : Scope → Scope
  | document => document
  | braces fence opener => braces fence (d + opener)

theorem Scope.isNested_shift (d : Nat) (scope : Scope) :
    (scope.shift d).isNested = scope.isNested := by
  cases scope <;> rfl

/-! ## Results -/

section Results

variable {α β γ δ : Type} {d : Nat}

/-- Both fail, the second one further on, or both have a value, and the values are related. -/
inductive Shifts (d : Nat) (R : α → β → Prop) : Except Flaw α → Except Flaw β → Prop
  | error (flaw : Flaw) : Shifts d R (.error flaw) (.error (flaw.shift d))
  | ok {a : α} {b : β} (h : R a b) : Shifts d R (.ok a) (.ok b)

theorem Shifts.bind {R : α → β → Prop} {S : γ → δ → Prop} {r : Except Flaw α} {r' : Except Flaw β}
    {f : α → Except Flaw γ} {f' : β → Except Flaw δ} (h : Shifts d R r r')
    (hf : ∀ a b, R a b → Shifts d S (f a) (f' b)) : Shifts d S (r >>= f) (r' >>= f') := by
  cases h with
  | error flaw => exact .error flaw
  | ok h => exact hf _ _ h

theorem Shifts.error_eq {R : α → β → Prop} {r : Except Flaw α} {r' : Except Flaw β} {flaw : Flaw}
    (h : Shifts d R r r') (hr : r = .error flaw) : r' = .error (flaw.shift d) := by
  subst hr
  cases h
  rfl

/-- The second step has the value moved, and stops at the same text further on. -/
inductive StepShifts {limit limit' : Nat} (d : Nat) (move : α → α) :
    Step limit α → Step limit' α → Prop
  | mk {value value' : α} {offset offset' : Nat} {cs : List Char} {lt : cs.length < limit}
      {lt' : cs.length < limit'} (hvalue : value' = move value) (hoffset : offset' = d + offset) :
      StepShifts d move ⟨value, ⟨offset, cs⟩, lt⟩ ⟨value', ⟨offset', cs⟩, lt'⟩

/-- Both find nothing, or both find something, moved. -/
inductive FindShifts {limit limit' : Nat} (d : Nat) (move : α → α) :
    Option (Step limit α) → Option (Step limit' α) → Prop
  | none : FindShifts d move none none
  | some {step : Step limit α} {step' : Step limit' α} (h : StepShifts d move step step') :
      FindShifts d move (some step) (some step')

end Results

variable {sw : Switch} {d : Nat} {nested : Bool} {fence : Fence} {opener opener' : Nat}
  {offset offset' : Nat} {cs : List Char}

theorem nextBreak_shifts (scope : Scope) (cs : List Char) :
    Shifts d Eq (scope.nextBreak sw cs) ((scope.shift d).nextBreak sw cs) := by
  cases scope with
  | document => exact .ok rfl
  | braces fence opener =>
    simp only [Scope.shift, Scope.nextBreak]
    split
    · exact .ok rfl
    · exact .error _

theorem checkPadding_shifts (hopener : opener' = d + opener) :
    Shifts d Eq (checkPadding nested fence opener ⟨offset, cs⟩)
      (checkPadding nested fence opener' ⟨offset', cs⟩) := by
  subst hopener
  unfold checkPadding
  split
  · exact .error _
  · exact .ok rfl

theorem verbatim_shifts (hopener : opener' = d + opener) (hoffset : offset' = d + offset) :
    Shifts d (StepShifts d (Prod.map id (d + ·))) (verbatim fence opener ⟨offset, cs⟩)
      (verbatim fence opener' ⟨offset', cs⟩) := by
  subst hopener hoffset
  unfold verbatim
  dsimp only
  split
  · exact .error _
  · refine .ok (.mk ?_ ?_)
    · simp [Nat.add_assoc]
    · simp only [Nat.add_assoc]

theorem atom_shifts (hoffset : offset' = d + offset) :
    Shifts d (fun o o' => o' = o.map (Prod.map (Token.carry (d + ·) id) id))
      (atom? sw ⟨offset, cs⟩) (atom? sw ⟨offset', cs⟩) := by
  subst hoffset
  unfold atom?
  simp only [lexemeSpan, Nat.add_assoc]
  split
  · exact .ok rfl
  · split
    · exact .ok rfl
    · split
      · next numeral cut _ =>
        unfold numberOf
        cases Number.ofNumeral numeral with
        | ok number => exact .ok rfl
        | error column => exact .error _
      · exact .ok rfl

theorem carryAll_prose (d offset : Nat) (inner : List Char) :
    Fragment.carryAll (d + ·) id (prose offset inner) = prose (d + offset) inner := by
  cases inner with
  | nil => rfl
  | cons c cs =>
    simp only [prose, Fragment.carryAll, Fragment.carry, Text.carry, Span.carry, map_id_text,
      Nat.add_assoc]

/-! ## One step of each reader -/

/-- What readers under a bound do at an offset, readers under any bound do further on. -/
structure Shifting (sw : Switch) (d : Nat) (bound : Nat) : Prop where
  fragments_shift {scope scope' : Scope} {offset offset' bound' : Nat} {cs : List Char}
    {h : 4 * cs.length < bound} {h' : 4 * cs.length < bound'} (hscope : scope' = scope.shift d)
    (hoffset : offset' = d + offset) :
    Shifts d (StepShifts d (Prod.map (Fragment.carryAll (d + ·) id) (d + ·)))
      (fragments sw bound scope ⟨offset, cs⟩ h) (fragments sw bound' scope' ⟨offset', cs⟩ h')
  body_shifts {nested : Bool} {offset offset' bound' : Nat} {cs : List Char}
    {h : 4 * cs.length + 1 < bound} {h' : 4 * cs.length + 1 < bound'}
    (hoffset : offset' = d + offset) :
    Shifts d (FindShifts d (Body.carry (d + ·) id)) (body? sw bound nested ⟨offset, cs⟩ h)
      (body? sw bound' nested ⟨offset', cs⟩ h')
  expression_shifts {nested : Bool} {start start' offset offset' bound' : Nat} {cs : List Char}
    {h : 4 * cs.length + 2 < bound} {h' : 4 * cs.length + 2 < bound'}
    (hstart : start' = d + start) (hoffset : offset' = d + offset) :
    Shifts d (StepShifts d (Fragment.carry (d + ·) id))
      (expression sw bound nested start ⟨offset, cs⟩ h)
      (expression sw bound' nested start' ⟨offset', cs⟩ h')
  call_shifts {nested : Bool} {start start' offset offset' bound' : Nat} {phrase : List Char}
    {e : Enclosing} {cs : List Char} {h : 4 * cs.length + 3 < bound}
    {h' : 4 * cs.length + 3 < bound'} (hstart : start' = d + start)
    (hoffset : offset' = d + offset) :
    Shifts d (StepShifts d (Command.carry (d + ·) id))
      (call sw bound nested start phrase e ⟨offset, cs⟩ h)
      (call sw bound' nested start' phrase e ⟨offset', cs⟩ h')
  group_shifts {nested : Bool} {offset offset' bound' : Nat} {cs : List Char}
    {h : 4 * cs.length + 1 < bound} {h' : 4 * cs.length + 1 < bound'}
    (hoffset : offset' = d + offset) :
    Shifts d (FindShifts d (Group.carry (d + ·) id)) (group? sw bound nested ⟨offset, cs⟩ h)
      (group? sw bound' nested ⟨offset', cs⟩ h')
  token_shifts {nested : Bool} {offset offset' bound' : Nat} {cs : List Char}
    {h : 4 * cs.length + 2 < bound} {h' : 4 * cs.length + 2 < bound'}
    (hoffset : offset' = d + offset) :
    Shifts d (FindShifts d (Token.carry (d + ·) id)) (token? sw bound nested ⟨offset, cs⟩ h)
      (token? sw bound' nested ⟨offset', cs⟩ h')
  tokens_shift {nested : Bool} {opener opener' offset offset' bound' : Nat} {cs : List Char}
    {h : 4 * cs.length + 3 < bound} {h' : 4 * cs.length + 3 < bound'}
    (hopener : opener' = d + opener) (hoffset : offset' = d + offset) :
    Shifts d (StepShifts d (Prod.map (Token.carryAll (d + ·) id) (d + ·)))
      (tokens sw bound nested opener ⟨offset, cs⟩ h)
      (tokens sw bound' nested opener' ⟨offset', cs⟩ h')

namespace Shifting

variable {bound bound' : Nat} (hs : Shifting sw d bound)

include hs

theorem fragments_shift_step {scope scope' : Scope} {h : 4 * cs.length < bound + 1}
    {h' : 4 * cs.length < bound'} (hscope : scope' = scope.shift d)
    (hoffset : offset' = d + offset) :
    Shifts d (StepShifts d (Prod.map (Fragment.carryAll (d + ·) id) (d + ·)))
      (fragments sw (bound + 1) scope ⟨offset, cs⟩ h)
      (fragments sw bound' scope' ⟨offset', cs⟩ h') := by
  subst hscope hoffset
  obtain ⟨bound', rfl⟩ := Nat.exists_eq_add_of_lt h'
  rw [fragments, fragments]
  refine .bind (nextBreak_shifts scope cs) ?_
  rintro brk _ rfl
  simp only [Scope.isNested_shift]
  split
  · refine .bind (hs.expression_shifts (by omega) (by omega)) ?_
    rintro _ _ ⟨rfl, rfl⟩
    refine .bind (hs.fragments_shift rfl rfl) ?_
    rintro _ _ ⟨rfl, rfl⟩
    refine .ok (.mk ?_ rfl)
    simp only [Prod.map, Fragment.carryAll_append, Fragment.carryAll, carryAll_prose]
  · refine .ok (.mk ?_ (by omega))
    simp only [Prod.map, carryAll_prose, Nat.add_assoc]

theorem body_shifts_step {h : 4 * cs.length + 1 < bound + 1} {h' : 4 * cs.length + 1 < bound'}
    (hoffset : offset' = d + offset) :
    Shifts d (FindShifts d (Body.carry (d + ·) id)) (body? sw (bound + 1) nested ⟨offset, cs⟩ h)
      (body? sw bound' nested ⟨offset', cs⟩ h') := by
  subst hoffset
  obtain ⟨bound', rfl⟩ := Nat.exists_eq_add_of_lt h'
  rw [body?, body?]
  dsimp only [Cursor.past]
  split
  · refine .bind (hs.fragments_shift rfl (by omega)) ?_
    rintro _ _ ⟨rfl, rfl⟩
    refine .bind (checkPadding_shifts rfl) ?_
    rintro _ _ -
    refine .ok (.some (.mk ?_ rfl))
    simp only [Step.map, Body.carry, Block.carry, Span.carry, Prod.map, Nat.add_assoc]
  · split
    · refine .bind (verbatim_shifts rfl (by omega)) ?_
      rintro _ _ ⟨rfl, rfl⟩
      refine .bind (checkPadding_shifts rfl) ?_
      rintro _ _ -
      refine .ok (.some (.mk ?_ rfl))
      simp only [Step.map, Body.carry, Text.carry, Span.carry, Prod.map, map_id_text, id,
        Nat.add_assoc]
    · exact .ok .none

theorem expression_shifts_step {start start' : Nat} {h : 4 * cs.length + 2 < bound + 1}
    {h' : 4 * cs.length + 2 < bound'} (hstart : start' = d + start)
    (hoffset : offset' = d + offset) :
    Shifts d (StepShifts d (Fragment.carry (d + ·) id))
      (expression sw (bound + 1) nested start ⟨offset, cs⟩ h)
      (expression sw bound' nested start' ⟨offset', cs⟩ h') := by
  subst hstart hoffset
  obtain ⟨bound', rfl⟩ := Nat.exists_eq_add_of_lt h'
  rw [expression, expression]
  dsimp only [Cursor.past]
  split
  · refine .bind (hs.call_shifts rfl (by omega)) ?_
    rintro _ _ ⟨rfl, rfl⟩
    exact .ok (.mk rfl rfl)
  · split
    · refine .bind (verbatim_shifts rfl (by omega)) ?_
      rintro _ _ ⟨rfl, rfl⟩
      refine .bind (hs.call_shifts rfl rfl) ?_
      rintro _ _ ⟨rfl, rfl⟩
      exact .ok (.mk rfl rfl)
    · refine .bind (hs.body_shifts rfl) ?_
      rintro _ _ (_ | ⟨⟨rfl, rfl⟩⟩)
      · dsimp only
        split
        · refine .ok (.mk ?_ (by omega))
          simp only [Fragment.carry, Command.carry, Span.carry, map_id_text,
            Group.carryOption, Body.carryOption, Nat.add_assoc]
        · exact .error _
      · exact .ok (.mk (Body.carry_toFragment _ _ _).symm rfl)

theorem call_shifts_step {start start' : Nat} {phrase : List Char} {e : Enclosing}
    {h : 4 * cs.length + 3 < bound + 1} {h' : 4 * cs.length + 3 < bound'}
    (hstart : start' = d + start) (hoffset : offset' = d + offset) :
    Shifts d (StepShifts d (Command.carry (d + ·) id))
      (call sw (bound + 1) nested start phrase e ⟨offset, cs⟩ h)
      (call sw bound' nested start' phrase e ⟨offset', cs⟩ h') := by
  subst hstart hoffset
  obtain ⟨bound', rfl⟩ := Nat.exists_eq_add_of_lt h'
  rw [call, call]
  split
  · refine .ok (.mk ?_ rfl)
    simp only [Command.carry, Span.carry, map_id_text, Group.carryOption, Body.carryOption]
  · refine .bind (hs.group_shifts rfl) ?_
    -- with and without options, and with and without a body
    rintro _ _ (_ | ⟨⟨rfl, rfl⟩⟩)
    all_goals
      refine .bind (hs.body_shifts rfl) ?_
      rintro _ _ (_ | ⟨⟨rfl, rfl⟩⟩)
      all_goals
        refine .ok (.mk ?_ rfl)
        simp only [Step.orStay, Step.map, Step.weaken, Command.carry, Span.carry, map_id_text,
          Group.carryOption, Body.carryOption]

theorem group_shifts_step {h : 4 * cs.length + 1 < bound + 1} {h' : 4 * cs.length + 1 < bound'}
    (hoffset : offset' = d + offset) :
    Shifts d (FindShifts d (Group.carry (d + ·) id)) (group? sw (bound + 1) nested ⟨offset, cs⟩ h)
      (group? sw bound' nested ⟨offset', cs⟩ h') := by
  subst hoffset
  obtain ⟨bound', rfl⟩ := Nat.exists_eq_add_of_lt h'
  rw [group?, group?]
  dsimp only [Cursor.past]
  split
  · refine .bind (hs.tokens_shift rfl (by omega)) ?_
    rintro _ _ ⟨rfl, rfl⟩
    refine .ok (.some (.mk ?_ rfl))
    simp only [Step.map, Group.carry, Span.carry, Prod.map, Nat.add_assoc]
  · exact .ok .none

theorem token_shifts_step {h : 4 * cs.length + 2 < bound + 1} {h' : 4 * cs.length + 2 < bound'}
    (hoffset : offset' = d + offset) :
    Shifts d (FindShifts d (Token.carry (d + ·) id)) (token? sw (bound + 1) nested ⟨offset, cs⟩ h)
      (token? sw bound' nested ⟨offset', cs⟩ h') := by
  subst hoffset
  obtain ⟨bound', rfl⟩ := Nat.exists_eq_add_of_lt h'
  rw [token?, token?]
  refine .bind (atom_shifts rfl) ?_
  rintro (_ | ⟨token, cut⟩) _ rfl
  · refine .bind (hs.body_shifts rfl) ?_
    rintro _ _ (_ | ⟨⟨rfl, rfl⟩⟩)
    · dsimp only [Cursor.past]
      split
      · refine .bind (hs.expression_shifts rfl (by omega)) ?_
        rintro _ _ ⟨rfl, rfl⟩
        exact .ok (.some (.mk (Fragment.carry_toToken _ _ _).symm rfl))
      · refine .bind (hs.group_shifts rfl) ?_
        rintro _ _ (_ | ⟨⟨rfl, rfl⟩⟩)
        · exact .ok .none
        · exact .ok (.some (.mk rfl rfl))
    · exact .ok (.some (.mk (Body.carry_toToken _ _ _).symm rfl))
  · exact .ok (.some (.mk rfl (Nat.add_assoc d offset _)))

theorem tokens_shift_step {h : 4 * cs.length + 3 < bound + 1} {h' : 4 * cs.length + 3 < bound'}
    (hopener : opener' = d + opener) (hoffset : offset' = d + offset) :
    Shifts d (StepShifts d (Prod.map (Token.carryAll (d + ·) id) (d + ·)))
      (tokens sw (bound + 1) nested opener ⟨offset, cs⟩ h)
      (tokens sw bound' nested opener' ⟨offset', cs⟩ h') := by
  subst hopener hoffset
  obtain ⟨bound', rfl⟩ := Nat.exists_eq_add_of_lt h'
  rw [tokens, tokens]
  dsimp only [Cursor.skip]
  refine .bind (hs.token_shifts (by omega)) ?_
  rintro _ _ (_ | ⟨⟨rfl, rfl⟩⟩)
  · dsimp only [Cursor.past]
    split
    · refine .ok (.mk ?_ (by omega))
      simp only [Prod.map, Token.carryAll, Nat.add_assoc]
    · exact .error _
  · refine .bind (hs.tokens_shift rfl rfl) ?_
    rintro _ _ ⟨rfl, rfl⟩
    exact .ok (.mk rfl rfl)

end Shifting

/-- Where the same text stands further on, readers end in the same way, whatever the bounds. -/
theorem shifting (sw : Switch) (d bound : Nat) : Shifting sw d bound := by
  induction bound with
  | zero =>
    -- no text is short enough for a bound of zero
    constructor <;> intros <;> omega
  | succ bound ih =>
    exact
      { fragments_shift := ih.fragments_shift_step
        body_shifts := ih.body_shifts_step
        expression_shifts := ih.expression_shifts_step
        call_shifts := ih.call_shifts_step
        group_shifts := ih.group_shifts_step
        token_shifts := ih.token_shifts_step
        tokens_shift := ih.tokens_shift_step }

end Parser

end Prosemark
