import Prosemark.Interpreter
import Prosemark.Proofs.Numeral

/-!
# Joined lines

A line of prose can be continued: a backslash, a newline and the blanks on either side of it mean
nothing. `Joined` says what is left of a text when its continuations are taken out from left to
right, and `joinLines` finds it (`joined_iff`), so that nothing else is left.

A character that is in no continuation divides a text into two, and the lines of each are joined
without regard to the other (`Joined.append_cons`).
-/

namespace Prosemark

/-- A backslash, blanks, a newline and blanks. -/
def IsContinuation (text : List Char) : Prop :=
  ∃ before after, text = '\\' :: (before ++ '\n' :: after) ∧
    (∀ c ∈ before, isLineBlank c = true) ∧ ∀ c ∈ after, isLineBlank c = true

/-- The second text is what is left of the first: a continuation is taken out where one begins, with
all the blanks that follow its newline, and any other character is kept. -/
inductive Joined : List Char → List Char → Prop
  | nil : Joined [] []
  | keep {c : Char} {cs out : List Char} (here : ∀ text, IsContinuation text → ¬text <+: c :: cs)
      (tail : Joined cs out) : Joined (c :: cs) (c :: out)
  | drop {text rest out : List Char} (continuation : IsContinuation text)
      (longest : ∀ c ∈ rest.head?, isLineBlank c = false) (tail : Joined rest out) :
      Joined (text ++ rest) out

variable {cs rest text out : List Char}

/-! ## Continuations at the head of a text -/

theorem afterBreak?_eq_some_iff :
    afterBreak? cs = some rest ↔
      ∃ before after, cs = before ++ '\n' :: (after ++ rest) ∧
        (∀ c ∈ before, isLineBlank c = true) ∧ (∀ c ∈ after, isLineBlank c = true) ∧
        ∀ c ∈ rest.head?, isLineBlank c = false := by
  constructor
  · intro h
    unfold afterBreak? at h
    split at h
    · next tail htail =>
      obtain rfl := Option.some.inj h
      refine ⟨cs.takeWhile isLineBlank, tail.takeWhile isLineBlank, ?_,
        forall_mem_takeWhile _ cs, forall_mem_takeWhile _ tail, head_dropWhile _ tail⟩
      rw [List.takeWhile_append_dropWhile, ← htail, List.takeWhile_append_dropWhile]
    · cases h
  · rintro ⟨before, after, rfl, hbefore, hafter, hrest⟩
    have hnewline : ∀ c ∈ ('\n' :: (after ++ rest)).head?, isLineBlank c = false := by
      rintro _ ⟨⟩
      decide
    rw [afterBreak?, dropWhile_append_of_head hbefore hnewline]
    exact congrArg some (dropWhile_append_of_head hafter hrest)

theorem afterBreak?_eq_none_iff :
    afterBreak? cs = none ↔ ∀ text, IsContinuation text → ¬text <+: '\\' :: cs := by
  constructor
  · rintro h _ ⟨before, after, rfl, hbefore, hafter⟩ ⟨tail, htail⟩
    rw [List.cons_append, List.append_assoc, List.cons_append] at htail
    -- the continuation goes on over the blanks that follow it
    have hsome : afterBreak? cs = some (tail.dropWhile isLineBlank) := by
      refine afterBreak?_eq_some_iff.2 ⟨before, after ++ tail.takeWhile isLineBlank, ?_, hbefore,
        ?_, head_dropWhile _ tail⟩
      · rw [List.append_assoc, List.takeWhile_append_dropWhile]
        exact (List.cons.inj htail).2.symm
      · exact List.forall_mem_append.2 ⟨hafter, forall_mem_takeWhile _ tail⟩
    rw [h] at hsome
    cases hsome
  · intro h
    cases hsome : afterBreak? cs with
    | none => rfl
    | some rest =>
      obtain ⟨before, after, rfl, hbefore, hafter, -⟩ := afterBreak?_eq_some_iff.1 hsome
      refine absurd ?_ (h _ ⟨before, after, rfl, hbefore, hafter⟩)
      exact ⟨rest, by simp⟩

theorem IsContinuation.afterBreak?_eq (h : IsContinuation text)
    (hrest : ∀ c ∈ rest.head?, isLineBlank c = false) :
    ∃ tail, text ++ rest = '\\' :: tail ∧ afterBreak? tail = some rest := by
  obtain ⟨before, after, rfl, hbefore, hafter⟩ := h
  refine ⟨before ++ '\n' :: (after ++ rest), by simp, ?_⟩
  exact afterBreak?_eq_some_iff.2 ⟨before, after, rfl, hbefore, hafter, hrest⟩

theorem IsContinuation.head {c : Char} (h : IsContinuation text) (hpre : text <+: c :: cs) :
    c = '\\' := by
  obtain ⟨before, after, rfl, -⟩ := h
  exact (List.cons_prefix_cons.1 hpre).1.symm

/-! ## What is found -/

theorem joinLines_joined {bound : Nat} (h : cs.length ≤ bound) :
    Joined cs (joinLines bound cs) := by
  induction bound generalizing cs with
  | zero =>
    obtain rfl := List.length_eq_zero_iff.1 (Nat.le_zero.1 h)
    exact .nil
  | succ bound ih =>
    cases cs with
    | nil => exact .nil
    | cons c cs =>
      have hlength : cs.length ≤ bound := Nat.le_of_succ_le_succ h
      rw [joinLines]
      split
      · next hc =>
        subst hc
        split
        · next rest hrest =>
          obtain ⟨before, after, rfl, hbefore, hafter, hlongest⟩ := afterBreak?_eq_some_iff.1 hrest
          have hrest : rest.length ≤ bound := by
            simp at hlength
            omega
          have hjoined := Joined.drop ⟨before, after, rfl, hbefore, hafter⟩ hlongest (ih hrest)
          simpa using hjoined
        · next hnone => exact .keep (afterBreak?_eq_none_iff.1 hnone) (ih hlength)
      · next hc => exact .keep (fun text htext hpre => hc (htext.head hpre)) (ih hlength)

theorem Joined.joinLines_eq (h : Joined cs out) {bound : Nat} (hbound : cs.length ≤ bound) :
    joinLines bound cs = out := by
  induction h generalizing bound with
  | nil => cases bound <;> rfl
  | @keep c cs out here tail ih =>
    obtain ⟨bound, rfl⟩ := Nat.exists_eq_add_of_lt (Nat.lt_of_lt_of_le (Nat.zero_lt_succ _) hbound)
    rw [Nat.zero_add] at hbound ⊢
    have htail := ih (Nat.le_of_succ_le_succ hbound)
    rw [joinLines]
    split
    · next hc =>
      subst hc
      rw [afterBreak?_eq_none_iff.2 here, htail]
    · rw [htail]
  | @drop text rest out continuation longest tail ih =>
    obtain ⟨cs, hcs, hafter⟩ := continuation.afterBreak?_eq longest
    rw [hcs] at hbound ⊢
    obtain ⟨bound, rfl⟩ := Nat.exists_eq_add_of_lt (Nat.lt_of_lt_of_le (Nat.zero_lt_succ _) hbound)
    obtain ⟨before, after, rfl, -⟩ := afterBreak?_eq_some_iff.1 hafter
    rw [Nat.zero_add] at hbound ⊢
    simp only [joinLines, if_true, hafter]
    apply ih
    simp at hbound
    omega

/-- What is left of a text is what `joinLines` gives. -/
theorem joined_iff : Joined cs out ↔ joinLines cs.length cs = out := by
  constructor
  · intro h
    exact h.joinLines_eq (Nat.le_refl _)
  · rintro rfl
    exact joinLines_joined (Nat.le_refl _)

/-! ## Texts without continuations, and texts in two parts -/

/-- All of a text is left if there is no continuation in it. -/
theorem joined_self (h : ∀ text, IsContinuation text → ¬text <:+: cs) : Joined cs cs := by
  induction cs with
  | nil => exact .nil
  | cons c cs ih =>
    refine .keep (fun text htext hpre => h text htext hpre.isInfix) (ih ?_)
    exact fun text htext hin => h text htext (hin.trans (List.suffix_cons c cs).isInfix)

theorem isLineBlank_of_notMem_continuation {c : Char} (h : ∀ text, IsContinuation text → c ∉ text) :
    isLineBlank c = false := by
  cases hc : isLineBlank c with
  | false => rfl
  | true =>
    have hafter : ∀ d ∈ [c], isLineBlank d = true := List.forall_mem_singleton.2 hc
    exact absurd (by simp) (h _ ⟨[], [c], rfl, List.forall_mem_nil _, hafter⟩)

/-- What begins a text and has no `c` in it ends before each `c` of the text. -/
theorem prefix_of_prefix_append_cons {c : Char} {a b : List Char} (h : text <+: a ++ c :: b)
    (hc : c ∉ text) : text <+: a := by
  rcases List.prefix_or_prefix_of_prefix h (List.prefix_append a (c :: b)) with hle | ⟨w, rfl⟩
  · exact hle
  · cases w with
    | nil => simp
    | cons d w =>
      rw [List.prefix_append_right_inj] at h
      obtain ⟨rfl, -⟩ := List.cons_prefix_cons.1 h
      simp at hc

/-- The lines of two texts are joined apart when a character of no continuation is between them. -/
theorem Joined.append_cons {c : Char} {a b more : List Char}
    (hc : ∀ text, IsContinuation text → c ∉ text) (ha : Joined a out) (hb : Joined b more) :
    Joined (a ++ c :: b) (out ++ c :: more) := by
  induction ha with
  | nil =>
    refine .keep (fun text htext hpre => ?_) hb
    obtain rfl := htext.head hpre
    obtain ⟨before, after, rfl, -⟩ := id htext
    exact hc _ htext List.mem_cons_self
  | @keep d cs out here _ ih =>
    refine .keep (fun text htext hpre => here text htext ?_) ih
    have hpre' : text <+: (d :: cs) ++ c :: b := hpre
    exact prefix_of_prefix_append_cons hpre' (hc text htext)
  | @drop text rest out continuation longest _ ih =>
    rw [List.append_assoc]
    refine .drop continuation ?_ ih
    cases rest with
    | nil =>
      rintro _ ⟨⟩
      exact isLineBlank_of_notMem_continuation hc
    | cons d rest => exact longest

end Prosemark
