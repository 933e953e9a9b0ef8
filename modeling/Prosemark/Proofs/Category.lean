import Prosemark.Charset
import Prosemark.Switch

/-!
# Characters of different kinds

Categories of Unicode do not overlap, and white space is in none of those that the grammar uses. Two
tables in ascending order are compared by walking down both at once (`Ranges.apart`); that is enough
for all of their code points (`Ranges.has_eq_false_of_apart`). The facts about characters that the
readers rely on follow: what starts an identifier, is an operator or a digit is none of the others.
-/

namespace Prosemark

/-! ## Tables that have nothing in common -/

namespace Ranges

/-- The ranges that do not lie wholly below `n`, of a table in ascending order. -/
def dropBelow (n : Nat) : Ranges → Ranges
  | [] => []
  | (lo, hi) :: rest => if hi < n then dropBelow n rest else (lo, hi) :: rest

/-- Whether two tables in ascending order have no code point in common. -/
def apart : Ranges → Ranges → Bool
  | [], _ => true
  | (lo, hi) :: rest, others =>
    (dropBelow lo others).head?.all (fun s => decide (hi < s.1)) &&
      apart rest (dropBelow lo others)

theorem ascendsFrom_dropBelow {n least : Nat} {rs : Ranges} (h : rs.ascendsFrom least = true) :
    ∃ least', (dropBelow n rs).ascendsFrom least' = true := by
  induction rs generalizing least with
  | nil => exact ⟨least, h⟩
  | cons r rest ih =>
    rw [dropBelow]
    split
    · simp only [ascendsFrom, Bool.and_eq_true] at h
      exact ih h.2
    · exact ⟨least, h⟩

theorem lt_or_mem_dropBelow {n : Nat} {rs : Ranges} {s : Nat × Nat} (h : s ∈ rs) :
    s.2 < n ∨ s ∈ dropBelow n rs := by
  induction rs with
  | nil => simp at h
  | cons r rest ih =>
    rw [dropBelow]
    split
    · next hlt =>
      rcases List.mem_cons.1 h with rfl | h
      · exact .inl hlt
      · exact ih h
    · exact .inr h

theorem head_le_of_ascendsFrom {least : Nat} {r : Nat × Nat} {rest : Ranges}
    (h : Ranges.ascendsFrom least (r :: rest) = true) : ∀ s ∈ r :: rest, r.1 ≤ s.1 := by
  simp only [ascendsFrom, Bool.and_eq_true, decide_eq_true_eq] at h
  intro s hs
  rcases List.mem_cons.1 hs with rfl | hs
  · exact Nat.le_refl _
  · have := least_le_of_ascendsFrom h.2 s hs
    omega

/-- No range of one table meets a range of the other. -/
theorem lt_or_lt_of_apart {a b : Ranges} {la lb : Nat} (h : a.apart b = true)
    (ha : a.ascendsFrom la = true) (hb : b.ascendsFrom lb = true) :
    ∀ r ∈ a, ∀ s ∈ b, r.2 < s.1 ∨ s.2 < r.1 := by
  induction a generalizing b la lb with
  | nil => simp
  | cons r rest ih =>
    simp only [apart, Bool.and_eq_true] at h
    obtain ⟨hhead, hrest⟩ := h
    have hsorted := ha
    simp only [ascendsFrom, Bool.and_eq_true, decide_eq_true_eq] at hsorted
    obtain ⟨⟨-, hle⟩, htail⟩ := hsorted
    obtain ⟨lb', hb'⟩ := ascendsFrom_dropBelow (n := r.1) hb
    intro r' hr' s hs
    rcases lt_or_mem_dropBelow (n := r.1) hs with hlt | hs
    · -- the range was passed over, so it lies below all ranges that are left
      have := head_le_of_ascendsFrom ha r' hr'
      exact .inr (by omega)
    · rcases List.mem_cons.1 hr' with rfl | hr'
      · left
        cases hd : dropBelow r'.1 b with
        | nil =>
          rw [hd] at hs
          simp at hs
        | cons s₀ ss =>
          rw [hd] at hs hb' hhead
          have hlt : r'.2 < s₀.1 := by simpa using hhead
          exact Nat.lt_of_lt_of_le hlt (head_le_of_ascendsFrom hb' s hs)
      · exact ih hrest htail hb' r' hr' s hs

theorem has_eq_false_of_apart {a b : Ranges} {n la lb : Nat} (h : a.apart b = true)
    (ha : a.ascendsFrom la = true) (hb : b.ascendsFrom lb = true) (hn : a.has n = true) :
    b.has n = false := by
  obtain ⟨r, hr, hr₁, hr₂⟩ := (has_iff ha).1 hn
  rw [Bool.eq_false_iff]
  intro hnb
  obtain ⟨s, hs, hs₁, hs₂⟩ := (has_iff hb).1 hnb
  rcases lt_or_lt_of_apart h ha hb r hr s hs with hlt | hlt <;> omega

end Ranges

/-! ## The tables of Unicode -/

namespace Unicode

/-- The digits of numerals. -/
def asciiDigits : Ranges :=
  [(0x30, 0x39)]

theorem has_asciiDigits {c : Char} (h : c.isDigit = true) : asciiDigits.has c.toNat = true := by
  simp only [Char.isDigit, Bool.and_eq_true, decide_eq_true_eq, ge_iff_le,
    UInt32.le_iff_toNat_le] at h
  obtain ⟨h₁, h₂⟩ := h
  have hascend : asciiDigits.ascendsFrom 0 = true := by decide
  refine (Ranges.has_iff hascend).2 ⟨(0x30, 0x39), List.mem_singleton.2 rfl, ?_⟩
  exact ⟨h₁, h₂⟩

/-- Pairs of tables that have nothing in common. -/
def apartTables : List (Ranges × Ranges) :=
  [(letters, signs), (letters, blanks), (signs, digits), (signs, extendingMarks),
    (signs, spacingMarks), (signs, blanks), (asciiDigits, letters), (asciiDigits, signs),
    (asciiDigits, brackets), (asciiDigits, blanks), (digits, blanks), (extendingMarks, blanks),
    (spacingMarks, blanks)]

-- all tables are walked down in one evaluation
theorem apartTables_apart : ∀ p ∈ apartTables,
    p.1.ascendsFrom 0 = true ∧ p.2.ascendsFrom 0 = true ∧ p.1.apart p.2 = true := by
  decide +kernel

theorem has_eq_false {a b : Ranges} {n : Nat} (h : (a, b) ∈ apartTables) (hn : a.has n = true) :
    b.has n = false := by
  obtain ⟨ha, hb, hapart⟩ := apartTables_apart (a, b) h
  exact Ranges.has_eq_false_of_apart hapart ha hb hn

end Unicode

/-! ## Kinds of characters -/

namespace Charset

open Unicode

theorem isIdStart_eq_false_of_isOperator {c : Char} (h : isOperator c = true) :
    isIdStart c = false := by
  rw [Bool.eq_false_iff]
  intro hid
  rw [isIdStart, Bool.or_eq_true, beq_iff_eq] at hid
  rcases hid with hid | rfl
  · have hno : signs.has c.toNat = false := has_eq_false (by simp [apartTables]) hid
    exact Bool.false_ne_true (hno.symm.trans h)
  · exact absurd h (by decide)

theorem isIdContinue_eq_false_of_isOperator {c : Char} (h : isOperator c = true) :
    isIdContinue c = false := by
  rw [isIdContinue, isIdStart_eq_false_of_isOperator h, Bool.false_or, Bool.or_eq_false_iff,
    Bool.or_eq_false_iff]
  exact ⟨⟨has_eq_false (by simp [apartTables]) h, has_eq_false (by simp [apartTables]) h⟩,
    has_eq_false (by simp [apartTables]) h⟩

theorem isIdStart_eq_false_of_isIdContinue {c : Char} (h : isIdContinue c = false) :
    isIdStart c = false := by
  simp only [isIdContinue, Bool.or_eq_false_iff] at h
  exact h.1.1.1

theorem isSymbol_of_isOperator {c : Char} (h : isOperator c = true) : isSymbol c = true :=
  Bool.or_eq_true_iff.2 (.inr h)

theorem isBlank_eq_false_of_isIdStart {c : Char} (h : isIdStart c = true) :
    isBlank c = false := by
  rw [isIdStart, Bool.or_eq_true, beq_iff_eq] at h
  rcases h with h | rfl
  · exact has_eq_false (by simp [apartTables]) h
  · decide

theorem isBlank_eq_false_of_isOperator {c : Char} (h : isOperator c = true) :
    isBlank c = false :=
  has_eq_false (by simp [apartTables]) h

theorem isBlank_eq_false_of_isIdContinue {c : Char} (h : isIdContinue c = true) :
    isBlank c = false := by
  simp only [isIdContinue, Bool.or_eq_true] at h
  obtain ((h | h) | h) | h := h
  · exact isBlank_eq_false_of_isIdStart h
  · exact has_eq_false (by simp [apartTables]) h
  · exact has_eq_false (by simp [apartTables]) h
  · exact has_eq_false (by simp [apartTables]) h

section Digit

variable {c : Char} (h : c.isDigit = true)

include h

theorem isIdStart_eq_false_of_isDigit : isIdStart c = false := by
  rw [isIdStart, Bool.or_eq_false_iff]
  refine ⟨has_eq_false (by simp [apartTables]) (has_asciiDigits h), ?_⟩
  rw [beq_eq_false_iff_ne]
  rintro rfl
  exact absurd h (by decide)

theorem isOperator_eq_false_of_isDigit : isOperator c = false :=
  has_eq_false (by simp [apartTables]) (has_asciiDigits h)

theorem isSymbol_eq_false_of_isDigit : isSymbol c = false := by
  rw [isSymbol, Bool.or_eq_false_iff]
  exact ⟨has_eq_false (by simp [apartTables]) (has_asciiDigits h), isOperator_eq_false_of_isDigit h⟩

theorem isBlank_eq_false_of_isDigit : isBlank c = false :=
  has_eq_false (by simp [apartTables]) (has_asciiDigits h)

end Digit

end Charset

/-! ## The switch -/

namespace Switch

theorem char_ne_of_mem_reserved (sw : Switch) {c : Char} (h : c ∈ Charset.reserved) :
    sw.char ≠ c := by
  rintro rfl
  have hr := sw.notReserved
  rw [Charset.isReserved, List.contains_iff_mem.2 h] at hr
  exact Bool.noConfusion hr

theorem char_ne_hash (sw : Switch) : sw.char ≠ '#' :=
  sw.char_ne_of_mem_reserved (by decide)

theorem isIdStart_char (sw : Switch) : Charset.isIdStart sw.char = false :=
  Charset.isIdStart_eq_false_of_isOperator sw.isOperator

theorem isIdContinue_char (sw : Switch) : Charset.isIdContinue sw.char = false :=
  Charset.isIdContinue_eq_false_of_isOperator sw.isOperator

theorem isSymbol_char (sw : Switch) : Charset.isSymbol sw.char = true :=
  Charset.isSymbol_of_isOperator sw.isOperator

theorem isBlank_char (sw : Switch) : Charset.isBlank sw.char = false :=
  Charset.isBlank_eq_false_of_isOperator sw.isOperator

theorem isDigit_char (sw : Switch) : sw.char.isDigit = false := by
  rw [Bool.eq_false_iff]
  intro h
  exact Bool.false_ne_true
    ((Charset.isOperator_eq_false_of_isDigit h).symm.trans sw.isOperator)

end Switch

end Prosemark
