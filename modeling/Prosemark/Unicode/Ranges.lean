/-!
# Sets of code points

A set of code points is a list of inclusive ranges in ascending order. Membership stops at the
first range that starts past the code point, so characters near the front are found at once.
-/

namespace Prosemark

/-- Inclusive ranges of code points, in ascending order and disjoint. -/
abbrev Ranges := List (Nat × Nat)

/-- Whether `n` lies in one of the ranges. -/
def Ranges.has (n : Nat) : Ranges → Bool
  | [] => false
  | (lo, hi) :: rest => if n < lo then false else if n ≤ hi then true else has n rest

/-- Whether the ranges are well formed: each one nonempty and all of it past `least`. -/
def Ranges.ascendsFrom (least : Nat) : Ranges → Bool
  | [] => true
  | (lo, hi) :: rest => decide (least ≤ lo) && decide (lo ≤ hi) && ascendsFrom (hi + 1) rest

theorem Ranges.least_le_of_ascendsFrom {least : Nat} {rs : Ranges}
    (h : rs.ascendsFrom least = true) : ∀ s ∈ rs, least ≤ s.1 := by
  induction rs generalizing least with
  | nil => simp
  | cons r rest ih =>
    obtain ⟨lo, hi⟩ := r
    simp only [ascendsFrom, Bool.and_eq_true, decide_eq_true_eq] at h
    intro s hs
    rcases List.mem_cons.1 hs with rfl | hs
    · exact h.1.1
    · have := ih h.2 s hs
      omega

theorem Ranges.has_iff {n least : Nat} {rs : Ranges} (h : rs.ascendsFrom least = true) :
    rs.has n = true ↔ ∃ r ∈ rs, r.1 ≤ n ∧ n ≤ r.2 := by
  induction rs generalizing least with
  | nil => simp [has]
  | cons r rest ih =>
    obtain ⟨lo, hi⟩ := r
    simp only [ascendsFrom, Bool.and_eq_true, decide_eq_true_eq] at h
    obtain ⟨⟨-, hle⟩, htail⟩ := h
    have hrest := ih htail
    simp only [has]
    split
    · next hlt =>
      have hpast : ∀ s ∈ rest, hi + 1 ≤ s.1 := Ranges.least_le_of_ascendsFrom htail
      simp only [Bool.false_eq_true, false_iff, not_exists, not_and]
      intro s hs hlo
      rcases List.mem_cons.1 hs with rfl | hs
      · omega
      · have := hpast s hs
        omega
    · split
      · next hlt hnhi => exact iff_of_true rfl ⟨(lo, hi), List.mem_cons_self, by omega, hnhi⟩
      · next hlt hnhi =>
        rw [hrest]
        constructor
        · rintro ⟨s, hs, hb⟩
          exact ⟨s, List.mem_cons_of_mem _ hs, hb⟩
        · rintro ⟨s, hs, hb⟩
          rcases List.mem_cons.1 hs with rfl | hs
          · omega
          · exact ⟨s, hs, hb⟩

end Prosemark
