import Prosemark.Number.Shortest

/-!
# Shortest decimals read back

A finite number is a whole number of units, and rounding that number of units gives its rank again
(`nearestRank_units`). A decimal keeps its value when zeros at the end of its digits move into the
exponent (`Binary64.ofDecimal_ten_mul`). The decimal that stands for a number has that number as its
nearest one (`Decimal.ofDecimal_shortest`): it was tried, or it is exact.
-/

namespace Prosemark

/-! ## Rounding -/

theorem roundHalfEven_mul {k : Nat} (hk : 0 < k) (num den : Nat) :
    roundHalfEven (k * num) (k * den) = roundHalfEven num den := by
  have htwice : 2 * (k * (num % den)) = k * (2 * (num % den)) := by
    rw [← Nat.mul_assoc, Nat.mul_comm 2, Nat.mul_assoc]
  unfold roundHalfEven
  simp only [Nat.mul_div_mul_left _ _ hk, Nat.mul_mod_mul_left, htwice,
    Nat.mul_lt_mul_left hk]

theorem roundHalfEven_self {den : Nat} (hden : 0 < den) (q : Nat) :
    roundHalfEven (q * den) den = q := by
  unfold roundHalfEven
  simp only [Nat.mul_div_cancel _ hden, Nat.mul_mod_left, Nat.mul_zero, hden, if_true]

theorem nearestRank_mul {k : Nat} (hk : 0 < k) (num den : Nat) :
    nearestRank (k * num) (k * den) = nearestRank num den := by
  unfold nearestRank
  simp only [Nat.mul_div_mul_left _ _ hk, Nat.mul_assoc, roundHalfEven_mul hk]

theorem units_of_lt {rank : Nat} (h : rank < Nat.pow 2 52) : units rank = rank := by
  have hblock : rank / Nat.pow 2 52 = 0 := Nat.div_eq_of_lt h
  unfold units
  simp only [hblock, if_true]

theorem units_of_block {rank b : Nat} (h : rank / Nat.pow 2 52 = b + 1) :
    units rank = (Nat.pow 2 52 + rank % Nat.pow 2 52) * Nat.pow 2 b := by
  unfold units
  simp only [h, Nat.add_one_ne_zero, if_false, Nat.add_sub_cancel]

/-- The units of a rank past the first block have 53 bits and the zeros of the block. -/
theorem log2_units_of_block {rank b : Nat} (h : rank / Nat.pow 2 52 = b + 1) :
    (units rank).log2 = 52 + b := by
  have hmod : rank % 2 ^ 52 < 2 ^ 52 := Nat.mod_lt _ (by decide)
  have hpow : 0 < 2 ^ b := Nat.two_pow_pos b
  have hpos : 0 < (2 ^ 52 + rank % 2 ^ 52) * 2 ^ b := Nat.mul_pos (by omega) hpow
  rw [units_of_block h]
  refine (Nat.log2_eq_iff (Nat.ne_of_gt hpos)).2 ⟨?_, ?_⟩
  · rw [Nat.pow_add]
    exact Nat.mul_le_mul_right _ (Nat.le_add_right _ _)
  · rw [Nat.add_right_comm, Nat.pow_add]
    exact Nat.mul_lt_mul_of_pos_right (by omega) hpow

theorem log2_of_lt {rank : Nat} (h : rank < Nat.pow 2 52) : rank.log2 ≤ 52 := by
  by_cases hzero : rank = 0
  · rw [hzero, Nat.log2_zero]
    omega
  · exact Nat.le_of_lt ((Nat.log2_lt hzero).2 h)

/-- The number of a rank is the one nearest to its units. -/
theorem nearestRank_units (rank : Nat) : nearestRank (units rank) 1 = rank := by
  unfold nearestRank
  rw [Nat.div_one]
  cases hb : rank / 2 ^ 52 with
  | zero =>
    have hlt : rank < 2 ^ 52 := by omega
    have hround := roundHalfEven_self Nat.one_pos rank
    rw [Nat.mul_one] at hround
    simp only [units_of_lt hlt, Nat.sub_eq_zero_of_le (log2_of_lt hlt), Nat.zero_mul, Nat.zero_add,
      Nat.pow_eq, Nat.pow_zero, hround]
  | succ b =>
    -- what is shifted out of the significand are the zeros of the block
    rw [log2_units_of_block hb, units_of_block hb]
    simp only [Nat.add_sub_cancel_left, Nat.one_mul, Nat.pow_eq,
      roundHalfEven_self (Nat.two_pow_pos b)]
    omega

/-! ## Decimals of one value -/

namespace Binary64

/-- The sign does not matter for the rank that a decimal rounds to. -/
theorem exists_ofRank (digits : Nat) (exponent : Int) :
    ∃ rank, ∀ negative, ofDecimal negative digits exponent = ofRank negative rank := by
  unfold ofDecimal
  simp only
  split
  · exact ⟨0, fun _ => rfl⟩
  · split
    · refine ⟨finiteRanks, fun negative => ?_⟩
      rw [ofRank, dif_neg (Nat.lt_irrefl _)]
    · cases exponent with
      | ofNat e => exact ⟨_, fun _ => rfl⟩
      | negSucc e => exact ⟨_, fun _ => rfl⟩

theorem ofRank_injective {rank other : Nat} (h : rank < finiteRanks)
    (heq : ofRank false other = ofRank false rank) : other = rank := by
  unfold ofRank at heq
  rw [dif_pos h] at heq
  split at heq
  · exact congrArg Fin.val (Binary64.finite.inj heq).2
  · cases heq

theorem length_toDigits_ten_mul {m : Nat} (hm : 0 < m) :
    (Nat.toDigits 10 (10 * m)).length = (Nat.toDigits 10 m).length + 1 := by
  have h := @Nat.toDigits_append_toDigits 10 m 0 (by decide) hm (by decide)
  rw [← Nat.add_zero (10 * m), ← h, List.length_append, Nat.toDigits_zero]
  rfl

theorem ofDecimal_zero (negative : Bool) (exponent : Int) :
    ofDecimal negative 0 exponent = ofRank negative 0 := by
  simp [ofDecimal]

/-- A zero at the end of the digits counts as one more in the exponent. -/
theorem ofDecimal_ten_mul (negative : Bool) (m : Nat) (exponent : Int) :
    ofDecimal negative (10 * m) exponent = ofDecimal negative m (exponent + 1) := by
  by_cases hm : m = 0
  · rw [hm, Nat.mul_zero, ofDecimal_zero, ofDecimal_zero]
  · have hpos : 0 < m := Nat.pos_of_ne_zero hm
    have hpoint : exponent + ((Nat.toDigits 10 (10 * m)).length : Int) =
        exponent + 1 + (Nat.toDigits 10 m).length := by
      rw [length_toDigits_ten_mul hpos]
      omega
    have hten : 10 * m ≠ 0 := by omega
    unfold ofDecimal
    simp only [hpoint, hten, hm, false_or]
    refine ite_congr rfl (fun _ => rfl) fun _ => ite_congr rfl (fun _ => rfl) fun _ => ?_
    generalize Nat.pow 2 1074 = scale
    rcases exponent with e | _ | e
    · show ofUnits negative (10 * m * 10 ^ e * scale) 1 =
        ofUnits negative (m * 10 ^ (e + 1) * scale) 1
      rw [Nat.pow_succ, Nat.mul_comm 10 m, Nat.mul_assoc m, Nat.mul_comm 10]
    · show ofUnits negative (10 * m * scale) (10 * 1) = ofUnits negative (m * 1 * scale) 1
      unfold ofUnits
      rw [Nat.mul_assoc, nearestRank_mul (by decide), Nat.mul_one]
    · show ofUnits negative (10 * m * scale) (10 ^ (e + 1) * 10) =
        ofUnits negative (m * scale) (10 ^ (e + 1))
      unfold ofUnits
      rw [Nat.mul_assoc, Nat.mul_comm (10 ^ (e + 1)), nearestRank_mul (by decide)]

/-- A decimal with a negative exponent whose value is not settled by the count of its digits. -/
theorem ofDecimal_negSucc {negative : Bool} {digits e : Nat} (hdigits : digits ≠ 0)
    (hlower : -324 < Int.negSucc e + ((Nat.toDigits 10 digits).length : Int))
    (hupper : Int.negSucc e + ((Nat.toDigits 10 digits).length : Int) ≤ 309) :
    ofDecimal negative digits (.negSucc e) =
      ofUnits negative (digits * Nat.pow 2 1074) (Nat.pow 10 (e + 1)) := by
  have hlow : ¬ (digits = 0 ∨ Int.negSucc e + ((Nat.toDigits 10 digits).length : Int) ≤ -324) := by
    omega
  have hhigh : ¬ 309 < Int.negSucc e + ((Nat.toDigits 10 digits).length : Int) := by omega
  simp only [ofDecimal, if_neg hlow, if_neg hhigh]

/-- Zeros at the end of the digits count in the exponent. -/
theorem ofDecimal_mul_pow (negative : Bool) (m k : Nat) (exponent : Int) :
    ofDecimal negative (m * Nat.pow 10 k) exponent = ofDecimal negative m (exponent + k) := by
  induction k generalizing exponent with
  | zero => simp
  | succ k ih =>
    have hmul : m * Nat.pow 10 (k + 1) = 10 * (m * Nat.pow 10 k) := by
      show m * (Nat.pow 10 k * 10) = 10 * (m * Nat.pow 10 k)
      rw [← Nat.mul_assoc, Nat.mul_comm]
    have hexponent : exponent + 1 + (k : Int) = exponent + (k + 1 : Nat) := by omega
    rw [hmul, ofDecimal_ten_mul, ih, hexponent]

end Binary64

/-! ## Bounds of exact decimals -/

theorem units_pos {rank : Nat} (h : 0 < rank) : 0 < units rank := by
  cases hb : rank / 2 ^ 52 with
  | zero =>
    have hlt : rank < 2 ^ 52 := by omega
    rw [units_of_lt hlt]
    exact h
  | succ b =>
    have hsignificand : 0 < 2 ^ 52 + rank % 2 ^ 52 := by omega
    rw [units_of_block hb]
    exact Nat.mul_pos hsignificand (Nat.two_pow_pos b)

theorem units_lt {rank top : Nat} (h : rank / Nat.pow 2 52 ≤ top + 1) :
    units rank < Nat.pow 2 (53 + top) := by
  have htop : rank / 2 ^ 52 ≤ top + 1 := h
  show units rank < 2 ^ (53 + top)
  rw [Nat.pow_add]
  cases hb : rank / 2 ^ 52 with
  | zero =>
    have hlt : rank < 2 ^ 52 := by omega
    have hdouble : rank < 2 ^ 53 := by omega
    rw [units_of_lt hlt]
    exact Nat.lt_of_lt_of_le hdouble (Nat.le_mul_of_pos_right _ (Nat.two_pow_pos _))
  | succ b =>
    have hmod : rank % 2 ^ 52 < 2 ^ 52 := Nat.mod_lt _ (by decide)
    have hsignificand : 2 ^ 52 + rank % 2 ^ 52 < 2 ^ 53 := by omega
    rw [units_of_block hb]
    exact Nat.mul_lt_mul_of_lt_of_le hsignificand
      (Nat.pow_le_pow_right (by decide) (by omega)) (Nat.two_pow_pos _)

namespace Decimal

theorem length_toDigits_le {n k : Nat} (hk : 0 < k) (h : n < Nat.pow 10 k) :
    (Nat.toDigits 10 n).length ≤ k :=
  (Nat.length_toDigits_le_iff (by decide) hk).2 h

theorem lt_length_toDigits {n k : Nat} (hk : 0 < k) (h : Nat.pow 10 k ≤ n) :
    k < (Nat.toDigits 10 n).length := by
  apply Nat.lt_of_not_le
  intro hle
  exact Nat.not_le_of_lt ((Nat.length_toDigits_le_iff (by decide) hk).1 hle) h

theorem length_exact_of_bounds {rank least most : Nat} (hpos : 0 < rank) (h : rank < finiteRanks)
    (hleast : 0 < least) (hmost : 0 < most) (hlower : Nat.pow 10 least ≤ Nat.pow 5 1074)
    (hupper : Nat.pow 2 (53 + 2045) * Nat.pow 5 1074 ≤ Nat.pow 10 most) :
    least < (Nat.toDigits 10 (exact rank)).length ∧
      (Nat.toDigits 10 (exact rank)).length ≤ most := by
  have hblock : rank / Nat.pow 2 52 ≤ 2045 + 1 := Nat.le_of_lt_succ (Nat.div_lt_of_lt_mul h)
  have hunits := units_lt hblock
  have hscale : 0 < Nat.pow 5 1074 := by decide +kernel
  unfold exact
  generalize Nat.pow 5 1074 = scale at *
  generalize Nat.pow 2 (53 + 2045) = top at *
  constructor
  · apply lt_length_toDigits hleast
    exact Nat.le_trans hlower (Nat.le_mul_of_pos_left _ (units_pos hpos))
  · apply length_toDigits_le hmost
    exact Nat.lt_of_lt_of_le (Nat.mul_lt_mul_of_pos_right hunits hscale) hupper

/-- The digits of an exact decimal do not settle by their number alone what it is read as. -/
theorem length_exact {rank : Nat} (hpos : 0 < rank) (h : rank < finiteRanks) :
    750 < (Nat.toDigits 10 (exact rank)).length ∧
      (Nat.toDigits 10 (exact rank)).length ≤ 1383 :=
  length_exact_of_bounds hpos h (by decide) (by decide) (by decide +kernel) (by decide +kernel)

/-- The exact decimal reads back. -/
theorem readsAs_exact {rank : Nat} (h : rank < finiteRanks) :
    readsAs rank ⟨exact rank, -1074⟩ = true := by
  apply beq_iff_eq.2
  by_cases hzero : rank = 0
  · have hexact : exact rank = 0 := by
      unfold exact
      generalize Nat.pow 5 1074 = scale
      rw [hzero, units_of_lt (by decide), Nat.zero_mul]
    rw [hexact, hzero, Binary64.ofDecimal_zero]
  · have hpos : 0 < rank := Nat.pos_of_ne_zero hzero
    obtain ⟨hlower, hupper⟩ := length_exact hpos h
    have hne : exact rank ≠ 0 := by
      intro hexact
      rw [hexact] at hlower
      exact absurd hlower (by decide)
    have hpow : Nat.pow 10 (1073 + 1) = Nat.pow 5 1074 * Nat.pow 2 1074 := by decide +kernel
    have hread := @Binary64.ofDecimal_negSucc false (exact rank) 1073 hne (by omega) (by omega)
    have hden : 0 < Nat.pow 10 (1073 + 1) := by decide +kernel
    refine hread.trans ?_
    unfold Binary64.ofUnits exact
    rw [Nat.mul_assoc, ← hpow]
    generalize Nat.pow 10 (1073 + 1) = den at hden ⊢
    have hunits := nearestRank_mul hden (units rank) 1
    rw [nearestRank_units, Nat.mul_one, Nat.mul_comm] at hunits
    rw [hunits]

theorem readsAs_of_onGrids? {tie : Tie} {rank : Nat} {d : Decimal}
    (h : onGrids? tie rank = some d) : readsAs rank d = true := by
  unfold onGrids? at h
  obtain ⟨p, -, hgrid⟩ := List.exists_of_findSome?_eq_some h
  exact List.find?_some hgrid

/-- Trimming does not change what a decimal is read as. -/
theorem readsAs_trimmed {rank n : Nat} {d : Decimal} (h : readsAs rank d = true) :
    readsAs rank (trimmed n d) = true := by
  induction n generalizing d with
  | zero => exact h
  | succ n ih =>
    unfold trimmed
    split
    · next hd =>
      apply ih
      have hten : 10 * (d.digits / 10) = d.digits := by omega
      unfold readsAs at h ⊢
      rw [← Binary64.ofDecimal_ten_mul, hten]
      exact h
    · exact h

theorem readsAs_shortest (tie : Tie) {rank : Nat} (h : rank < finiteRanks) :
    readsAs rank (shortest tie rank) = true := by
  unfold shortest
  cases hfound : onGrids? tie rank with
  | some d => exact readsAs_trimmed (readsAs_of_onGrids? hfound)
  | none => exact readsAs_exact h

/-- The decimal that stands for a finite number has that number as its nearest one. -/
theorem ofDecimal_shortest (tie : Tie) (negative : Bool) (rank : Fin finiteRanks) :
    Binary64.ofDecimal negative (shortest tie rank).digits (shortest tie rank).exponent =
      .finite negative rank := by
  have hread := beq_iff_eq.1 (readsAs_shortest tie rank.isLt)
  obtain ⟨r, hr⟩ := Binary64.exists_ofRank (shortest tie rank).digits (shortest tie rank).exponent
  rw [hr] at hread ⊢
  rw [Binary64.ofRank_injective rank.isLt hread, Binary64.ofRank, dif_pos rank.isLt]

end Decimal

end Prosemark
