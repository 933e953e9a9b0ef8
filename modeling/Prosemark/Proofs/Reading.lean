import Prosemark.Number
import Prosemark.Proofs.ShortestDecimal

/-!
# What numerals are read as

Rounding keeps the order: a fraction that is at most, or at least, the number of a rank is rounded
to a rank that is (`nearestRank_le`, `le_nearestRank`). A significand of 64 bits is therefore
finite, and it does not get larger when it is divided by a power of ten, so every number that is
read is finite (`Numeral.isFinite_of_read`). That a numeral is out of range is noticed within it
(`Numeral.column_le_of_read`).
-/

namespace Prosemark

/-! ## Rounding keeps bounds -/

theorem roundHalfEven_le {num den k : Nat} (hden : 0 < den) (h : num ≤ k * den) :
    roundHalfEven num den ≤ k := by
  have hquotient : num / den ≤ k := Nat.div_le_of_le_mul (by rwa [Nat.mul_comm])
  unfold roundHalfEven
  rcases Nat.lt_or_eq_of_le hquotient with hlt | heq
  · have hround : ∀ b : Nat, b ≤ 1 → num / den + b ≤ k := by omega
    dsimp only
    split
    · exact hquotient
    · split
      · exact hround 1 (Nat.le_refl 1)
      · exact hround _ (by omega)
  -- where the quotient is the bound, nothing is left over
  · have hdiv := Nat.div_add_mod num den
    rw [heq, Nat.mul_comm] at hdiv
    have hrest : num % den = 0 := by omega
    simp only [hrest, Nat.mul_zero, hden, if_true, heq, Nat.le_refl]

theorem log2_le_log2 {a b : Nat} (h : a ≤ b) : a.log2 ≤ b.log2 := by
  by_cases ha : a = 0
  · rw [ha, Nat.log2_zero]
    exact Nat.zero_le _
  · have hb : b ≠ 0 := by omega
    exact (Nat.le_log2 hb).2 (Nat.le_trans (Nat.log2_self_le ha) h)

theorem le_roundHalfEven {num den k : Nat} (hden : 0 < den) (h : k * den ≤ num) :
    k ≤ roundHalfEven num den := by
  have hquotient : k ≤ num / den := (Nat.le_div_iff_mul_le hden).2 h
  have hround : num / den ≤ roundHalfEven num den := by
    unfold roundHalfEven
    dsimp only
    split
    · exact Nat.le_refl _
    · split <;> exact Nat.le_add_right _ _
  exact Nat.le_trans hquotient hround

/-- A fraction that is at most the number of a rank is rounded to at most that rank. -/
theorem nearestRank_le {num den rank : Nat} (hden : 0 < den) (h : num ≤ units rank * den) :
    nearestRank num den ≤ rank := by
  have hquotient : num / den ≤ units rank := Nat.div_le_of_le_mul (by rwa [Nat.mul_comm])
  have hscaled : ∀ s : Nat, 0 < den * 2 ^ s := fun s => Nat.mul_pos hden (Nat.two_pow_pos s)
  unfold nearestRank
  dsimp only [Nat.pow_eq]
  cases hblock : rank / 2 ^ 52 with
  | zero =>
    have hlt : rank < 2 ^ 52 := by omega
    rw [units_of_lt hlt] at h hquotient
    have hshift : (num / den).log2 - 52 = 0 :=
      Nat.sub_eq_zero_of_le (log2_of_lt (Nat.lt_of_le_of_lt hquotient hlt))
    rw [hshift, Nat.zero_mul, Nat.zero_add, Nat.pow_zero, Nat.mul_one]
    exact roundHalfEven_le hden h
  | succ b =>
    have hlog : (num / den).log2 ≤ 52 + b := by
      rw [← log2_units_of_block hblock]
      exact log2_le_log2 hquotient
    have hbits : num / den < 2 ^ (53 + ((num / den).log2 - 52)) :=
      Nat.lt_of_lt_of_le Nat.lt_log2_self (Nat.pow_le_pow_right (by decide) (by omega))
    have hshift : (num / den).log2 - 52 ≤ b := by omega
    generalize (num / den).log2 - 52 = s at hbits hshift ⊢
    rcases Nat.lt_or_eq_of_le hshift with hlt | rfl
    -- in a lower block even a carry does not reach the block of the rank
    · have hnum : num ≤ 2 ^ 53 * (den * 2 ^ s) := by
        rw [Nat.div_lt_iff_lt_mul hden, Nat.pow_add, Nat.mul_assoc, Nat.mul_comm (2 ^ s)] at hbits
        exact Nat.le_of_lt hbits
      have hround := roundHalfEven_le (hscaled s) hnum
      omega
    · rw [units_of_block hblock] at h
      have hnum : num ≤ (2 ^ 52 + rank % 2 ^ 52) * (den * 2 ^ s) := by
        rw [Nat.mul_comm den, ← Nat.mul_assoc]
        exact h
      have hround := roundHalfEven_le (hscaled s) hnum
      omega

/-- A fraction that is at least the number of a rank is rounded to at least that rank. -/
theorem le_nearestRank {num den rank : Nat} (hden : 0 < den) (h : units rank * den ≤ num) :
    rank ≤ nearestRank num den := by
  have hquotient : units rank ≤ num / den := (Nat.le_div_iff_mul_le hden).2 h
  have hscaled : ∀ s : Nat, 0 < den * 2 ^ s := fun s => Nat.mul_pos hden (Nat.two_pow_pos s)
  unfold nearestRank
  dsimp only [Nat.pow_eq]
  cases hblock : rank / 2 ^ 52 with
  | zero =>
    have hlt : rank < 2 ^ 52 := by omega
    rw [units_of_lt hlt] at h
    cases (num / den).log2 - 52 with
    | zero =>
      rw [Nat.zero_mul, Nat.zero_add, Nat.pow_zero, Nat.mul_one]
      exact le_roundHalfEven hden h
    | succ s => omega
  | succ b =>
    have hlog : 52 + b ≤ (num / den).log2 := by
      rw [← log2_units_of_block hblock]
      exact log2_le_log2 hquotient
    have hne : num / den ≠ 0 := by
      intro hzero
      rw [hzero, Nat.log2_zero] at hlog
      omega
    have hbits : 2 ^ (52 + ((num / den).log2 - 52)) ≤ num / den := by
      rw [Nat.add_sub_of_le (by omega)]
      exact Nat.log2_self_le hne
    have hshift : b ≤ (num / den).log2 - 52 := by omega
    generalize (num / den).log2 - 52 = s at hbits hshift ⊢
    rcases Nat.lt_or_eq_of_le hshift with hlt | rfl
    · have hnum : 2 ^ 52 * (den * 2 ^ s) ≤ num := by
        rw [Nat.le_div_iff_mul_le hden, Nat.pow_add, Nat.mul_assoc, Nat.mul_comm (2 ^ s)] at hbits
        exact hbits
      have hround := le_roundHalfEven (hscaled s) hnum
      omega
    · rw [units_of_block hblock] at h
      have hnum : (2 ^ 52 + rank % 2 ^ 52) * (den * 2 ^ b) ≤ num := by
        rw [Nat.mul_comm den, ← Nat.mul_assoc]
        exact h
      have hround := le_roundHalfEven (hscaled b) hnum
      omega

/-- Ranks are in the order of their numbers. -/
theorem units_le_units {rank other : Nat} (h : rank ≤ other) : units rank ≤ units other := by
  apply Nat.le_of_not_lt
  intro hlt
  have hother : nearestRank (units other) 1 ≤ rank :=
    nearestRank_le Nat.one_pos (by omega)
  rw [nearestRank_units] at hother
  obtain rfl := Nat.le_antisymm h hother
  exact Nat.lt_irrefl _ hlt

/-! ## Scaling -/

/-- The number nearest to a significand of 64 bits is finite. -/
theorem rankOfNat_lt {m : Nat} (h : m < Nat.pow 2 64) : rankOfNat m < finiteRanks := by
  have hbound : units (rankOfNat (Nat.pow 2 64)) = Nat.pow 2 64 * oneUnits := by
    decide +kernel
  have hle : rankOfNat m ≤ rankOfNat (Nat.pow 2 64) := by
    refine nearestRank_le Nat.one_pos ?_
    rw [hbound, Nat.mul_one]
    exact Nat.mul_le_mul_right oneUnits (Nat.le_of_lt h)
  exact Nat.lt_of_le_of_lt hle (by decide +kernel)

/-- One is a number. -/
theorem units_rankOfNat_one : units (rankOfNat 1) = oneUnits := by
  decide +kernel

theorem oneUnits_le_tenPower (e : Nat) : oneUnits ≤ units (tenPower e) := by
  have hone : rankOfNat 1 ≤ tenPower e := by
    refine le_nearestRank Nat.one_pos ?_
    rw [units_rankOfNat_one, Nat.mul_one]
    exact Nat.le_mul_of_pos_left oneUnits (Nat.pow_pos (by decide))
  rw [← units_rankOfNat_one]
  exact units_le_units hone

/-- A quotient by a power of ten is not larger. -/
theorem divRank_tenPower_le (rank e : Nat) : divRank rank (tenPower e) ≤ rank := by
  have hpower := oneUnits_le_tenPower e
  have hone : 0 < oneUnits := by decide +kernel
  exact nearestRank_le (Nat.lt_of_lt_of_le hone hpower) (Nat.mul_le_mul_left _ hpower)

theorem lowered_le (times rank : Nat) : lowered times rank ≤ rank := by
  induction times generalizing rank with
  | zero => exact Nat.le_refl rank
  | succ times ih =>
    rw [lowered]
    split
    · exact Nat.zero_le rank
    · exact Nat.le_trans (ih _) (divRank_tenPower_le rank largestPower)

/-- A product with one is exact. -/
theorem mulRank_tenPower_zero (rank : Nat) : mulRank rank (tenPower 0) = rank := by
  have hone : 0 < oneUnits := by decide +kernel
  have hexact := nearestRank_mul hone (units rank) 1
  show nearestRank (units rank * units (rankOfNat 1)) oneUnits = rank
  rw [units_rankOfNat_one, Nat.mul_comm]
  rw [Nat.mul_one, nearestRank_units] at hexact
  exact hexact

theorem scaled?_ofNat (rank e : Nat) : scaled? rank (.ofNat e) =
    if largestPower < e then if rank = 0 then some 0 else none
    else if mulRank rank (tenPower e) < finiteRanks then some (mulRank rank (tenPower e))
    else none :=
  rfl

/-- What is scaled is finite. -/
theorem lt_of_scaled? {rank scaled : Nat} {exponent : Int} (hrank : rank < finiteRanks)
    (h : scaled? rank exponent = some scaled) : scaled < finiteRanks := by
  cases exponent with
  | ofNat e =>
    rw [scaled?_ofNat] at h
    split at h
    · split at h
      · obtain rfl := Option.some.inj h
        decide
      · cases h
    · split at h
      · next hproduct =>
        obtain rfl := Option.some.inj h
        exact hproduct
      · cases h
  | negSucc e =>
    obtain rfl := Option.some.inj h
    exact Nat.lt_of_le_of_lt (Nat.le_trans (divRank_tenPower_le _ _) (lowered_le _ rank)) hrank

theorem Binary64.isFinite_ofRank {negative : Bool} {rank : Nat} (h : rank < finiteRanks) :
    (ofRank negative rank).isFinite = true := by
  rw [ofRank, dif_pos h]
  rfl

/-! ## Numerals -/

theorem takeDigits_lt {start : Nat} (h : start < Nat.pow 2 64) (cs : List Char) :
    (takeDigits start cs).1 < Nat.pow 2 64 := by
  induction cs generalizing start with
  | nil => exact h
  | cons c cs ih =>
    rw [takeDigits]
    split
    · next hnext => exact ih hnext
    · exact h

namespace Numeral

variable {n : Numeral}

theorem significand_lt (n : Numeral) : n.significand.1 < Nat.pow 2 64 :=
  takeDigits_lt (takeDigits_lt (by decide) n.whole) n.fraction

theorem isFinite_of_finish {m : Nat} {exponent : Int} {x : Binary64} (hm : m < Nat.pow 2 64)
    (h : read.finish n m exponent = .ok x) : x.isFinite = true := by
  unfold read.finish at h
  split at h
  · next rank hrank =>
    obtain rfl := Except.ok.inj h
    exact Binary64.isFinite_ofRank (lt_of_scaled? (rankOfNat_lt hm) hrank)
  · cases h

/-- A number that is read is finite. -/
theorem isFinite_of_read {x : Binary64} (h : n.read = .ok x) : x.isFinite = true := by
  have hm := n.significand_lt
  unfold read at h
  generalize n.significand = p at h hm
  obtain ⟨m, shift⟩ := p
  dsimp only at h hm
  split at h
  · exact isFinite_of_finish hm h
  · split at h
    · exact isFinite_of_finish hm h
    · split at h
      · cases h
      · obtain rfl := Except.ok.inj h
        exact Binary64.isFinite_ofRank (by decide)

theorem column_le_of_finish {m : Nat} {exponent : Int} {column : Nat}
    (h : read.finish n m exponent = .error column) : column ≤ n.chars.length := by
  unfold read.finish at h
  split at h
  · cases h
  · exact Nat.le_of_eq (Except.error.inj h).symm

/-- That a numeral is out of range is noticed within it. -/
theorem column_le_of_read {column : Nat} (h : n.read = .error column) :
    column ≤ n.chars.length := by
  unfold read at h
  dsimp only at h
  split at h
  · exact column_le_of_finish h
  · split at h
    · exact column_le_of_finish h
    · split at h
      · obtain rfl := Except.error.inj h
        exact Nat.sub_le _ _
      · cases h

end Numeral

namespace Number

variable {numeral : Numeral} {value : Number}

theorem ofNumeral_eq_ok (h : ofNumeral numeral = .ok value) :
    value = .int numeral.integer ∨ ∃ x, numeral.read = .ok x ∧ value = .float x := by
  unfold ofNumeral at h
  split at h
  · exact .inl (Except.ok.inj h).symm
  · cases hread : numeral.read with
    | ok x =>
      rw [hread] at h
      exact .inr ⟨x, rfl, (Except.ok.inj h).symm⟩
    | error column =>
      rw [hread] at h
      cases h

/-- A number that a numeral stands for is equal to itself. -/
theorem same_self_of_ofNumeral (h : ofNumeral numeral = .ok value) : value.same value = true := by
  rcases ofNumeral_eq_ok h with rfl | ⟨x, hread, rfl⟩
  · simp [same]
  · have hfinite := Numeral.isFinite_of_read hread
    cases x with
    | finite negative rank => simp [same, Binary64.same]
    | nan => cases hfinite
    | infinity negative => cases hfinite

theorem column_le_of_ofNumeral {column : Nat} (h : ofNumeral numeral = .error column) :
    column ≤ numeral.chars.length := by
  unfold ofNumeral at h
  split at h
  · cases h
  · cases hread : numeral.read with
    | ok x =>
      rw [hread] at h
      cases h
    | error found =>
      rw [hread] at h
      obtain rfl := Except.error.inj h
      exact Numeral.column_le_of_read hread

end Number

end Prosemark
