import Prosemark.Number
import Prosemark.Proofs.Numeral
import Prosemark.Proofs.ShortestDecimal

/-!
# Numbers read back from their texts

The text of a number is a numeral. For an integer it is the numeral of its digits
(`Numeral.ofInt`); for a finite floating-point number, in a layout that writes whole numbers with a
fraction, it is one with a fraction or an exponent, so that it is not taken for an integer. Wherever
the point stands, the digits and the exponent make the decimal that stands for the number, and the
number nearest to it is the number itself (`NumberLayout.writes_text`).
-/

namespace Prosemark

/-! ## Digits -/

theorem digitsValue_eq (cs : List Char) : digitsValue cs = Nat.ofDigitChars 10 cs 0 :=
  rfl

theorem digitsValue_toDigits (n : Nat) : digitsValue (Nat.toDigits 10 n) = n :=
  Nat.ofDigitChars_ten_toDigits

theorem digitsValue_append_zeros (cs : List Char) (k : Nat) :
    digitsValue (cs ++ NumberLayout.zeros k) = digitsValue cs * Nat.pow 10 k := by
  simp only [digitsValue_eq, NumberLayout.zeros]
  rw [Nat.ofDigitChars_append, Nat.ofDigitChars_replicate_zero, Nat.mul_comm]
  rfl

theorem digitsValue_zeros_append (k : Nat) (cs : List Char) :
    digitsValue (NumberLayout.zeros k ++ cs) = digitsValue cs := by
  simp only [digitsValue_eq, NumberLayout.zeros]
  rw [Nat.ofDigitChars_append, Nat.ofDigitChars_replicate_zero, Nat.mul_zero]

theorem isDigit_of_mem_toDigits {n : Nat} : ∀ c ∈ Nat.toDigits 10 n, c.isDigit = true :=
  fun _ hc => Nat.isDigit_of_mem_toDigits (by decide) (by decide) hc

theorem isDigit_of_mem_zeros {n : Nat} : ∀ c ∈ NumberLayout.zeros n, c.isDigit = true := by
  intro c hc
  rw [List.eq_of_mem_replicate hc]
  decide

/-- Digits of a positive number do not start with a zero. -/
theorem head_toDigits {n : Nat} (hn : 0 < n) : (Nat.toDigits 10 n).head? ≠ some '0' := by
  induction n using Nat.strongRecOn with
  | ind n ih =>
    by_cases hlt : n < 10
    · rw [Nat.toDigits_of_lt_base hlt]
      simp
      omega
    · obtain ⟨c, cs, hcs⟩ := List.exists_cons_of_ne_nil (@Nat.toDigits_ne_nil (n / 10) 10)
      have hhead := ih (n / 10) (by omega) (by omega)
      rw [hcs] at hhead
      rw [Nat.toDigits_of_base_le (by decide) (by omega), hcs]
      exact hhead

/-- Digits as they can stand before the point of a numeral. -/
structure IsWhole (digits : List Char) : Prop where
  ne_nil : digits ≠ []
  isDigit : ∀ c ∈ digits, c.isDigit = true
  zero : digits.head? = some '0' → digits = ['0']

theorem isWhole_zero : IsWhole ['0'] :=
  ⟨List.cons_ne_nil _ _, List.forall_mem_singleton.2 rfl, fun _ => rfl⟩

theorem isWhole_toDigits (n : Nat) : IsWhole (Nat.toDigits 10 n) := by
  refine ⟨Nat.toDigits_ne_nil, isDigit_of_mem_toDigits, fun hhead => ?_⟩
  by_cases hn : n = 0
  · rw [hn, Nat.toDigits_zero]
  · exact absurd hhead (head_toDigits (Nat.pos_of_ne_zero hn))

/-- Digits that do not start with a zero can be cut off anywhere but at the start. -/
theorem IsWhole.take_succ {digits : List Char} (h : IsWhole digits)
    (hhead : digits.head? ≠ some '0') (n : Nat) : IsWhole (digits.take (n + 1)) := by
  refine ⟨?_, fun c hc => h.isDigit c (List.mem_of_mem_take hc), fun htake => ?_⟩
  · simp [h.ne_nil]
  · rw [List.head?_take, if_neg (by omega)] at htake
    exact absurd htake hhead

theorem IsWhole.valid {negative : Bool} {whole fraction : List Char} {exponent : Option Exponent}
    (h : IsWhole whole) (hfraction : ∀ c ∈ fraction, c.isDigit = true)
    (hexponent : ∀ e ∈ exponent, e.Valid) :
    (Numeral.mk negative whole fraction exponent).Valid :=
  ⟨h.ne_nil, h.isDigit, h.zero, hfraction, hexponent⟩

/-! ## Integers -/

namespace Numeral

/-- The numeral of an integer. -/
def ofInt (n : Int) : Numeral :=
  ⟨decide (n < 0), Nat.toDigits 10 n.natAbs, [], none⟩

theorem ofInt_valid (n : Int) : (ofInt n).Valid :=
  (isWhole_toDigits n.natAbs).valid (List.forall_mem_nil _) nofun

theorem toList_toString_int (n : Int) : (toString n).toList = (ofInt n).chars := by
  unfold chars ofInt
  rw [Int.toString_eq_repr, Int.repr_eq_if]
  by_cases hn : n < 0
  · have habs : (-n).toNat = n.natAbs := by omega
    rw [if_neg (by omega), habs]
    simp [hn, Nat.repr_eq_ofList_toDigits]
  · have habs : n.toNat = n.natAbs := by omega
    rw [if_pos (by omega), habs]
    simp [hn, Nat.repr_eq_ofList_toDigits]

theorem integer_ofInt (n : Int) : (ofInt n).integer = n := by
  unfold integer ofInt
  simp only [digitsValue_toDigits, decide_eq_true_eq]
  split <;> omega

/-- No integer is minus zero. -/
theorem isInteger_ofInt (n : Int) : (ofInt n).isInteger = true := by
  have hzero : n < 0 → Nat.toDigits 10 n.natAbs ≠ ['0'] := by
    intro hn heq
    have hvalue := digitsValue_toDigits n.natAbs
    rw [heq] at hvalue
    have hnat : n.natAbs = 0 := hvalue.symm
    omega
  unfold isInteger ofInt
  by_cases hn : n < 0
  · simp [hzero hn]
  · simp [hn]

end Numeral

/-! ## Layouts -/

/-- The digits and the exponent of a numeral that is written positionally or with an exponent. -/
theorem Numeral.nearest_eq_ofDecimal {n : Numeral} {m k : Nat} {exponent : Int}
    (hdigits : digitsValue (n.whole ++ n.fraction) = m * Nat.pow 10 k)
    (hexponent : n.exponent.elim 0 Exponent.value - n.fraction.length + k = exponent) :
    n.nearest = Binary64.ofDecimal n.negative m exponent := by
  rw [← hexponent, ← Binary64.ofDecimal_mul_pow, ← hdigits]
  obtain ⟨negative, whole, fraction, e⟩ := n
  cases e <;> rfl

namespace NumberLayout

/-- The text has a point, with digits on both of its sides. They are the given digits up to zeros
before and after, and have their value with the given exponent. -/
def Places (digits text : List Char) (exponent : Int) : Prop :=
  ∃ whole fraction k, text = whole ++ '.' :: fraction ∧ IsWhole whole ∧ fraction ≠ [] ∧
    (∀ c ∈ fraction, c.isDigit = true) ∧
    digitsValue (whole ++ fraction) = digitsValue digits * Nat.pow 10 k ∧
    0 - (fraction.length : Int) + (k : Nat) = exponent

section Places

variable {digits : List Char} (hdigits : IsWhole digits) (hhead : digits.head? ≠ some '0')

include hdigits

/-- All digits stand behind the point. -/
theorem places_behind (n : Nat) :
    Places digits ('0' :: '.' :: zeros n ++ digits) (-(n : Int) - digits.length) := by
  refine ⟨['0'], zeros n ++ digits, 0, rfl, isWhole_zero, ?_, ?_, ?_, ?_⟩
  · simp [hdigits.ne_nil]
  · exact List.forall_mem_append.2 ⟨isDigit_of_mem_zeros, hdigits.isDigit⟩
  · show digitsValue (zeros (n + 1) ++ digits) = digitsValue digits * 1
    rw [digitsValue_zeros_append, Nat.mul_one]
  · simp [zeros]
    omega

include hhead

/-- The point stands among the digits. -/
theorem places_among {n : Nat} (h : n + 1 < digits.length) :
    Places digits (digits.take (n + 1) ++ '.' :: digits.drop (n + 1))
      ((n + 1 : Nat) - digits.length) := by
  refine ⟨digits.take (n + 1), digits.drop (n + 1), 0, rfl, ?_, ?_, ?_, ?_, ?_⟩
  · exact hdigits.take_succ hhead n
  · simp
    omega
  · exact fun c hc => hdigits.isDigit c (List.mem_of_mem_drop hc)
  · rw [List.take_append_drop]
    exact (Nat.mul_one _).symm
  · rw [List.length_drop]
    omega

/-- All digits stand before the point. -/
theorem places_before (n : Nat) :
    Places digits (digits ++ zeros n ++ ['.', '0']) n := by
  have hzeros : zeros n ++ ['0'] = zeros (n + 1) := List.replicate_succ'.symm
  refine ⟨digits ++ zeros n, ['0'], n + 1, rfl, ?_, List.cons_ne_nil _ _, isWhole_zero.isDigit,
    ?_, ?_⟩
  · refine ⟨by simp [hdigits.ne_nil], ?_, fun hzero => ?_⟩
    · exact List.forall_mem_append.2 ⟨hdigits.isDigit, isDigit_of_mem_zeros⟩
    · obtain ⟨c, cs, rfl⟩ := List.exists_cons_of_ne_nil hdigits.ne_nil
      exact absurd hzero hhead
  · rw [List.append_assoc, hzeros, digitsValue_append_zeros]
  · show 0 - ((1 : Nat) : Int) + ((n + 1 : Nat) : Int) = n
    omega

theorem places_placePoint (point : Int) :
    Places digits (placePoint true digits point) (point - digits.length) := by
  rcases point with (_ | n) | n
  · exact places_behind hdigits 0
  · by_cases hlt : n + 1 < digits.length
    · have hplace : placePoint true digits (.ofNat (n + 1)) =
          digits.take (n + 1) ++ '.' :: digits.drop (n + 1) := if_pos hlt
      rw [hplace]
      exact places_among hdigits hhead hlt
    · have hplace : placePoint true digits (.ofNat (n + 1)) =
          digits ++ zeros (n + 1 - digits.length) ++ ['.', '0'] := if_neg hlt
      have hexponent : (Int.ofNat (n + 1) - digits.length : Int) =
          (n + 1 - digits.length : Nat) := by
        rw [Int.ofNat_eq_natCast]
        omega
      rw [hplace, hexponent]
      exact places_before hdigits hhead _
  · exact places_behind hdigits (n + 1)

end Places

/-- The exponent that is written behind the digits. -/
def exponentOf (plusSign : Bool) (exponent : Int) : Exponent where
  letter := 'e'
  sign := if exponent < 0 then some '-' else if plusSign then some '+' else none
  digits := Nat.toDigits 10 exponent.natAbs

theorem exponentOf_valid (plusSign : Bool) (exponent : Int) :
    (exponentOf plusSign exponent).Valid where
  letter := .inl rfl
  sign := by
    unfold exponentOf
    intro s hs
    dsimp only at hs
    split at hs
    · exact .inr (Option.some.inj hs).symm
    · split at hs
      · exact .inl (Option.some.inj hs).symm
      · cases hs
  digits_ne_nil := Nat.toDigits_ne_nil
  digits := isDigit_of_mem_toDigits

theorem value_exponentOf (plusSign : Bool) (exponent : Int) :
    (exponentOf plusSign exponent).value = exponent := by
  unfold Exponent.value exponentOf
  simp only [digitsValue_toDigits]
  by_cases hneg : exponent < 0
  · simp only [hneg, if_true]
    omega
  · cases plusSign <;> simp [hneg] <;> omega

theorem scientific_eq (plusSign : Bool) (digits : List Char) (exponent : Int) :
    scientific plusSign digits exponent =
      digits.take 1 ++ (if digits.drop 1 = [] then [] else '.' :: digits.drop 1) ++
        (exponentOf plusSign exponent).chars := by
  have hdrop : (digits.length ≤ 1) = (digits.drop 1 = []) :=
    propext List.drop_eq_nil_iff.symm
  unfold scientific Exponent.chars exponentOf
  simp only [hdrop]
  by_cases hneg : exponent < 0
  · simp [hneg]
  · cases plusSign <;> simp [hneg]

/-- The text is a numeral with a fraction or an exponent, to which the number is nearest. -/
def Writes (text : List Char) (x : Binary64) : Prop :=
  ∃ n : Numeral, n.Valid ∧ n.chars = text ∧ n.isInteger = false ∧ n.nearest = x

/-- The minus before a negative number. -/
def signChars (negative : Bool) : List Char :=
  if negative then ['-'] else []

theorem writes_zero (negative : Bool) :
    Writes (signChars negative ++ ['0', '.', '0']) (.ofRank negative 0) := by
  refine ⟨⟨negative, ['0'], ['0'], none⟩, ?_, ?_, rfl, ?_⟩
  · exact isWhole_zero.valid isWhole_zero.isDigit nofun
  · cases negative <;> rfl
  · have hdigits : digitsValue ['0', '0'] = 0 := rfl
    show Binary64.ofDecimal negative (digitsValue ['0', '0']) (0 - 1) = _
    rw [hdigits, Binary64.ofDecimal_zero]

section Positive

variable {digits : List Char} (hdigits : IsWhole digits) (hhead : digits.head? ≠ some '0')

include hdigits hhead

theorem writes_placePoint (negative : Bool) (point : Int) :
    Writes (signChars negative ++ placePoint true digits point)
      (.ofDecimal negative (digitsValue digits) (point - digits.length)) := by
  obtain ⟨whole, fraction, k, hplace, hwhole, hne, hfraction, hvalue, hexponent⟩ :=
    places_placePoint hdigits hhead point
  refine ⟨⟨negative, whole, fraction, none⟩, hwhole.valid hfraction nofun, ?_, ?_, ?_⟩
  · simp [Numeral.chars, signChars, hplace, hne]
  · simp [Numeral.isInteger, hne]
  · exact Numeral.nearest_eq_ofDecimal hvalue hexponent

theorem writes_scientific (negative plusSign : Bool) (leading : Int) :
    Writes (signChars negative ++ scientific plusSign digits leading)
      (.ofDecimal negative (digitsValue digits) (leading + 1 - digits.length)) := by
  have hfraction : ∀ c ∈ digits.drop 1, c.isDigit = true :=
    fun c hc => hdigits.isDigit c (List.mem_of_mem_drop hc)
  have hvalue : digitsValue (digits.take 1 ++ digits.drop 1) =
      digitsValue digits * Nat.pow 10 0 := by
    rw [List.take_append_drop]
    exact (Nat.mul_one _).symm
  have hlength : 0 < digits.length := List.length_pos_iff.2 hdigits.ne_nil
  refine ⟨⟨negative, digits.take 1, digits.drop 1, some (exponentOf plusSign leading)⟩, ?_, ?_, ?_,
    Numeral.nearest_eq_ofDecimal hvalue ?_⟩
  · refine (hdigits.take_succ hhead 0).valid hfraction ?_
    rintro _ ⟨⟩
    exact exponentOf_valid _ _
  · simp only [scientific_eq, Numeral.chars, signChars, List.append_assoc]
  · simp [Numeral.isInteger]
  · show (exponentOf plusSign leading).value - (digits.drop 1).length + 0 = _
    rw [value_exponentOf, List.length_drop]
    omega

end Positive

variable {layout : NumberLayout}

theorem writes_chars (hwhole : layout.wholeFraction = true) (negative : Bool) (d : Decimal) :
    Writes (signChars negative ++ layout.chars d)
      (.ofDecimal negative d.digits d.exponent) := by
  by_cases hzero : d.digits = 0
  · have hchars : layout.chars d = ['0', '.', '0'] := by
      rw [chars, if_pos hzero, hwhole]
      rfl
    rw [hchars, hzero, Binary64.ofDecimal_zero]
    exact writes_zero negative
  · have hdigits := isWhole_toDigits d.digits
    have hvalue := digitsValue_toDigits d.digits
    have hhead := head_toDigits (Nat.pos_of_ne_zero hzero)
    rw [chars, if_neg hzero]
    generalize Nat.toDigits 10 d.digits = digits at *
    have hexponent : d.exponent + digits.length - 1 + 1 - digits.length = d.exponent := by omega
    rw [hwhole]
    by_cases hpositional : layout.positional (d.exponent + digits.length - 1) = true
    · have hwrites := writes_placePoint hdigits hhead negative
        (d.exponent + digits.length - 1 + 1)
      rw [hvalue, hexponent] at hwrites
      simpa only [hpositional, if_true] using hwrites
    · have hwrites := writes_scientific hdigits hhead negative layout.plusSign
        (d.exponent + digits.length - 1)
      rw [hvalue, hexponent] at hwrites
      simpa only [hpositional, Bool.false_eq_true, if_false] using hwrites

/-- The text of a finite number reads back as the number, and not as an integer. -/
theorem writes_text (hwhole : layout.wholeFraction = true) (negative : Bool)
    (rank : Fin finiteRanks) :
    Writes (layout.text (.finite negative rank)).toList (.finite negative rank) := by
  have htext : (layout.text (.finite negative rank)).toList =
      signChars negative ++ layout.chars (.shortest layout.tie rank.val) := String.toList_ofList
  rw [htext, ← Decimal.ofDecimal_shortest layout.tie]
  exact writes_chars hwhole negative _

theorem writes_text_of_isFinite (hwhole : layout.wholeFraction = true) {x : Binary64}
    (hx : x.isFinite = true) : Writes (layout.text x).toList x := by
  cases x with
  | finite negative rank => exact writes_text hwhole negative rank
  | nan => cases hx
  | infinity negative => cases hx

end NumberLayout

end Prosemark
