import Prosemark.Number.Numeral

/-!
# Reading numerals

A numeral is read in one pass, with a significand of 64 bits and an exponent of 32 bits. The
significand takes in digits as long as it has room for them. It is rounded to binary64, and then it
is multiplied with a power of ten, or divided by one, that is rounded too. With three roundings the
number can be another one than the nearest to the numeral. A numeral is out of range when the
product is infinite, or when a positive exponent has no room for its digits; the place at which that
is noticed is kept.
-/

namespace Prosemark

/-! ## Scaling -/

/-- One, in units. -/
def oneUnits : Nat :=
  Nat.pow 2 1074

/-- The rank nearest to a natural number. -/
def rankOfNat (n : Nat) : Nat :=
  nearestRank (n * oneUnits) 1

/-- The rank of a product, rounded. -/
def mulRank (a b : Nat) : Nat :=
  nearestRank (units a * units b) oneUnits

/-- The rank of a quotient, rounded. -/
def divRank (a b : Nat) : Nat :=
  nearestRank (units a * oneUnits) (units b)

/-- The exponent of the largest power of ten in the table of powers. -/
def largestPower : Nat :=
  308

/-- The rank of a power of ten in the table. -/
def tenPower (exponent : Nat) : Nat :=
  rankOfNat (Nat.pow 10 exponent)

/-- Divides by the largest power of ten, a number of times, as long as anything is left. -/
def lowered : (times : Nat) → (rank : Nat) → Nat
  | 0, rank => rank
  | times + 1, rank => if rank = 0 then 0 else lowered times (divRank rank (tenPower largestPower))

/-- The rank of a number times a power of ten, unless that is infinite. A quotient is taken in
several steps if the power is not in the table. -/
def scaled? (rank : Nat) : (exponent : Int) → Option Nat
  | .ofNat e =>
    if largestPower < e then if rank = 0 then some 0 else none
    else
      let product := mulRank rank (tenPower e)
      if product < finiteRanks then some product else none
  | .negSucc e =>
    some (divRank (lowered (e / largestPower) rank) (tenPower (e % largestPower + 1)))

/-! ## Digits with room for them -/

/-- Takes digits into a significand as long as it stays within 64 bits. The digits from the first
one without room on are left. -/
def takeDigits (significand : Nat) : List Char → Nat × List Char
  | [] => (significand, [])
  | c :: cs =>
    let next := 10 * significand + digitValue c
    if next < Nat.pow 2 64 then takeDigits next cs else (significand, c :: cs)

/-- The number of digits behind the first one with which a value gets out of 32 bits with sign. -/
def behindExcess? (value : Nat) : List Char → Option Nat
  | [] => none
  | c :: cs =>
    let next := 10 * value + digitValue c
    if next < Nat.pow 2 31 then behindExcess? next cs else some cs.length

namespace Numeral

/-- The significand of a numeral, and the exponent of ten that it has without the exponent that is
written. Digits of the whole part without room count as zeros, those of the fraction not at all. -/
def significand (n : Numeral) : Nat × Int :=
  let (whole, dropped) := takeDigits 0 n.whole
  let (significand, ignored) := takeDigits whole n.fraction
  (significand, dropped.length + ignored.length - n.fraction.length)

/-- The number that a numeral is read as. One that is out of range has instead the number of its
characters after which that is noticed. -/
def read (n : Numeral) : Except Nat Binary64 :=
  let (significand, shift) := n.significand
  match n.exponent with
  | none => finish significand shift
  | some e =>
    match behindExcess? 0 e.digits with
    | none => finish significand (shift + e.value)
    | some behind =>
      if significand ≠ 0 ∧ e.sign ≠ some '-' then .error (n.chars.length - behind)
      else .ok (.ofRank n.negative 0)
where
  finish (significand : Nat) (exponent : Int) : Except Nat Binary64 :=
    match scaled? (rankOfNat significand) exponent with
    | some rank => .ok (.ofRank n.negative rank)
    | none => .error n.chars.length

end Numeral

end Prosemark
