/-!
# Binary floating point

The nonnegative finite binary64 numbers, in ascending order, are numbered from zero by their rank.
Each is a whole number of units of `2 ^ -1074`, the least positive one, and `units` gives that
number: ranks below `2 ^ 53` are themselves, and from there on every block of `2 ^ 52` ranks doubles
the step. Rounding a rational is therefore arithmetic on natural numbers, and the result is a rank.
-/

namespace Prosemark

/-- The number of ranks of finite numbers; the rank after the last one overflows. -/
def finiteRanks : Nat :=
  2047 * Nat.pow 2 52

/-- A binary64 number; all values of a NaN are one. -/
inductive Binary64 where
  | nan
  | infinity (negative : Bool)
  | finite (negative : Bool) (rank : Fin finiteRanks)
  deriving DecidableEq, Repr

/-! ## Rounding -/

/-- The value of the number of a rank, in units of `2 ^ -1074`. -/
def units (rank : Nat) : Nat :=
  let block := rank / Nat.pow 2 52
  if block = 0 then rank else (Nat.pow 2 52 + rank % Nat.pow 2 52) * Nat.pow 2 (block - 1)

/-- The whole number nearest to a fraction; of two that are equally near, the even one. -/
def roundHalfEven (num den : Nat) : Nat :=
  let quotient := num / den
  let twice := 2 * (num % den)
  if twice < den then quotient
  else if den < twice then quotient + 1
  else quotient + quotient % 2

/-- The rank nearest to the fraction `num / den` of units. A carry out of the significand goes on
to the next block by itself. -/
def nearestRank (num den : Nat) : Nat :=
  let shift := (num / den).log2 - 52
  shift * Nat.pow 2 52 + roundHalfEven num (den * Nat.pow 2 shift)

namespace Binary64

def zero : Binary64 :=
  .finite false ⟨0, by decide⟩

/-- The number of a rank, infinite past the last finite one. -/
def ofRank (negative : Bool) (rank : Nat) : Binary64 :=
  if h : rank < finiteRanks then .finite negative ⟨rank, h⟩ else .infinity negative

/-- The number nearest to `num / den` units. -/
def ofUnits (negative : Bool) (num den : Nat) : Binary64 :=
  ofRank negative (nearestRank num den)

/-- The number nearest to `digits * 10 ^ exponent`. Exponents far out of range are settled by the
count of digits alone, so no huge power is ever computed. -/
def ofDecimal (negative : Bool) (digits : Nat) (exponent : Int) : Binary64 :=
  let point := exponent + (Nat.toDigits 10 digits).length
  if digits = 0 ∨ point ≤ -324 then ofRank negative 0
  else if 309 < point then .infinity negative
  else
    match exponent with
    | .ofNat e => ofUnits negative (digits * Nat.pow 10 e * Nat.pow 2 1074) 1
    | .negSucc e => ofUnits negative (digits * Nat.pow 2 1074) (Nat.pow 10 (e + 1))

/-- The number nearest to an integer. -/
def ofInt (n : Int) : Binary64 :=
  ofDecimal (decide (n < 0)) n.natAbs 0

def isFinite : Binary64 → Bool
  | .finite _ _ => true
  | _ => false

/-- Whether the number is zero, of either sign. -/
def isZero : Binary64 → Bool
  | .finite _ rank => rank.val == 0
  | _ => false

/-- Numeric equality: a NaN differs from itself, and both zeros are equal. -/
def same : Binary64 → Binary64 → Bool
  | .nan, _ => false
  | _, .nan => false
  | x, y => x == y || (x.isZero && y.isZero)

end Binary64

end Prosemark
