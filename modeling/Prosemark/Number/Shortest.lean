import Prosemark.Number.Binary64

/-!
# Shortest decimals

The decimal that stands for a binary64 number has the fewest digits that read back as that number,
and of those the digits nearest to it. With `p` digits only the two neighbours of the number on the
grid of `p`-digit decimals need to be tried. A positive number is `exact` units of `10 ^ -1074`, so
the neighbours come from one division. Should no neighbour on any grid read back, the exact
decimal stands for the number.
-/

namespace Prosemark

/-- A nonnegative decimal, `digits * 10 ^ exponent`. -/
structure Decimal where
  digits : Nat
  exponent : Int
  deriving DecidableEq, Repr

/-- Which neighbour stands for a number halfway between two decimals. -/
inductive Tie where
  | up
  | even
  deriving DecidableEq, Repr

namespace Decimal

/-- Whether a decimal reads back as the positive number of a rank. -/
def readsAs (rank : Nat) (d : Decimal) : Bool :=
  Binary64.ofDecimal false d.digits d.exponent == Binary64.ofRank false rank

/-- The number of a rank in units of `10 ^ -1074`. -/
def exact (rank : Nat) : Nat :=
  units rank * Nat.pow 5 1074

/-- Whether the upper of two neighbours is to be preferred: the remainder says how far the lower
one is from the number. -/
def prefersUpper (tie : Tie) (lower remainder step : Nat) : Bool :=
  decide (step < 2 * remainder) ||
    (2 * remainder == step && (tie == .up || lower % 2 == 1))

/-- The better of the two neighbours on the grid of multiples of `10 ^ drop` units that read back
as the number of a rank. -/
def onGrid? (tie : Tie) (rank drop : Nat) : Option Decimal :=
  let step := Nat.pow 10 drop
  let lower := exact rank / step
  let exponent : Int := drop - 1074
  let down : Decimal := ⟨lower, exponent⟩
  let up : Decimal := ⟨lower + 1, exponent⟩
  let order := if prefersUpper tie lower (exact rank % step) step then [up, down] else [down, up]
  order.find? (readsAs rank)

/-- Moves zeros at the end of the digits into the exponent. -/
def trimmed : Nat → Decimal → Decimal
  | 0, d => d
  | n + 1, d =>
    if d.digits ≠ 0 ∧ d.digits % 10 = 0 then trimmed n ⟨d.digits / 10, d.exponent + 1⟩ else d

/-- The decimal with the fewest digits, at most 17, that reads back as the number of a rank. -/
def onGrids? (tie : Tie) (rank : Nat) : Option Decimal :=
  let size := (Nat.toDigits 10 (exact rank)).length
  (List.range 17).findSome? fun p => onGrid? tie rank (size - (p + 1))

/-- The shortest decimal that reads back as the number of a rank. -/
def shortest (tie : Tie) (rank : Nat) : Decimal :=
  ((onGrids? tie rank).map (trimmed 17)).getD ⟨exact rank, -1074⟩

end Decimal

end Prosemark
