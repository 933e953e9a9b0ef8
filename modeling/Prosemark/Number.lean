import Prosemark.Number.Layout
import Prosemark.Number.Reading

/-!
# Numbers

A number of the language is an integer of 64 bits or a binary64 number. A numeral without fraction
and exponent is an integer when it fits, and any other numeral is read as a binary64 number. A
numeral that is out of range for that is no number.
-/

namespace Prosemark

inductive Number where
  | int (n : Int)
  | float (x : Binary64)
  deriving DecidableEq, Repr

namespace Number

/-- Whether an integer fits in 64 bits, one of which is for the sign. -/
def fits (n : Int) : Bool :=
  decide (-Int.pow 2 63 ≤ n) && decide (n < Int.pow 2 63)

/-- The number that a numeral stands for. One that is out of range has instead the number of its
characters after which that is noticed. -/
def ofNumeral (numeral : Numeral) : Except Nat Number :=
  if numeral.isInteger && fits numeral.integer then .ok (.int numeral.integer)
  else numeral.read.map .float

/-- Numeric equality within a kind; an integer never equals a floating-point number. -/
def same : Number → Number → Bool
  | .int a, .int b => a == b
  | .float a, .float b => a.same b
  | _, _ => false

/-- The text of a number, floating-point numbers being written in the given layout. -/
def text (layout : NumberLayout) : Number → String
  | .int n => toString n
  | .float x => layout.text x

end Number

end Prosemark
