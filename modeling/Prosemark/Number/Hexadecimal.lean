/-!
# Hexadecimal digits

Digits are read in either case. Each format says in which case it writes them.
-/

namespace Prosemark.Hexadecimal

/-- The value of a digit. -/
def value? (c : Char) : Option Nat :=
  if c.isDigit then some (c.toNat - '0'.toNat)
  else if 'a' ≤ c ∧ c ≤ 'f' then some (c.toNat - 'a'.toNat + 10)
  else if 'A' ≤ c ∧ c ≤ 'F' then some (c.toNat - 'A'.toNat + 10)
  else none

/-- The last digit of a number, in lower case. -/
def lower (n : Nat) : Char :=
  Nat.digitChar (n % 16)

/-- The last digit of a number, in upper case. -/
def upper (n : Nat) : Char :=
  (lower n).toUpper

end Prosemark.Hexadecimal
