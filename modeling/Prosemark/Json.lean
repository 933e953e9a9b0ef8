import Prosemark.Number

/-!
# JSON values

Integers are kept apart from floating-point numbers, over the range of both signed and unsigned
64-bit integers. Objects keep their members in order, repeated names included: what a repeated name
means is for the reader of the value to say.
-/

namespace Prosemark

inductive Json where
  | null
  | bool (b : Bool)
  | integer (n : Int)
  | float (x : Binary64)
  | string (s : String)
  | array (items : List Json)
  | object (members : List (String × Json))

instance : Inhabited Json :=
  ⟨.null⟩

namespace Json

/-- A natural number as a JSON integer. -/
def nat (n : Nat) : Json :=
  .integer n

/-- An optional value, null when absent. -/
def option : Option Json → Json
  | some j => j
  | none => .null

/-- A number of the language as a JSON number. -/
def number : Number → Json
  | .int n => .integer n
  | .float x => .float x

/-- The members of an object with a given name. -/
def valuesOf (name : String) (members : List (String × Json)) : List Json :=
  (members.filter fun member => member.1 == name).map (·.2)

/-- The member of an object with a given name, if there is exactly one. -/
def only? (name : String) (members : List (String × Json)) : Option Json :=
  match valuesOf name members with
  | [j] => some j
  | _ => none

/-- The first member of an object with a given name. -/
def field? (name : String) : Json → Option Json
  | .object members => members.lookup name
  | _ => none

def string? : Json → Option String
  | .string s => some s
  | _ => none

def items? : Json → Option (List Json)
  | .array items => some items
  | _ => none

def members? : Json → Option (List (String × Json))
  | .object members => some members
  | _ => none

/-- An integer of 64 bits without sign. -/
def nat? : Json → Option Nat
  | .integer n => if 0 ≤ n then some n.toNat else none
  | _ => none

/-- A number of the language: an integer if it fits in 64 bits, else the nearest binary64. -/
def number? : Json → Option Number
  | .integer n => some (if Number.fits n then .int n else .float (Binary64.ofInt n))
  | .float x => some (.float x)
  | _ => none

/-- How numerals are read that are not integers of 64 bits. Some are out of range. -/
abbrev Rounding :=
  Numeral → Option Binary64

/-- Numerals are read in one pass, with a rounding at each step. -/
def Rounding.standard : Rounding :=
  fun numeral => numeral.read.toOption

/-- Numerals are read as the nearest numbers. -/
def Rounding.nearest : Rounding :=
  fun numeral => if numeral.nearest.isFinite then some numeral.nearest else none

/-- The integer or floating-point number of a numeral, unless it is out of range. -/
def ofNumeral? (rounding : Rounding) (numeral : Numeral) : Option Json :=
  if numeral.isInteger && decide (-Int.pow 2 63 ≤ numeral.integer) &&
      decide (numeral.integer < Int.pow 2 64) then
    some (.integer numeral.integer)
  else (rounding numeral).map .float

end Json

end Prosemark
