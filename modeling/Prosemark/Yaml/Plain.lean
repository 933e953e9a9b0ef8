import Prosemark.Number.Hexadecimal
import Prosemark.Number.Numeral

/-!
# Plain words of YAML

A text without quotes may read as null, as a truth value or as a number. `readsOtherwise` tells the
texts that do, and with them the runs of digits padded with zeros, which readers disagree on.
-/

namespace Prosemark.Yaml

/-- The words that stand for null and for truth values, and the empty text, which is null too. -/
def reservedWords : List String :=
  ["", "~", "null", "Null", "NULL", "true", "True", "TRUE", "false", "False", "FALSE"]

def infinityWords : List String :=
  [".inf", ".Inf", ".INF"]

def nanWords : List String :=
  [".nan", ".NaN", ".NAN"]

/-- A text without its sign, if it has one. -/
def unsigned : List Char → List Char
  | [] => []
  | c :: cs => if c = '+' ∨ c = '-' then cs else c :: cs

/-! ## Integers with a radix -/

/-- The value of a run of digits in a radix up to sixteen, going on from `n`. -/
def radixValue? (radix n : Nat) : List Char → Option Nat
  | [] => some n
  | c :: cs =>
    match Hexadecimal.value? c with
    | some d => if d < radix then radixValue? radix (radix * n + d) cs else none
    | none => none

/-- The radix that a letter after a zero announces. -/
def radix? (c : Char) : Option Nat :=
  if c = 'x' then some 16 else if c = 'o' then some 8 else if c = 'b' then some 2 else none

/-- The value of an integer without sign that announces its radix. -/
def announced? : List Char → Option Nat
  | '0' :: letter :: d :: digits =>
    (radix? letter).bind fun radix => radixValue? radix 0 (d :: digits)
  | _ => none

/-- Whether a text is an integer of 128 bits that announces its radix. -/
def isAnnounced (cs : List Char) : Bool :=
  match announced? (unsigned cs) with
  | some n => if cs.head? = some '-' then decide (n ≤ Nat.pow 2 127) else decide (n < Nat.pow 2 128)
  | none => false

/-! ## Decimals -/

/-- A decimal without sign. Other than in JSON the whole part may start with zeros, and it or the
fraction may be empty, but not both. -/
def decimal? (cs : List Char) : Option Numeral :=
  let whole := cs.takeWhile Char.isDigit
  let (fraction, rest) := match cs.dropWhile Char.isDigit with
    | '.' :: after => (after.takeWhile Char.isDigit, after.dropWhile Char.isDigit)
    | after => ([], after)
  if whole = [] ∧ fraction = [] then none
  else
    match rest, Exponent.scan? rest with
    | [], _ => some ⟨false, whole, fraction, none⟩
    | _, some (exponent, []) => some ⟨false, whole, fraction, some exponent⟩
    | _, _ => none

/-- Whether a text is a decimal that does not overflow. Decimal integers are among these. -/
def isDecimal (cs : List Char) : Bool :=
  match decimal? (unsigned cs) with
  | some numeral => numeral.nearest.isFinite
  | none => false

/-- Whether a text is a run of digits that starts with a zero it does not need. -/
def isPadded (cs : List Char) : Bool :=
  match unsigned cs with
  | '0' :: d :: digits => (d :: digits).all Char.isDigit
  | _ => false

/-! ## All of them -/

/-- Whether a text without quotes would be taken for something else than a string. -/
def readsOtherwise (cs : List Char) : Bool :=
  reservedWords.contains (String.ofList cs) || nanWords.contains (String.ofList cs) ||
    infinityWords.contains (String.ofList (unsigned cs)) || isAnnounced cs || isDecimal cs ||
    isPadded cs

end Prosemark.Yaml
