import Prosemark.Number.Shortest

/-!
# How numbers are written

All formats write the shortest digits of a number; they differ in where the decimal point goes.
A `NumberLayout` holds what a format decides. With `k` the exponent of the leading digit, the point
is placed positionally when `positional k` holds, and otherwise after the leading digit, with the
exponent written behind it.
-/

namespace Prosemark

/-- What a format decides about the text of a number. -/
structure NumberLayout where
  /-- Which exponents of the leading digit are written positionally. -/
  positional : Int → Bool
  /-- Whether a whole number is written with a fraction of one zero. -/
  wholeFraction : Bool
  /-- Whether a positive exponent has a sign. -/
  plusSign : Bool
  /-- Which of two equally near shortest decimals is written. -/
  tie : Tie
  nan : String
  infinity : String
  negativeInfinity : String

namespace NumberLayout

/-- Values shown in text: never an exponent, whole numbers without a fraction. -/
def shown : NumberLayout where
  positional _ := true
  wholeFraction := false
  plusSign := false
  tie := .up
  nan := "NaN"
  infinity := "inf"
  negativeInfinity := "-inf"

/-- Numbers in JSON: positional from `1e-5` up to `1e16`, always with a fraction or an exponent. -/
def json : NumberLayout where
  positional k := decide (-5 ≤ k) && decide (k < 16)
  wholeFraction := true
  plusSign := true
  tie := .even
  nan := "null"
  infinity := "null"
  negativeInfinity := "null"

/-- Numbers in YAML: as in JSON, with no sign on a positive exponent. -/
def yaml : NumberLayout where
  positional k := decide (-5 ≤ k) && decide (k < 16)
  wholeFraction := true
  plusSign := false
  tie := .even
  nan := ".nan"
  infinity := ".inf"
  negativeInfinity := "-.inf"

def zeros (n : Nat) : List Char :=
  List.replicate n '0'

/-- Digits with the point after the first `point` of them, zeros filling up on either side. -/
def placePoint (wholeFraction : Bool) (digits : List Char) (point : Int) : List Char :=
  match point with
  | .negSucc n => '0' :: '.' :: zeros (n + 1) ++ digits
  | .ofNat 0 => '0' :: '.' :: digits
  | .ofNat n =>
    if n < digits.length then digits.take n ++ '.' :: digits.drop n
    else digits ++ zeros (n - digits.length) ++ (if wholeFraction then ['.', '0'] else [])

/-- Digits with the point after the first one and an exponent. -/
def scientific (plusSign : Bool) (digits : List Char) (exponent : Int) : List Char :=
  let sign := if exponent < 0 then ['-'] else if plusSign then ['+'] else []
  let fraction := if digits.length ≤ 1 then [] else '.' :: digits.drop 1
  digits.take 1 ++ fraction ++ 'e' :: sign ++ Nat.toDigits 10 exponent.natAbs

/-- The characters of a decimal. -/
def chars (layout : NumberLayout) (d : Decimal) : List Char :=
  if d.digits = 0 then '0' :: (if layout.wholeFraction then ['.', '0'] else [])
  else
    let digits := Nat.toDigits 10 d.digits
    let leading := d.exponent + digits.length - 1
    if layout.positional leading then placePoint layout.wholeFraction digits (leading + 1)
    else scientific layout.plusSign digits leading

/-- The text of a number. -/
def text (layout : NumberLayout) : Binary64 → String
  | .nan => layout.nan
  | .infinity negative => if negative then layout.negativeInfinity else layout.infinity
  | .finite negative rank =>
    let decimal := Decimal.shortest layout.tie rank.val
    String.ofList ((if negative then ['-'] else []) ++ layout.chars decimal)

end NumberLayout

end Prosemark
