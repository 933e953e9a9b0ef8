import Prosemark.Number.Binary64
import Prosemark.Source

/-!
# Numerals

A numeral is what JSON calls a number: an optional minus, a whole part without leading zeros, an
optional fraction and an optional exponent. `Numeral.scan?` takes the longest numeral at the head of
a text, and `Numeral.chars` writes one back.
-/

namespace Prosemark

/-- The exponent of a numeral: its letter, its sign if it has one, and its digits. -/
structure Exponent where
  letter : Char
  sign : Option Char
  digits : List Char
  deriving DecidableEq, Repr

structure Numeral where
  negative : Bool
  whole : List Char
  fraction : List Char
  exponent : Option Exponent
  deriving DecidableEq, Repr

/-- The value of a decimal digit. -/
def digitValue (c : Char) : Nat :=
  c.toNat - '0'.toNat

/-- The value of a run of decimal digits. -/
def digitsValue (digits : List Char) : Nat :=
  digits.foldl (fun n c => 10 * n + digitValue c) 0

namespace Exponent

def chars (e : Exponent) : List Char :=
  e.letter :: (e.sign.toList ++ e.digits)

def value (e : Exponent) : Int :=
  if e.sign = some '-' then -(digitsValue e.digits : Int) else digitsValue e.digits

/-- The digits of an exponent, of which there is at least one. -/
def digits? (letter : Char) (sign : Option Char) (cs : List Char) : Option (Exponent × List Char) :=
  match cs.takeWhile Char.isDigit with
  | [] => none
  | d :: ds => some (⟨letter, sign, d :: ds⟩, cs.dropWhile Char.isDigit)

/-- An exponent at the head of a text. -/
def scan? : List Char → Option (Exponent × List Char)
  | [] => none
  | letter :: cs =>
    if letter = 'e' ∨ letter = 'E' then
      match cs with
      | [] => none
      | c :: rest =>
        if c = '+' ∨ c = '-' then digits? letter (some c) rest else digits? letter none (c :: rest)
    else none

end Exponent

namespace Numeral

def chars (n : Numeral) : List Char :=
  (if n.negative then ['-'] else []) ++ n.whole ++
    (if n.fraction = [] then [] else '.' :: n.fraction) ++
    (match n.exponent with
      | none => []
      | some e => e.chars)

/-- A whole part at the head of a text: a lone zero, or digits that do not start with one. -/
def whole? : List Char → Option (List Char × List Char)
  | [] => none
  | c :: cs =>
    if c = '0' then some (['0'], cs)
    else if c.isDigit then some (c :: cs.takeWhile Char.isDigit, cs.dropWhile Char.isDigit)
    else none

/-- The fraction at the head of a text, empty unless a point and a digit stand there. -/
def splitFraction : List Char → List Char × List Char
  | [] => ([], [])
  | c :: cs =>
    if c = '.' ∧ cs.takeWhile Char.isDigit ≠ [] then
      (cs.takeWhile Char.isDigit, cs.dropWhile Char.isDigit)
    else ([], c :: cs)

/-- What follows the sign of a numeral. -/
def unsigned? (negative : Bool) (cs : List Char) : Option (Numeral × List Char) := do
  let (whole, afterWhole) ← whole? cs
  let (fraction, afterFraction) := splitFraction afterWhole
  match Exponent.scan? afterFraction with
  | some (e, rest) => return (⟨negative, whole, fraction, some e⟩, rest)
  | none => return (⟨negative, whole, fraction, none⟩, afterFraction)

/-- The longest numeral at the head of a text, and the text after it. -/
def scan? : List Char → Option (Numeral × List Char)
  | [] => none
  | c :: cs => if c = '-' then unsigned? true cs else unsigned? false (c :: cs)

/-- The numeral that a whole text is. -/
def ofChars? (cs : List Char) : Option Numeral :=
  match scan? cs with
  | some (n, []) => some n
  | _ => none

/-! ## Values -/

/-- Minus zero is not an integer: only a floating-point number keeps its sign. -/
def isInteger (n : Numeral) : Bool :=
  n.fraction.isEmpty && n.exponent.isNone && !(n.negative && n.whole == ['0'])

/-- The value of a numeral without fraction and exponent. -/
def integer (n : Numeral) : Int :=
  let magnitude : Int := digitsValue n.whole
  if n.negative then -magnitude else magnitude

/-- The binary64 number nearest to the numeral. -/
def nearest (n : Numeral) : Binary64 :=
  let exponent := match n.exponent with
    | none => 0
    | some e => e.value
  Binary64.ofDecimal n.negative (digitsValue (n.whole ++ n.fraction))
    (exponent - n.fraction.length)

end Numeral

/-! ## Cutting a numeral off a text -/

theorem Exponent.scan?_chars {cs rest : List Char} {e : Exponent}
    (h : Exponent.scan? cs = some (e, rest)) : e.chars ++ rest = cs := by
  have hdigits : ∀ {letter : Char} {sign : Option Char} {ds : List Char},
      Exponent.digits? letter sign ds = some (e, rest) →
        e.chars ++ rest = letter :: (sign.toList ++ ds) := by
    intro letter sign ds hd
    unfold Exponent.digits? at hd
    split at hd
    · simp at hd
    · next d tail htake =>
      obtain ⟨rfl, rfl⟩ := Prod.mk.inj (Option.some.inj hd)
      simp only [Exponent.chars, ← htake, List.cons_append, List.append_assoc,
        List.takeWhile_append_dropWhile]
  unfold Exponent.scan? at h
  split at h
  · simp at h
  · next letter tail =>
    split at h
    · split at h
      · simp at h
      · next c after =>
        split at h
        · simpa using hdigits h
        · simpa using hdigits h
    · simp at h

theorem Numeral.whole?_append {cs w rest : List Char} (h : Numeral.whole? cs = some (w, rest)) :
    w ++ rest = cs ∧ w ≠ [] := by
  unfold Numeral.whole? at h
  split at h
  · simp at h
  · next c tail =>
    split at h
    · next hc =>
      obtain ⟨rfl, rfl⟩ := Prod.mk.inj (Option.some.inj h)
      simp [hc]
    · split at h
      · obtain ⟨rfl, rfl⟩ := Prod.mk.inj (Option.some.inj h)
        simp
      · simp at h

theorem Numeral.splitFraction_append (cs : List Char) :
    (if (Numeral.splitFraction cs).1 = [] then [] else '.' :: (Numeral.splitFraction cs).1) ++
      (Numeral.splitFraction cs).2 = cs := by
  cases cs with
  | nil => simp [Numeral.splitFraction]
  | cons c tail =>
    by_cases h : c = '.' ∧ tail.takeWhile Char.isDigit ≠ []
    · have hsplit : Numeral.splitFraction (c :: tail) =
          (tail.takeWhile Char.isDigit, tail.dropWhile Char.isDigit) := if_pos h
      rw [hsplit, if_neg h.2, List.cons_append, List.takeWhile_append_dropWhile, h.1]
    · have hsplit : Numeral.splitFraction (c :: tail) = ([], c :: tail) := if_neg h
      rw [hsplit, if_pos rfl, List.nil_append]

theorem Numeral.unsigned?_chars {negative : Bool} {cs rest : List Char} {n : Numeral}
    (h : Numeral.unsigned? negative cs = some (n, rest)) :
    n.chars ++ rest = (if negative then ['-'] else []) ++ cs ∧ n.chars ≠ [] := by
  unfold Numeral.unsigned? at h
  cases hw : Numeral.whole? cs with
  | none => simp [hw] at h
  | some p =>
    obtain ⟨w, after⟩ := p
    obtain ⟨hcs, hne⟩ := Numeral.whole?_append hw
    have hf := Numeral.splitFraction_append after
    simp only [hw, Option.bind_eq_bind, Option.bind_some] at h
    split at h
    · next e tail he =>
      obtain ⟨rfl, rfl⟩ := Prod.mk.inj (Option.some.inj h)
      have hchars := Exponent.scan?_chars he
      refine ⟨?_, by simp [Numeral.chars, hne]⟩
      rw [← hcs]
      conv => rhs; rw [← hf, ← hchars]
      simp [Numeral.chars, List.append_assoc]
    · next he =>
      obtain ⟨rfl, rfl⟩ := Prod.mk.inj (Option.some.inj h)
      refine ⟨?_, by simp [Numeral.chars, hne]⟩
      rw [← hcs]
      conv => rhs; rw [← hf]
      simp [Numeral.chars, List.append_assoc]

theorem Numeral.scan?_chars {cs rest : List Char} {n : Numeral}
    (h : Numeral.scan? cs = some (n, rest)) : n.chars ++ rest = cs ∧ n.chars ≠ [] := by
  unfold Numeral.scan? at h
  split at h
  · simp at h
  · split at h
    · next hc => simpa [hc] using Numeral.unsigned?_chars h
    · simpa using Numeral.unsigned?_chars h

/-- The longest numeral at the head of a text, with the text cut after it. -/
def Numeral.cut? (cs : List Char) : Option (Numeral × Cut cs) :=
  match h : Numeral.scan? cs with
  | none => none
  | some (n, rest) =>
    some (n, ⟨n.chars, rest, (Numeral.scan?_chars h).1, (Numeral.scan?_chars h).2⟩)

end Prosemark
