import Prosemark.Json
import Prosemark.Number.Hexadecimal

/-!
# The atoms of JSON

Strings, numbers and words at the head of a text, each with the text after it. A string is refused
when it holds a control character, an unknown escape or the escape of a surrogate that is not
paired, a number when it is out of range. A string whose characters are not wanted can be
passed over instead, and then its escapes can name any surrogates.
-/

namespace Prosemark.Json.Atom

/-- Blanks between the tokens of a text. -/
def isBlank (c : Char) : Bool :=
  c == ' ' || c == '\n' || c == '\r' || c == '\t'

def skipBlanks (cs : List Char) : List Char :=
  cs.dropWhile isBlank

/-! ## Strings -/

/-- The number that four hexadecimal digits write. -/
def fourDigits? (a b c d : Char) : Option Nat := do
  let high := (← Hexadecimal.value? a) * 16 + (← Hexadecimal.value? b)
  return high * 256 + (← Hexadecimal.value? c) * 16 + (← Hexadecimal.value? d)

/-- The character that a backslash and a letter stand for. -/
def unescape? (c : Char) : Option Char :=
  if c = '"' ∨ c = '\\' ∨ c = '/' then some c
  else if c = 'b' then some '\x08'
  else if c = 'f' then some '\x0c'
  else if c = 'n' then some '\n'
  else if c = 'r' then some '\r'
  else if c = 't' then some '\t'
  else none

def isHighSurrogate (n : Nat) : Bool :=
  decide (0xD800 ≤ n) && decide (n < 0xDC00)

def isLowSurrogate (n : Nat) : Bool :=
  decide (0xDC00 ≤ n) && decide (n < 0xE000)

/-- The character of a surrogate pair. -/
def pairChar (high low : Nat) : Char :=
  Char.ofNat (0x10000 + (high - 0xD800) * 0x400 + (low - 0xDC00))

/-- The text of a string up to its closing quote, and what follows. After the escape of a high
surrogate, `high`, only the escape of a low one can come. -/
def stringTail : (high : Option Nat) → List Char → Option (List Char × List Char)
  | _, [] => none
  | some high, '\\' :: 'u' :: a :: b :: c :: d :: cs => do
    let low ← fourDigits? a b c d
    if isLowSurrogate low then
      let (text, rest) ← stringTail none cs
      return (pairChar high low :: text, rest)
    else none
  | some _, _ => none
  | none, '\\' :: 'u' :: a :: b :: c :: d :: cs => do
    let n ← fourDigits? a b c d
    if isHighSurrogate n then stringTail (some n) cs
    else if isLowSurrogate n then none
    else
      let (text, rest) ← stringTail none cs
      return (Char.ofNat n :: text, rest)
  | none, '\\' :: e :: cs => do
    let c ← unescape? e
    let (text, rest) ← stringTail none cs
    return (c :: text, rest)
  | none, c :: cs =>
    if c = '"' then some ([], cs)
    else if c.toNat < 0x20 ∨ c = '\\' then none
    else do
      let (text, rest) ← stringTail none cs
      return (c :: text, rest)

/-- What follows the closing quote of a string, where four digits can stand for any code unit. -/
def afterString? : List Char → Option (List Char)
  | [] => none
  | '\\' :: 'u' :: a :: b :: c :: d :: cs =>
    if (fourDigits? a b c d).isSome then afterString? cs else none
  | '\\' :: e :: cs => if (unescape? e).isSome then afterString? cs else none
  | c :: cs =>
    if c = '"' then some cs
    else if c.toNat < 0x20 ∨ c = '\\' then none
    else afterString? cs

/-! ## Numbers and words -/

/-- A number at the head of a text. -/
def numeral? (rounding : Rounding) (cs : List Char) : Option (Json × List Char) := do
  let (numeral, rest) ← Numeral.scan? cs
  let j ← ofNumeral? rounding numeral
  return (j, rest)

/-- A word at the head of a text. -/
def word? (word : String) (j : Json) (cs : List Char) : Option (Json × List Char) :=
  if word.toList.isPrefixOf cs then some (j, cs.drop word.length) else none

/-- What follows a number, of any size, or a word. -/
def afterAtom? (cs : List Char) : Option (List Char) :=
  match cs with
  | 'n' :: _ => (word? "null" .null cs).map (·.2)
  | 't' :: _ => (word? "true" (.bool true) cs).map (·.2)
  | 'f' :: _ => (word? "false" (.bool false) cs).map (·.2)
  | _ => (Numeral.scan? cs).map (·.2)

end Prosemark.Json.Atom
