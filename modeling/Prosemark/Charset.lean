import Prosemark.Unicode.Letter
import Prosemark.Unicode.Mark
import Prosemark.Unicode.Sign
import Prosemark.Unicode.Blank
import Prosemark.Unicode.Addition

/-!
# Character classes

The classes of characters that the grammar tells apart: what starts and continues an identifier,
what a one-character command may be, what operators are made of, and blanks. All but the reserved
characters and the separators come from the categories of Unicode 16. What can be shown includes the
additions of Unicode 17.
-/

namespace Prosemark.Charset

/-- Letters, letter numbers and the underscore start an identifier. -/
def isIdStart (c : Char) : Bool :=
  Unicode.letters.has c.toNat || c == '_'

/-- An identifier goes on with what may start one, and with marks, digits and connectors. -/
def isIdContinue (c : Char) : Bool :=
  isIdStart c || Unicode.digits.has c.toNat || Unicode.extendingMarks.has c.toNat ||
    Unicode.spacingMarks.has c.toNat

/-- Dashes, other punctuation and symbols: what a switch and a run of operators are made of. -/
def isOperator (c : Char) : Bool :=
  Unicode.signs.has c.toNat

/-- Any punctuation or symbol, brackets and quotation marks included, can be a command. -/
def isSymbol (c : Char) : Bool :=
  Unicode.brackets.has c.toNat || Unicode.signs.has c.toNat

/-- White space, which only separates tokens. -/
def isBlank (c : Char) : Bool :=
  Unicode.blanks.has c.toNat

/-- Characters with a fixed meaning in the grammar, never usable as the switch. -/
def reserved : List Char :=
  ['[', ']', '{', '}', '"', '\\', '#', '|', ',', ';']

def isReserved (c : Char) : Bool :=
  reserved.contains c

/-- Characters that are never part of a run of operators. -/
def operatorStops : List Char :=
  [',', ';', '@', '#', '"']

/-- Two operators stand on their own and never join a run. -/
def isSeparator (c : Char) : Bool :=
  c == ',' || c == ';'

/-- The fillers of Hangul syllables are letters, but are drawn as nothing. -/
def fillers : List Char :=
  ['\u115f', '\u1160', '\u3164', '\uffa0']

/-- Characters that can be shown on their own, without help of a neighbour or an escape. -/
def isShown (c : Char) : Bool :=
  c == ' ' || (Unicode.letters.has c.toNat && !fillers.contains c) || Unicode.digits.has c.toNat ||
    Unicode.spacingMarks.has c.toNat || isSymbol c || Unicode.numerals.has c.toNat ||
    Unicode.additions.has c.toNat

end Prosemark.Charset
