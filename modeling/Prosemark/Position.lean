import Prosemark.Source

/-!
# Lines and columns

Offsets are turned into lines and columns only to be shown. The position of an offset is found by
reading the characters that end at or before it, so an offset inside a character counts as the
start of that character, and one past the end counts as the end.

`sourceContext` shows the lines around an offset and marks the one it is on.
-/

namespace Prosemark

/-- A line and a column, both counted from one; columns count characters. -/
structure Position where
  line : Nat
  column : Nat
  deriving DecidableEq, Repr

namespace Position

def first : Position :=
  ⟨1, 1⟩

/-- The position after a character: a newline starts the next line. -/
def next (p : Position) (c : Char) : Position :=
  if c = '\n' then ⟨p.line + 1, 1⟩ else ⟨p.line, p.column + 1⟩

def text (p : Position) : String :=
  "line " ++ toString p.line ++ ", col " ++ toString p.column

/-- The position of `offset` in a text that stands at the offset `here` and the position `p`. -/
def walk (offset here : Nat) (p : Position) : List Char → Position
  | [] => p
  | c :: cs =>
    if here + c.utf8Size ≤ offset then walk offset (here + c.utf8Size) (p.next c) cs else p

/-- The position of a byte offset in a source. -/
def ofOffset (source : String) (offset : Nat) : Position :=
  walk offset 0 first source.toList

end Position

/-! ## Lines -/

/-- The offsets after each newline of a text that stands at `here`. -/
def newlineStops (here : Nat) : List Char → List Nat
  | [] => []
  | c :: cs =>
    let after := here + c.utf8Size
    if c = '\n' then after :: newlineStops after cs else newlineStops after cs

/-- The offsets at which the lines of a source start: its beginning, and after each newline. -/
def lineStarts (source : String) : List Nat :=
  0 :: newlineStops 0 source.toList

/-- The offset at which a line starts, lines being counted from one. -/
def lineStart? (source : String) (line : Nat) : Option Nat :=
  if line = 0 then none else (lineStarts source)[line - 1]?

/-- The texts before, between and after the newlines. -/
def splitNewlines : List Char → List (List Char)
  | [] => [[]]
  | c :: cs =>
    if c = '\n' then [] :: splitNewlines cs
    else
      match splitNewlines cs with
      | [] => [[c]]
      | line :: lines => (c :: line) :: lines

/-- A carriage return right before a newline belongs to the line's terminator. -/
def chompReturn (line : List Char) : List Char :=
  if line.getLast? = some '\r' then line.dropLast else line

/-- Strips terminators from lines split at newlines: what follows the last newline is a line only
if it is not empty, and has no terminator. -/
def chompLines : List (List Char) → List (List Char)
  | [] => []
  | [last] => if last = [] then [] else [last]
  | line :: lines => chompReturn line :: chompLines lines

/-- The lines of a source, without their terminators. -/
def sourceLines (source : String) : List (List Char) :=
  chompLines (splitNewlines source.toList)

/-! ## Context of an offset -/

/-- A number right-aligned in three columns. -/
def lineNumber (n : Nat) : String :=
  let digits := toString n
  String.ofList (List.replicate (3 - digits.length) ' ') ++ digits

/-- One line of a context: a marker on the line sought, the line's number and its text. -/
def contextLine (marked number : Nat) (line : List Char) : String :=
  (if number = marked then ">> " else "   ") ++ lineNumber number ++ " | " ++
    String.ofList line ++ "\n"

/-- The lines of a source with an empty one added when line `marked` is past the last. -/
def linesThrough (source : String) (marked : Nat) : List (List Char) :=
  let lines := sourceLines source
  if lines.length < marked then lines ++ [[]] else lines

/-- The line of `offset`, marked, with up to two lines before and after it, all numbered. -/
def sourceContext (source : String) (offset : Nat) : String :=
  let marked := (Position.ofOffset source offset).line
  let numbered := (linesThrough source marked).zipIdx 1
  let near := numbered.filter fun entry => entry.2 ≤ marked + 2 && marked ≤ entry.2 + 2
  String.join (near.map fun entry => contextLine marked entry.2 entry.1)

end Prosemark
