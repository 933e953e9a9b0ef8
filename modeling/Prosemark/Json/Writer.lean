import Prosemark.Json
import Prosemark.Number.Hexadecimal

/-!
# Writing JSON

`compact` writes a value without any blanks; `pretty` starts a line for each item and member, with
two more spaces of indentation than the line of the opening bracket. In strings the quote, the
backslash and control characters are escaped, all else stands as it is.

What comes after a value is handed to the functions that write it, as `tail`: they put the value
before it.
-/

namespace Prosemark.Json

/-- A character as it stands in a string. -/
def escape (c : Char) : List Char :=
  if c = '"' then ['\\', '"']
  else if c = '\\' then ['\\', '\\']
  else if c = '\x08' then ['\\', 'b']
  else if c = '\t' then ['\\', 't']
  else if c = '\n' then ['\\', 'n']
  else if c = '\x0c' then ['\\', 'f']
  else if c = '\r' then ['\\', 'r']
  else if c.toNat < 0x20 then
    ['\\', 'u', '0', '0', Hexadecimal.lower (c.toNat / 16), Hexadecimal.lower c.toNat]
  else [c]

/-- A string between quotes. -/
def quote (s : String) (tail : List Char) : List Char :=
  '"' :: s.toList.flatMap escape ++ '"' :: tail

/-- A value that is neither an array nor an object. -/
def scalar (j : Json) (tail : List Char) : List Char :=
  match j with
  | .bool true => "true".toList ++ tail
  | .bool false => "false".toList ++ tail
  | .integer n => (toString n).toList ++ tail
  | .float x => (NumberLayout.json.text x).toList ++ tail
  | .string s => quote s tail
  | _ => "null".toList ++ tail

/-- A line break and the indentation after it. -/
def newLine (indent : Nat) (tail : List Char) : List Char :=
  '\n' :: (List.replicate indent ' ' ++ tail)

/-! ## Without blanks -/

mutual

/-- A value without blanks. -/
def compactBefore (j : Json) (tail : List Char) : List Char :=
  match j with
  | .array items => '[' :: compactItems items (']' :: tail)
  | .object members => '\x7b' :: compactMembers members ('\x7d' :: tail)
  | j => scalar j tail

/-- Items with commas between. -/
def compactItems (items : List Json) (tail : List Char) : List Char :=
  match items with
  | [] => tail
  | [j] => compactBefore j tail
  | j :: k :: rest => compactBefore j (',' :: compactItems (k :: rest) tail)

/-- Members with commas between. -/
def compactMembers (members : List (String × Json)) (tail : List Char) : List Char :=
  match members with
  | [] => tail
  | [(name, j)] => quote name (':' :: compactBefore j tail)
  | (name, j) :: k :: rest =>
    quote name (':' :: compactBefore j (',' :: compactMembers (k :: rest) tail))

end

/-- The text of a value without blanks. -/
def compact (j : Json) : List Char :=
  compactBefore j []

/-! ## On lines -/

mutual

/-- A value whose brackets stand on lines that are indented by `indent`. -/
def prettyBefore (indent : Nat) (j : Json) (tail : List Char) : List Char :=
  match j with
  | .array [] => '[' :: ']' :: tail
  | .array (j :: rest) =>
    '[' :: newLine (indent + 2)
      (prettyBefore (indent + 2) j
        (prettyItems (indent + 2) rest (newLine indent (']' :: tail))))
  | .object [] => '\x7b' :: '\x7d' :: tail
  | .object ((name, j) :: rest) =>
    '\x7b' :: newLine (indent + 2)
      (quote name (':' :: ' ' :: prettyBefore (indent + 2) j
        (prettyMembers (indent + 2) rest (newLine indent ('\x7d' :: tail)))))
  | j => scalar j tail

/-- Further items, each after a comma and on a line of its own. -/
def prettyItems (indent : Nat) (items : List Json) (tail : List Char) : List Char :=
  match items with
  | [] => tail
  | j :: rest =>
    ',' :: newLine indent (prettyBefore indent j (prettyItems indent rest tail))

/-- Further members, each after a comma and on a line of its own. -/
def prettyMembers (indent : Nat) (members : List (String × Json)) (tail : List Char) :
    List Char :=
  match members with
  | [] => tail
  | (name, j) :: rest =>
    ',' :: newLine indent
      (quote name (':' :: ' ' :: prettyBefore indent j (prettyMembers indent rest tail)))

end

/-- The text of a value on lines. -/
def pretty (j : Json) : List Char :=
  prettyBefore 0 j []

end Prosemark.Json
