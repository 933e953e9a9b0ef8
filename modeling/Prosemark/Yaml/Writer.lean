import Prosemark.Json
import Prosemark.Yaml.Scalar

/-!
# Writing YAML

Values are written in block style. The members of an object stand one below the other; an object
that is a member is indented by two, the items of an array stand at the indentation of its name,
each after a dash. Names of members are written as they are.

What comes after a value is handed to the functions that write it, as `tail`: they put the value,
up to the end of its last line, before it.
-/

namespace Prosemark.Yaml

/-- A value that is neither an array nor an object; further lines of it are indented. -/
def scalar (indent : Nat) (j : Json) (tail : List Char) : List Char :=
  match j with
  | .bool true => "true\n".toList ++ tail
  | .bool false => "false\n".toList ++ tail
  | .integer n => (toString n).toList ++ '\n' :: tail
  | .float x => (NumberLayout.yaml.text x).toList ++ '\n' :: tail
  | .string s => text indent s ++ tail
  | _ => "null\n".toList ++ tail

mutual

/-- A value after the name of a member that is indented by `indent`. -/
def afterName (indent : Nat) (j : Json) (tail : List Char) : List Char :=
  match j with
  | .array [] => " []\n".toList ++ tail
  | .array (j :: rest) => '\n' :: items indent (j :: rest) tail
  | .object [] => ' ' :: '\x7b' :: '\x7d' :: '\n' :: tail
  | .object (m :: rest) => '\n' :: members (indent + 2) (m :: rest) tail
  | j => ' ' :: scalar (indent + 2) j tail

/-- A value after a dash, its further lines being indented by `indent`. -/
def afterDash (indent : Nat) (j : Json) (tail : List Char) : List Char :=
  match j with
  | .array [] => "[]\n".toList ++ tail
  | .array (j :: rest) => '-' :: ' ' :: afterDash (indent + 2) j (items indent rest tail)
  | .object [] => '\x7b' :: '\x7d' :: '\n' :: tail
  | .object ((name, j) :: rest) =>
    name.toList ++ ':' :: afterName indent j (members indent rest tail)
  | j => scalar indent j tail

/-- The items of an array, each on lines of its own. -/
def items (indent : Nat) (js : List Json) (tail : List Char) : List Char :=
  match js with
  | [] => tail
  | j :: rest => spaces indent ++ '-' :: ' ' :: afterDash (indent + 2) j (items indent rest tail)

/-- The members of an object, each on lines of its own. -/
def members (indent : Nat) (ms : List (String × Json)) (tail : List Char) : List Char :=
  match ms with
  | [] => tail
  | (name, j) :: rest =>
    spaces indent ++ (name.toList ++ ':' :: afterName indent j (members indent rest tail))

end

/-- The text of a document with the given members. -/
def document (ms : List (String × Json)) : List Char :=
  members 0 ms []

end Prosemark.Yaml
