import Prosemark.Json.Reader
import Prosemark.Value

/-!
# JSON values as values

Null is nothing, arrays are lists and objects are maps; of members with one name the last counts.
-/

namespace Prosemark.Value

mutual

/-- The value that a JSON value stands for. -/
def ofJson : Json → Value
  | .null => .nothing
  | .bool b => .bool b
  | .integer n => if Number.fits n then .int n else .float (Binary64.ofInt n)
  | .float x => .float x
  | .string s => .string s
  | .array items => .list (ofJsonItems items)
  | .object members => ofEntries (ofJsonMembers members)

def ofJsonItems : List Json → List Value
  | [] => []
  | j :: rest => ofJson j :: ofJsonItems rest

def ofJsonMembers : List (String × Json) → List (String × Value)
  | [] => []
  | (name, j) :: rest => (name, ofJson j) :: ofJsonMembers rest

end

end Prosemark.Value
