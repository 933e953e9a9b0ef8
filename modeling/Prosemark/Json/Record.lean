import Prosemark.Json

/-!
# Records in JSON

A record is an object of its fields, in which members of other names are ignored, or the array of
all its fields in order. A record that can be of several kinds has its kind as the member `type`, or
as the first item of the array.
-/

namespace Prosemark.Json

/-- An object that starts with its kind. -/
def tagged (kind : String) (fields : List (String × Json)) : Json :=
  .object (("type", .string kind) :: fields)

/-- The fields of a record under the given names, each of which may be missing from an object. -/
def record? (names : List String) : Json → Option (List (Option Json))
  | .array items => if items.length = names.length then some (items.map some) else none
  | .object members =>
    names.mapM fun name =>
      match valuesOf name members with
      | [] => some none
      | [j] => some (some j)
      | _ => none
  | _ => none

/-- How a record can write its kind. -/
inductive KindForm where
  /-- By name only. -/
  | named
  /-- By name, or by its place in the list of kinds. -/
  | numbered

/-- One of the given kinds, as a value writes it. -/
def ofKinds? (form : KindForm) (kinds : List String) : Json → Option String
  | .string kind => if kinds.contains kind then some kind else none
  | .integer n =>
    match form with
    | .named => none
    | .numbered => if 0 ≤ n then kinds[n.toNat]? else none
  | _ => none

/-- The kind of a record, which is one of the given kinds, and the rest of it. -/
def kind? (form : KindForm) (kinds : List String) : Json → Option (String × Json)
  | .array (j :: items) => do
    let kind ← j.ofKinds? form kinds
    return (kind, .array items)
  | .object members => do
    let j ← only? "type" members
    let kind ← j.ofKinds? form kinds
    return (kind, .object (members.filter fun member => member.1 != "type"))
  | _ => none

/-- Reads an optional value, which is absent when missing or null. -/
def optional? {α : Type} (read : Json → Option α) : Option Json → Option (Option α)
  | none => some none
  | some .null => some none
  | some j => (read j).map some

end Prosemark.Json
