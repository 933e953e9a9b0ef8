import Prosemark.Json.Skip

/-!
# Reading JSON

The reader accepts the grammar of JSON for a whole text, up to a given depth of nesting. It is told
how numbers are rounded, and what is wanted of the text: members of a record that are not wanted are
skipped. A bound on the length of the text is what the functions recurse on.
-/

namespace Prosemark.Json

/-- What is wanted of a value: all of it, or the fields of a record, by name in an object and in
order in an array. -/
inductive Wanted where
  | all
  | fields (fields : List (String × Wanted))

namespace Wanted

/-- What is wanted of the items of an array, all of those beyond the list. -/
def items : Wanted → List Wanted
  | all => []
  | fields fs => fs.map (·.2)

/-- What is wanted of a member of an object, if anything. -/
def member? (name : String) : Wanted → Option Wanted
  | all => some all
  | fields fs => fs.lookup name

end Wanted

namespace Reader

open Atom

variable (rounding : Rounding)

mutual

/-- A value at the head of a text, after blanks, with brackets nested at most `levels` deep. -/
def value? : (bound levels : Nat) → Wanted → List Char → Option (Json × List Char)
  | 0, _, _, _ => none
  | bound + 1, levels, wanted, cs =>
    match skipBlanks cs with
    | [] => none
    | c :: rest =>
      if c = '"' then do
        let (text, after) ← stringTail none rest
        return (.string (String.ofList text), after)
      else if c = '[' then
        match levels with
        | 0 => none
        | levels + 1 => array? bound levels wanted.items rest
      else if c = '\x7b' then
        match levels with
        | 0 => none
        | levels + 1 => object? bound levels wanted rest
      else if c = 'n' then word? "null" .null (c :: rest)
      else if c = 't' then word? "true" (.bool true) (c :: rest)
      else if c = 'f' then word? "false" (.bool false) (c :: rest)
      else numeral? rounding (c :: rest)

/-- What follows the opening bracket of an array. -/
def array? : (bound levels : Nat) → List Wanted → List Char → Option (Json × List Char)
  | 0, _, _, _ => none
  | bound + 1, levels, wanted, cs =>
    match skipBlanks cs with
    | ']' :: rest => some (.array [], rest)
    | _ => do
      let (items, rest) ← items? bound levels wanted cs
      return (.array items, rest)

/-- One or more items and the closing bracket. -/
def items? : (bound levels : Nat) → List Wanted → List Char → Option (List Json × List Char)
  | 0, _, _, _ => none
  | bound + 1, levels, wanted, cs => do
    let (j, rest) ← value? bound levels (wanted.headD .all) cs
    match skipBlanks rest with
    | ',' :: after =>
      let (items, rest) ← items? bound levels wanted.tail after
      return (j :: items, rest)
    | ']' :: after => return ([j], after)
    | _ => none

/-- What follows the opening brace of an object. -/
def object? : (bound levels : Nat) → Wanted → List Char → Option (Json × List Char)
  | 0, _, _, _ => none
  | bound + 1, levels, wanted, cs =>
    match skipBlanks cs with
    | '\x7d' :: rest => some (.object [], rest)
    | _ => do
      let (members, rest) ← members? bound levels wanted cs
      return (.object members, rest)

/-- One or more members, of which the wanted ones are kept, and the closing brace. -/
def members? : (bound levels : Nat) → Wanted → List Char →
    Option (List (String × Json) × List Char)
  | 0, _, _, _ => none
  | bound + 1, levels, wanted, cs =>
    match skipBlanks cs with
    | '"' :: after => do
      let (name, rest) ← stringTail none after
      match skipBlanks rest with
      | ':' :: rest =>
        let (member, rest) ← member? bound levels (String.ofList name) wanted rest
        match skipBlanks rest with
        | ',' :: after =>
          let (members, rest) ← members? bound levels wanted after
          return (member ++ members, rest)
        | '\x7d' :: after => return (member, after)
        | _ => none
      | _ => none
    | _ => none

/-- The member of a given name whose value is at the head of a text, no member if not wanted. -/
def member? : (bound levels : Nat) → String → Wanted → List Char →
    Option (List (String × Json) × List Char)
  | 0, _, _, _, _ => none
  | bound + 1, levels, name, wanted, cs =>
    match wanted.member? name with
    | some wanted => do
      let (j, rest) ← value? bound levels wanted cs
      return ([(name, j)], rest)
    | none => (skip? bound cs).map ([], ·)

end

end Reader

/-- The wanted part of the value that a whole text writes, with brackets nested at most `levels`
deep outside of what is skipped. -/
def readWanted? (rounding : Rounding) (wanted : Wanted) (levels : Nat) (text : String) :
    Option Json := do
  let cs := text.toList
  let (j, rest) ← Reader.value? rounding (4 * cs.length + 4) levels wanted cs
  if Atom.skipBlanks rest = [] then some j else none

/-- The value that a whole text writes, with brackets nested at most `levels` deep. -/
def read? (rounding : Rounding) (levels : Nat) (text : String) : Option Json :=
  readWanted? rounding .all levels text

/-- How deep brackets may be nested in texts from outside. -/
def standardLevels : Nat :=
  127

end Prosemark.Json
