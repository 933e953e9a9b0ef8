import Prosemark.Json.Atom

/-!
# Skipping JSON values

A value that nobody asks for only has to be well formed: its numbers can have any size, its strings
can name any surrogates, and its brackets can be nested to any depth. The brackets that are open are
kept in a list, innermost first.
-/

namespace Prosemark.Json.Skip

open Atom

inductive Bracket where
  | array
  | object

/-- What stands next in a text that is skipped. -/
inductive Place where
  | value
  | name
  | afterValue

/-- How far skipping has come. -/
structure Progress where
  place : Place
  opened : List Bracket
  rest : List Char

/-- Steps into brackets that are not empty, and over any other value. -/
def value? (opened : List Bracket) : List Char → Option Progress
  | [] => none
  | '[' :: cs =>
    match skipBlanks cs with
    | ']' :: rest => some ⟨.afterValue, opened, rest⟩
    | rest => some ⟨.value, .array :: opened, rest⟩
  | '\x7b' :: cs =>
    match skipBlanks cs with
    | '\x7d' :: rest => some ⟨.afterValue, opened, rest⟩
    | rest => some ⟨.name, .object :: opened, rest⟩
  | '"' :: cs => (afterString? cs).map (⟨.afterValue, opened, ·⟩)
  | cs => (afterAtom? cs).map (⟨.afterValue, opened, ·⟩)

/-- Steps over the name of a member and the colon after it. -/
def name? (opened : List Bracket) : List Char → Option Progress
  | '"' :: cs =>
    match (afterString? cs).map skipBlanks with
    | some (':' :: rest) => some ⟨.value, opened, rest⟩
    | _ => none
  | _ => none

/-- Steps over a comma inside brackets, or out of them. -/
def afterValue? : List Bracket → List Char → Option Progress
  | .array :: opened, ',' :: rest => some ⟨.value, .array :: opened, rest⟩
  | .array :: opened, ']' :: rest => some ⟨.afterValue, opened, rest⟩
  | .object :: opened, ',' :: rest => some ⟨.name, .object :: opened, rest⟩
  | .object :: opened, '\x7d' :: rest => some ⟨.afterValue, opened, rest⟩
  | _, _ => none

/-- One step, after blanks. -/
def step? (p : Progress) : Option Progress :=
  match p.place with
  | .value => value? p.opened (skipBlanks p.rest)
  | .name => name? p.opened (skipBlanks p.rest)
  | .afterValue => afterValue? p.opened (skipBlanks p.rest)

/-- Steps until no bracket is open after a value, and returns what is left. -/
def finish? : (bound : Nat) → Progress → Option (List Char)
  | _, ⟨.afterValue, [], rest⟩ => some rest
  | 0, _ => none
  | bound + 1, p =>
    match step? p with
    | some next => finish? bound next
    | none => none

end Skip

/-- What follows the value at the head of a text, if the value takes at most `bound` steps. -/
def skip? (bound : Nat) (cs : List Char) : Option (List Char) :=
  Skip.finish? bound ⟨.value, [], cs⟩

end Prosemark.Json
