import Prosemark.Json.Reader
import Prosemark.Json.Record
import Prosemark.Json.Writer
import Prosemark.Tree

/-!
# Trees as JSON values

A node is a record of its fields in order, the span first. Where several kinds of node may stand the
record starts with the kind, as its `type`. Optional fields may be missing from an object.
-/

namespace Prosemark

open Json

/-! ## Writing -/

def Span.toJson (s : Span) : Json :=
  .object [("start", .nat s.start), ("end", .nat s.stop)]

def Enclosing.toJson (e : Enclosing) : Json :=
  .object [("left", .string e.left), ("right", .string e.right)]

def Text.fields (t : Text) : List (String × Json) :=
  [("span", t.span.toJson), ("inner", .string t.inner), ("enclosing", t.enclosing.toJson)]

mutual

def Fragment.toJson : Fragment → Json
  | .text t => .tagged "Text" t.fields
  | .command c => .tagged "Command" c.fields
  | .block b => .tagged "FragmentSeq" b.fields

def Fragment.listToJson : List Fragment → List Json
  | [] => []
  | f :: fs => f.toJson :: Fragment.listToJson fs

def Block.fields : Block → List (String × Json)
  | ⟨span, children, enclosing⟩ =>
    [("span", span.toJson), ("children", .array (Fragment.listToJson children)),
      ("enclosing", enclosing.toJson)]

def Command.fields : Command → List (String × Json)
  | ⟨span, phrase, phraseEnclosing, options, body⟩ =>
    [("span", span.toJson), ("phrase", .string phrase),
      ("phrase_enclosing", phraseEnclosing.toJson), ("options", Group.optionToJson options),
      ("main_arg", Body.optionToJson body)]

def Group.optionToJson : Option Group → Json
  | none => .null
  | some g => .object g.fields

def Body.optionToJson : Option Body → Json
  | none => .null
  | some (.block b) => .tagged "FragmentSeq" b.fields
  | some (.text t) => .tagged "Text" t.fields

def Group.fields : Group → List (String × Json)
  | ⟨span, children⟩ =>
    [("span", span.toJson), ("children", .array (Token.listToJson children))]

def Token.listToJson : List Token → List Json
  | [] => []
  | t :: ts => t.toJson :: Token.listToJson ts

def Token.toJson : Token → Json
  | .identifier span name =>
    .tagged "Identifier" [("span", span.toJson), ("name", .string name)]
  | .operator span symbols =>
    .tagged "Operator" [("span", span.toJson), ("symbols", .string symbols)]
  | .number span value => .tagged "Number" [("span", span.toJson), ("value", .number value)]
  | .group g => .tagged "TokenSeq" g.fields
  | .block b => .tagged "FragmentSeq" b.fields
  | .text t => .tagged "Text" t.fields
  | .command c => .tagged "Command" c.fields

end

/-- A document as a JSON value. -/
def Block.toJson (b : Block) : Json :=
  .object b.fields

/-! ## Reading -/

def Span.ofJson? (j : Json) : Option Span := do
  let [some start, some stop] ← j.record? ["start", "end"] | none
  return ⟨← start.nat?, ← stop.nat?⟩

def Enclosing.ofJson? (j : Json) : Option Enclosing := do
  let [some left, some right] ← j.record? ["left", "right"] | none
  return ⟨← left.string?, ← right.string?⟩

def Text.ofJson? (j : Json) : Option Text := do
  let [some span, some inner, some enclosing] ← j.record? ["span", "inner", "enclosing"] | none
  return ⟨← Span.ofJson? span, ← inner.string?, ← Enclosing.ofJson? enclosing⟩

/-- The kinds of fragments, in the order of their numbers. -/
def Fragment.kinds : List String :=
  ["Text", "Command", "FragmentSeq"]

/-- The kinds of bodies, in the order of their numbers. -/
def Body.kinds : List String :=
  ["FragmentSeq", "Text"]

/-- The kinds of tokens, in the order of their numbers. -/
def Token.kinds : List String :=
  ["Identifier", "Operator", "Number", "TokenSeq", "FragmentSeq", "Text", "Command"]

/-- A token that is an identifier, an operator or a number. -/
def Token.atomOfJson? (kind : String) (j : Json) : Option Token :=
  if kind = "Identifier" then do
    let [some span, some name] ← j.record? ["span", "name"] | none
    return .identifier (← Span.ofJson? span) (← name.string?)
  else if kind = "Operator" then do
    let [some span, some symbols] ← j.record? ["span", "symbols"] | none
    return .operator (← Span.ofJson? span) (← symbols.string?)
  else if kind = "Number" then do
    let [some span, some value] ← j.record? ["span", "value"] | none
    return .number (← Span.ofJson? span) (← value.number?)
  else none

mutual

/-- A block nested less than `bound` deep, whose children write their kinds in the given form. -/
def Block.read? : (bound : Nat) → KindForm → Json → Option Block
  | 0, _, _ => none
  | bound + 1, form, j => do
    let [some span, some children, some enclosing] ← j.record? ["span", "children", "enclosing"]
      | none
    let children ← (← children.items?).mapM (Fragment.read? bound form)
    return ⟨← Span.ofJson? span, children, ← Enclosing.ofJson? enclosing⟩

def Fragment.read? : (bound : Nat) → KindForm → Json → Option Fragment
  | 0, _, _ => none
  | bound + 1, form, j => do
    let (kind, record) ← j.kind? form Fragment.kinds
    if kind = "Text" then (Text.ofJson? record).map .text
    else if kind = "Command" then (Command.read? bound record).map .command
    else if kind = "FragmentSeq" then (Block.read? bound .numbered record).map .block
    else none

def Command.read? : (bound : Nat) → Json → Option Command
  | 0, _ => none
  | bound + 1, j => do
    let [some span, some phrase, some enclosing, options, body] ←
      j.record? ["span", "phrase", "phrase_enclosing", "options", "main_arg"] | none
    let options ← Json.optional? (Group.read? bound) options
    let body ← Json.optional? (Body.read? bound) body
    return ⟨← Span.ofJson? span, ← phrase.string?, ← Enclosing.ofJson? enclosing, options, body⟩

def Body.read? : (bound : Nat) → Json → Option Body
  | 0, _ => none
  | bound + 1, j => do
    let (kind, record) ← j.kind? .numbered Body.kinds
    if kind = "FragmentSeq" then (Block.read? bound .numbered record).map .block
    else if kind = "Text" then (Text.ofJson? record).map .text
    else none

def Group.read? : (bound : Nat) → Json → Option Group
  | 0, _ => none
  | bound + 1, j => do
    let [some span, some children] ← j.record? ["span", "children"] | none
    let children ← (← children.items?).mapM (Token.read? bound)
    return ⟨← Span.ofJson? span, children⟩

def Token.read? : (bound : Nat) → Json → Option Token
  | 0, _ => none
  | bound + 1, j => do
    let (kind, record) ← j.kind? .numbered Token.kinds
    if kind = "TokenSeq" then (Group.read? bound record).map .group
    else if kind = "FragmentSeq" then (Block.read? bound .numbered record).map .block
    else if kind = "Text" then (Text.ofJson? record).map .text
    else if kind = "Command" then (Command.read? bound record).map .command
    else Token.atomOfJson? kind record

end

mutual

/-- How deep arrays and objects are nested in a value. -/
def Json.depth : Json → Nat
  | .array items => Json.depthOfItems items + 1
  | .object members => Json.depthOfMembers members + 1
  | _ => 0

def Json.depthOfItems : List Json → Nat
  | [] => 0
  | j :: rest => max j.depth (Json.depthOfItems rest)

def Json.depthOfMembers : List (String × Json) → Nat
  | [] => 0
  | (_, j) :: rest => max j.depth (Json.depthOfMembers rest)

end

/-- The document that a JSON value describes. Its children write their kinds by name, while nodes
further down can also write their numbers. -/
def Block.ofJson? (j : Json) : Option Block :=
  Block.read? (2 * j.depth + 1) .named j

/-- What is wanted of a document: the fields of its own records, and all of its children. -/
def Block.wanted : Wanted :=
  .fields [("span", .fields [("start", .all), ("end", .all)]), ("children", .all),
    ("enclosing", .fields [("left", .all), ("right", .all)])]

/-- The JSON text of a document. -/
def Block.toJsonText (b : Block) : String :=
  String.ofList b.toJson.pretty

/-- The document that a JSON text describes, its brackets being nested at most `levels` deep. -/
def Block.ofJsonText? (rounding : Rounding) (levels : Nat) (text : String) : Option Block :=
  (Json.readWanted? rounding Block.wanted levels text).bind Block.ofJson?

end Prosemark
