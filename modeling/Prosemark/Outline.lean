import Prosemark.Tree.Json

/-!
# Outlines

An outline shows a tree with one kind of node: fragments and tokens alike become a kind, a label, a
few attributes, a span and children in source order. A command has its options, as one node, and
its body as children. Formats that draw a tree work on its outline.
-/

namespace Prosemark

namespace Outline

/-- What a node of an outline stands for. -/
inductive Kind where
  | block
  | text
  | command
  | group
  | identifier
  | operator
  | number
  deriving DecidableEq, Repr

/-- The name of a kind in data formats. -/
def Kind.name : Kind → String
  | block => "FragmentSeq"
  | text => "Text"
  | command => "Command"
  | group => "TokenSeq"
  | identifier => "Identifier"
  | operator => "Operator"
  | number => "Number"

end Outline

inductive Outline where
  | node (kind : Outline.Kind) (label : String) (attributes : List (String × String))
    (span : Span) (children : List Outline)

namespace Outline

def kind : Outline → Kind
  | node kind _ _ _ _ => kind

def label : Outline → String
  | node _ label _ _ _ => label

def attributes : Outline → List (String × String)
  | node _ _ attributes _ _ => attributes

def span : Outline → Span
  | node _ _ _ span _ => span

def children : Outline → List Outline
  | node _ _ _ _ children => children

/-- A node without attributes and children. -/
def leaf (kind : Kind) (label : String) (span : Span) : Outline :=
  node kind label [] span []

end Outline

/-! ## Outlines of trees -/

/-- Both sides of a fence, as an attribute of the given name. -/
def Enclosing.attribute (name : String) (e : Enclosing) : List (String × String) :=
  if e.isUnfenced then [] else [(name, e.left ++ "…" ++ e.right)]

def Text.outline (t : Text) : Outline :=
  .node .text t.inner (t.enclosing.attribute "enclosing") t.span []

mutual

def Fragment.outline : Fragment → Outline
  | .text t => t.outline
  | .command c => c.outline
  | .block b => b.outline

def Fragment.outlines : List Fragment → List Outline
  | [] => []
  | f :: fs => f.outline :: Fragment.outlines fs

/-- A block is labelled with what opens it. -/
def Block.outline : Block → Outline
  | ⟨span, children, enclosing⟩ =>
    .node .block (if enclosing.isUnfenced then "" else enclosing.left)
      (enclosing.attribute "enclosing") span (Fragment.outlines children)

/-- A command is labelled with its phrase. -/
def Command.outline : Command → Outline
  | ⟨span, phrase, phraseEnclosing, options, body⟩ =>
    .node .command phrase (phraseEnclosing.attribute "phrase_enclosing") span
      (Group.outlines options ++ Body.outlines body)

def Group.outlines : Option Group → List Outline
  | none => []
  | some g => [g.outline]

def Body.outlines : Option Body → List Outline
  | none => []
  | some (.block b) => [b.outline]
  | some (.text t) => [t.outline]

/-- A group is labelled with the number of its tokens. -/
def Group.outline : Group → Outline
  | ⟨span, children⟩ =>
    .node .group (toString children.length ++ " tokens") [] span (Token.outlines children)

def Token.outlines : List Token → List Outline
  | [] => []
  | t :: ts => t.outline :: Token.outlines ts

def Token.outline : Token → Outline
  | .identifier span name => .leaf .identifier name span
  | .operator span symbols => .leaf .operator symbols span
  | .number span value => .leaf .number (value.text .shown) span
  | .group g => g.outline
  | .block b => b.outline
  | .text t => t.outline
  | .command c => c.outline

end

/-! ## Outlines as JSON values -/

mutual

def Outline.toJson : Outline → Json
  | .node kind label attributes span children =>
    .object [("node_type", .string kind.name), ("label", .string label),
      ("attributes", .object (attributes.map fun entry => (entry.1, .string entry.2))),
      ("span", span.toJson), ("children", .array (Outline.listToJson children))]

def Outline.listToJson : List Outline → List Json
  | [] => []
  | o :: os => o.toJson :: Outline.listToJson os

end

end Prosemark
