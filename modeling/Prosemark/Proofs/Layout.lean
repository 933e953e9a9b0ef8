import Prosemark.Proofs.Numeral
import Prosemark.Proofs.Place
import Prosemark.Switch
import Prosemark.Tree

/-!
# Layout

A tree is laid out over a source when its spans account for the whole of it. Each node fills its
extent: a prose text and a command fill their spans, any other node the span with the texts of its
enclosing on both sides, and with a switch before that where one belongs to it. The children of a
block tile its span, and the children of a group are spread over its span with only blanks between.
-/

namespace Prosemark

/-- The switch as a text. -/
def Switch.text (sw : Switch) : String :=
  String.singleton sw.char

/-- The texts of an enclosing stand around what a span covers, from `a` up to it and from it to
`b`. -/
def Enclosing.Surrounds (source : String) (e : Enclosing) (span : Span) (a b : Nat) : Prop :=
  Covers source a span.start e.left ∧ Covers source span.stop b e.right

/-- Blanks, or nothing, stand between two offsets. -/
def Blank (source : String) (a b : Nat) : Prop :=
  ∃ text, Covers source a b text ∧ ∀ c ∈ text.toList, Charset.isBlank c = true

/-- The text with its enclosing fills the source from `a` to `b`. -/
def Text.Fills (source : String) (t : Text) (a b : Nat) : Prop :=
  t.enclosing.Surrounds source t.span a b ∧ Covers source t.span.start t.span.stop t.inner

/-- A numeral that represents the number fills the source from `a` to `b`. -/
def Number.Fills (source : String) (value : Number) (a b : Nat) : Prop :=
  ∃ numeral : Numeral, numeral.Valid ∧ Covers source a b (String.ofList numeral.chars) ∧
    Number.ofNumeral numeral = .ok value

mutual

/-- The fragment fills the source from `a` to `b`. -/
def Fragment.Fills (sw : Switch) (source : String) : Fragment → (a b : Nat) → Prop
  | .text t, a, b =>
    if t.isProse then t.span = ⟨a, b⟩ ∧ Covers source a b t.inner
    else ∃ i, Covers source a i sw.text ∧ t.Fills source i b
  | .command c, a, b => c.Fills sw source a b
  | .block block, a, b => ∃ i, Covers source a i sw.text ∧ block.Fills sw source i b

/-- The fragments fill the source from `a` to `b`, each from where the one before it ends. -/
def Fragment.Tile (sw : Switch) (source : String) : List Fragment → (a b : Nat) → Prop
  | [], a, b => a = b
  | f :: fs, a, b => ∃ i, f.Fills sw source a i ∧ Fragment.Tile sw source fs i b

/-- The block with its enclosing fills the source from `a` to `b`. -/
def Block.Fills (sw : Switch) (source : String) : Block → (a b : Nat) → Prop
  | ⟨span, children, enclosing⟩, a, b =>
    enclosing.Surrounds source span a b ∧ Fragment.Tile sw source children span.start span.stop

/-- The command fills the source from `a` to `b`: the switch up to `i`, the phrase in its enclosing
up to `j`, the options up to `k`, and the body. -/
def Command.Fills (sw : Switch) (source : String) : Command → (a b : Nat) → Prop
  | ⟨span, phrase, phraseEnclosing, options, body⟩, a, b =>
    span = ⟨a, b⟩ ∧ ∃ i place j k, Covers source a i sw.text ∧
      Text.Fills source ⟨place, phrase, phraseEnclosing⟩ i j ∧
      Group.FillsOption sw source options j k ∧ Body.FillsOption sw source body k b

/-- The options of a command fill the source from `a` to `b`, which is nothing if it has none. -/
def Group.FillsOption (sw : Switch) (source : String) : Option Group → (a b : Nat) → Prop
  | none, a, b => a = b
  | some g, a, b => g.Fills sw source a b

/-- The body of a command fills the source from `a` to `b`, which is nothing if it has none. -/
def Body.FillsOption (sw : Switch) (source : String) : Option Body → (a b : Nat) → Prop
  | none, a, b => a = b
  | some body, a, b => body.Fills sw source a b

/-- The body with its enclosing fills the source from `a` to `b`. -/
def Body.Fills (sw : Switch) (source : String) : Body → (a b : Nat) → Prop
  | .block block, a, b => block.Fills sw source a b
  | .text t, a, b => t.Fills source a b

/-- The group in its brackets fills the source from `a` to `b`. -/
def Group.Fills (sw : Switch) (source : String) : Group → (a b : Nat) → Prop
  | ⟨span, children⟩, a, b =>
    Covers source a span.start "[" ∧ Token.Spread sw source children span.start span.stop ∧
      Covers source span.stop b "]"

/-- The tokens stand in the source from `a` to `b`, with only blanks before, between and after. -/
def Token.Spread (sw : Switch) (source : String) : List Token → (a b : Nat) → Prop
  | [], a, b => Blank source a b
  | t :: ts, a, b =>
    ∃ i j, Blank source a i ∧ t.Fills sw source i j ∧ Token.Spread sw source ts j b

/-- The token fills the source from `a` to `b`. A switch may stand before a block or a text. -/
def Token.Fills (sw : Switch) (source : String) : Token → (a b : Nat) → Prop
  | .identifier span name, a, b => span = ⟨a, b⟩ ∧ Covers source a b name
  | .operator span symbols, a, b => span = ⟨a, b⟩ ∧ Covers source a b symbols
  | .number span value, a, b => span = ⟨a, b⟩ ∧ value.Fills source a b
  | .group g, a, b => g.Fills sw source a b
  | .block block, a, b =>
    ∃ i, (i = a ∨ Covers source a i sw.text) ∧ block.Fills sw source i b
  | .text t, a, b => ∃ i, (i = a ∨ Covers source a i sw.text) ∧ t.Fills source i b
  | .command c, a, b => c.Fills sw source a b

end

/-- The document is the whole of the source, and its children tile it. -/
def Block.LaidOut (sw : Switch) (source : String) (tree : Block) : Prop :=
  tree.span = ⟨0, source.utf8ByteSize⟩ ∧ tree.enclosing = .unfenced ∧
    Fragment.Tile sw source tree.children 0 source.utf8ByteSize

end Prosemark
