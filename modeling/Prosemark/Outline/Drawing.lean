import Prosemark.Outline

/-!
# Drawings of outlines

An outline is drawn with one line a node, in source order. The line of a node is a caption, its icon
and its label; the captions of its children hang below it on branches. A branch puts a connector
before the first of its lines and indents the others, with a stem in the indentation as long as
further children follow. A caption never breaks its line: newlines in a label show as arrows.
-/

namespace Prosemark.Outline

/-- The icon that the captions of a kind start with. -/
def Kind.icon : Kind → Char
  | block => '⧉'
  | text => '◦'
  | command => 'ƒ'
  | group => '☰'
  | identifier => '𝑥'
  | operator => '±'
  | number => '#'

/-- The most characters of a label that are drawn. -/
def labelLimit : Nat :=
  30

/-- A label as it is drawn: newlines as arrows, and an ellipsis for what exceeds the limit. -/
def drawnLabel (label : String) : List Char :=
  let cs := label.toList.map fun c => if c = '\n' then '↵' else c
  if labelLimit < cs.length then cs.take labelLimit ++ ['…'] else cs

def caption (kind : Kind) (label : List Char) : List Char :=
  kind.icon :: ' ' :: label

/-- Puts `first` before the first line and `later` before the others. -/
def hang (first later : List Char) : List (List Char) → List (List Char)
  | [] => []
  | line :: lines => (first ++ line) :: lines.map (later ++ ·)

mutual

/-- The lines of a node and of those below it. -/
def lines : Outline → List (List Char)
  | node kind label _ _ children => caption kind (drawnLabel label) :: branches children

/-- The lines of the children of a node. -/
def branches : List Outline → List (List Char)
  | [] => []
  | [last] => hang ['└', '─', ' '] [' ', ' '] last.lines
  | child :: next :: rest =>
    hang ['├', '─', ' '] ['│', ' '] child.lines ++ branches (next :: rest)

end

/-- The lines of a whole outline: the label of the outermost node is drawn in full, and that of a
document as `document`. -/
def drawing : Outline → List (List Char)
  | node kind label _ _ children =>
    caption kind (if label.isEmpty then "document" else label).toList :: branches children

/-- The lines of the drawing, each with its newline. -/
def drawn (o : Outline) : String :=
  String.ofList (o.drawing.flatMap (· ++ ['\n']))

end Prosemark.Outline
