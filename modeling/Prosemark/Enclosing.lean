import Prosemark.Source

/-!
# Enclosings

A piece of source stands between a left and a right text. Prose and the document stand between
empty ones; anything else is enclosed by a fence: braces, quotes or bars, padded with any number of
`#` on the outer side, the same on the left and on the right. The right text of a fence is the left
one reversed, with the brace turned around (`Fence.flip_left`).
-/

namespace Prosemark

/-- The texts on either side of a piece of source. -/
structure Enclosing where
  left : String
  right : String
  deriving DecidableEq, Repr

namespace Enclosing

/-- Nothing on either side. -/
def unfenced : Enclosing :=
  ⟨"", ""⟩

/-- Whether nothing stands on the left. -/
def isUnfenced (e : Enclosing) : Bool :=
  e.left.isEmpty

/-- The number of `#` in the left text. -/
def hashes (e : Enclosing) : Nat :=
  e.left.toList.count '#'

end Enclosing

/-- Turns an opening brace or angle bracket around. -/
def turned (c : Char) : Char :=
  if c = '\x7b' then '\x7d' else if c = '<' then '>' else c

/-- The right text that belongs to a left one. -/
def flip (left : List Char) : List Char :=
  left.reverse.map turned

/-! ## Fences -/

/-- The characters that enclose: braces for fragments, quotes for text, bars for phrases. -/
inductive Delimiter where
  | brace
  | quote
  | bar
  deriving DecidableEq, Repr

namespace Delimiter

def opening : Delimiter → Char
  | brace => '\x7b'
  | quote => '"'
  | bar => '|'

def closing : Delimiter → Char
  | brace => '\x7d'
  | quote => '"'
  | bar => '|'

end Delimiter

/-- A delimiter with its padding. -/
structure Fence where
  delimiter : Delimiter
  hashes : Nat
  deriving DecidableEq, Repr

namespace Fence

def left (f : Fence) : List Char :=
  List.replicate f.hashes '#' ++ [f.delimiter.opening]

def right (f : Fence) : List Char :=
  f.delimiter.closing :: List.replicate f.hashes '#'

def enclosing (f : Fence) : Enclosing :=
  ⟨String.ofList f.left, String.ofList f.right⟩

theorem flip_left (f : Fence) : flip f.left = f.right := by
  cases f with
  | mk delimiter hashes => cases delimiter <;> simp [flip, left, right, turned] <;> rfl

/-- The fence whose left text has the given number of `#` before its last character. -/
def ofOpening? (hashes : Nat) (c : Char) : Option Fence :=
  if c = Delimiter.brace.opening then some ⟨.brace, hashes⟩
  else if c = Delimiter.quote.opening then some ⟨.quote, hashes⟩
  else if c = Delimiter.bar.opening then some ⟨.bar, hashes⟩
  else none

/-- The fence that a whole text opens. -/
def ofLeft? (cs : List Char) : Option Fence :=
  match cs.dropWhile (· == '#') with
  | [c] => ofOpening? (cs.takeWhile (· == '#')).length c
  | _ => none

/-- A fence of the given delimiter that opens at the head of a text, with the text cut after it. -/
def cut? (d : Delimiter) (cs : List Char) : Option (Fence × Cut cs) :=
  let padding := cs.takeWhile (· == '#')
  match h : cs.dropWhile (· == '#') with
  | [] => none
  | c :: rest =>
    if c = d.opening then
      some (⟨d, padding.length⟩,
        ⟨padding ++ [c], rest, by
          rw [List.append_assoc, List.singleton_append, ← h, List.takeWhile_append_dropWhile],
          List.append_ne_nil_of_right_ne_nil _ (List.cons_ne_nil c [])⟩)
    else none

end Fence

end Prosemark
