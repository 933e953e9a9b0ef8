/-!
# Source text

A source is read through cursors: the text that is still to be read, with the byte offset at which
it stands. What a scanner finds at a cursor is a `Cut`, a piece that is not empty and the text
after it, so that a cursor moved past a cut has strictly less text before it (`Cursor.past_lt`).

Offsets count the bytes of the UTF-8 encoding; a span is a half-open range of offsets.
-/

namespace Prosemark

/-- The number of bytes that the characters take in UTF-8. -/
def width : List Char → Nat
  | [] => 0
  | c :: cs => c.utf8Size + width cs

@[simp] theorem width_nil : width [] = 0 := rfl

@[simp] theorem width_cons (c : Char) (cs : List Char) : width (c :: cs) = c.utf8Size + width cs :=
  rfl

@[simp] theorem width_append (a b : List Char) : width (a ++ b) = width a + width b := by
  induction a with
  | nil => simp
  | cons c cs ih => simp [ih, Nat.add_assoc]

/-! ## Spans -/

/-- A half-open range of byte offsets. -/
structure Span where
  start : Nat
  stop : Nat
  deriving DecidableEq, Repr, Inhabited

namespace Span

def length (s : Span) : Nat :=
  s.stop - s.start

def isEmpty (s : Span) : Bool :=
  s.start == s.stop

/-- Whether `inner` starts and stops within `outer`. -/
def contains (outer inner : Span) : Bool :=
  decide (outer.start ≤ inner.start) && decide (inner.stop ≤ outer.stop)

/-- Both ends, with two dots between. -/
def text (s : Span) : String :=
  toString s.start ++ ".." ++ toString s.stop

end Span

/-! ## Cuts -/

/-- A text cut in two, a piece that is not empty and the rest. -/
structure Cut (cs : List Char) where
  piece : List Char
  rest : List Char
  whole : piece ++ rest = cs
  piece_ne_nil : piece ≠ []

namespace Cut

theorem rest_lt {cs : List Char} (cut : Cut cs) : cut.rest.length < cs.length := by
  have hw := congrArg List.length cut.whole
  have hp := List.length_pos_iff.2 cut.piece_ne_nil
  rw [List.length_append] at hw
  omega

/-- The first character, when it satisfies `p`. -/
def one? (p : Char → Bool) : (cs : List Char) → Option (Cut cs)
  | [] => none
  | c :: cs => if p c then some ⟨[c], cs, rfl, List.cons_ne_nil c []⟩ else none

/-- A character that satisfies `p`, and those after it for as long as they satisfy `q`. -/
def run? (p q : Char → Bool) : (cs : List Char) → Option (Cut cs)
  | [] => none
  | c :: cs =>
    if p c then
      some ⟨c :: cs.takeWhile q, cs.dropWhile q, by simp, List.cons_ne_nil _ _⟩
    else none

end Cut

/-! ## Cursors -/

/-- The text still to be read and the byte offset at which it stands. -/
structure Cursor where
  offset : Nat
  rest : List Char
  deriving DecidableEq, Repr

namespace Cursor

/-- The start of a source. -/
def start (source : String) : Cursor :=
  ⟨0, source.toList⟩

theorem le_succ (cur : Cursor) : cur.rest.length ≤ cur.rest.length + 1 :=
  Nat.le_succ _

theorem lt_succ (cur : Cursor) : cur.rest.length < cur.rest.length + 1 :=
  Nat.lt_succ_self _

/-- The cursor right after a piece of the text. -/
def past (cur : Cursor) (cut : Cut cur.rest) : Cursor :=
  ⟨cur.offset + width cut.piece, cut.rest⟩

theorem past_lt (cur : Cursor) (cut : Cut cur.rest) :
    (cur.past cut).rest.length < cur.rest.length :=
  cut.rest_lt

/-- The cursor after the characters that satisfy `p`, if any. -/
def skip (p : Char → Bool) (cur : Cursor) : Cursor :=
  ⟨cur.offset + width (cur.rest.takeWhile p), cur.rest.dropWhile p⟩

theorem skip_le (p : Char → Bool) (cur : Cursor) :
    (cur.skip p).rest.length ≤ cur.rest.length := by
  have h := congrArg List.length (List.takeWhile_append_dropWhile (p := p) (l := cur.rest))
  rw [List.length_append] at h
  simp only [skip]
  omega

/-- The cursor at `offset` in a text that stands at `here`, if that is a character boundary. -/
def seekFrom? (offset here : Nat) : List Char → Option Cursor
  | [] => if here = offset then some ⟨here, []⟩ else none
  | c :: cs =>
    if here = offset then some ⟨here, c :: cs⟩ else seekFrom? offset (here + c.utf8Size) cs

/-- The cursor at an offset further on, if that is a character boundary. -/
def seek? (offset : Nat) (cur : Cursor) : Option Cursor :=
  seekFrom? offset cur.offset cur.rest

/-- The text between `here` and `offset`, if `offset` is a character boundary. -/
def textFrom? (offset here : Nat) : List Char → Option (List Char)
  | [] => if here = offset then some [] else none
  | c :: cs =>
    if here = offset then some [] else (textFrom? offset (here + c.utf8Size) cs).map (c :: ·)

/-- The text up to an offset further on, if that is a character boundary. -/
def upTo? (offset : Nat) (cur : Cursor) : Option (List Char) :=
  textFrom? offset cur.offset cur.rest

end Cursor

/-! ## Steps -/

/-- What a reader yields: a value, and the cursor after what it read. Less than `limit` characters
are left there. -/
structure Step (limit : Nat) (α : Type) where
  value : α
  next : Cursor
  lt : next.rest.length < limit

namespace Step

/-- The same result under a weaker limit. -/
def weaken {a b : Nat} {α : Type} (step : Step a α) (h : a ≤ b) : Step b α :=
  ⟨step.value, step.next, Nat.lt_of_lt_of_le step.lt h⟩

def map {limit : Nat} {α β : Type} (f : α → β) (step : Step limit α) : Step limit β :=
  ⟨f step.value, step.next, step.lt⟩

/-- What was read at `cur`, or nothing with the cursor unmoved. -/
def orStay {α : Type} (cur : Cursor) :
    Option (Step cur.rest.length α) → Step (cur.rest.length + 1) (Option α)
  | some step => (step.map some).weaken cur.le_succ
  | none => ⟨none, cur, cur.lt_succ⟩

end Step

/-- The text that a span covers, if both its ends are character boundaries and in order. -/
def Span.slice? (span : Span) (source : String) : Option String := do
  let cur ← (Cursor.start source).seek? span.start
  let cs ← cur.upTo? span.stop
  return String.ofList cs

end Prosemark
