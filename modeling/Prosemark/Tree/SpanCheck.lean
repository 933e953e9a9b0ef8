import Prosemark.Outline

/-!
# Checking spans

`Block.checkSpans` walks a tree and compares its spans with the source: each has to cut the source
between characters and lie within that of its parent, siblings must not overlap, and texts, names
and symbols have to be what their spans cover. The walk ends at the first fault. Siblings are
compared before any of them is looked into.
-/

namespace Prosemark

open Outline (Kind)

/-- What is wrong with a span. -/
inductive SpanFault where
  | outOfBounds (kind : Kind) (span : Span)
  | splitsCharacter (kind : Kind) (span : Span)
  | outsideParent (kind : Kind) (span parent : Span)
  | fragmentsOverlap (span : Span)
  | tokensOverlap (span : Span)
  | otherContent (kind : Kind) (span : Span)
  deriving DecidableEq, Repr

/-- What a fault says; nothing, if it is the content that differs. -/
def SpanFault.message? : SpanFault → Option String
  | outOfBounds kind span => some (kind.name ++ " span " ++ span.text ++ " out of source bounds")
  | splitsCharacter kind span => some (kind.name ++ " span " ++ span.text ++ " splits a character")
  | outsideParent kind span parent =>
    some (kind.name ++ " span " ++ span.text ++ " not inside parent " ++ parent.text)
  | fragmentsOverlap span => some ("Fragment span " ++ span.text ++ " overlaps previous sibling")
  | tokensOverlap span => some ("Token span " ++ span.text ++ " overlaps previous sibling")
  | otherContent _ _ => none

namespace Span

/-- What a span covers, if it lies in the source and in the span of its parent. -/
def checked (source : String) (kind : Kind) (span parent : Span) : Except SpanFault String :=
  if span.start ≤ span.stop ∧ span.stop ≤ source.utf8ByteSize then
    match span.slice? source with
    | none => .error (.splitsCharacter kind span)
    | some covered =>
      if parent.contains span then .ok covered else .error (.outsideParent kind span parent)
  else .error (.outOfBounds kind span)

/-- Checks a span without content of its own. -/
def check (source : String) (kind : Kind) (span parent : Span) : Except SpanFault Unit :=
  (span.checked source kind parent).map fun _ => ()

/-- Checks a span and the content that it covers. -/
def checkContent (source : String) (kind : Kind) (span parent : Span) (content : String) :
    Except SpanFault Unit := do
  let covered ← span.checked source kind parent
  if covered = content then return () else throw (.otherContent kind span)

/-- Checks that each span starts no sooner than the one before it stops. -/
def checkOrder (overlap : Span → SpanFault) : (reached : Nat) → List Span → Except SpanFault Unit
  | _, [] => .ok ()
  | reached, span :: spans =>
    if reached ≤ span.start then checkOrder overlap span.stop spans else .error (overlap span)

end Span

def Text.checkSpans (source : String) (parent : Span) (t : Text) : Except SpanFault Unit :=
  t.span.checkContent source .text parent t.inner

mutual

def Block.checkSpansIn (source : String) (parent : Span) : Block → Except SpanFault Unit
  | ⟨span, children, _⟩ => do
    span.check source .block parent
    Span.checkOrder .fragmentsOverlap 0 (children.map Fragment.span)
    Fragment.checkSpansOfAll source span children

/-- Checks all fragments of a block. -/
def Fragment.checkSpansOfAll (source : String) (parent : Span) :
    List Fragment → Except SpanFault Unit
  | [] => .ok ()
  | f :: fs => do
    f.checkSpans source parent
    Fragment.checkSpansOfAll source parent fs

def Fragment.checkSpans (source : String) (parent : Span) : Fragment → Except SpanFault Unit
  | .text t => t.checkSpans source parent
  | .command c => c.checkSpans source parent
  | .block b => b.checkSpansIn source parent

def Command.checkSpans (source : String) (parent : Span) : Command → Except SpanFault Unit
  | ⟨span, _, _, options, body⟩ => do
    span.check source .command parent
    Group.checkSpansOfOption source span options
    Body.checkSpansOfOption source span body

/-- Checks the options of a command, if it has any. -/
def Group.checkSpansOfOption (source : String) (parent : Span) :
    Option Group → Except SpanFault Unit
  | none => .ok ()
  | some g => g.checkSpans source parent

/-- Checks the body of a command, if it has one. -/
def Body.checkSpansOfOption (source : String) (parent : Span) :
    Option Body → Except SpanFault Unit
  | none => .ok ()
  | some (.block b) => b.checkSpansIn source parent
  | some (.text t) => t.checkSpans source parent

def Group.checkSpans (source : String) (parent : Span) : Group → Except SpanFault Unit
  | ⟨span, children⟩ => do
    span.check source .group parent
    Span.checkOrder .tokensOverlap 0 (children.map Token.span)
    Token.checkSpansOfAll source span children

/-- Checks all tokens of a group. -/
def Token.checkSpansOfAll (source : String) (parent : Span) : List Token → Except SpanFault Unit
  | [] => .ok ()
  | t :: ts => do
    t.checkSpans source parent
    Token.checkSpansOfAll source parent ts

def Token.checkSpans (source : String) (parent : Span) : Token → Except SpanFault Unit
  | .identifier span name => span.checkContent source .identifier parent name
  | .operator span symbols => span.checkContent source .operator parent symbols
  | .number span _ => span.check source .number parent
  | .group g => g.checkSpans source parent
  | .block b => b.checkSpansIn source parent
  | .text t => t.checkSpans source parent
  | .command c => c.checkSpans source parent

end

/-- Checks the spans of a document in its source. -/
def Block.checkSpans (source : String) (b : Block) : Except SpanFault Unit :=
  b.checkSpansIn source ⟨0, source.utf8ByteSize⟩

end Prosemark
