import Prosemark.Enclosing
import Prosemark.Number

/-!
# Trees

A document is a block of fragments: prose, commands and nested blocks. A command has a phrase, and
may have options and a body. Options are a group of tokens, a small language of its own, in which
blocks, texts and commands may occur again.

Every node has the span of source it was read from. Spans are for information only: `same` compares
trees by everything else.
-/

namespace Prosemark

/-- Text without commands in it. Prose is unfenced; quoted text keeps its fence. -/
structure Text where
  span : Span
  inner : String
  enclosing : Enclosing
  deriving DecidableEq, Repr

mutual

/-- A part of a block. -/
inductive Fragment where
  | text (text : Text)
  | command (command : Command)
  | block (block : Block)

/-- A sequence of fragments: a document, or what stands between braces. -/
structure Block where
  span : Span
  children : List Fragment
  enclosing : Enclosing

structure Command where
  span : Span
  phrase : String
  phraseEnclosing : Enclosing
  options : Option Group
  body : Option Body

/-- The main argument of a command, in braces or in quotes. -/
inductive Body where
  | block (block : Block)
  | text (text : Text)

/-- A sequence of tokens between brackets. -/
structure Group where
  span : Span
  children : List Token

/-- A part of a group. -/
inductive Token where
  | identifier (span : Span) (name : String)
  | operator (span : Span) (symbols : String)
  | number (span : Span) (value : Number)
  | group (group : Group)
  | block (block : Block)
  | text (text : Text)
  | command (command : Command)

end

/-! ## Parts of nodes -/

/-- Whether the text is prose. -/
def Text.isProse (t : Text) : Bool :=
  t.enclosing.isUnfenced

def Fragment.span : Fragment → Span
  | .text t => t.span
  | .command c => c.span
  | .block b => b.span

/-- The same node as a token. -/
def Fragment.toToken : Fragment → Token
  | .text t => .text t
  | .command c => .command c
  | .block b => .block b

/-- Whether a command has a phrase only. -/
def Command.isBare (c : Command) : Bool :=
  c.options.isNone && c.body.isNone

namespace Body

def span : Body → Span
  | .block b => b.span
  | .text t => t.span

def enclosing : Body → Enclosing
  | .block b => b.enclosing
  | .text t => t.enclosing

/-- The same node as a fragment. -/
def toFragment : Body → Fragment
  | .block b => .block b
  | .text t => .text t

/-- The same node as a token. -/
def toToken : Body → Token
  | .block b => .block b
  | .text t => .text t

end Body

namespace Token

def span : Token → Span
  | .identifier span _ => span
  | .operator span _ => span
  | .number span _ => span
  | .group g => g.span
  | .block b => b.span
  | .text t => t.span
  | .command c => c.span

/-- The name of an identifier. -/
def name? : Token → Option String
  | .identifier _ name => some name
  | _ => none

/-- The symbols of an operator. -/
def symbols? : Token → Option String
  | .operator _ symbols => some symbols
  | _ => none

/-- Whether the token is the operator with the given symbols. -/
def isOperator (symbols : String) (t : Token) : Bool :=
  t.symbols? == some symbols

/-- Whether the token is the identifier with the given name. -/
def isIdentifier (name : String) (t : Token) : Bool :=
  t.name? == some name

end Token

/-! ## Equality without spans -/

def Text.same (a b : Text) : Bool :=
  a.inner == b.inner && a.enclosing == b.enclosing

mutual

def Fragment.same : Fragment → Fragment → Bool
  | .text a, .text b => a.same b
  | .command a, .command b => a.same b
  | .block a, .block b => a.same b
  | _, _ => false

def Block.same : Block → Block → Bool
  | ⟨_, children, enclosing⟩, b => Fragment.sameAll children b.children && enclosing == b.enclosing

/-- Whether two lists of fragments are the same one by one. -/
def Fragment.sameAll : List Fragment → List Fragment → Bool
  | [], [] => true
  | a :: as, b :: bs => a.same b && Fragment.sameAll as bs
  | _, _ => false

def Command.same : Command → Command → Bool
  | ⟨_, phrase, phraseEnclosing, options, body⟩, b =>
    phrase == b.phrase && phraseEnclosing == b.phraseEnclosing &&
      Group.sameOption options b.options && Body.sameOption body b.body

/-- Whether two optional groups are both absent or the same. -/
def Group.sameOption : Option Group → Option Group → Bool
  | none, none => true
  | some a, some b => a.same b
  | _, _ => false

/-- Whether two optional bodies are both absent or the same. -/
def Body.sameOption : Option Body → Option Body → Bool
  | none, none => true
  | some a, some b => a.same b
  | _, _ => false

def Body.same : Body → Body → Bool
  | .block a, .block b => a.same b
  | .text a, .text b => a.same b
  | _, _ => false

def Group.same : Group → Group → Bool
  | ⟨_, children⟩, b => Token.sameAll children b.children

/-- Whether two lists of tokens are the same one by one. -/
def Token.sameAll : List Token → List Token → Bool
  | [], [] => true
  | a :: as, b :: bs => a.same b && Token.sameAll as bs
  | _, _ => false

def Token.same : Token → Token → Bool
  | .identifier _ a, .identifier _ b => a == b
  | .operator _ a, .operator _ b => a == b
  | .number _ a, .number _ b => a.same b
  | .group a, .group b => a.same b
  | .block a, .block b => a.same b
  | .text a, .text b => a.same b
  | .command a, .command b => a.same b
  | _, _ => false

end

end Prosemark
