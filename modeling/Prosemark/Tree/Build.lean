import Prosemark.Tree

/-!
# Building trees

Builders for trees that were not read from a source: they take what matters when trees are compared,
and leave all spans empty. A fence is given as what opens it.
-/

namespace Prosemark

/-- The span of a node that was not read from a source. -/
def Span.unplaced : Span :=
  ⟨0, 0⟩

def Text.prose (inner : String) : Text :=
  ⟨.unplaced, inner, .unfenced⟩

def Text.quoted (fence : Fence) (inner : String) : Text :=
  ⟨.unplaced, inner, fence.enclosing⟩

namespace Block

def document (children : List Fragment) : Block :=
  ⟨.unplaced, children, .unfenced⟩

def braced (fence : Fence) (children : List Fragment) : Block :=
  ⟨.unplaced, children, fence.enclosing⟩

end Block

def Group.ofTokens (children : List Token) : Group :=
  ⟨.unplaced, children⟩

namespace Token

def ofName (name : String) : Token :=
  .identifier .unplaced name

def ofSymbols (symbols : String) : Token :=
  .operator .unplaced symbols

def ofNumber (value : Number) : Token :=
  .number .unplaced value

end Token

namespace Command

/-- A command that is an identifier or a symbol, and nothing else. -/
def bare (phrase : String) : Command :=
  ⟨.unplaced, phrase, .unfenced, none, none⟩

/-- A command with a phrase between bars, and nothing else. -/
def barred (fence : Fence) (phrase : String) : Command :=
  ⟨.unplaced, phrase, fence.enclosing, none, none⟩

def withOptions (options : List Token) (c : Command) : Command :=
  { c with options := some (.ofTokens options) }

def withBody (body : Body) (c : Command) : Command :=
  { c with body := some body }

end Command

end Prosemark
