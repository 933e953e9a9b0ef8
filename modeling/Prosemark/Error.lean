import Prosemark.Escape
import Prosemark.Position
import Prosemark.Switch

/-!
# Errors

An error says which rule was broken and where. There are three families: a character that cannot
be the switch, a source that breaks the grammar, and a tree that cannot be rendered. The wording is
in the `message` functions alone. Errors are raised with an offset; the line and the column are
added, once, when the error leaves the parser or the interpreter (`Error.locate`).
-/

namespace Prosemark

/-! ## Causes -/

/-- How a source breaks the grammar. -/
inductive GrammarFault where
  | invalidExpression (switch : Char)
  | unclosed (left right : String)
  | unbalanced (left right : String)
  | numberOutOfRange (numeral : String) (column : Nat)
  | invalidLeft (left : String)
  | other (message : String)
  deriving DecidableEq, Repr

/-- How a tree cannot be rendered. -/
inductive RenderFault where
  | identifierNotExpected (name : String)
  | operatorNotExpected (symbols : String)
  | groupNotExpected
  | notCallable (phrase found : String)
  | evaluatorMissing (key : String)
  | evaluatorMistyped (key found : String)
  | valueExpected (keyword : String)
  | duplicatedKeyword (keyword : String)
  | misplacedEquals
  | positionalAfterKeyword
  | commaExpected
  | conditionUsage
  | loopUsage
  | bodyExpected (command : String)
  | notIterable (found : String)
  | foreign (message : String)
  deriving DecidableEq, Repr

namespace GrammarFault

def message : GrammarFault → String
  | invalidExpression switch => "invalid expression after `" ++ String.singleton switch ++ "`"
  | unclosed left right => "unclosed `" ++ left ++ "`: cannot match `" ++ right ++ "`"
  | unbalanced left right =>
    "unbalanced `" ++ left ++ "`: `" ++ right ++ "` is followed by another `#`"
  | numberOutOfRange numeral column =>
    "invalid number `" ++ numeral ++ "`: number out of range at line 1 column " ++ toString column
  | invalidLeft left => "invalid left pattern `" ++ left ++ "`"
  | other message => message

end GrammarFault

namespace RenderFault

def message : RenderFault → String
  | identifierNotExpected name => "identifier not expected: `" ++ name ++ "`"
  | operatorNotExpected symbols => "operator not expected: `" ++ symbols ++ "`"
  | groupNotExpected => "token list not expected"
  | notCallable phrase found => "`" ++ phrase ++ "` is not callable: found " ++ found
  | evaluatorMissing key => "phrase evaluator `" ++ key ++ "` not found in environment"
  | evaluatorMistyped key found => "`" ++ key ++ "` must be a phrase evaluator, found " ++ found
  | valueExpected keyword => "expected a value after `" ++ keyword ++ " =`"
  | duplicatedKeyword keyword => "duplicated keyword " ++ keyword
  | misplacedEquals => "misplaced `=`: expected a keyword before it"
  | positionalAfterKeyword => "positional argument after keyword argument"
  | commaExpected => "expected comma after value"
  | conditionUsage => "`if` expects options [cond] or [not cond]"
  | loopUsage => "`for` expects options [name in iterable]"
  | bodyExpected command => "`" ++ command ++ "` expects a main argument"
  | notIterable found => "cannot iterate over " ++ found
  | foreign message => message

end RenderFault

/-! ## Errors and their places -/

/-- The offset that an error points to, and its line and column once they are known. -/
structure Place where
  offset : Nat
  position : Option Position
  deriving DecidableEq, Repr

namespace Place

/-- An offset whose line and column are not known yet. -/
def ofOffset (offset : Nat) : Place :=
  ⟨offset, none⟩

def text (p : Place) : String :=
  match p.position with
  | some position => position.text
  | none => "offset " ++ toString p.offset

end Place

inductive Error where
  | switch (char : Char) (fault : SwitchFault)
  | grammar (fault : GrammarFault) (place : Place)
  | render (fault : RenderFault) (place : Place)
  deriving DecidableEq, Repr

namespace Error

/-- What is wrong, without where. -/
def message : Error → String
  | switch _ fault => fault.reason
  | grammar fault _ => fault.message
  | render fault _ => fault.message

def place? : Error → Option Place
  | switch _ _ => none
  | grammar _ place => some place
  | render _ place => some place

def offset? (e : Error) : Option Nat :=
  e.place?.map (·.offset)

def position? (e : Error) : Option Position :=
  e.place?.bind (·.position)

/-- The whole text of an error. -/
def text : Error → String
  | switch char fault => "invalid switch character " ++ quotedChar char ++ ": " ++ fault.reason
  | grammar fault place => "syntax error: " ++ fault.message ++ " at " ++ place.text
  | render fault place => "render error: " ++ fault.message ++ " at " ++ place.text

/-- Gives an error the line and the column of its offset in a source. -/
def locateAnew (source : String) : Error → Error
  | switch char fault => switch char fault
  | grammar fault place =>
    grammar fault ⟨place.offset, some (Position.ofOffset source place.offset)⟩
  | render fault place =>
    render fault ⟨place.offset, some (Position.ofOffset source place.offset)⟩

/-- Gives an error its line and column unless it has them already. -/
def locate (source : String) (e : Error) : Error :=
  if e.position?.isSome then e else e.locateAnew source

end Error

end Prosemark
