import Prosemark.Charset
import Prosemark.Environment
import Prosemark.Value.Json

/-!
# The standard rules for phrases

The empty phrase is nothing. Any other phrase is looked up among the extras, then in the
environment. A phrase of one symbol that is bound in neither is looked up among the symbols; where
the environment has none, `@` stands for itself and `!` for an empty text. Any other phrase has to
be a JSON text.
-/

namespace Prosemark

/-- Why a phrase has no value. -/
inductive PhraseFault where
  | unknownPhrase (phrase : String)
  | unknownSymbol (phrase : String)
  deriving DecidableEq, Repr

def PhraseFault.message : PhraseFault → String
  | unknownPhrase phrase => "unknown phrase `" ++ phrase ++ "`"
  | unknownSymbol phrase => "unknown symbol `" ++ phrase ++ "`"

namespace Phrase

/-- Whether a phrase is one symbol. -/
def isSymbol (phrase : String) : Bool :=
  match phrase.toList with
  | [c] => Charset.isSymbol c
  | _ => false

/-- The value of an entry in the map to which a name is bound. -/
def entryOf? (key phrase : String) (env : Environment) : Option Value :=
  ((env.get? key).bind Value.entries?).bind fun entries => entries.lookup phrase

/-- The value of a symbol that is not bound as a phrase. -/
def symbol (phrase : String) (env : Environment) : Except PhraseFault Value :=
  if env.contains Environment.symbolsKey then
    match entryOf? Environment.symbolsKey phrase env with
    | some v => .ok v
    | none => .error (.unknownSymbol phrase)
  else if phrase = "@" then .ok (.string "@")
  else if phrase = "!" then .ok (.string "")
  else .error (.unknownSymbol phrase)

/-- The value of a phrase that is written as a JSON text. -/
def literal (phrase : String) : Except PhraseFault Value :=
  match Json.read? .standard Json.standardLevels phrase with
  | some j => .ok (.ofJson j)
  | none => .error (.unknownPhrase phrase)

/-- The value of a phrase by the standard rules. -/
def evaluate (phrase : String) (env : Environment) : Except PhraseFault Value :=
  if phrase = "" then .ok .nothing
  else
    match (entryOf? Environment.extrasKey phrase env).or (env.get? phrase) with
    | some v => .ok v
    | none => if isSymbol phrase then symbol phrase env else literal phrase

end Phrase

end Prosemark
