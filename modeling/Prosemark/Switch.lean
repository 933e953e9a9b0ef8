import Prosemark.Charset

/-!
# The switch

The switch is the character that starts a command. It has to be a dash, punctuation or symbol
character, and none of the characters to which the grammar gives another meaning.
-/

namespace Prosemark

/-- A character that may start commands. -/
structure Switch where
  char : Char
  isOperator : Charset.isOperator char = true
  notReserved : Charset.isReserved char = false
  deriving DecidableEq

/-- Why a character cannot be the switch. -/
inductive SwitchFault where
  | reserved
  | notOperator
  | other (reason : String)
  deriving DecidableEq, Repr

namespace SwitchFault

def reason : SwitchFault → String
  | reserved => "character is reserved"
  | notOperator => "switch must be a punctuation or symbol character"
  | other reason => reason

end SwitchFault

namespace Switch

/-- The switch used unless another one is asked for. -/
def standard : Switch where
  char := '@'
  isOperator := by decide
  notReserved := by decide

/-- The switch that a character makes. Reserved characters are refused first. -/
def ofChar (c : Char) : Except SwitchFault Switch :=
  if hr : Charset.isReserved c = true then .error .reserved
  else if ho : Charset.isOperator c = true then .ok ⟨c, ho, by simpa using hr⟩
  else .error .notOperator

/-- The number of bytes that the switch takes. -/
def size (sw : Switch) : Nat :=
  sw.char.utf8Size

end Switch

end Prosemark
