import Prosemark.Environment
import Prosemark.Error
import Prosemark.Tree

/-!
# Runs and hosts

A run computes with a state: the environment, which keeps every change also when the run fails, and
the log of what was called. A host gives their meaning to the callables that the library does not
define. It is told the number of the call, so that a callable which it makes differs from all
others.

The meaning of a command is given through the meanings of its parts: a `Call` is a command whose
body and options come with the runs that interpret them. Nothing is interpreted before its run is
taken.
-/

namespace Prosemark

/-! ## Runs -/

/-- What a run did. -/
inductive Event where
  /-- The phrase at an offset was evaluated. -/
  | evaluated (phrase : String) (offset : Nat)
  /-- The callable of the command at an offset was applied to arguments. -/
  | applied (phrase : String) (offset : Nat)
  /-- The command at an offset was given to a direct callable. -/
  | entered (phrase : String) (offset : Nat)
  deriving DecidableEq, Repr

/-- The environment, and what was done so far. -/
structure State where
  env : Environment
  log : Array Event

/-- A computation that may fail; its changes to the state outlive a failure. -/
abbrev Run (α : Type) :=
  ExceptT Error (StateM State) α

/-- Why a callable failed: for a reason of its own, or with an error of the library. -/
inductive Failure where
  | foreign (message : String)
  | raised (error : Error)
  deriving DecidableEq, Repr

namespace Failure

/-- A foreign failure becomes an error at an offset; an error stays as it is. -/
def pin (offset : Nat) : Failure → Error
  | foreign message => .render (.foreign message) (.ofOffset offset)
  | raised error => error

end Failure

namespace Run

/-- Fails with a fault pinned to an offset. -/
def fail {α : Type} (fault : RenderFault) (offset : Nat) : Run α :=
  throw (.render fault (.ofOffset offset))

/-- Adds an event to the log, and gives its number. -/
def record (event : Event) : Run Nat := do
  let state ← get
  set { state with log := state.log.push event }
  return state.log.size

/-- Binds a name in the environment. -/
def bindName (name : String) (v : Value) : Run Unit :=
  modify fun state => { state with env := state.env.insert name v }

/-- Runs what may fail with a foreign failure, which is pinned to an offset. -/
def pinned {α : Type} (offset : Nat) (x : ExceptT Failure (StateM State) α) : Run α :=
  ExceptT.adapt (Failure.pin offset) x

/-- The result of a callable, a failure being pinned to an offset. -/
def ofResult {α : Type} (offset : Nat) (result : Except Failure α) : Run α :=
  pinned offset (ExceptT.mk (pure result))

end Run

/-! ## Calls -/

/-- An option of a command and the run that interprets it. -/
structure Operand where
  token : Token
  value : Run Value

/-- A command and the runs that interpret its parts and evaluate phrases. -/
structure Call where
  command : Command
  operands : List Operand
  body : Option (Run Value)
  evaluate : (phrase : String) → (offset : Nat) → Run Value

namespace Call

/-- The offset at which the command starts. -/
def start (call : Call) : Nat :=
  call.command.span.start

end Call

/-! ## Hosts -/

/-- The meanings of callables that are not the library's own. -/
structure Host where
  /-- Gives the result of a function on arguments, in the call with the given number. -/
  apply : (code : String) → (number : Nat) → Arguments → Except Failure Value
  /-- Gives the result of a function that gets the environment too, and the environment after it. -/
  applyInEnv : (code : String) → (number : Nat) → Environment → Arguments →
    Except Failure Value × Environment
  /-- Gives the meaning of a command to a callable that sees it. -/
  direct : (code : String) → Call → ExceptT Failure (StateM State) Value
  /-- Gives the value of a phrase in an environment, in the call with the given number. -/
  evaluate : (code : String) → (number : Nat) → (phrase : String) → Environment →
    Except Failure Value

end Prosemark
