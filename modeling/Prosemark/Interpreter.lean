import Prosemark.Control
import Prosemark.Extraction
import Prosemark.Phrase

/-!
# Interpretation

The meaning of a tree is given node by node, depth first and from left to right. Text means itself;
in prose a backslash, a newline and the blanks around the newline mean nothing. A block means the
list of what its fragments mean, without nothings. A command means the value of its phrase, or,
when it has options or a body, what the value of its phrase makes of them. Identifiers, operators
and groups mean nothing by themselves and are errors.
-/

namespace Prosemark

/-! ## Text -/

/-- Blanks that a continued line may have on either side of its newline. -/
def isLineBlank (c : Char) : Bool :=
  c == ' ' || c == '\t' || c == '\r' || c == '\x0c' || c == '\x0b'

/-- What follows a line break at the head of a text, with the blanks on its either side. -/
def afterBreak? (cs : List Char) : Option (List Char) :=
  match cs.dropWhile isLineBlank with
  | '\n' :: rest => some (rest.dropWhile isLineBlank)
  | _ => none

/-- Takes line continuations out of a text, a bound on whose length is given. -/
def joinLines : (bound : Nat) → List Char → List Char
  | 0, cs => cs
  | _ + 1, [] => []
  | bound + 1, c :: cs =>
    if c = '\\' then
      match afterBreak? cs with
      | some rest => joinLines bound rest
      | none => c :: joinLines bound cs
    else c :: joinLines bound cs

/-- The string that a text means. -/
def Text.meaning (t : Text) : Value :=
  if t.isProse then .string (String.ofList (joinLines t.inner.length t.inner.toList))
  else .string t.inner

/-! ## Phrases and calls -/

namespace Host

/-- The result of an evaluator of phrases. -/
def evaluatePhrase (host : Host) (callable : Handle EvaluatorCode) (number : Nat) (phrase : String)
    (env : Environment) : Except Failure Value :=
  match callable.code with
  | .standard => (Phrase.evaluate phrase env).mapError fun fault => .foreign fault.message
  | .host code => host.evaluate code number phrase env

/-- Evaluates a phrase with the evaluator in the environment; without one only the empty phrase has
a value. Failures are pinned to the given offset. -/
def phrase (host : Host) (phrase : String) (offset : Nat) : Run Value := do
  let number ← Run.record (.evaluated phrase offset)
  let env := (← get).env
  match env.get? Environment.evaluatorKey with
  | some (.evaluator callable) =>
    Run.ofResult offset (host.evaluatePhrase callable number phrase env)
  | some v => Run.fail (.evaluatorMistyped Environment.evaluatorKey v.typeName) offset
  | none =>
    if phrase = "" then return .nothing
    else Run.fail (.evaluatorMissing Environment.evaluatorKey) offset

/-- Applies a callable to a command in the way that its wrapper says. -/
def callThrough (host : Host) (call : Call) : Wrapper → Run Value
  | .direct callable => do
    let _ ← Run.record (.entered call.command.phrase call.start)
    match callable.code with
    | .conditional => Control.conditional call
    | .loop => Control.loop call
    | .host code => Run.pinned call.start (host.direct code call)
  | .normal callable => do
    let args ← call.arguments
    let number ← Run.record (.applied call.command.phrase call.start)
    Run.ofResult call.start (host.apply callable.code number args)
  | .normalWithEnv callable => do
    let args ← call.arguments
    let number ← Run.record (.applied call.command.phrase call.start)
    let (result, env) := host.applyInEnv callable.code number (← get).env args
    modify fun state => { state with env := env }
    Run.ofResult call.start result

/-- The meaning of a command: a bare one is what its phrase is, any other calls it. -/
def call (host : Host) (call : Call) : Run Value := do
  let v ← host.phrase call.command.phrase call.start
  if call.command.isBare then return v
  match v with
  | .wrapper w => host.callThrough call w
  | .function callable => host.callThrough call (.normal callable)
  | other => Run.fail (.notCallable call.command.phrase other.typeName) call.start

end Host

/-! ## Trees -/

mutual

def Fragment.meaning (host : Host) : Fragment → Run Value
  | .text t => pure t.meaning
  | .command c => c.meaning host
  | .block b => do return .fragments (← b.meaning host)

/-- The fragment list that a block means. -/
def Block.meaning (host : Host) : Block → Run (List Value)
  | ⟨_, children, _⟩ => Fragment.meanings host children

/-- What some fragments mean, without nothings. -/
def Fragment.meanings (host : Host) : List Fragment → Run (List Value)
  | [] => pure []
  | f :: fs => do
    let v ← f.meaning host
    let vs ← Fragment.meanings host fs
    return if v.isNothing then vs else v :: vs

def Command.meaning (host : Host) : Command → Run Value
  | ⟨span, phrase, phraseEnclosing, options, body⟩ =>
    host.call {
      command := ⟨span, phrase, phraseEnclosing, options, body⟩
      operands := Group.optionOperands host options
      body := Body.optionMeaning host body
      evaluate := host.phrase
    }

/-- The operands of a command, none without options. -/
def Group.optionOperands (host : Host) : Option Group → List Operand
  | none => []
  | some g => g.operands host

def Body.optionMeaning (host : Host) : Option Body → Option (Run Value)
  | none => none
  | some (.block b) => some (do return .fragments (← b.meaning host))
  | some (.text t) => some (pure t.meaning)

def Group.operands (host : Host) : Group → List Operand
  | ⟨_, children⟩ => Token.operands host children

def Token.operands (host : Host) : List Token → List Operand
  | [] => []
  | t :: ts => ⟨t, t.meaning host⟩ :: Token.operands host ts

def Token.meaning (host : Host) : Token → Run Value
  | .identifier span name => Run.fail (.identifierNotExpected name) span.start
  | .operator span symbols => Run.fail (.operatorNotExpected symbols) span.start
  | .number _ value => pure (.ofNumber value)
  | .group g => Run.fail .groupNotExpected g.span.start
  | .block b => do return .fragments (← b.meaning host)
  | .text t => pure t.meaning
  | .command c => c.meaning host

end

end Prosemark
