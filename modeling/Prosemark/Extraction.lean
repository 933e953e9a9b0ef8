import Prosemark.Host

/-!
# Arguments of a command

The options of a command are read as values and `name = value` pairs, with commas between them and
possibly one at the end. Values come before pairs, and no name comes twice. The body, if there is
one, is interpreted first and is the first positional value; then the options are interpreted in
order, so a list that breaks the rules may have been interpreted up to where it does.
-/

namespace Prosemark

namespace Operand

/-- Whether the operand is the given operator. -/
def isOperator (symbols : String) (item : Operand) : Bool :=
  item.token.isOperator symbols

def start (item : Operand) : Nat :=
  item.token.span.start

/-- The value of an option that is neither a pair's name nor its `=`. -/
def positional (groupStart : Nat) (inKeywords : Bool) (item : Operand) : Run Value :=
  if item.isOperator "=" then Run.fail .misplacedEquals item.start
  else if inKeywords then Run.fail .positionalAfterKeyword groupStart
  else item.value

/-- The name of a pair, when the token after the operand is its `=`. -/
def keyword? (item next : Operand) : Option String :=
  if next.isOperator "=" then item.token.name? else none

end Operand

namespace Arguments

mutual

/-- Reads options from the start of an item on, adding them to the arguments so far. -/
def collect (groupStart : Nat) (inKeywords : Bool) (args : Arguments) :
    List Operand → Run Arguments
  | [] => pure args
  | [item] => do
    let v ← item.positional groupStart inKeywords
    return args.addPositional v
  | item :: next :: rest =>
    match item.keyword? next with
    | none => do
      let v ← item.positional groupStart inKeywords
      separated groupStart inKeywords (args.addPositional v) (next :: rest)
    | some name =>
      match rest with
      | [] => Run.fail (.valueExpected name) next.start
      | value :: afterValue =>
        if value.isOperator "," then Run.fail (.valueExpected name) next.start
        else if args.hasKeyword name then Run.fail (.duplicatedKeyword name) item.start
        else do
          let v ← value.value
          separated groupStart true (args.addKeyword name v) afterValue

/-- Reads options from the end of an item on: a comma has to separate it from the next one. -/
def separated (groupStart : Nat) (inKeywords : Bool) (args : Arguments) :
    List Operand → Run Arguments
  | [] => pure args
  | item :: rest =>
    if item.isOperator "," then collect groupStart inKeywords args rest
    else Run.fail .commaExpected item.start

end

end Arguments

/-- The arguments that the body and the options of a command make. -/
def Call.arguments (call : Call) : Run Arguments := do
  let args ← match call.body with
    | some body => do
      let v ← body
      pure (Arguments.empty.addPositional v)
    | none => pure Arguments.empty
  match call.command.options with
  | some options => Arguments.collect options.span.start false args call.operands
  | none => return args

end Prosemark
