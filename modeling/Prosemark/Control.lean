import Prosemark.Host

/-!
# Control commands

`if` interprets its body when a condition holds, or when it does not; `for` interprets its body once
for each item of a value, with a name bound to the item. Both see the command itself. An identifier
among their options is evaluated as a phrase; any other token is interpreted.
-/

namespace Prosemark

namespace Call

/-- The value of an option in which identifiers are phrases. -/
def operandValue (call : Call) (item : Operand) : Run Value :=
  match item.token with
  | .identifier span name => call.evaluate name span.start
  | _ => item.value

/-- The offset of the options and the body, both of which a control command needs. -/
def parts (call : Call) (name : String) (usage : RenderFault) : Run (Nat × Run Value) :=
  match call.command.options, call.body with
  | none, _ => Run.fail usage call.start
  | some _, none => Run.fail (.bodyExpected name) call.start
  | some options, some body => pure (options.span.start, body)

end Call

namespace Control

/-- The condition of an `if`, and whether it is negated. -/
def condition? : List Operand → Option (Bool × Operand)
  | [cond] => some (false, cond)
  | [negation, cond] => if negation.token.isIdentifier "not" then some (true, cond) else none
  | _ => none

/-- The meaning of `if`: the body, or nothing. -/
def conditional (call : Call) : Run Value := do
  let (start, body) ← call.parts "if" .conditionUsage
  match condition? call.operands with
  | none => Run.fail .conditionUsage start
  | some (negated, cond) =>
    let v ← call.operandValue cond
    if v.isTruthy != negated then body else return .nothing

/-- The name that a `for` binds and the operand that it goes through. -/
def header? : List Operand → Option (String × Operand)
  | [name, keyword, iterable] =>
    if keyword.token.isIdentifier "in" then name.token.name?.map (·, iterable) else none
  | _ => none

/-- The keys of a map in ascending order. -/
def sortedKeys (entries : List (String × Value)) : List String :=
  (entries.map (·.1)).mergeSort fun a b => decide (a ≤ b)

/-- The items that a `for` goes through: those of a list, the keys of a map, the characters of a
string. -/
def items? : Value → Option (List Value)
  | .list items => some items
  | .fragments items => some items
  | .map entries => some ((sortedKeys entries).map .string)
  | .string s => some (s.toList.map fun c => .string (String.singleton c))
  | _ => none

/-- The results of a body for each of some items, with a name bound to the item. The binding stays.
-/
def iterate (name : String) (body : Run Value) : List Value → Run (List Value)
  | [] => pure []
  | item :: rest => do
    Run.bindName name item
    let v ← body
    let vs ← iterate name body rest
    return v :: vs

/-- The meaning of `for`: the fragment list of what the body means for each item. -/
def loop (call : Call) : Run Value := do
  let (start, body) ← call.parts "for" .loopUsage
  match header? call.operands with
  | none => Run.fail .loopUsage start
  | some (name, iterable) =>
    let v ← call.operandValue iterable
    match items? v with
    | none => Run.fail (.notIterable v.typeName) iterable.token.span.start
    | some items => return .fragments (← iterate name body items)

end Control

end Prosemark
