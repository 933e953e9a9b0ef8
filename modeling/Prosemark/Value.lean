import Prosemark.Number

/-!
# Values

A value is what a node means and what a name is bound to: plain data, fragment lists, and
callables. A callable is a handle, the code it runs and where it comes from; two handles are equal
only when both agree, so a callable equals its copies and nothing else. What a host's code does is
not part of the value (see `Host`).

A fragment list shows as its leaves in order: `flatten` gives them, leaving out the nothings of the
outermost list, and `render` joins their texts.
-/

namespace Prosemark

/-! ## Callables -/

/-- Where a callable comes from. -/
inductive Origin where
  /-- Part of the standard environment. -/
  | standard
  /-- The `n`-th callable handed in from outside. -/
  | given (n : Nat)
  /-- Made by the call with the number `n`. -/
  | made (n : Nat)
  deriving DecidableEq, Repr

/-- The code of a callable and its identity. -/
structure Handle (κ : Type) where
  code : κ
  origin : Origin
  deriving DecidableEq, Repr

/-- What a direct callable runs: a control command, or code of the host. -/
inductive DirectCode where
  | conditional
  | loop
  | host (name : String)
  deriving DecidableEq, Repr

/-- What an evaluator of phrases runs: the standard rules, or code of the host. -/
inductive EvaluatorCode where
  | standard
  | host (name : String)
  deriving DecidableEq, Repr

/-- A callable bound to the way in which a command reaches it. -/
inductive Wrapper where
  /-- The callable sees the command itself. -/
  | direct (callable : Handle DirectCode)
  /-- The callable gets arguments. -/
  | normal (callable : Handle String)
  /-- The callable gets the environment and arguments. -/
  | normalWithEnv (callable : Handle String)
  deriving DecidableEq, Repr

def Wrapper.kind : Wrapper → String
  | direct _ => "direct"
  | normal _ => "normal"
  | normalWithEnv _ => "normal-with-env"

/-! ## Values -/

inductive Value where
  | nothing
  | bool (b : Bool)
  | int (n : Int)
  | float (x : Binary64)
  | string (s : String)
  | list (items : List Value)
  | map (entries : List (String × Value))
  | fragments (items : List Value)
  | function (callable : Handle String)
  | wrapper (wrapper : Wrapper)
  | evaluator (callable : Handle EvaluatorCode)

instance : Inhabited Value :=
  ⟨.nothing⟩

/-- Adds an entry to entries in ascending order of their keys, in place of one with the same key. -/
def insertEntry (key : String) (v : Value) : List (String × Value) → List (String × Value)
  | [] => [(key, v)]
  | (k, w) :: rest =>
    if key < k then (key, v) :: (k, w) :: rest
    else if key = k then (key, v) :: rest
    else (k, w) :: insertEntry key v rest

namespace Value

/-- A map with its entries in ascending order; the last of entries with one key counts. -/
def ofEntries (entries : List (String × Value)) : Value :=
  .map (entries.foldl (fun sorted entry => insertEntry entry.1 entry.2 sorted) [])

def ofNumber : Number → Value
  | .int n => .int n
  | .float x => .float x

def isNothing : Value → Bool
  | .nothing => true
  | _ => false

/-- What counts as false: nothing, `false`, zero, and what is empty. -/
def isTruthy : Value → Bool
  | .nothing => false
  | .bool b => b
  | .int n => n != 0
  | .float x => !x.isZero
  | .string s => !s.isEmpty
  | .list items => !items.isEmpty
  | .map entries => !entries.isEmpty
  | .fragments items => !items.isEmpty
  | .function _ => true
  | .wrapper _ => true
  | .evaluator _ => true

def string? : Value → Option String
  | .string s => some s
  | _ => none

def int? : Value → Option Int
  | .int n => some n
  | _ => none

/-- The value as a floating-point number; integers are rounded to the nearest one. -/
def float? : Value → Option Binary64
  | .int n => some (.ofInt n)
  | .float x => some x
  | _ => none

def entries? : Value → Option (List (String × Value))
  | .map entries => some entries
  | _ => none

def typeName : Value → String
  | .nothing => "none"
  | .bool _ => "bool"
  | .int _ => "int"
  | .float _ => "float"
  | .string _ => "string"
  | .list _ => "list"
  | .map _ => "map"
  | .fragments _ => "fragments"
  | .function _ => "function"
  | .wrapper _ => "call-wrapper"
  | .evaluator _ => "phrase evaluator"

/-! ## Equality -/

mutual

/-- Equality of data, numbers being compared as numbers and callables by their handles. -/
def same : Value → Value → Bool
  | .nothing, .nothing => true
  | .bool a, .bool b => a == b
  | .int a, .int b => a == b
  | .float a, .float b => a.same b
  | .string a, .string b => a == b
  | .list a, .list b => sameItems a b
  | .map a, .map b => sameEntries a b
  | .fragments a, .fragments b => sameItems a b
  | .function a, .function b => a == b
  | .wrapper a, .wrapper b => a == b
  | .evaluator a, .evaluator b => a == b
  | _, _ => false

def sameItems : List Value → List Value → Bool
  | [], [] => true
  | a :: as, b :: bs => same a b && sameItems as bs
  | _, _ => false

def sameEntries : List (String × Value) → List (String × Value) → Bool
  | [], [] => true
  | (j, a) :: as, (k, b) :: bs => j == k && same a b && sameEntries as bs
  | _, _ => false

end

/-! ## Fragment lists -/

mutual

/-- The values in a fragment list that are no fragment lists, depth first; a value of another kind
is its own only leaf. -/
def leaves : Value → List Value
  | .fragments items => leavesOfItems items
  | v => [v]

def leavesOfItems : List Value → List Value
  | [] => []
  | v :: vs => leaves v ++ leavesOfItems vs

end

/-- The leaves of a fragment list, without the nothings of the list itself. -/
def flatten : List Value → List Value
  | [] => []
  | v :: vs => if v.isNothing then flatten vs else leaves v ++ flatten vs

/-! ## Texts -/

mutual

/-- The text of a value in rendered output. -/
def text : Value → String
  | .nothing => ""
  | .bool b => if b then "true" else "false"
  | .int n => toString n
  | .float x => NumberLayout.shown.text x
  | .string s => s
  | .list items => "[" ++ textOfItems ", " items ++ "]"
  | .map entries => "\x7b" ++ textOfEntries entries ++ "\x7d"
  | .fragments items => textOfItems "" items
  | .function _ => "<function>"
  | .wrapper w => "<" ++ w.kind ++ " call-wrapper>"
  | .evaluator _ => "<phrase evaluator>"

/-- The texts of some values with a separator between them. -/
def textOfItems (separator : String) : List Value → String
  | [] => ""
  | [v] => text v
  | v :: w :: rest => text v ++ separator ++ textOfItems separator (w :: rest)

def textOfEntries : List (String × Value) → String
  | [] => ""
  | [(key, v)] => key ++ ": " ++ text v
  | (key, v) :: w :: rest => key ++ ": " ++ text v ++ ", " ++ textOfEntries (w :: rest)

end

/-- The texts of the leaves of a fragment list, joined. -/
def render (items : List Value) : String :=
  String.join ((flatten items).map text)

end Value

/-! ## Arguments -/

/-- What a callable gets: the body of the command, if any, comes first among the positional values;
keywords keep the order in which they were written. -/
structure Arguments where
  positional : List Value
  keywords : List (String × Value)

namespace Arguments

def empty : Arguments :=
  ⟨[], []⟩

def length (args : Arguments) : Nat :=
  args.positional.length + args.keywords.length

def hasKeyword (name : String) (args : Arguments) : Bool :=
  args.keywords.any fun entry => entry.1 == name

/-- The value of a keyword. -/
def keyword? (name : String) (args : Arguments) : Option Value :=
  args.keywords.lookup name

def addPositional (v : Value) (args : Arguments) : Arguments :=
  ⟨args.positional ++ [v], args.keywords⟩

def addKeyword (name : String) (v : Value) (args : Arguments) : Arguments :=
  ⟨args.positional, args.keywords ++ [(name, v)]⟩

end Arguments

end Prosemark
