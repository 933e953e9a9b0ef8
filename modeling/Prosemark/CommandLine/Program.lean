import Prosemark.CommandLine.Invocation
import Prosemark.Document
import Prosemark.Tree.Guarded

/-!
# The program

The program reads a document, parses it, and writes its tree or the text that it renders to. All
that it needs of the system it runs on is a `System`; it can run in any monad that has one. Nothing
is written unless everything before went well.

A document with a fence for which no expression can be built makes the program abort, with an exit
code of its own.
-/

namespace Prosemark.CommandLine

/-- How a system reads and writes. A refusal is told in the system's own words. -/
structure System (m : Type → Type) where
  load : (name : String) → m (Except String ByteArray)
  input : m (Except String ByteArray)
  save : (name text : String) → m (Except String Unit)

/-! ## Faults -/

/-- Why a task was not done. -/
inductive Fault where
  | unreadable (name reason : String)
  | unwritable (name reason : String)
  | document (source : String) (error : Error)
  | format (error : FormatError)
  | aborted (marks : List (List Char))
  deriving DecidableEq, Repr

namespace Fault

def message : Fault → String
  | unreadable name reason => "cannot read " ++ name ++ ": " ++ reason
  | unwritable name reason => "cannot write " ++ name ++ ": " ++ reason
  | document _ error => error.text
  | format error => error.message
  | aborted _ => "called `Result::unwrap()` on an `Err` value: CompiledTooBig(10485760)"

/-- The lines of the document that a fault points to, after an empty line. -/
def context : Fault → String
  | document source error =>
    match error.offset? with
    | some offset => "\n" ++ sourceContext source offset
    | none => ""
  | _ => ""

/-- What the user gets to see. Before the message of an abort stands the place in the program, which
is left out here. -/
def report : Fault → String
  | aborted marks => (aborted marks).message ++ "\n"
  | fault => "Error: " ++ fault.message ++ "\n" ++ fault.context

def code : Fault → UInt32
  | aborted _ => 101
  | _ => 1

end Fault

/-! ## Doing a task -/

namespace Invocation

/-- The switch that the settings ask for. -/
def switch (i : Invocation) : Except Error Switch :=
  match i.settings.switch with
  | none => .ok .standard
  | some c => (Switch.ofChar c).mapError (Error.switch c)

/-- A text with a newline at its end. -/
def endLine (text : String) : String :=
  if text.toList.getLast? = some '\n' then text else text ++ "\n"

/-- Aborts where the library refuses an expression. -/
def checkMarks (sw : Switch) (source : String) : Except Fault Unit :=
  match Guarded.refused? sw source with
  | none => .ok ()
  | some marks => .error (.aborted marks)

/-- The text that a document is turned into. -/
def product (i : Invocation) (source : String) : Except Fault String := do
  let sw ← i.switch.mapError (Fault.document source)
  checkMarks sw source
  match i.task with
  | .tree =>
    let tree ← (parse sw source).mapError (Fault.document source)
    let text ← ((i.settings.format.getD .json).write tree).mapError Fault.format
    return endLine text
  | .text =>
    let (result, _) := run .none sw source (.ofEnv .standard)
    return Value.render (← result.mapError (Fault.document source))

variable {m : Type → Type} [Monad m]

/-- The bytes of the document and the name that messages give to it. -/
def bytes (i : Invocation) (system : System m) : m (String × Except String ByteArray) := do
  match i.settings.input with
  | some name => return (name, ← system.load name)
  | none => return ("stdin", ← system.input)

/-- The document, which has to be UTF-8. -/
def source (i : Invocation) (system : System m) : ExceptT Fault m String := do
  let (name, answer) ← liftM (i.bytes system)
  match answer with
  | .error reason => throw (.unreadable name reason)
  | .ok bytes =>
    match String.fromUTF8? bytes with
    | some source => return source
    | none => throw (.unreadable name "stream did not contain valid UTF-8")

/-- Does the task. The result is what goes to the standard output. -/
def perform (i : Invocation) (system : System m) : ExceptT Fault m String := do
  let product ← i.product (← i.source system)
  match i.settings.output with
  | none => return product
  | some name =>
    match ← liftM (system.save name product) with
    | .ok _ => return ""
    | .error reason => throw (.unwritable name reason)

end Invocation

/-! ## Outcomes -/

/-- The exit code of a run and what it wrote to the standard output and as diagnostics. -/
structure Outcome where
  code : UInt32
  output : String
  diagnostics : String
  deriving DecidableEq, Repr

/-- The name that the program goes by. -/
def programName : String :=
  "paxter"

def versionText : String :=
  programName ++ " 0.1.0\n"

def helpText : String :=
  "Parse and render documents\n\n" ++
  "Usage: " ++ programName ++
    " [-v] parse [-i FILE] [-o FILE] [-s CHAR] [-f json|yaml|treeviz]\n" ++
  "       " ++ programName ++ " [-v] html [-i FILE] [-o FILE] [-s CHAR]\n\n" ++
  "Options:\n" ++
  "  -i, --input FILE     Source file to read (default: stdin)\n" ++
  "  -o, --output FILE    File to write (default: stdout)\n" ++
  "  -s, --switch CHAR    Character introducing commands (default: @)\n" ++
  "  -f, --format FORMAT  Tree format (default: json)\n" ++
  "  -v, --verbose        Accepted, without effect\n" ++
  "  -h, --help           Print help\n" ++
  "  -V, --version        Print version\n"

def Interruption.outcome : Interruption → Outcome
  | help => ⟨0, helpText, ""⟩
  | version => ⟨0, versionText, ""⟩
  | misuse => ⟨2, "", "error: invalid arguments\n\nFor more information, try '--help'.\n"⟩

/-- Runs the program on the words of a command line. -/
def run {m : Type → Type} [Monad m] (system : System m) (words : List String) : m Outcome := do
  match Invocation.ofWords words with
  | .error interruption => return interruption.outcome
  | .ok invocation =>
    match ← (invocation.perform system).run with
    | .ok output => return ⟨0, output, ""⟩
    | .error fault => return ⟨fault.code, "", fault.report⟩

end Prosemark.CommandLine
