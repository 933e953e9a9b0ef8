import Prosemark.Outline.Drawing
import Prosemark.Yaml.Writer

/-!
# Formats of trees

A format writes a document as text. Formats are looked up by name in a collection, where a name is
taken by the format that was added last. The standard ones are JSON, YAML and a drawing.
-/

namespace Prosemark

inductive FormatError where
  | notFound (name : String)
  | failed (reason : String)
  deriving DecidableEq, Repr

def FormatError.message : FormatError → String
  | notFound name => "format not found: " ++ name
  | failed reason => "serialization failed: " ++ reason

structure Format where
  name : String
  description : String
  write : Block → Except FormatError String

namespace Format

/-- The YAML text of a document. -/
def yamlText (b : Block) : String :=
  String.ofList (Yaml.document b.fields)

def json : Format where
  name := "json"
  description := "Full tree as pretty-printed JSON"
  write b := .ok b.toJsonText

def yaml : Format where
  name := "yaml"
  description := "Full tree as YAML"
  write b := .ok (yamlText b)

/-- The drawing of the outline. -/
def treeviz : Format where
  name := "treeviz"
  description := "Visual tree representation with box connectors and Unicode icons"
  write b := .ok b.outline.drawn

end Format

/-- A collection of formats, each of a name of its own. -/
structure Formats where
  toList : List Format

namespace Formats

def empty : Formats :=
  ⟨[]⟩

/-- Adds a format, in place of the one of its name. -/
def insert (format : Format) (formats : Formats) : Formats :=
  ⟨format :: formats.toList.filter fun other => other.name != format.name⟩

def standard : Formats :=
  ((empty.insert .json).insert .yaml).insert .treeviz

def contains (name : String) (formats : Formats) : Bool :=
  formats.toList.any fun format => format.name == name

/-- The format of a name. -/
def get (name : String) (formats : Formats) : Except FormatError Format :=
  match formats.toList.find? fun format => format.name == name with
  | some format => .ok format
  | none => .error (.notFound name)

/-- The names of the formats, in ascending order. -/
def names (formats : Formats) : List String :=
  (formats.toList.map (·.name)).mergeSort fun a b => decide (a ≤ b)

/-- Writes a document in the format of a name. -/
def write (name : String) (b : Block) (formats : Formats) : Except FormatError String := do
  (← formats.get name).write b

end Formats

end Prosemark
