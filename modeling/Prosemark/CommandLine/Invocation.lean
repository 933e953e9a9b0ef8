import Prosemark.Format

/-!
# Invocations

The words of a command line name a task, `parse` or `html`, with options before and after it. An
option has a long and a short name. Its value is attached, with `=` or right after the short name,
or is the next word, which must not look like an option itself; a lone dash does not. Short names
without values can share a dash. No option is given twice, and nothing but options may follow the
task.

Words are read from left to right: a request for help or for the version counts when it comes
before the first mistake.
-/

namespace Prosemark.CommandLine

/-- What a command line can come to other than an invocation. -/
inductive Interruption where
  | help
  | version
  | misuse
  deriving DecidableEq, Repr

/-- What a document is turned into. -/
inductive Task where
  | tree
  | text
  deriving DecidableEq, Repr

/-- The task that a word names. -/
def Task.ofName? (name : String) : Option Task :=
  if name = "parse" then some .tree else if name = "html" then some .text else none

/-! ## Options -/

inductive Key where
  | input
  | output
  | switch
  | format
  | verbose
  | help
  | version
  deriving DecidableEq, Repr

namespace Key

def long : Key → String
  | input => "input"
  | output => "output"
  | switch => "switch"
  | format => "format"
  | verbose => "verbose"
  | help => "help"
  | version => "version"

def short : Key → Char
  | input => 'i'
  | output => 'o'
  | switch => 's'
  | format => 'f'
  | verbose => 'v'
  | help => 'h'
  | version => 'V'

def takesValue : Key → Bool
  | input | output | switch | format => true
  | verbose | help | version => false

/-- The options that come before a task, or after the given one. -/
def available : Option Task → List Key
  | none => [verbose, help, version]
  | some .tree => [input, output, switch, format, verbose, help]
  | some .text => [input, output, switch, verbose, help]

def ofLong? (task : Option Task) (name : String) : Option Key :=
  (available task).find? fun key => key.long == name

def ofShort? (task : Option Task) (letter : Char) : Option Key :=
  (available task).find? fun key => key.short == letter

end Key

/-! ## Settings -/

/-- The options given so far. -/
structure Settings where
  input : Option String
  output : Option String
  switch : Option Char
  format : Option Format
  verbose : Bool

/-- A value that is given for the first time. -/
def once {α : Type} (previous given : Option α) : Except Interruption (Option α) :=
  match previous, given with
  | none, some a => .ok (some a)
  | _, _ => .error .misuse

/-- The character that a whole text is. -/
def lone? (text : String) : Option Char :=
  match text.toList with
  | [c] => some c
  | _ => none

namespace Settings

def initial : Settings :=
  ⟨none, none, none, none, false⟩

/-- Gives an option its value. -/
def assign (key : Key) (value : String) (s : Settings) : Except Interruption Settings :=
  match key with
  | .input => return { s with input := ← once s.input (some value) }
  | .output => return { s with output := ← once s.output (some value) }
  | .switch => return { s with switch := ← once s.switch (lone? value) }
  | .format => return { s with format := ← once s.format (Formats.standard.get value).toOption }
  | .verbose | .help | .version => .error .misuse

/-- Gives an option that has no value. -/
def mark (key : Key) (s : Settings) : Except Interruption Settings :=
  match key with
  | .verbose => if s.verbose then .error .misuse else .ok { s with verbose := true }
  | .help => .error .help
  | .version => .error .version
  | .input | .output | .switch | .format => .error .misuse

end Settings

/-! ## Reading words -/

/-- Reads the short names after a dash. The option that is returned lacks its value. -/
def readShort (task : Option Task) (s : Settings) :
    List Char → Except Interruption (Settings × Option Key)
  | [] => .ok (s, none)
  | letter :: rest =>
    match Key.ofShort? task letter with
    | none => .error .misuse
    | some key =>
      if key.takesValue then
        match rest with
        | [] => .ok (s, some key)
        | '=' :: value => return (← s.assign key (String.ofList value), none)
        | value => return (← s.assign key (String.ofList value), none)
      else do readShort task (← s.mark key) rest

/-- Reads the long name after two dashes. The option that is returned lacks its value. -/
def readLong (task : Option Task) (s : Settings) (cs : List Char) :
    Except Interruption (Settings × Option Key) :=
  let name := String.ofList (cs.takeWhile (· != '='))
  match Key.ofLong? task name, cs.dropWhile (· != '=') with
  | none, _ => .error .misuse
  | some key, [] =>
    if key.takesValue then .ok (s, some key) else return (← s.mark key, none)
  | some key, _ :: value =>
    if key.takesValue then return (← s.assign key (String.ofList value), none)
    else .error .misuse

/-- Whether a word starts with a dash and is not a lone one. -/
def looksLikeOption (word : String) : Bool :=
  match word.toList with
  | '-' :: _ :: _ => true
  | _ => false

/-- Reads options up to a word that is none. Two dashes end the options, and nothing may follow. -/
def readOptions (task : Option Task) (s : Settings) :
    List String → Except Interruption (Settings × List String)
  | [] => .ok (s, [])
  | word :: rest =>
    match word.toList with
    | ['-', '-'] => if rest.isEmpty then .ok (s, []) else .error .misuse
    | '-' :: c :: cs => do
      let (s, lacking) ← if c = '-' then readLong task s cs else readShort task s (c :: cs)
      match lacking, rest with
      | none, rest => readOptions task s rest
      | some _, [] => .error .misuse
      | some key, value :: rest =>
        if looksLikeOption value then .error .misuse
        else readOptions task (← s.assign key value) rest
    | _ => .ok (s, word :: rest)

/-- A task with its options. -/
structure Invocation where
  task : Task
  settings : Settings

/-- Whether words name one thing that there is help on. -/
def isHelpTopic : List String → Bool
  | [] => true
  | [word] => (Task.ofName? word).isSome || word == "help"
  | _ => false

/-- The invocation that the words of a command line make. -/
def Invocation.ofWords (words : List String) : Except Interruption Invocation := do
  let (_, rest) ← readOptions none .initial words
  match rest with
  | [] => throw .misuse
  | word :: rest =>
    match Task.ofName? word with
    | some task =>
      let (settings, rest) ← readOptions (some task) .initial rest
      if rest.isEmpty then return ⟨task, settings⟩ else throw .misuse
    | none => throw (if word = "help" ∧ isHelpTopic rest then .help else .misuse)

end Prosemark.CommandLine
