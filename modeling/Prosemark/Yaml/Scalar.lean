import Prosemark.Yaml.Plain

/-!
# Strings in YAML

A string is written in the first of four styles that can hold it: several lines as a literal block,
one line plain, or else between single quotes; double quotes hold everything, by escaping. Lines are
never folded.
-/

namespace Prosemark.Yaml

/-! ## Characters -/

/-- The characters that end a line. -/
def isBreak (c : Char) : Bool :=
  c == '\n' || c == '\r' || c == '\u0085' || c == '\u2028' || c == '\u2029'

def isSpace (c : Char) : Bool :=
  c == ' '

def isBlank (c : Char) : Bool :=
  c == ' ' || c == '\t' || isBreak c

/-- The characters that need no escape: a newline, and all but control characters, the byte order
mark and the two codes at the end of the basic plane that are no characters. -/
def isPrintable (c : Char) : Bool :=
  c == '\n' || (decide (' ' ≤ c) && decide (c ≤ '~')) ||
    (decide ('\u00a0' ≤ c) && c != '\ufeff' && c != '\ufffe' && c != '\uffff')

/-- The characters that start something else than a plain text. -/
def indicators : List Char :=
  ['#', ',', '[', ']', '\x7b', '\x7d', '&', '*', '!', '|', '>', '\'', '"', '%', '@', '\x60']

/-! ## What a style can hold -/

/-- Whether two neighbours satisfy `p` and `q`. -/
def hasPair (p q : Char → Bool) : List Char → Bool
  | [] => false
  | [_] => false
  | a :: b :: cs => (p a && q b) || hasPair p q (b :: cs)

/-- Whether a word ends before the text. -/
def startsBlank : List Char → Bool
  | [] => true
  | c :: _ => isBlank c

/-- Whether a colon stands at the end of a word, where it would end a key. -/
def endsKey : List Char → Bool
  | [] => false
  | c :: cs => (c == ':' && startsBlank cs) || endsKey cs

/-- Whether the text would start as an indicator. -/
def startsIndicator : List Char → Bool
  | [] => false
  | c :: cs => indicators.contains c || ((c == '?' || c == '-') && startsBlank cs)

/-- Whether the text would start as the mark between documents. -/
def startsMark (cs : List Char) : Bool :=
  "---".toList.isPrefixOf cs || "...".toList.isPrefixOf cs

def fitsPlain (cs : List Char) : Bool :=
  cs.all isPrintable && !cs.any isBreak && cs.head? != some ' ' && cs.getLast? != some ' ' &&
    !startsMark cs && !startsIndicator cs && !endsKey cs && !hasPair isBlank (· == '#') cs

def fitsSingle (cs : List Char) : Bool :=
  cs.all isPrintable && !hasPair isSpace isBreak cs && !hasPair isBreak isSpace cs

def fitsLiteral (cs : List Char) : Bool :=
  cs.all isPrintable && cs.getLast? != some ' ' && !hasPair isSpace isBreak cs

inductive Style where
  | plain
  | single
  | double
  | literal
  deriving DecidableEq, Repr

/-- The style that a string is written in. -/
def Style.of (cs : List Char) : Style :=
  if cs.contains '\n' then if fitsLiteral cs then literal else double
  else if fitsPlain cs && !readsOtherwise cs then plain
  else if fitsSingle cs then single
  else double

/-! ## Writing -/

def spaces (n : Nat) : List Char :=
  List.replicate n ' '

/-- A text whose lines are indented, except empty ones; `fresh` says that a line starts. -/
def indented (indent : Nat) : (fresh : Bool) → List Char → List Char
  | _, [] => []
  | fresh, c :: cs =>
    if isBreak c then c :: indented indent true cs
    else (if fresh then spaces indent else []) ++ c :: indented indent false cs

def endsInBreak (cs : List Char) : Bool :=
  cs.getLast?.any isBreak

/-- A text between single quotes, in which a single quote is doubled. -/
def singleQuoted (indent : Nat) (cs : List Char) : List Char :=
  let doubled := cs.flatMap fun c => if c = '\'' then [c, c] else [c]
  '\'' :: indented indent false doubled ++ (if endsInBreak cs then spaces indent else []) ++ ['\'']

/-- A number as hexadecimal digits, as many as given. -/
def hexDigits (n : Nat) : (count : Nat) → List Char
  | 0 => []
  | count + 1 => hexDigits (n / 16) count ++ [Hexadecimal.upper n]

/-- The letters that stand for characters after a backslash. -/
def escapeLetters : List (Char × Char) :=
  [('\x00', '0'), ('\x07', 'a'), ('\x08', 'b'), ('\t', 't'), ('\n', 'n'), ('\x0b', 'v'),
    ('\x0c', 'f'), ('\r', 'r'), ('\x1b', 'e'), ('"', '"'), ('\\', '\\'), ('\u0085', 'N'),
    ('\u2028', 'L'), ('\u2029', 'P')]

/-- A character as it stands between double quotes. -/
def escape (c : Char) : List Char :=
  match escapeLetters.lookup c with
  | some letter => ['\\', letter]
  | none =>
    if isPrintable c then [c]
    else if c.toNat ≤ 0xFF then '\\' :: 'x' :: hexDigits c.toNat 2
    else '\\' :: 'u' :: hexDigits c.toNat 4

def doubleQuoted (cs : List Char) : List Char :=
  '"' :: cs.flatMap escape ++ ['"']

/-- What the head of a literal block says about its end: `-` if the last line is not ended, `+` if
empty lines follow it. -/
def chomping (cs : List Char) : List Char :=
  match cs.reverse with
  | [] => ['-']
  | [c] => if isBreak c then ['+'] else ['-']
  | c :: d :: _ => if isBreak c then if isBreak d then ['+'] else [] else ['-']

/-- A literal block up to the end of its last line. A text that starts blank needs its indentation
told. -/
def literalBlock (indent : Nat) (cs : List Char) : List Char :=
  let told := cs.head?.any fun c => isSpace c || isBreak c
  '|' :: (if told then ['2'] else []) ++ chomping cs ++ '\n' :: indented indent true cs ++
    (if endsInBreak cs then [] else ['\n'])

/-- A string up to the end of its line; further lines are indented. -/
def text (indent : Nat) (s : String) : List Char :=
  let cs := s.toList
  match Style.of cs with
  | .plain => cs ++ ['\n']
  | .single => singleQuoted indent cs ++ ['\n']
  | .double => doubleQuoted cs ++ ['\n']
  | .literal => literalBlock indent cs

end Prosemark.Yaml
