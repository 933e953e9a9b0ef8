import Prosemark.Charset
import Prosemark.Enclosing
import Prosemark.Number.Numeral
import Prosemark.Switch

/-!
# Lexemes

What is looked for next depends on where the reader stands, so there is no list of tokens; each
lexeme has a scanner that looks at the head of the text. A scanner cuts off the longest lexeme of
its kind, or finds none. A `Break` is different: it is the first place at which one of several
marks stands, with the text before it.
-/

namespace Prosemark

namespace Lexeme

/-- An identifier. -/
def identifier? (cs : List Char) : Option (Cut cs) :=
  Cut.run? Charset.isIdStart Charset.isIdContinue cs

/-- Whether a character can be part of a run of operators while `sw` is the switch. -/
def joinsRun (sw : Switch) (c : Char) : Bool :=
  Charset.isOperator c && !Charset.operatorStops.contains c && c != sw.char

/-- A run of operators, or a separator on its own. -/
def operator? (sw : Switch) (cs : List Char) : Option (Cut cs) :=
  (Cut.run? (joinsRun sw) (joinsRun sw) cs).or (Cut.one? Charset.isSeparator cs)

/-- A single character of punctuation or a symbol. -/
def symbol? (cs : List Char) : Option (Cut cs) :=
  Cut.one? Charset.isSymbol cs

/-- One given character. -/
def char? (c : Char) (cs : List Char) : Option (Cut cs) :=
  Cut.one? (· == c) cs

end Lexeme

/-! ## Breaks -/

/-- What is left of a text after a mark that stands at its head. -/
def remainder? : (mark cs : List Char) → Option (List Char)
  | [], cs => some cs
  | _ :: _, [] => none
  | m :: ms, c :: cs => if m = c then remainder? ms cs else none

theorem remainder?_eq_some_iff {mark cs rest : List Char} :
    remainder? mark cs = some rest ↔ mark ++ rest = cs := by
  induction mark generalizing cs with
  | nil => simp [remainder?, eq_comm]
  | cons m ms ih =>
    cases cs with
    | nil => simp [remainder?]
    | cons c cs =>
      by_cases h : m = c
      · simp [remainder?, h, ih]
      · simp [remainder?, h]

/-- A text up to the first of some marks: the text before the mark, the mark, and the rest. -/
structure Break (cs : List Char) where
  inner : List Char
  mark : List Char
  rest : List Char
  whole : inner ++ (mark ++ rest) = cs

namespace Break

theorem rest_le {cs : List Char} (b : Break cs) : b.rest.length ≤ cs.length := by
  have h := congrArg List.length b.whole
  simp only [List.length_append] at h
  omega

theorem rest_lt {cs : List Char} (b : Break cs) (hm : b.mark ≠ []) :
    b.rest.length < cs.length := by
  have h := congrArg List.length b.whole
  have hpos := List.length_pos_iff.2 hm
  simp only [List.length_append] at h
  omega

/-- The break one character further on. -/
def cons (c : Char) {cs : List Char} (b : Break cs) : Break (c :: cs) :=
  ⟨c :: b.inner, b.mark, b.rest, by rw [List.cons_append, b.whole]⟩

/-- A mark right at the head of the text. -/
def here? (mark cs : List Char) : Option (Break cs) :=
  match h : remainder? mark cs with
  | none => none
  | some rest => some ⟨[], mark, rest, show mark ++ rest = cs from remainder?_eq_some_iff.1 h⟩

/-- The first place at which a mark stands; of two marks at one place, the earlier in the list. -/
def find? (marks : List (List Char)) : (cs : List Char) → Option (Break cs)
  | [] => marks.findSome? fun mark => here? mark []
  | c :: cs =>
    match marks.findSome? fun mark => here? mark (c :: cs) with
    | some b => some b
    | none => (find? marks cs).map (cons c)

/-- The break at the end of the text, with no mark. -/
def atEnd (cs : List Char) : Break cs :=
  ⟨cs, [], [], by simp⟩

/-- Prose of a document runs to a switch or to the end. -/
def ofDocument (sw : Switch) (cs : List Char) : Break cs :=
  (find? [[sw.char]] cs).getD (atEnd cs)

/-- Fragments within a fence run to a switch or to the right text of the fence. -/
def ofFragments? (sw : Switch) (right cs : List Char) : Option (Break cs) :=
  find? [[sw.char], right] cs

/-- Verbatim text runs to the right text of its fence. -/
def ofVerbatim? (right cs : List Char) : Option (Break cs) :=
  find? [right] cs

/-- Whether the text ran to a switch. -/
def isSwitch (sw : Switch) {cs : List Char} (b : Break cs) : Bool :=
  b.mark == [sw.char]

theorem mark_ne_nil_of_isSwitch {sw : Switch} {cs : List Char} {b : Break cs}
    (h : b.isSwitch sw = true) : b.mark ≠ [] := by
  simp only [isSwitch, beq_iff_eq] at h
  simp [h]

end Break

end Prosemark
