import Prosemark.Proofs.Break
import Prosemark.Proofs.Layout

/-!
# Normal form

A source can be divided in many ways that are laid out over it: prose may be cut in two, a command
may be taken for prose, an identifier may be cut short. A tree is in normal form when its parts are
as long as they can be and everything that opens something is taken for it. Each condition is about
one node and what stands in the source next to it.
-/

namespace Prosemark

/-- Quoted text is fenced by quotes and does not contain the right text of its fence. -/
def Text.IsQuoted (source : String) (nested : Bool) (t : Text) : Prop :=
  ∃ fence : Fence, fence.delimiter = .quote ∧ t.enclosing = fence.enclosing ∧
    ¬fence.right <:+: t.inner.toList ∧
    fence.Balanced nested (restAt source (t.span.stop + width fence.right))

theorem Fence.balanced_restAt_iff {source : String} {nested : Bool} {fence : Fence}
    {mid next : Cursor} (hp : mid.Passes fence.right next) (hnext : next.In source) :
    fence.Balanced nested (restAt source (mid.offset + width fence.right)) ↔
      fence.Balanced nested next.rest := by
  rw [← hp.offset_eq, hnext.restAt_eq]

theorem Cursor.Passes.offset_switch {sw : Switch} {start cur : Cursor}
    (h : start.Passes [sw.char] cur) : start.offset + sw.size = cur.offset := by
  rw [h.offset_eq]
  simp [Switch.size]

/-- Whether the fragment is prose. -/
def Fragment.isProse : Fragment → Bool
  | .text t => t.isProse
  | _ => false

/-! ## Commands -/

namespace Command

/-- The offset right after the phrase and its enclosing. -/
def phraseStop (sw : Switch) (c : Command) : Nat :=
  c.span.start + sw.size + c.phraseEnclosing.left.utf8ByteSize + c.phrase.utf8ByteSize +
    c.phraseEnclosing.right.utf8ByteSize

/-- The offset right after the options, or after the phrase of a command without options. -/
def optionsStop (sw : Switch) (c : Command) : Nat :=
  match c.options with
  | some g => g.span.stop + 1
  | none => c.phraseStop sw

/-- The command has options where a bracket follows its phrase directly, and a body where a fence
follows these directly. -/
def Attaches (sw : Switch) (source : String) (c : Command) : Prop :=
  (c.options.isSome = true ↔ (restAt source (c.phraseStop sw)).head? = some '[') ∧
    (c.body.isSome = true ↔
      Opens .brace (restAt source (c.optionsStop sw)) ∨
        Opens .quote (restAt source (c.optionsStop sw)))

/-- The three forms of commands: a maximal identifier, a phrase between bars, and a symbol where
neither of the two nor a fence follows the switch. Symbols and empty phrases take no arguments. -/
inductive Formed (sw : Switch) (source : String) (c : Command) : Prop
  | identifier (unfenced : c.phraseEnclosing = .unfenced)
      (kind : Lexeme.IsIdentifier c.phrase.toList)
      (maximal : ∀ d ∈ (restAt source (c.phraseStop sw)).head?, Charset.isIdContinue d = false)
      (attaches : c.Attaches sw source)
  | bars (fence : Fence) (delimiter : fence.delimiter = .bar)
      (fenced : c.phraseEnclosing = fence.enclosing)
      (unbroken : ¬fence.right <:+: c.phrase.toList)
      (attaches : if c.phrase = "" then c.isBare = true else c.Attaches sw source)
  | symbol (d : Char) (unfenced : c.phraseEnclosing = .unfenced)
      (phrase_eq : c.phrase = String.singleton d) (kind : Charset.isSymbol d = true)
      (head : ∀ e ∈ (restAt source (c.span.start + sw.size)).head?, Charset.isIdStart e = false)
      (opens : ∀ e, ¬Opens e (restAt source (c.span.start + sw.size))) (bare : c.isBare = true)

end Command

/-- No numeral that stands where the number starts is longer, and it starts with a minus only where
that is no operator. -/
def Number.IsMaximal (sw : Switch) (source : String) (span : Span) : Prop :=
  (∀ numeral : Numeral, numeral.Valid → numeral.chars <+: restAt source span.start →
    span.start + width numeral.chars ≤ span.stop) ∧
    ((restAt source span.start).head? = some '-' → sw.char = '-')

/-! ## Trees -/

mutual

/-- The fragment is in normal form, in the scope that the right text of the fence closes. -/
def Fragment.Normal (sw : Switch) (source : String) (closing : Option Fence) : Fragment → Prop
  | .text t =>
    if t.isProse then
      t.enclosing = .unfenced ∧ t.inner ≠ "" ∧ IsProse sw closing t.inner.toList
    else t.IsQuoted source closing.isSome
  | .command c => c.Normal sw source closing.isSome
  | .block block => block.Normal sw source closing.isSome

/-- All fragments of a scope are in normal form, and prose is not cut in two. -/
def Fragment.NormalAll (sw : Switch) (source : String) (closing : Option Fence) :
    List Fragment → Prop
  | [] => True
  | f :: fs =>
    f.Normal sw source closing ∧ (f.isProse = true → ∀ g ∈ fs.head?, g.isProse = false) ∧
      Fragment.NormalAll sw source closing fs

/-- The block is fenced by braces, and what is in it is in normal form. -/
def Block.Normal (sw : Switch) (source : String) (nested : Bool) : Block → Prop
  | ⟨span, children, enclosing⟩ =>
    ∃ fence : Fence, fence.delimiter = .brace ∧ enclosing = fence.enclosing ∧
      fence.Balanced nested (restAt source (span.stop + width fence.right)) ∧
      Fragment.NormalAll sw source (some fence) children

def Command.Normal (sw : Switch) (source : String) (nested : Bool) : Command → Prop
  | ⟨span, phrase, phraseEnclosing, options, body⟩ =>
    Command.Formed sw source ⟨span, phrase, phraseEnclosing, options, body⟩ ∧
      Group.NormalOption sw source nested options ∧ Body.NormalOption sw source nested body

/-- The options of a command are in normal form, if it has any. -/
def Group.NormalOption (sw : Switch) (source : String) (nested : Bool) : Option Group → Prop
  | none => True
  | some g => g.Normal sw source nested

/-- The body of a command is in normal form, if it has one. -/
def Body.NormalOption (sw : Switch) (source : String) (nested : Bool) : Option Body → Prop
  | none => True
  | some body => body.Normal sw source nested

def Body.Normal (sw : Switch) (source : String) (nested : Bool) : Body → Prop
  | .block block => block.Normal sw source nested
  | .text t => t.IsQuoted source nested

def Group.Normal (sw : Switch) (source : String) (nested : Bool) : Group → Prop
  | ⟨_, children⟩ => Token.NormalAll sw source nested children

/-- All tokens of a group are in normal form. -/
def Token.NormalAll (sw : Switch) (source : String) (nested : Bool) : List Token → Prop
  | [] => True
  | t :: ts => t.Normal sw source nested ∧ Token.NormalAll sw source nested ts

/-- The token is in normal form; identifiers, operators and numbers do not go on after it. -/
def Token.Normal (sw : Switch) (source : String) (nested : Bool) : Token → Prop
  | .identifier span name =>
    Lexeme.IsIdentifier name.toList ∧
      ∀ c ∈ (restAt source span.stop).head?, Charset.isIdContinue c = false
  | .operator span symbols => Lexeme.IsOperator sw symbols.toList (restAt source span.stop)
  | .number span _ => Number.IsMaximal sw source span
  | .group g => g.Normal sw source nested
  | .block block => block.Normal sw source nested
  | .text t => t.IsQuoted source nested
  | .command c => c.Normal sw source nested

end

/-- The document is in normal form; no fence closes it. -/
def Block.InNormalForm (sw : Switch) (source : String) (tree : Block) : Prop :=
  Fragment.NormalAll sw source none tree.children

/-! ## Where arguments follow -/

namespace Command

variable {sw : Switch} {source : String} {c : Command}

theorem phraseStop_eq {place : Span} {i j : Nat} (hswitch : Covers source c.span.start i sw.text)
    (hphrase : Text.Fills source ⟨place, c.phrase, c.phraseEnclosing⟩ i j) :
    c.phraseStop sw = j := by
  obtain ⟨⟨hleft, hright⟩, hinner⟩ := hphrase
  have hi := hswitch.stop_eq
  have hstart := hleft.stop_eq
  have hstop := hinner.stop_eq
  have hj := hright.stop_eq
  have hsize : width sw.text.toList = sw.size := by simp [Switch.text, Switch.size]
  simp only [width_toList] at hstart hstop hj
  rw [hsize] at hi
  rw [phraseStop]
  omega

theorem optionsStop_eq {k : Nat}
    (h : Group.FillsOption sw source c.options (c.phraseStop sw) k) : c.optionsStop sw = k := by
  unfold optionsStop
  cases ho : c.options with
  | none =>
    rw [ho] at h
    exact h
  | some g =>
    rw [ho] at h
    obtain ⟨span, children⟩ := g
    exact h.2.2.stop_eq.symm

/-- What a command attaches, in terms of the cursors after its phrase and after its options. -/
theorem attaches_iff {cur mid : Cursor} (hcur : cur.In source) (hmid : mid.In source)
    (hphrase : c.phraseStop sw = cur.offset) (hoptions : c.optionsStop sw = mid.offset) :
    c.Attaches sw source ↔
      (c.options.isSome = true ↔ cur.rest.head? = some '[') ∧
        (c.body.isSome = true ↔ Opens .brace mid.rest ∨ Opens .quote mid.rest) := by
  rw [Attaches, hphrase, hoptions, hcur.restAt_eq, hmid.restAt_eq]

end Command

/-! ## Between cursors

What a reader is to find between two cursors, the first of which is in the source. -/

section Stands

variable (sw : Switch) (source : String) (nested : Bool)

/-- The fragments of the scope, to the offset `stop`, where what ends the scope stands. -/
def Fragment.StandAll (scope : Parser.Scope) (fs : List Fragment) (stop : Nat)
    (cur next : Cursor) : Prop :=
  ∃ mid : Cursor, mid.offset = stop ∧ mid.In source ∧ mid.Passes scope.right next ∧
    (scope.closing = none → next.rest = []) ∧ Fragment.Tile sw source fs cur.offset stop ∧
    Fragment.NormalAll sw source scope.closing fs

def Body.Stands (body : Body) (cur next : Cursor) : Prop :=
  next.In source ∧ body.Fills sw source cur.offset next.offset ∧ body.Normal sw source nested

def Command.Stands (c : Command) (cur next : Cursor) : Prop :=
  next.In source ∧ c.Fills sw source cur.offset next.offset ∧ c.Normal sw source nested

/-- A command, switch included, or a body after the switch. -/
def Fragment.Follows (f : Fragment) (start cur next : Cursor) : Prop :=
  (∃ c, f = .command c ∧ c.Stands sw source nested start next) ∨
    ∃ body : Body, f = body.toFragment ∧ body.Stands sw source nested cur next

/-- What follows the phrase of a command. -/
def Command.Continues (c : Command) (cur next : Cursor) : Prop :=
  next.In source ∧ ∃ mid : Cursor, mid.In source ∧
    Group.FillsOption sw source c.options cur.offset mid.offset ∧
    Body.FillsOption sw source c.body mid.offset next.offset ∧
    Group.NormalOption sw source nested c.options ∧ Body.NormalOption sw source nested c.body ∧
    if c.phrase = "" then c.isBare = true
    else (c.options.isSome = true ↔ cur.rest.head? = some '[') ∧
      (c.body.isSome = true ↔ Opens .brace mid.rest ∨ Opens .quote mid.rest)

def Group.Stands (g : Group) (cur next : Cursor) : Prop :=
  next.In source ∧ g.Fills sw source cur.offset next.offset ∧ g.Normal sw source nested

def Token.Stands (t : Token) (cur next : Cursor) : Prop :=
  next.In source ∧ t.Fills sw source cur.offset next.offset ∧ t.Normal sw source nested

/-- The tokens of a group, to the offset `stop`, where the closing bracket stands. -/
def Token.StandAll (ts : List Token) (stop : Nat) (cur next : Cursor) : Prop :=
  ∃ mid : Cursor, mid.offset = stop ∧ mid.In source ∧ mid.Passes [']'] next ∧
    Token.Spread sw source ts cur.offset stop ∧ Token.NormalAll sw source nested ts

end Stands

section Brackets

variable {sw : Switch} {source : String} {nested : Bool} {cur next : Cursor}

/-- A group stands where its opening bracket does and then its tokens. -/
theorem Group.stands_iff {g : Group} (hin : cur.In source) :
    g.Stands sw source nested cur next ↔
      ∃ start ts stop, cur.Passes ['['] start ∧
        Token.StandAll sw source nested ts stop start next ∧ g = ⟨⟨start.offset, stop⟩, ts⟩ := by
  constructor
  · obtain ⟨⟨a, b⟩, children⟩ := g
    rintro ⟨hnext, ⟨hleft, hspread, hright⟩, hnormal⟩
    obtain ⟨start, hopen, -, rfl⟩ := hin.passes_of_covers hleft
    obtain ⟨last, hlast, rfl⟩ := hright.exists_start
    have hclose : last.Passes [']'] next := hlast.passes_to hnext hright
    exact ⟨start, children, last.offset, hopen, ⟨last, rfl, hlast, hclose, hspread, hnormal⟩, rfl⟩
  · rintro ⟨start, ts, _, hopen, ⟨last, rfl, hlast, hclose, hspread, hnormal⟩, rfl⟩
    exact ⟨hlast.passes hclose, ⟨hin.covers hopen, hspread, hlast.covers hclose⟩, hnormal⟩

/-- A block stands where its left fence does and then its fragments, wherever the scope is said to
be opened. -/
theorem Block.stands_iff {block : Block} (hin : cur.In source) (opener : Nat) :
    Body.Stands sw source nested (.block block) cur next ↔
      ∃ (fence : Fence) (start : Cursor) (fs : List Fragment) (stop : Nat),
        fence.delimiter = .brace ∧ cur.Passes fence.left start ∧
        Fragment.StandAll sw source (.braces fence opener) fs stop start next ∧
        fence.Balanced nested next.rest ∧ block = ⟨⟨start.offset, stop⟩, fs, fence.enclosing⟩ := by
  constructor
  · obtain ⟨⟨a, b⟩, children, e⟩ := block
    rintro ⟨hnext, ⟨⟨hleft, hright⟩, htile⟩, fence, hd, rfl, hbalanced, hnormal⟩
    obtain ⟨start, hopen, -, rfl⟩ := hin.passes_of_covers hleft
    rw [Fence.enclosing, String.toList_ofList] at hopen
    obtain ⟨last, hlast, rfl⟩ := hright.exists_start
    have hclose : last.Passes fence.right next := hlast.passes_list_to hnext hright
    refine ⟨fence, start, children, last.offset, hd, hopen, ?_, ?_, rfl⟩
    · exact ⟨last, rfl, hlast, hclose, by simp [Parser.Scope.closing], htile, hnormal⟩
    · exact (Fence.balanced_restAt_iff hclose hnext).1 hbalanced
  · rintro ⟨fence, start, fs, _, hd, hopen, ⟨last, rfl, hlast, hclose, -, htile, hnormal⟩,
      hbalanced, rfl⟩
    have hnext : next.In source := hlast.passes hclose
    refine ⟨hnext, ⟨⟨hin.covers_ofList hopen, hlast.covers_ofList hclose⟩, htile⟩, fence, hd, rfl,
      ?_, hnormal⟩
    exact (Fence.balanced_restAt_iff hclose hnext).2 hbalanced

end Brackets

end Prosemark
