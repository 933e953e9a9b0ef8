import Mathlib.Logic.Basic
import Prosemark.Proofs.NumberText
import Prosemark.Proofs.Rules

/-!
# The choices of options

Between the blanks of options eight scanners are tried one after the other. The head of a text
calls for one of them at most (`Choice.called?`), by its first character, or by the first one
after the `#` of a fence. No other finds a lexeme there, but for a minus with a digit after it: that
is a number, and an operator or the switch as well (`Choice.stands_iff`). So the order in which
they are tried matters there only (`choices_exclusive`).
-/

namespace Prosemark

open Prosemark.Parser

/-- What can stand in options at a place that is no blank. -/
inductive Choice where
  | identifier
  | operator
  | number
  | brace
  | quote
  | switch
  | opening
  | closing
  deriving DecidableEq, Repr

namespace Choice

/-- The choices in the order in which they are tried. -/
def all : List Choice :=
  [identifier, operator, number, brace, quote, switch, opening, closing]

/-- Whether the scanner of a choice finds a lexeme at the head of a text. -/
def stands (sw : Switch) (cs : List Char) : Choice → Bool
  | identifier => (Lexeme.identifier? cs).isSome
  | operator => (Lexeme.operator? sw cs).isSome
  | number => (Numeral.cut? cs).isSome
  | brace => (Fence.cut? .brace cs).isSome
  | quote => (Fence.cut? .quote cs).isSome
  | switch => (Lexeme.char? sw.char cs).isSome
  | opening => (Lexeme.char? '[' cs).isSome
  | closing => (Lexeme.char? ']' cs).isSome

/-- The choice that is taken: the first that stands there. -/
def first? (sw : Switch) (cs : List Char) : Option Choice :=
  all.find? (stands sw cs)

/-- What opens behind the `#` of a fence. -/
def fenced? : List Char → Option Choice
  | [] => none
  | c :: _ => if c = '\x7b' then some brace else if c = '"' then some quote else none

/-- The choice that the head of a text calls for. -/
def called? (sw : Switch) : List Char → Option Choice
  | [] => none
  | c :: cs =>
    if Charset.isIdStart c then some identifier
    else if c.isDigit then some number
    else if c = sw.char then some switch
    else if Lexeme.startsOperator sw c then some operator
    else if c = '[' then some opening
    else if c = ']' then some closing
    else fenced? ((c :: cs).dropWhile (· == '#'))

end Choice

/-- A minus with a digit after it stands at the head of the text. -/
def SignedDigit (cs : List Char) : Prop :=
  ∃ d rest, cs = '-' :: d :: rest ∧ d.isDigit = true

namespace Choice

variable {sw : Switch} {c : Char} {cs : List Char}

/-! ## Characters that call for a choice -/

theorem called?_of_isIdStart (h : Charset.isIdStart c = true) :
    called? sw (c :: cs) = some identifier :=
  if_pos h

theorem called?_of_isDigit (h : c.isDigit = true) : called? sw (c :: cs) = some number := by
  have hid := Charset.isIdStart_eq_false_of_isDigit h
  simp [called?, hid, h]

theorem called?_switch : called? sw (sw.char :: cs) = some switch := by
  simp [called?, sw.isIdStart_char, sw.isDigit_char]

theorem called?_of_startsOperator (h : Lexeme.startsOperator sw c = true) :
    called? sw (c :: cs) = some operator := by
  obtain ⟨hid, -, hdigit, hswitch⟩ := Lexeme.startsOperator_spec h
  simp [called?, hid, hdigit, hswitch, h]

theorem called?_of_isTokenMark (h : isTokenMark c = true) :
    called? sw (c :: cs) = if c = '[' then some opening else if c = ']' then some closing
      else fenced? ((c :: cs).dropWhile (· == '#')) := by
  simp [called?, isIdStart_eq_false_of_isTokenMark h, isDigit_eq_false_of_isTokenMark h,
    Switch.char_ne_of_isTokenMark h, startsOperator_eq_false_of_isTokenMark h]

theorem called?_of_opens {d : Delimiter} (hd : d ≠ .bar) (h : Opens d cs) :
    called? sw cs = fenced? [d.opening] := by
  have hhead := opens_iff.1 h
  obtain ⟨rest, hrest⟩ := List.head?_eq_some_iff.1 hhead
  obtain ⟨c, tail, rfl, hc⟩ := h.head
  have hmark : isTokenMark c = true ∧ c ≠ '[' ∧ c ≠ ']' := by
    rcases hc with rfl | rfl
    · decide
    · cases d with
      | brace => decide
      | quote => decide
      | bar => exact absurd rfl hd
  rw [called?_of_isTokenMark hmark.1, if_neg hmark.2.1, if_neg hmark.2.2, hrest]
  rfl

/-- Where a blank stands, no choice is called for. -/
theorem called?_blank (h : Charset.isBlank c = true) : called? sw (c :: cs) = none := by
  have hne : ∀ d, Charset.isBlank d = false → c ≠ d := by
    rintro _ hd rfl
    rw [hd] at h
    cases h
  have hfalse : ∀ {p : Char → Bool}, (∀ d, p d = true → Charset.isBlank d = false) →
      p c = false := by
    intro p hp
    rw [Bool.eq_false_iff]
    exact fun hc => hne c (hp c hc) rfl
  have hid : Charset.isIdStart c = false := hfalse fun d => Charset.isBlank_eq_false_of_isIdStart
  have hdigit : c.isDigit = false := hfalse fun d => Charset.isBlank_eq_false_of_isDigit
  have hop : Lexeme.startsOperator sw c = false :=
    hfalse fun d hd => (Lexeme.startsOperator_spec hd).2.1
  have hswitch := hne sw.char sw.isBlank_char
  have hhash := hne '#' (by decide)
  have hopening := hne '[' (by decide)
  have hclosing := hne ']' (by decide)
  have hbrace := hne '\x7b' (by decide)
  have hquote := hne '"' (by decide)
  simp [called?, fenced?, hid, hdigit, hop, hswitch, hhash, hopening, hclosing, hbrace, hquote]

/-! ## What stands at the head of a text -/

theorem stands_nil (a : Choice) : a.stands sw [] = false := by
  cases a <;> rfl

theorem stands_identifier_iff :
    identifier.stands sw (c :: cs) = true ↔ Charset.isIdStart c = true := by
  rw [stands, Option.isSome_iff_ne_none, ne_eq, Lexeme.identifier?_eq_none_iff]
  simp

theorem stands_operator_iff :
    operator.stands sw (c :: cs) = true ↔ Lexeme.startsOperator sw c = true := by
  rw [stands, Option.isSome_iff_ne_none, ne_eq, Lexeme.operator?_eq_none_iff]
  simp

theorem isSome_numeral_iff :
    (Numeral.cut? cs).isSome = true ↔ ∃ n : Numeral, n.Valid ∧ n.chars <+: cs := by
  constructor
  · intro h
    obtain ⟨⟨n, cut⟩, hcut⟩ := Option.isSome_iff_exists.1 h
    obtain ⟨-, hn, hprefix, -⟩ := Numeral.cut?_piece hcut
    exact ⟨n, hn, hprefix⟩
  · rintro ⟨n, hn, hprefix⟩
    cases hcut : Numeral.cut? cs with
    | some p => rfl
    | none => exact absurd hprefix (Numeral.cut?_eq_none_iff.1 hcut n hn)

theorem stands_number_iff :
    number.stands sw (c :: cs) = true ↔ c.isDigit = true ∨ SignedDigit (c :: cs) := by
  have hone : ∀ {d : Char}, d.isDigit = true → IsWhole [d] := by
    intro d hd
    refine ⟨List.cons_ne_nil _ _, by simpa using hd, ?_⟩
    rintro ⟨⟩
    rfl
  rw [stands, isSome_numeral_iff]
  constructor
  · rintro ⟨n, hn, rest, hrest⟩
    obtain ⟨d, ds, hchars, hd⟩ := hn.head
    rw [hchars, List.cons_append] at hrest
    obtain ⟨rfl, rfl⟩ := List.cons.inj hrest
    rcases hd with hd | ⟨rfl, e, es, rfl, he⟩
    · exact .inl hd
    · exact .inr ⟨e, es ++ rest, rfl, he⟩
  · rintro (hc | ⟨d, rest, hcs, hd⟩)
    · exact ⟨⟨false, [c], [], none⟩, (hone hc).valid (by simp) nofun, cs, rfl⟩
    · rw [hcs]
      exact ⟨⟨true, [d], [], none⟩, (hone hd).valid (by simp) nofun, rest, rfl⟩

theorem isSome_fence_iff {d : Delimiter} : (Fence.cut? d cs).isSome = true ↔ Opens d cs := by
  rw [Option.isSome_iff_ne_none, ne_eq, Fence.cut?_eq_none_iff, Classical.not_not]

theorem isSome_char_iff {d : Char} : (Lexeme.char? d (c :: cs)).isSome = true ↔ c = d := by
  rw [Option.isSome_iff_ne_none, ne_eq, Lexeme.char?_eq_none_iff]
  simp

theorem stands_of_fenced? {a : Choice} (h : fenced? (cs.dropWhile (· == '#')) = some a) :
    a.stands sw cs = true := by
  cases hd : cs.dropWhile (· == '#') with
  | nil =>
    rw [hd] at h
    cases h
  | cons d rest =>
    have hopens : ∀ {e : Delimiter}, d = e.opening → Opens e cs := by
      rintro e rfl
      exact opens_iff.2 (by rw [hd]; rfl)
    rw [hd, fenced?] at h
    rcases ite_eq_iff.1 h with ⟨hbrace, ⟨⟩⟩ | ⟨-, h⟩
    · exact isSome_fence_iff.2 (hopens hbrace)
    rcases ite_eq_iff.1 h with ⟨hquote, ⟨⟩⟩ | ⟨-, ⟨⟩⟩
    exact isSome_fence_iff.2 (hopens hquote)

/-- What is called for stands there. -/
theorem stands_of_called? {a : Choice} (h : called? sw (c :: cs) = some a) :
    a.stands sw (c :: cs) = true := by
  rw [called?] at h
  rcases ite_eq_iff.1 h with ⟨hid, ⟨⟩⟩ | ⟨-, h⟩
  · exact stands_identifier_iff.2 hid
  rcases ite_eq_iff.1 h with ⟨hdigit, ⟨⟩⟩ | ⟨-, h⟩
  · exact stands_number_iff.2 (.inl hdigit)
  rcases ite_eq_iff.1 h with ⟨hswitch, ⟨⟩⟩ | ⟨-, h⟩
  · exact isSome_char_iff.2 hswitch
  rcases ite_eq_iff.1 h with ⟨hop, ⟨⟩⟩ | ⟨-, h⟩
  · exact stands_operator_iff.2 hop
  rcases ite_eq_iff.1 h with ⟨hopening, ⟨⟩⟩ | ⟨-, h⟩
  · exact isSome_char_iff.2 hopening
  rcases ite_eq_iff.1 h with ⟨hclosing, ⟨⟩⟩ | ⟨-, h⟩
  · exact isSome_char_iff.2 hclosing
  exact stands_of_fenced? h

/-- The choice that is called for stands there, and a number that starts with a minus, but
nothing else does. -/
theorem stands_iff {a : Choice} :
    a.stands sw cs = true ↔ called? sw cs = some a ∨ a = number ∧ SignedDigit cs := by
  cases cs with
  | nil => simp [stands_nil, called?, SignedDigit]
  | cons c cs =>
    constructor
    · intro h
      cases a with
      | identifier => exact .inl (called?_of_isIdStart (stands_identifier_iff.1 h))
      | operator => exact .inl (called?_of_startsOperator (stands_operator_iff.1 h))
      | number =>
        rcases stands_number_iff.1 h with hdigit | hsigned
        · exact .inl (called?_of_isDigit hdigit)
        · exact .inr ⟨rfl, hsigned⟩
      | brace => exact .inl (called?_of_opens (by decide) (isSome_fence_iff.1 h))
      | quote => exact .inl (called?_of_opens (by decide) (isSome_fence_iff.1 h))
      | switch =>
        obtain rfl : c = sw.char := isSome_char_iff.1 h
        exact .inl called?_switch
      | opening =>
        obtain rfl : c = '[' := isSome_char_iff.1 h
        exact .inl (called?_of_isTokenMark (by decide))
      | closing =>
        obtain rfl : c = ']' := isSome_char_iff.1 h
        exact .inl (called?_of_isTokenMark (by decide))
    · rintro (h | ⟨rfl, h⟩)
      · exact stands_of_called? h
      · exact stands_number_iff.2 (.inr h)

/-- Where a minus with a digit after it stands, the minus calls for an operator or the switch. -/
theorem called?_of_signedDigit (h : SignedDigit cs) :
    called? sw cs = some (if sw.char = '-' then switch else operator) := by
  obtain ⟨d, rest, rfl, -⟩ := h
  by_cases hsw : sw.char = '-'
  · rw [if_pos hsw, ← hsw]
    exact called?_switch
  · rw [if_neg hsw]
    apply called?_of_startsOperator
    rw [← Bool.not_eq_false]
    exact mt Lexeme.startsOperator_minus_eq_false_iff.1 hsw

/-! ## The order of the choices -/

/-- Of two choices that stand at a place, one is a number that starts with a minus. -/
theorem stands_unique {a b : Choice} (ha : a.stands sw cs = true) (hb : b.stands sw cs = true)
    (hsigned : ¬SignedDigit cs) : a = b := by
  rcases stands_iff.1 ha with ha | ⟨-, hsign⟩
  · rcases stands_iff.1 hb with hb | ⟨-, hsign⟩
    · exact Option.some.inj (ha.symm.trans hb)
    · exact absurd hsign hsigned
  · exact absurd hsign hsigned

theorem stands_of_signedDigit {a : Choice} (h : SignedDigit cs) :
    a.stands sw cs = true ↔ a = number ∨ a = if sw.char = '-' then switch else operator := by
  rw [stands_iff, called?_of_signedDigit h, Option.some.injEq, eq_comm, or_comm]
  simp [h]

theorem find?_of_unique {l : List Choice} {p : Choice → Bool} {a : Choice}
    (hmem : a ∈ l) (ha : p a = true) (hunique : ∀ b, p b = true → b = a) : l.find? p = some a := by
  cases h : l.find? p with
  | none => exact absurd ha (List.find?_eq_none.1 h a hmem)
  | some b => rw [hunique b (List.find?_some h)]

/-- If no two choices satisfy `p`, their order does not matter for which one is found. -/
theorem find?_of_perm {l l' : List Choice} {p : Choice → Bool} (hperm : l.Perm l')
    (hunique : ∀ a b, p a = true → p b = true → a = b) : l.find? p = l'.find? p := by
  cases h : l'.find? p with
  | none =>
    rw [List.find?_eq_none] at h ⊢
    exact fun a ha => h a (hperm.subset ha)
  | some b =>
    have hb := List.find?_some h
    have hmem := hperm.symm.subset (List.mem_of_find?_eq_some h)
    exact find?_of_unique hmem hb fun a ha => hunique a b ha hb

theorem mem_all (a : Choice) : a ∈ all := by
  cases a <;> decide

theorem first?_eq_called? (h : ¬SignedDigit cs) : first? sw cs = called? sw cs := by
  cases hc : called? sw cs with
  | none =>
    rw [first?, List.find?_eq_none]
    intro a _ ha
    rcases stands_iff.1 ha with ha | ⟨-, hsigned⟩
    · rw [hc] at ha
      cases ha
    · exact h hsigned
  | some a =>
    have ha := stands_iff.2 (.inl hc)
    exact find?_of_unique (mem_all a) ha fun b hb => stands_unique hb ha h

/-- Before a digit, a minus is part of a number only if it is the switch. -/
theorem first?_of_signedDigit (h : SignedDigit cs) :
    first? sw cs = some (if sw.char = '-' then number else operator) := by
  have hid : identifier.stands sw cs = false := by
    rw [Bool.eq_false_iff, ne_eq, stands_of_signedDigit h]
    split <;> simp
  have hnumber : number.stands sw cs = true := (stands_of_signedDigit h).2 (.inl rfl)
  by_cases hsw : sw.char = '-'
  · have hop : operator.stands sw cs = false := by
      rw [Bool.eq_false_iff, ne_eq, stands_of_signedDigit h, if_pos hsw]
      simp
    simp [first?, all, hid, hop, hnumber, hsw]
  · have hop : operator.stands sw cs = true := by
      rw [stands_of_signedDigit h, if_neg hsw]
      exact .inr rfl
    simp [first?, all, hid, hop, hsw]

/-! ## What is read -/

/-- Whether a token is one that the choice starts. -/
def reads : Choice → Token → Bool
  | identifier, .identifier _ _ => true
  | operator, .operator _ _ => true
  | number, .number _ _ => true
  | brace, .block _ => true
  | quote, .text _ => true
  | switch, .command _ => true
  | switch, .block _ => true
  | switch, .text _ => true
  | opening, .group _ => true
  | _, _ => false

end Choice

section Readers

variable {sw : Switch} {bound : Nat} {nested : Bool} {cur next : Cursor}

theorem Choice.first?_of_called? {a : Choice} {c : Char} {cs : List Char}
    (h : called? sw (c :: cs) = some a) (hc : c ≠ '-') : first? sw (c :: cs) = some a := by
  rw [first?_eq_called?, h]
  rintro ⟨d, rest, hsigned, -⟩
  exact hc (List.cons.inj hsigned).1

theorem Choice.first?_of_opens {d : Delimiter} {cs : List Char} (hd : d ≠ .bar) (h : Opens d cs) :
    first? sw cs = fenced? [d.opening] := by
  refine (first?_eq_called? ?_).trans (called?_of_opens hd h)
  rintro ⟨e, rest, rfl, -⟩
  have hmark : ('-' == '-') = false :=
    h.forall_head (by decide) (fun d => by cases d <;> decide) '-' rfl
  cases hmark

/-- An identifier, an operator or a number is read where it is the first that stands. -/
theorem Parser.IsAtom.exists_first? {t : Token} (h : IsAtom sw cur t next) :
    ∃ a, Choice.first? sw cur.rest = some a ∧ a.reads t = true := by
  cases h with
  | identifier pass kind =>
    obtain ⟨c, cs, rfl, hc, -⟩ := kind
    rw [pass.rest_eq]
    refine ⟨.identifier, Choice.first?_of_called? (Choice.called?_of_isIdStart hc) ?_, rfl⟩
    rintro rfl
    exact absurd hc (by decide)
  | operator pass kind =>
    obtain ⟨c, cs, rfl, hc⟩ := kind.startsOperator_head
    rw [pass.rest_eq]
    refine ⟨.operator, ?_, rfl⟩
    by_cases hsigned : SignedDigit (c :: cs ++ next.rest)
    · have hswitch : sw.char ≠ '-' := by
        obtain ⟨d, rest, hsigned, -⟩ := hsigned
        obtain ⟨rfl, -⟩ := List.cons.inj hsigned
        exact (Lexeme.startsOperator_spec hc).2.2.2.symm
      rw [Choice.first?_of_signedDigit hsigned, if_neg hswitch]
    · exact (Choice.first?_eq_called? hsigned).trans (Choice.called?_of_startsOperator hc)
  | number pass longest head =>
    refine ⟨.number, ?_, rfl⟩
    obtain ⟨c, cs, hchars, hc⟩ := longest.1.head
    rw [pass.rest_eq, hchars] at head ⊢
    rcases hc with hc | ⟨rfl, d, ds, rfl, hd⟩
    · refine Choice.first?_of_called? (Choice.called?_of_isDigit hc) ?_
      rintro rfl
      exact absurd hc (by decide)
    · have hswitch := Lexeme.startsOperator_minus_eq_false_iff.1 (head '-' rfl)
      have hsigned : SignedDigit ('-' :: d :: ds ++ next.rest) := ⟨d, ds ++ next.rest, rfl, hd⟩
      rw [Choice.first?_of_signedDigit hsigned, if_pos hswitch]

/-- The token that is read is one that the first choice at its place starts. -/
theorem Parser.Finds.exists_first? {h : 4 * cur.rest.length + 2 < bound} {t : Token}
    (hf : Finds (token? sw bound nested cur h) t next) :
    ∃ a, Choice.first? sw cur.rest = some a ∧ a.reads t = true := by
  obtain ⟨bound, rfl⟩ : ∃ b, bound = b + 2 := Nat.exists_eq_add_of_le' (by omega)
  rcases token?_finds_iff.1 hf with hatom | ⟨body, ⟨_, hbody⟩, rfl⟩ |
    ⟨start, f, hswitch, ⟨_, hexpression⟩, rfl⟩ | ⟨g, ⟨_, hgroup⟩, rfl⟩
  · exact hatom.exists_first?
  · rcases body?_finds_iff.1 hbody with ⟨fence, start, fs, stop, hd, hleft, -, -, rfl⟩ |
      ⟨fence, start, mid, inner, hd, hencloses, -, rfl⟩
    · refine ⟨.brace, ?_, rfl⟩
      rw [Choice.first?_of_opens (by rw [hd]; decide) hleft.opens, hd]
      rfl
    · refine ⟨.quote, ?_, rfl⟩
      rw [Choice.first?_of_opens (by rw [hd]; decide) hencloses.left.opens, hd]
      rfl
  · refine ⟨.switch, ?_, by cases f <;> rfl⟩
    obtain ⟨d, rest, hrest, hd⟩ := head_of_expression hexpression
    rw [hswitch.rest_eq]
    refine (Choice.first?_eq_called? ?_).trans Choice.called?_switch
    rintro ⟨e, es, hsigned, he⟩
    rw [hrest] at hsigned
    obtain ⟨rfl, -⟩ := List.cons.inj (List.cons.inj hsigned).2
    rw [he] at hd
    cases hd
  · obtain ⟨rest, hrest⟩ := List.head?_eq_some_iff.1 hgroup.bracket
    rw [hrest]
    exact ⟨.opening, Choice.first?_of_called? (Choice.called?_of_isTokenMark rfl) (by decide), rfl⟩

/-- No token is read where nothing stands but a closing bracket. -/
theorem Parser.token?_eq_none_iff_stands {h : 4 * cur.rest.length + 2 < bound} :
    token? sw bound nested cur h = .ok none ↔
      ∀ a : Choice, a.stands sw cur.rest = true → a = .closing := by
  rw [token?_eq_none_iff, NoToken, NoAtom, ← Lexeme.identifier?_eq_none_iff,
    ← Lexeme.operator?_eq_none_iff, ← Numeral.cut?_eq_none_iff, ← Fence.cut?_eq_none_iff,
    ← Fence.cut?_eq_none_iff, ← Lexeme.char?_eq_none_iff, ← Lexeme.char?_eq_none_iff]
  constructor
  · rintro ⟨⟨hid, hop, hnumber⟩, hbrace, hquote, hswitch, hopening⟩ a ha
    cases a with
    | identifier => simp [Choice.stands, hid] at ha
    | operator => simp [Choice.stands, hop] at ha
    | number => simp [Choice.stands, hnumber] at ha
    | brace => simp [Choice.stands, hbrace] at ha
    | quote => simp [Choice.stands, hquote] at ha
    | switch => simp [Choice.stands, hswitch] at ha
    | opening => simp [Choice.stands, hopening] at ha
    | closing => rfl
  · intro h
    have hother : ∀ a : Choice, a ≠ .closing → a.stands sw cur.rest = false :=
      fun a ha => Bool.eq_false_iff.2 (mt (h a) ha)
    have hid := hother .identifier (by decide)
    have hop := hother .operator (by decide)
    have hnumber := hother .number (by decide)
    have hbrace := hother .brace (by decide)
    have hquote := hother .quote (by decide)
    have hswitch := hother .switch (by decide)
    have hopening := hother .opening (by decide)
    simp only [Choice.stands, Option.isSome_eq_false_iff, Option.isNone_iff_eq_none] at *
    exact ⟨⟨hid, hop, hnumber⟩, hbrace, hquote, hswitch, hopening⟩

end Readers

/-- The choices of options exclude each other, and none stands at a blank, except that a minus
with a digit after it is a number, and also the switch or, if it is not the switch, an operator. So
in whatever order they are tried, the same one is found, except there. -/
theorem choices_exclusive (sw : Switch) (source : String) (offset : Nat) :
    (∀ c ∈ (restAt source offset).head?, Charset.isBlank c = true →
      ∀ a : Choice, a.stands sw (restAt source offset) = false) ∧
    (¬SignedDigit (restAt source offset) →
      (∀ a b : Choice, a.stands sw (restAt source offset) = true →
        b.stands sw (restAt source offset) = true → a = b) ∧
      ∀ order : List Choice, order.Perm Choice.all →
        order.find? (Choice.stands sw (restAt source offset)) =
          Choice.first? sw (restAt source offset)) ∧
    (SignedDigit (restAt source offset) → ∀ a : Choice,
      a.stands sw (restAt source offset) = true ↔
        a = .number ∨ a = if sw.char = '-' then .switch else .operator) := by
  generalize restAt source offset = cs
  refine ⟨?_, ?_, ?_⟩
  · intro c hc hblank a
    obtain ⟨rest, rfl⟩ := List.head?_eq_some_iff.1 hc
    rw [Bool.eq_false_iff]
    intro ha
    rcases Choice.stands_iff.1 ha with ha | ⟨-, d, tail, hsigned, -⟩
    · rw [Choice.called?_blank hblank] at ha
      cases ha
    · obtain ⟨rfl, -⟩ := List.cons.inj hsigned
      exact absurd hblank (by decide)
  · intro hsigned
    have hunique : ∀ a b : Choice, a.stands sw cs = true → b.stands sw cs = true → a = b :=
      fun a b ha hb => Choice.stands_unique ha hb hsigned
    exact ⟨hunique, fun order hperm => Choice.find?_of_perm hperm hunique⟩
  · exact fun hsigned a => Choice.stands_of_signedDigit hsigned

/-- A letter, a blank, and a minus before a digit, which is an operator or the switch as well. -/
theorem choices_exclusive_minus :
    (∀ order : List Choice, order.Perm Choice.all →
      order.find? (Choice.stands .standard (restAt "f[é -5]" 2)) = some .identifier) ∧
    (∀ a : Choice, a.stands .standard (restAt "f[é -5]" 4) = false) ∧
    (∀ a : Choice, a.stands .standard (restAt "f[é -5]" 5) = true ↔
      a = .number ∨ a = .operator) ∧
    ∀ a : Choice, a.stands ⟨'-', by decide, by decide⟩ (restAt "f[é -5]" 5) = true ↔
      a = .number ∨ a = .switch := by
  have hletter : ¬SignedDigit (restAt "f[é -5]" 2) := by
    rintro ⟨d, rest, hrest, -⟩
    cases hrest
  have hminus : SignedDigit (restAt "f[é -5]" 5) := ⟨'5', [']'], rfl, rfl⟩
  refine ⟨?_, ?_, ?_, ?_⟩
  · intro order hperm
    exact ((choices_exclusive .standard "f[é -5]" 2).2.1 hletter).2 order hperm
  · exact (choices_exclusive .standard "f[é -5]" 4).1 ' ' rfl rfl
  · exact (choices_exclusive .standard "f[é -5]" 5).2.2 hminus
  · exact (choices_exclusive ⟨'-', by decide, by decide⟩ "f[é -5]" 5).2.2 hminus

end Prosemark
