import Prosemark.Tree.Json
import Prosemark.Proofs.NumberText

/-!
# JSON values read back from their texts

What `pretty` writes is read as the value that was written, if its numbers are in range
(`Json.Writable`) and no member of it is left out (`Json.KeptBy`). The reader takes a value with
any text behind it, in which nothing goes on with a number (`Reader.Reads`), so that the texts of
items and members can be read one after the other (`Json.reads_pretty`). The bound of the reader
counts the characters that are left: it takes at most four steps for each.
-/

namespace Prosemark.Json

open Atom

/-! ## Strings -/

/-- A control character that has no letter is escaped by its number. -/
theorem fourDigits?_lower : ∀ n < 0x20,
    fourDigits? '0' '0' (Hexadecimal.lower (n / 16)) (Hexadecimal.lower n) = some n := by
  decide

/-- The text and the rest of a string with one more character at its head. -/
def prepend (c : Char) (p : List Char × List Char) : List Char × List Char :=
  (c :: p.1, p.2)

theorem bind_prepend (c : Char) (found : Option (List Char × List Char)) :
    (found.bind fun p => some (c :: p.1, p.2)) = found.map (prepend c) :=
  (Option.map_eq_bind).symm

theorem stringTail_plain {c : Char} (hquote : c ≠ '"') (hslash : c ≠ '\\')
    (hcontrol : ¬ c.toNat < 0x20) (cs : List Char) :
    stringTail none (c :: cs) = (stringTail none cs).map (prepend c) := by
  have hplain : ¬ (c.toNat < 0x20 ∨ c = '\\') := not_or.2 ⟨hcontrol, hslash⟩
  rw [← bind_prepend, stringTail, if_neg hquote, if_neg hplain]
  · rfl
  · exact fun _ _ _ _ _ h => absurd h hslash
  · exact fun _ _ h => absurd h hslash

theorem stringTail_letter {e c : Char} (he : e ≠ 'u') (h : unescape? e = some c)
    (cs : List Char) :
    stringTail none ('\\' :: e :: cs) = (stringTail none cs).map (prepend c) := by
  rw [← bind_prepend, stringTail, h]
  · rfl
  · exact fun _ _ _ _ _ h => absurd h he

theorem stringTail_control {c : Char} (h : c.toNat < 0x20) (cs : List Char) :
    stringTail none ('\\' :: 'u' :: '0' :: '0' :: Hexadecimal.lower (c.toNat / 16) ::
        Hexadecimal.lower c.toNat :: cs) =
      (stringTail none cs).map (prepend c) := by
  have hhigh : isHighSurrogate c.toNat = false := by
    unfold isHighSurrogate
    simp
    omega
  have hlow : isLowSurrogate c.toNat = false := by
    unfold isLowSurrogate
    simp
    omega
  rw [stringTail, fourDigits?_lower _ h]
  simp only [Option.bind_eq_bind, Option.bind_some, hhigh, hlow, Bool.false_eq_true, if_false,
    Char.ofNat_toNat]
  exact bind_prepend c _

theorem stringTail_escape (c : Char) (cs : List Char) :
    stringTail none (escape c ++ cs) = (stringTail none cs).map (prepend c) := by
  by_cases hletter : c = '"' ∨ c = '\\' ∨ c = '\x08' ∨ c = '\t' ∨ c = '\n' ∨ c = '\x0c' ∨
      c = '\r'
  · rcases hletter with rfl | rfl | rfl | rfl | rfl | rfl | rfl <;>
      exact stringTail_letter (by decide) (by decide) cs
  · simp only [not_or] at hletter
    obtain ⟨hquote, hslash, hb, ht, hn, hf, hr⟩ := hletter
    unfold escape
    rw [if_neg hquote, if_neg hslash, if_neg hb, if_neg ht, if_neg hn, if_neg hf, if_neg hr]
    by_cases hcontrol : c.toNat < 0x20
    · rw [if_pos hcontrol]
      exact stringTail_control hcontrol cs
    · rw [if_neg hcontrol]
      exact stringTail_plain hquote hslash hcontrol cs

/-- A string is read as what was quoted. -/
theorem stringTail_escaped (text tail : List Char) :
    stringTail none (text.flatMap escape ++ '"' :: tail) = some (text, tail) := by
  induction text with
  | nil => rfl
  | cons c cs ih =>
    rw [List.flatMap_cons, List.append_assoc, stringTail_escape, ih]
    rfl

/-! ## Numbers and words -/

/-- A numeral starts with a minus or a digit. -/
theorem exists_head_of_valid {n : Numeral} (h : n.Valid) :
    ∃ c cs, n.chars = c :: cs ∧ (c = '-' ∨ c.isDigit = true) := by
  obtain ⟨d, ds, hds⟩ := List.exists_cons_of_ne_nil h.whole_ne_nil
  rw [Numeral.chars_eq, hds]
  cases n.negative with
  | true => exact ⟨'-', _, rfl, .inl rfl⟩
  | false => exact ⟨d, _, rfl, .inr (h.whole d (by rw [hds]; exact List.mem_cons_self))⟩

/-- Nothing that comes next goes on with a number. -/
def EndsNumber (tail : List Char) : Prop :=
  ∀ c ∈ tail.head?, Numeral.isPart c = false

section Numbers

variable {rounding : Rounding}

/-- A numeral is read as the number nearest to it, if that is finite. -/
def Rounding.IsNearest (rounding : Rounding) : Prop :=
  ∀ numeral : Numeral, numeral.nearest.isFinite = true → rounding numeral = some numeral.nearest

theorem Rounding.isNearest_nearest : Rounding.nearest.IsNearest :=
  fun _ h => if_pos h

theorem numeral?_chars {n : Numeral} {j : Json} {tail : List Char} (hvalid : n.Valid)
    (hj : ofNumeral? rounding n = some j) (htail : EndsNumber tail) :
    numeral? rounding (n.chars ++ tail) = some (j, tail) := by
  unfold numeral?
  rw [hvalid.scan?_eq htail]
  simp only [Option.bind_eq_bind, Option.bind_some, hj]
  rfl

theorem ofNumeral?_ofInt {n : Int} (hlower : -Int.pow 2 63 ≤ n) (hupper : n < Int.pow 2 64) :
    ofNumeral? rounding (.ofInt n) = some (.integer n) := by
  unfold ofNumeral?
  rw [Numeral.isInteger_ofInt, Numeral.integer_ofInt, decide_eq_true hlower, decide_eq_true hupper]
  rfl

theorem ofNumeral?_nearest {n : Numeral} (hrounding : rounding.IsNearest)
    (hinteger : n.isInteger = false) (hfinite : n.nearest.isFinite = true) :
    ofNumeral? rounding n = some (.float n.nearest) := by
  unfold ofNumeral?
  rw [hinteger, hrounding n hfinite]
  rfl

end Numbers

/-! ## Blanks -/

theorem skipBlanks_of_head {c : Char} {cs : List Char} (h : isBlank c = false) :
    skipBlanks (c :: cs) = c :: cs := by
  unfold skipBlanks
  rw [List.dropWhile_cons_of_neg (Bool.eq_false_iff.1 h)]

theorem skipBlanks_quote (s : String) (tail : List Char) :
    ∃ rest, skipBlanks (quote s tail) = '"' :: rest ∧
      stringTail none rest = some (s.toList, tail) :=
  ⟨_, skipBlanks_of_head (by decide), stringTail_escaped s.toList tail⟩

theorem skipBlanks_space (cs : List Char) : skipBlanks (' ' :: cs) = skipBlanks cs :=
  rfl

theorem skipBlanks_newLine (indent : Nat) (tail : List Char) :
    skipBlanks (newLine indent tail) = skipBlanks tail := by
  show skipBlanks (List.replicate indent ' ' ++ tail) = skipBlanks tail
  induction indent with
  | zero => rfl
  | succ n ih =>
    rw [List.replicate_succ, List.cons_append, skipBlanks_space, ih]

/-- A closing bracket stands on a line of its own. -/
theorem skipBlanks_newLine_of_head {c : Char} (h : isBlank c = false) (indent : Nat)
    (tail : List Char) : skipBlanks (newLine indent (c :: tail)) = c :: tail := by
  rw [skipBlanks_newLine, skipBlanks_of_head h]

namespace Reader

variable {rounding : Rounding} {bound levels : Nat} {wanted : Wanted} {cs ds : List Char}

/-- Blanks before a value do not matter. -/
theorem value?_congr (h : skipBlanks cs = skipBlanks ds) :
    value? rounding bound levels wanted cs = value? rounding bound levels wanted ds := by
  cases bound with
  | zero => rw [value?, value?]
  | succ bound => rw [value?, value?, h]

/-- No value starts with a closing bracket. -/
theorem value?_closing {rest : List Char} (h : skipBlanks cs = ']' :: rest) :
    value? rounding bound levels wanted cs = none := by
  cases bound with
  | zero => rw [value?]
  | succ bound =>
    rw [value?, h]
    rfl

theorem items?_congr {wants : List Wanted} (h : skipBlanks cs = skipBlanks ds) :
    items? rounding bound levels wants cs = items? rounding bound levels wants ds := by
  cases bound with
  | zero => rw [items?, items?]
  | succ bound => rw [items?, items?, value?_congr h]

theorem members?_congr (h : skipBlanks cs = skipBlanks ds) :
    members? rounding bound levels wanted cs = members? rounding bound levels wanted ds := by
  cases bound with
  | zero => rw [members?, members?]
  | succ bound => rw [members?, members?, h]

/-! ## Scalars -/

section Scalars

variable {tail : List Char}

theorem value?_string (s : String) :
    value? rounding (bound + 1) levels wanted (quote s tail) = some (.string s, tail) := by
  obtain ⟨text, hquote, htext⟩ := skipBlanks_quote s tail
  rw [value?, hquote]
  simp only [if_true, htext, String.ofList_toList, Option.bind_eq_bind, Option.bind_some]
  rfl

theorem value?_null :
    value? rounding (bound + 1) levels wanted (scalar .null tail) = some (.null, tail) := by
  have hword : skipBlanks (scalar .null tail) = 'n' :: ("ull".toList ++ tail) :=
    skipBlanks_of_head (by decide)
  rw [value?, hword]
  rfl

theorem value?_bool (b : Bool) :
    value? rounding (bound + 1) levels wanted (scalar (.bool b) tail) = some (.bool b, tail) := by
  cases b with
  | false =>
    have hword : skipBlanks (scalar (.bool false) tail) = 'f' :: ("alse".toList ++ tail) :=
      skipBlanks_of_head (by decide)
    rw [value?, hword]
    rfl
  | true =>
    have hword : skipBlanks (scalar (.bool true) tail) = 't' :: ("rue".toList ++ tail) :=
      skipBlanks_of_head (by decide)
    rw [value?, hword]
    rfl

theorem value?_numeral {n : Numeral} {j : Json} (hvalid : n.Valid)
    (hj : ofNumeral? rounding n = some j) (htail : EndsNumber tail) :
    value? rounding (bound + 1) levels wanted (n.chars ++ tail) = some (j, tail) := by
  have hread := numeral?_chars hvalid hj htail
  obtain ⟨c, cs, hchars, hc⟩ := exists_head_of_valid hvalid
  have hne : ∀ d : Char, d ≠ '-' → d.isDigit = false → c ≠ d := by
    rintro d hminus hdigit rfl
    rcases hc with hc | hc
    · exact hminus hc
    · rw [hdigit] at hc
      cases hc
  have hblank : isBlank c = false := by
    unfold isBlank
    simp [hne ' ' (by decide) (by decide), hne '\n' (by decide) (by decide),
      hne '\r' (by decide) (by decide), hne '\t' (by decide) (by decide)]
  rw [hchars, List.cons_append] at hread ⊢
  rw [value?, skipBlanks_of_head hblank]
  simp only [hne '"' (by decide) (by decide), hne '[' (by decide) (by decide),
    hne '\x7b' (by decide) (by decide), hne 'n' (by decide) (by decide),
    hne 't' (by decide) (by decide), hne 'f' (by decide) (by decide), if_false, hread]

end Scalars

/-! ## Arrays -/

section Arrays

variable {wants : List Wanted} {j : Json} {items : List Json} {rest after last : List Char}

theorem value?_array (h : array? rounding bound levels wanted.items cs = some (j, rest)) :
    value? rounding (bound + 1) (levels + 1) wanted ('[' :: cs) = some (j, rest) := by
  rw [value?, skipBlanks_of_head (by decide), ← h]
  rfl

theorem array?_empty :
    array? rounding (bound + 1) levels wants (']' :: rest) = some (.array [], rest) := by
  rw [array?, skipBlanks_of_head (by decide)]
  rfl

theorem items?_last (hvalue : value? rounding bound levels (wants.headD .all) cs = some (j, rest))
    (hclose : skipBlanks rest = ']' :: after) :
    items? rounding (bound + 1) levels wants cs = some ([j], after) := by
  rw [items?, hvalue]
  simp only [Option.bind_eq_bind, Option.bind_some, hclose]
  rfl

theorem items?_more (hvalue : value? rounding bound levels (wants.headD .all) cs = some (j, rest))
    (hcomma : skipBlanks rest = ',' :: after)
    (hmore : items? rounding bound levels wants.tail after = some (items, last)) :
    items? rounding (bound + 1) levels wants cs = some (j :: items, last) := by
  rw [items?, hvalue]
  simp only [Option.bind_eq_bind, Option.bind_some, hcomma, hmore]
  rfl

theorem array?_of_items? (h : items? rounding bound levels wants cs = some (items, last)) :
    array? rounding (bound + 1) levels wants cs = some (.array items, last) := by
  rw [array?]
  split
  · next rest hclose =>
    cases bound with
    | zero =>
      rw [items?] at h
      cases h
    | succ bound =>
      rw [items?, value?_closing hclose] at h
      cases h
  · rw [h]
    rfl

end Arrays

/-! ## Objects -/

section Objects

variable {name : String} {members : List (String × Json)} {j : Json}
  {value rest after last : List Char}

theorem value?_object (h : object? rounding bound levels wanted cs = some (j, rest)) :
    value? rounding (bound + 1) (levels + 1) wanted ('\x7b' :: cs) = some (j, rest) := by
  rw [value?, skipBlanks_of_head (by decide), ← h]
  rfl

theorem object?_empty :
    object? rounding (bound + 1) levels wanted ('\x7d' :: rest) = some (.object [], rest) := by
  rw [object?, skipBlanks_of_head (by decide)]
  rfl

theorem member?_of_value? {inner : Wanted} (hwanted : wanted.member? name = some inner)
    (hvalue : value? rounding bound levels inner cs = some (j, rest)) :
    member? rounding (bound + 1) levels name wanted cs = some ([(name, j)], rest) := by
  rw [member?, hwanted]
  simp only [hvalue, Option.bind_eq_bind, Option.bind_some]
  rfl

theorem members?_last
    (hmember : member? rounding bound levels name wanted value = some (members, rest))
    (hclose : skipBlanks rest = '\x7d' :: after) :
    members? rounding (bound + 1) levels wanted (quote name (':' :: value)) =
      some (members, after) := by
  obtain ⟨text, hname, htext⟩ := skipBlanks_quote name (':' :: value)
  have hcolon : skipBlanks (':' :: value) = ':' :: value := skipBlanks_of_head (by decide)
  rw [members?, hname]
  simp only [htext, hcolon, String.ofList_toList, hmember, hclose, Option.bind_eq_bind,
    Option.bind_some]
  rfl

theorem members?_more {more : List (String × Json)}
    (hmember : member? rounding bound levels name wanted value = some (members, rest))
    (hcomma : skipBlanks rest = ',' :: after)
    (hmore : members? rounding bound levels wanted after = some (more, last)) :
    members? rounding (bound + 1) levels wanted (quote name (':' :: value)) =
      some (members ++ more, last) := by
  obtain ⟨text, hname, htext⟩ := skipBlanks_quote name (':' :: value)
  have hcolon : skipBlanks (':' :: value) = ':' :: value := skipBlanks_of_head (by decide)
  rw [members?, hname]
  simp only [htext, hcolon, String.ofList_toList, hmember, hcomma, hmore, Option.bind_eq_bind,
    Option.bind_some]
  rfl

theorem object?_of_members? (h : members? rounding bound levels wanted cs = some (members, last)) :
    object? rounding (bound + 1) levels wanted cs = some (.object members, last) := by
  rw [object?]
  split
  · next rest hclose =>
    cases bound with
    | zero =>
      rw [members?] at h
      cases h
    | succ bound =>
      rw [members?, hclose] at h
      cases h
  · rw [h]
    rfl

end Objects

end Reader

/-! ## Values -/

mutual

/-- Integers have at most 64 bits, with or without a sign, and floating-point numbers are finite. -/
def Writable : Json → Prop
  | .integer n => -Int.pow 2 63 ≤ n ∧ n < Int.pow 2 64
  | .float x => x.isFinite = true
  | .array items => ItemsWritable items
  | .object members => MembersWritable members
  | _ => True

def ItemsWritable : List Json → Prop
  | [] => True
  | j :: rest => j.Writable ∧ ItemsWritable rest

def MembersWritable : List (String × Json) → Prop
  | [] => True
  | (_, j) :: rest => j.Writable ∧ MembersWritable rest

end

mutual

/-- Of a value for which this is wanted no member is left out. -/
def KeptBy : Json → Wanted → Prop
  | .array items, wanted => ItemsKeptBy items wanted.items
  | .object members, wanted => MembersKeptBy members wanted
  | _, _ => True

def ItemsKeptBy : List Json → List Wanted → Prop
  | [], _ => True
  | j :: rest, wants => j.KeptBy (wants.headD .all) ∧ ItemsKeptBy rest wants.tail

def MembersKeptBy : List (String × Json) → Wanted → Prop
  | [], _ => True
  | (name, j) :: rest, wanted =>
    (∃ inner, wanted.member? name = some inner ∧ j.KeptBy inner) ∧ MembersKeptBy rest wanted

end

mutual

theorem keptBy_all : ∀ j : Json, j.KeptBy .all
  | .null | .bool _ | .integer _ | .float _ | .string _ => trivial
  | .array items => itemsKeptBy_nil items
  | .object members => membersKeptBy_all members

theorem itemsKeptBy_nil : ∀ items : List Json, ItemsKeptBy items []
  | [] => trivial
  | j :: rest => ⟨keptBy_all j, itemsKeptBy_nil rest⟩

theorem membersKeptBy_all : ∀ members : List (String × Json), MembersKeptBy members .all
  | [] => trivial
  | (_, j) :: rest => ⟨⟨.all, rfl, keptBy_all j⟩, membersKeptBy_all rest⟩

end

/-! ## Lengths -/

theorem length_newLine (indent : Nat) (tail : List Char) :
    (newLine indent tail).length = indent + tail.length + 1 := by
  unfold newLine
  simp

theorem length_le_quote (s : String) (tail : List Char) :
    tail.length < (quote s tail).length := by
  unfold quote
  simp
  omega

theorem length_le_scalar (j : Json) (tail : List Char) :
    tail.length ≤ (scalar j tail).length := by
  unfold scalar
  split
  case h_5 s => exact Nat.le_of_lt (length_le_quote s tail)
  all_goals
    rw [List.length_append]
    omega

mutual

theorem length_le_prettyBefore : ∀ (j : Json) (indent : Nat) (tail : List Char),
    tail.length ≤ (prettyBefore indent j tail).length
  | .null, _, tail => length_le_scalar .null tail
  | .bool b, _, tail => length_le_scalar (.bool b) tail
  | .integer n, _, tail => length_le_scalar (.integer n) tail
  | .float x, _, tail => length_le_scalar (.float x) tail
  | .string s, _, tail => length_le_scalar (.string s) tail
  | .array [], _, tail => Nat.le_add_right tail.length 2
  | .array (j :: rest), indent, tail => by
    have hrest := length_le_prettyItems rest (indent + 2) (newLine indent (']' :: tail))
    have hj := length_le_prettyBefore j (indent + 2)
      (prettyItems (indent + 2) rest (newLine indent (']' :: tail)))
    simp only [prettyBefore, List.length_cons, length_newLine] at hrest ⊢
    omega
  | .object [], _, tail => Nat.le_add_right tail.length 2
  | .object ((name, j) :: rest), indent, tail => by
    have hrest := length_le_prettyMembers rest (indent + 2) (newLine indent ('\x7d' :: tail))
    have hj := length_le_prettyBefore j (indent + 2)
      (prettyMembers (indent + 2) rest (newLine indent ('\x7d' :: tail)))
    have hname := length_le_quote name (':' :: ' ' :: prettyBefore (indent + 2) j
      (prettyMembers (indent + 2) rest (newLine indent ('\x7d' :: tail))))
    simp only [prettyBefore, List.length_cons, length_newLine] at hrest hname ⊢
    omega

theorem length_le_prettyItems : ∀ (items : List Json) (indent : Nat) (tail : List Char),
    tail.length ≤ (prettyItems indent items tail).length
  | [], _, tail => Nat.le_refl tail.length
  | j :: rest, indent, tail => by
    have hrest := length_le_prettyItems rest indent tail
    have hj := length_le_prettyBefore j indent (prettyItems indent rest tail)
    simp only [prettyItems, List.length_cons, length_newLine]
    omega

theorem length_le_prettyMembers : ∀ (members : List (String × Json)) (indent : Nat)
    (tail : List Char), tail.length ≤ (prettyMembers indent members tail).length
  | [], _, tail => Nat.le_refl tail.length
  | (name, j) :: rest, indent, tail => by
    have hrest := length_le_prettyMembers rest indent tail
    have hj := length_le_prettyBefore j indent (prettyMembers indent rest tail)
    have hname := length_le_quote name (':' :: ' ' :: prettyBefore indent j
      (prettyMembers indent rest tail))
    simp only [prettyMembers, List.length_cons, length_newLine] at hname ⊢
    omega

end

/-! ## Whole values -/

namespace Reader

/-- The text of a value, with any text behind it that does not go on with a number, is read as the
value. -/
def Reads (rounding : Rounding) (levels indent : Nat) (wanted : Wanted) (j : Json) : Prop :=
  ∀ (bound : Nat) (tail : List Char), EndsNumber tail →
    4 * (prettyBefore indent j tail).length < bound →
      value? rounding bound levels wanted (prettyBefore indent j tail) = some (j, tail)

theorem reads_of_value? {levels indent : Nat} {wanted : Wanted} {j : Json}
    (h : ∀ (bound : Nat) (tail : List Char), EndsNumber tail →
      value? rounding (bound + 1) levels wanted (prettyBefore indent j tail) = some (j, tail)) :
    Reads rounding levels indent wanted j := by
  intro bound tail htail hbound
  cases bound with
  | zero => omega
  | succ bound => exact h bound tail htail

end Reader

open Reader

theorem endsNumber_newLine (indent : Nat) (tail : List Char) :
    EndsNumber (newLine indent tail) := by
  rintro _ ⟨⟩
  decide

theorem endsNumber_prettyItems (items : List Json) (indent outer : Nat) (tail : List Char) :
    EndsNumber (prettyItems indent items (newLine outer tail)) := by
  cases items with
  | nil => exact endsNumber_newLine outer tail
  | cons j rest =>
    rintro _ ⟨⟩
    decide

theorem endsNumber_prettyMembers (members : List (String × Json)) (indent outer : Nat)
    (tail : List Char) : EndsNumber (prettyMembers indent members (newLine outer tail)) := by
  cases members with
  | nil => exact endsNumber_newLine outer tail
  | cons member rest =>
    rintro _ ⟨⟩
    decide

/-- What stands between the brackets of an array, and after it. -/
def arrayBody (indent outer : Nat) (j : Json) (rest : List Json) (tail : List Char) : List Char :=
  prettyBefore indent j (prettyItems indent rest (newLine outer (']' :: tail)))

/-- What stands between the braces of an object, and after it. -/
def objectBody (indent outer : Nat) (name : String) (j : Json) (rest : List (String × Json))
    (tail : List Char) : List Char :=
  quote name (':' :: ' ' :: prettyBefore indent j
    (prettyMembers indent rest (newLine outer ('\x7d' :: tail))))

/-- What comes after the first item is shorter. -/
theorem length_arrayBody_lt (indent outer : Nat) (j k : Json) (rest : List Json)
    (tail : List Char) :
    (arrayBody indent outer k rest tail).length + 2 ≤
      (arrayBody indent outer j (k :: rest) tail).length := by
  have hlength := length_le_prettyBefore j indent
    (',' :: newLine indent (arrayBody indent outer k rest tail))
  rw [List.length_cons, length_newLine] at hlength
  have htext : arrayBody indent outer j (k :: rest) tail =
      prettyBefore indent j (',' :: newLine indent (arrayBody indent outer k rest tail)) := rfl
  rw [htext]
  omega

/-- What comes after the first member is shorter. -/
theorem length_objectBody_lt (indent outer : Nat) (name : String) (j : Json) (next : String)
    (k : Json) (rest : List (String × Json)) (tail : List Char) :
    (objectBody indent outer next k rest tail).length + 2 ≤
      (objectBody indent outer name j ((next, k) :: rest) tail).length := by
  have hlength := length_le_prettyBefore j indent
    (',' :: newLine indent (objectBody indent outer next k rest tail))
  have hquote := length_le_quote name (':' :: ' ' :: prettyBefore indent j
    (',' :: newLine indent (objectBody indent outer next k rest tail)))
  simp only [List.length_cons, length_newLine] at hlength hquote
  have htext : objectBody indent outer name j ((next, k) :: rest) tail =
      quote name (':' :: ' ' :: prettyBefore indent j
        (',' :: newLine indent (objectBody indent outer next k rest tail))) := rfl
  rw [htext]
  omega

section Brackets

variable {rounding : Rounding} {levels indent : Nat} {wanted : Wanted}

/-- The first item is read from what stands between brackets. -/
theorem value?_of_reads {j : Json} {rest : List Json} {bound outer : Nat} {tail : List Char}
    (hj : Reads rounding levels indent wanted j)
    (hbound : 4 * (arrayBody indent outer j rest tail).length < bound) :
    value? rounding bound levels wanted (arrayBody indent outer j rest tail) =
      some (j, prettyItems indent rest (newLine outer (']' :: tail))) :=
  hj bound _ (endsNumber_prettyItems rest indent outer (']' :: tail)) hbound

/-- The first member is read from what stands between braces, its name having been read. -/
theorem member?_of_reads {name : String} {inner : Wanted} {j : Json}
    {rest : List (String × Json)} {bound outer : Nat} {tail : List Char}
    (hname : wanted.member? name = some inner) (hj : Reads rounding levels indent inner j)
    (hbound : 4 * (objectBody indent outer name j rest tail).length < bound + 4) :
    member? rounding (bound + 1) levels name wanted (' ' :: prettyBefore indent j
        (prettyMembers indent rest (newLine outer ('\x7d' :: tail)))) =
      some ([(name, j)], prettyMembers indent rest (newLine outer ('\x7d' :: tail))) := by
  have hquote := length_le_quote name (':' :: ' ' :: prettyBefore indent j
    (prettyMembers indent rest (newLine outer ('\x7d' :: tail))))
  unfold objectBody at hbound
  rw [List.length_cons, List.length_cons] at hquote
  have hafter := endsNumber_prettyMembers rest indent outer ('\x7d' :: tail)
  have hvalue := hj bound _ hafter (by omega)
  rw [← value?_congr (skipBlanks_space _)] at hvalue
  exact member?_of_value? hname hvalue

theorem reads_array_nil : Reads rounding (levels + 1) indent wanted (.array []) := by
  intro bound tail _ hbound
  show value? rounding bound (levels + 1) wanted ('[' :: ']' :: tail) = _
  match bound, hbound with
  | bound + 2, _ => exact value?_array array?_empty
  | 1, hbound => simp [prettyBefore] at hbound

theorem reads_array {j : Json} {rest : List Json}
    (h : ∀ (bound : Nat) (tail : List Char),
      4 * (arrayBody (indent + 2) indent j rest tail).length + 1 < bound →
      Reader.items? rounding bound levels wanted.items (arrayBody (indent + 2) indent j rest tail) =
        some (j :: rest, tail)) :
    Reads rounding (levels + 1) indent wanted (.array (j :: rest)) := by
  intro bound tail _ hbound
  have htext : prettyBefore indent (.array (j :: rest)) tail =
      '[' :: newLine (indent + 2) (arrayBody (indent + 2) indent j rest tail) := rfl
  rw [htext, List.length_cons, length_newLine] at hbound
  obtain ⟨bound, rfl⟩ : ∃ b, bound = b + 2 := ⟨bound - 2, by omega⟩
  have hitems := h bound tail (by omega)
  rw [← items?_congr (skipBlanks_newLine (indent + 2) _)] at hitems
  rw [htext]
  exact value?_array (array?_of_items? hitems)

theorem reads_object_nil : Reads rounding (levels + 1) indent wanted (.object []) := by
  intro bound tail _ hbound
  show value? rounding bound (levels + 1) wanted ('\x7b' :: '\x7d' :: tail) = _
  match bound, hbound with
  | bound + 2, _ => exact value?_object object?_empty
  | 1, hbound => simp [prettyBefore] at hbound

theorem reads_object {name : String} {j : Json} {rest : List (String × Json)}
    (h : ∀ (bound : Nat) (tail : List Char),
      4 * (objectBody (indent + 2) indent name j rest tail).length + 2 < bound →
      Reader.members? rounding bound levels wanted
          (objectBody (indent + 2) indent name j rest tail) =
        some ((name, j) :: rest, tail)) :
    Reads rounding (levels + 1) indent wanted (.object ((name, j) :: rest)) := by
  intro bound tail _ hbound
  have htext : prettyBefore indent (.object ((name, j) :: rest)) tail =
      '\x7b' :: newLine (indent + 2) (objectBody (indent + 2) indent name j rest tail) := rfl
  rw [htext, List.length_cons, length_newLine] at hbound
  obtain ⟨bound, rfl⟩ : ∃ b, bound = b + 2 := ⟨bound - 2, by omega⟩
  have hmembers := h bound tail (by omega)
  rw [← members?_congr (skipBlanks_newLine (indent + 2) _)] at hmembers
  rw [htext]
  exact value?_object (object?_of_members? hmembers)

end Brackets

section Values

variable {rounding : Rounding}

mutual

/-- A value is read back from its text, with any text behind it. -/
theorem reads_pretty (hrounding : rounding.IsNearest) :
    ∀ (j : Json) (levels indent : Nat) (wanted : Wanted), j.Writable → j.KeptBy wanted →
    j.depth ≤ levels → Reads rounding levels indent wanted j
  | .null, levels, indent, wanted, _, _, _ => reads_of_value? fun _ _ _ => value?_null
  | .bool b, levels, indent, wanted, _, _, _ => reads_of_value? fun _ _ _ => value?_bool b
  | .string s, levels, indent, wanted, _, _, _ => reads_of_value? fun _ _ _ => value?_string s
  | .integer n, levels, indent, wanted, hwritable, _, _ => by
    refine reads_of_value? fun bound tail htail => ?_
    show value? rounding (bound + 1) levels wanted ((toString n).toList ++ tail) = _
    rw [Numeral.toList_toString_int]
    exact value?_numeral (Numeral.ofInt_valid n) (ofNumeral?_ofInt hwritable.1 hwritable.2) htail
  | .float x, levels, indent, wanted, hwritable, _, _ => by
    refine reads_of_value? fun bound tail htail => ?_
    show value? rounding (bound + 1) levels wanted ((NumberLayout.json.text x).toList ++ tail) = _
    obtain ⟨n, hvalid, hchars, hinteger, rfl⟩ :=
      @NumberLayout.writes_text_of_isFinite .json rfl x hwritable
    rw [← hchars]
    exact value?_numeral hvalid (ofNumeral?_nearest hrounding hinteger hwritable) htail
  | .array [], levels + 1, indent, wanted, _, _, _ => reads_array_nil
  | .array (j :: rest), levels + 1, indent, wanted, hwritable, hkept, hdepth => by
    rw [Json.depth, Json.depthOfItems] at hdepth
    have hj := reads_pretty hrounding j levels (indent + 2) (wanted.items.headD .all) hwritable.1
      hkept.1 (by omega)
    exact reads_array fun bound tail hbound =>
      items?_pretty hrounding rest j levels (indent + 2) indent wanted.items bound tail hj
        hwritable.2 hkept.2 (by omega) hbound
  | .object [], levels + 1, indent, wanted, _, _, _ => reads_object_nil
  | .object ((name, j) :: rest), levels + 1, indent, wanted, hwritable, hkept, hdepth => by
    obtain ⟨⟨inner, hname, hkeptj⟩, hkeptrest⟩ := hkept
    rw [Json.depth, Json.depthOfMembers] at hdepth
    have hj := reads_pretty hrounding j levels (indent + 2) inner hwritable.1 hkeptj (by omega)
    exact reads_object fun bound tail hbound =>
      members?_pretty hrounding rest name j levels (indent + 2) indent wanted inner bound tail hname
        hj hwritable.2 hkeptrest (by omega) hbound

/-- If its first item is read, the items of an array are read. -/
theorem items?_pretty (hrounding : rounding.IsNearest) :
    ∀ (rest : List Json) (j : Json) (levels indent outer : Nat) (wants : List Wanted)
    (bound : Nat) (tail : List Char),
    Reads rounding levels indent (wants.headD .all) j → ItemsWritable rest →
    ItemsKeptBy rest wants.tail → Json.depthOfItems rest ≤ levels →
    4 * (arrayBody indent outer j rest tail).length + 1 < bound →
    Reader.items? rounding bound levels wants (arrayBody indent outer j rest tail) =
      some (j :: rest, tail)
  | [], j, levels, indent, outer, wants, bound + 1, tail, hj, _, _, _, hbound => by
    have hvalue := value?_of_reads hj (Nat.lt_of_succ_lt_succ hbound)
    exact items?_last hvalue (skipBlanks_newLine_of_head (by decide) outer tail)
  | k :: rest, j, levels, indent, outer, wants, bound + 1, tail, hj, hwritable, hkept, hdepth,
      hbound => by
    have hvalue := value?_of_reads hj (Nat.lt_of_succ_lt_succ hbound)
    have hmore := length_arrayBody_lt indent outer j k rest tail
    rw [Json.depthOfItems] at hdepth
    have hk := reads_pretty hrounding k levels indent (wants.tail.headD .all) hwritable.1 hkept.1
      (by omega)
    have hitems := items?_pretty hrounding rest k levels indent outer wants.tail bound tail hk
      hwritable.2 hkept.2 (by omega) (by omega)
    rw [← items?_congr (skipBlanks_newLine indent _)] at hitems
    exact items?_more hvalue (skipBlanks_of_head (by decide)) hitems

/-- If the value of its first member is read, the members of an object are read. -/
theorem members?_pretty (hrounding : rounding.IsNearest) :
    ∀ (rest : List (String × Json)) (name : String) (j : Json) (levels indent outer : Nat)
    (wanted inner : Wanted) (bound : Nat) (tail : List Char),
    wanted.member? name = some inner → Reads rounding levels indent inner j →
    MembersWritable rest → MembersKeptBy rest wanted → Json.depthOfMembers rest ≤ levels →
    4 * (objectBody indent outer name j rest tail).length + 2 < bound →
    Reader.members? rounding bound levels wanted (objectBody indent outer name j rest tail) =
      some ((name, j) :: rest, tail)
  | [], name, j, levels, indent, outer, wanted, inner, bound + 2, tail, hname, hj, _, _, _,
      hbound => by
    have hlength : 4 * (objectBody indent outer name j [] tail).length < bound + 4 := by omega
    have hmember := member?_of_reads hname hj hlength
    exact members?_last hmember (skipBlanks_newLine_of_head (by decide) outer tail)
  | (next, k) :: rest, name, j, levels, indent, outer, wanted, inner, bound + 2, tail, hname, hj,
      hwritable, hkept, hdepth, hbound => by
    have hlength : 4 * (objectBody indent outer name j ((next, k) :: rest) tail).length <
        bound + 4 := by omega
    have hmember := member?_of_reads hname hj hlength
    have hmore := length_objectBody_lt indent outer name j next k rest tail
    rw [Json.depthOfMembers] at hdepth
    obtain ⟨⟨nextInner, hnext, hkeptk⟩, hkeptrest⟩ := hkept
    have hk := reads_pretty hrounding k levels indent nextInner hwritable.1 hkeptk (by omega)
    have hmembers := members?_pretty hrounding rest next k levels indent outer wanted nextInner
      (bound + 1) tail hnext hk hwritable.2 hkeptrest (by omega) (by omega)
    rw [← members?_congr (skipBlanks_newLine indent _)] at hmembers
    exact members?_more hmember (skipBlanks_of_head (by decide)) hmembers

end

variable {j : Json} {wanted : Wanted} {levels : Nat}

/-- A value is read back from its text if no member of it is left out. -/
theorem readWanted?_pretty (hrounding : rounding.IsNearest) (hwritable : j.Writable)
    (hkept : j.KeptBy wanted) (hdepth : j.depth ≤ levels) :
    readWanted? rounding wanted levels (String.ofList j.pretty) = some j := by
  have hvalue := reads_pretty hrounding j levels 0 wanted hwritable hkept hdepth
    (4 * j.pretty.length + 4) [] nofun (by
      unfold pretty
      omega)
  unfold readWanted?
  rw [String.toList_ofList]
  simp only [pretty] at hvalue ⊢
  simp only [hvalue, Option.bind_eq_bind, Option.bind_some]
  rfl

end Values

end Prosemark.Json
