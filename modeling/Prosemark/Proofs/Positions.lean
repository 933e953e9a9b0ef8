import Mathlib.Data.List.DropRight
import Prosemark.Position
import Prosemark.Proofs.Place

/-!
# Lines and columns of offsets

An offset counts as the last character boundary at or before it (`boundaryOf`), and the text before
that boundary tells its position: the newlines in it the line, the characters after the last of them
the column (`Position.after_eq`). A longer text has a later position, so positions are in the order
of the boundaries and tell them apart.

The table of line starts gives the same position by a search (`Position.search?`). The text before a
boundary ends in its line, and the table has one start there, with all others before it or past the
boundary (`lineStarts_split`). Hence the search finds that start, and nothing it does can fail.
-/

namespace Prosemark

/-! ## Boundaries -/

/-- Whether the offset is a character boundary of the source. -/
def isBoundary (source : String) (offset : Nat) : Bool :=
  ((Cursor.start source).seek? offset).isSome

/-- The offset moved back byte by byte to a character boundary. -/
def boundaryAtMost (source : String) : Nat → Nat
  | 0 => 0
  | offset + 1 =>
    if isBoundary source (offset + 1) then offset + 1 else boundaryAtMost source offset

/-- The boundary that an offset counts as; one past the end counts as the end. -/
def boundaryOf (source : String) (offset : Nat) : Nat :=
  boundaryAtMost source (min offset source.utf8ByteSize)

theorem isBoundary_iff {source : String} {offset : Nat} :
    isBoundary source offset = true ↔ ∃ cur : Cursor, cur.In source ∧ cur.offset = offset := by
  simp only [isBoundary, Option.isSome_iff_exists, Cursor.seek?_start_eq_some_iff]

section Boundary

variable {source : String} {offset : Nat} {cur : Cursor}

theorem boundaryAtMost_eq (hin : cur.In source) (hle : cur.offset ≤ offset)
    (hlast : ∀ other : Cursor, other.In source → other.offset ≤ offset →
      other.offset ≤ cur.offset) : boundaryAtMost source offset = cur.offset := by
  induction offset with
  | zero => exact (Nat.le_zero.1 hle).symm
  | succ offset ih =>
    rw [boundaryAtMost]
    split
    · next hb =>
      obtain ⟨other, hother, heq⟩ := isBoundary_iff.1 hb
      have := hlast other hother (Nat.le_of_eq heq)
      omega
    · next hb =>
      have hne : cur.offset ≠ offset + 1 := fun heq => hb (isBoundary_iff.2 ⟨cur, hin, heq⟩)
      exact ih (by omega) fun other hother h => hlast other hother (Nat.le_succ_of_le h)

theorem boundaryAtMost_le (source : String) (offset : Nat) :
    boundaryAtMost source offset ≤ offset := by
  induction offset with
  | zero => exact Nat.le_refl _
  | succ offset ih =>
    rw [boundaryAtMost]
    split
    · exact Nat.le_refl _
    · exact Nat.le_succ_of_le ih

theorem boundaryAtMost_mono {later : Nat} (h : offset ≤ later) :
    boundaryAtMost source offset ≤ boundaryAtMost source later := by
  induction h with
  | refl => exact Nat.le_refl _
  | step hle ih =>
    rw [boundaryAtMost]
    split
    · have := boundaryAtMost_le source offset
      have hle : offset ≤ _ := hle
      omega
    · exact ih

/-- A cursor stands at the boundary of an offset if the offset is not past the next character. -/
theorem boundaryOf_eq (hin : cur.In source) (hle : cur.offset ≤ offset)
    (hnext : ∀ c ∈ cur.rest.head?, offset < cur.offset + c.utf8Size) :
    boundaryOf source offset = cur.offset := by
  refine boundaryAtMost_eq hin (Nat.le_min.2 ⟨hle, hin.offset_le⟩) ?_
  rintro other ⟨text, hother⟩ hmin
  obtain ⟨before, hbefore⟩ := hin
  have hmost : other.offset ≤ offset := Nat.le_trans hmin (Nat.min_le_left _ _)
  rcases List.prefix_or_prefix_of_prefix (hother.rest_eq ▸ List.prefix_append _ _)
    (hbefore.rest_eq ▸ List.prefix_append _ _ : before <+: (Cursor.start source).rest) with
    ⟨more, rfl⟩ | ⟨more, rfl⟩
  · rw [hother.offset_eq, hbefore.offset_eq, width_append]
    omega
  · -- a cursor further on has passed the next character
    have hrest : cur.rest = more ++ other.rest := by
      have := hbefore.rest_eq.symm.trans hother.rest_eq
      rwa [List.append_assoc, List.append_cancel_left_eq] at this
    have hoffset : other.offset = cur.offset + width more := by
      rw [hother.offset_eq, hbefore.offset_eq, width_append, Nat.add_assoc]
    cases more with
    | nil => exact Nat.le_of_eq hoffset
    | cons c cs =>
      have := hnext c (by rw [hrest]; rfl)
      rw [width_cons] at hoffset
      omega

theorem boundaryOf_of_isBoundary (h : isBoundary source offset = true) :
    boundaryOf source offset = offset := by
  obtain ⟨cur, hin, rfl⟩ := isBoundary_iff.1 h
  refine boundaryOf_eq hin (Nat.le_refl _) fun c _ => ?_
  exact Nat.lt_add_of_pos_right (Char.utf8Size_pos c)

end Boundary

/-! ## The text before a boundary -/

namespace Position

/-- The position after a text at the start of a source. -/
def after (text : List Char) : Position :=
  text.foldl next first

theorem after_append (text more : List Char) :
    after (text ++ more) = more.foldl next (after text) :=
  List.foldl_append

/-- The newlines of a text tell the line after it, and the characters after the last of them the
column. -/
theorem after_eq (text : List Char) :
    after text = ⟨text.count '\n' + 1, (text.rtakeWhile (· != '\n')).length + 1⟩ := by
  induction text using List.reverseRecOn with
  | nil => rfl
  | append_singleton text c ih =>
    rw [after_append, ih, List.rtakeWhile_concat]
    by_cases hc : c = '\n' <;> simp [next, hc]

theorem exists_walk {offset here : Nat} (p : Position) (cs : List Char) (h : here ≤ offset) :
    ∃ before cur, (⟨here, cs⟩ : Cursor).Passes before cur ∧ cur.offset ≤ offset ∧
      (∀ c ∈ cur.rest.head?, offset < cur.offset + c.utf8Size) ∧
      walk offset here p cs = before.foldl next p := by
  induction cs generalizing here p with
  | nil => exact ⟨[], _, .refl _, h, nofun, rfl⟩
  | cons c cs ih =>
    rw [walk]
    split
    · next hc =>
      obtain ⟨before, cur, hp, hle, hnext, hwalk⟩ := ih (p.next c) hc
      have hfirst : (⟨here, c :: cs⟩ : Cursor).Passes [c] ⟨here + c.utf8Size, cs⟩ := ⟨rfl, rfl⟩
      exact ⟨c :: before, cur, hfirst.trans hp, hle, hnext, hwalk⟩
    · next hc =>
      refine ⟨[], _, .refl _, h, ?_, rfl⟩
      rintro d ⟨⟩
      exact Nat.lt_of_not_le hc

/-- The position of an offset is the one after the text before its boundary. -/
theorem exists_passes_boundaryOf (source : String) (offset : Nat) :
    ∃ before cur, (Cursor.start source).Passes before cur ∧
      cur.offset = boundaryOf source offset ∧ ofOffset source offset = after before := by
  obtain ⟨before, cur, hp, hle, hnext, hwalk⟩ :=
    exists_walk first source.toList (Nat.zero_le offset)
  exact ⟨before, cur, hp, (boundaryOf_eq ⟨before, hp⟩ hle hnext).symm, hwalk⟩

/-! ## The order of positions -/

/-- Positions are in the order of their lines, and of their columns within a line. -/
instance : LE Position where
  le p q := p.line < q.line ∨ p.line = q.line ∧ p.column ≤ q.column

instance : LT Position where
  lt p q := p.line < q.line ∨ p.line = q.line ∧ p.column < q.column

theorem lt_def {p q : Position} :
    p < q ↔ p.line < q.line ∨ p.line = q.line ∧ p.column < q.column :=
  Iff.rfl

theorem le_refl (p : Position) : p ≤ p :=
  .inr ⟨rfl, Nat.le_refl _⟩

theorem le_of_lt {p q : Position} (h : p < q) : p ≤ q :=
  h.imp_right (.imp_right Nat.le_of_lt)

theorem ne_of_lt {p q : Position} (h : p < q) : p ≠ q := by
  rintro rfl
  rcases h with h | ⟨-, h⟩ <;> exact Nat.lt_irrefl _ h

theorem lt_next (p : Position) (c : Char) : p < p.next c := by
  rw [lt_def, next]
  split
  · exact .inl (Nat.lt_succ_self _)
  · exact .inr ⟨rfl, Nat.lt_succ_self _⟩

theorem lt_foldl_next (p : Position) {text : List Char} (h : text ≠ []) :
    p < text.foldl next p := by
  induction text using List.reverseRecOn with
  | nil => exact absurd rfl h
  | append_singleton text c ih =>
    have hlast := lt_next (text.foldl next p) c
    rw [List.foldl_append]
    by_cases htext : text = []
    · rwa [htext] at hlast ⊢
    · have := ih htext
      simp only [lt_def, List.foldl_cons, List.foldl_nil] at this hlast ⊢
      omega

/-- A later boundary has a later position. -/
theorem ofOffset_lt {source : String} {offset later : Nat}
    (h : boundaryOf source offset < boundaryOf source later) :
    ofOffset source offset < ofOffset source later := by
  obtain ⟨before, cur, hp, hcur, hpos⟩ := exists_passes_boundaryOf source offset
  obtain ⟨text, next, hp', hnext, hpos'⟩ := exists_passes_boundaryOf source later
  have hwidth : width before < width text := by
    rw [← hcur, ← hnext, hp.offset_eq, hp'.offset_eq] at h
    omega
  have hbefore : before <+: source.toList := ⟨_, hp.rest_eq.symm⟩
  have htext : text <+: source.toList := ⟨_, hp'.rest_eq.symm⟩
  have hlength := (width_le_iff_length_le hbefore htext).1 (Nat.le_of_lt hwidth)
  obtain ⟨more, rfl⟩ := List.prefix_of_prefix_length_le hbefore htext hlength
  rw [hpos, hpos', after_append]
  refine lt_foldl_next _ ?_
  rintro rfl
  simp at hwidth

theorem ofOffset_congr {source : String} {offset other : Nat}
    (h : boundaryOf source offset = boundaryOf source other) :
    ofOffset source offset = ofOffset source other := by
  obtain ⟨before, cur, hp, hcur, hpos⟩ := exists_passes_boundaryOf source offset
  obtain ⟨text, next, hp', hnext, hpos'⟩ := exists_passes_boundaryOf source other
  have hsame : cur.offset = next.offset := by rw [hcur, hnext, h]
  rw [hpos, hpos', (hp.eq_of_offset hp' hsame).1]

end Position

/-! ## The table of line starts -/

section Stops

variable {here : Nat}

theorem newlineStops_append (here : Nat) (text rest : List Char) :
    newlineStops here (text ++ rest) =
      newlineStops here text ++ newlineStops (here + width text) rest := by
  induction text generalizing here with
  | nil => rfl
  | cons c cs ih =>
    by_cases hc : c = '\n' <;> simp [newlineStops, hc, ih, Nat.add_assoc]

theorem length_newlineStops (here : Nat) (text : List Char) :
    (newlineStops here text).length = text.count '\n' := by
  induction text generalizing here with
  | nil => rfl
  | cons c cs ih => by_cases hc : c = '\n' <;> simp [newlineStops, hc, ih]

theorem newlineStops_eq_nil {text : List Char} (h : '\n' ∉ text) : newlineStops here text = [] := by
  rw [← List.length_eq_zero_iff, length_newlineStops, List.count_eq_zero]
  exact h

theorem mem_newlineStops {text : List Char} {stop : Nat} (h : stop ∈ newlineStops here text) :
    here < stop ∧ stop ≤ here + width text := by
  induction text generalizing here with
  | nil => cases h
  | cons c cs ih =>
    have hpos := Char.utf8Size_pos c
    have hstop : stop = here + c.utf8Size ∨ stop ∈ newlineStops (here + c.utf8Size) cs := by
      rw [newlineStops] at h
      split at h
      · exact List.mem_cons.1 h
      · exact .inr h
    rw [width_cons]
    rcases hstop with rfl | hstop
    · omega
    · have := ih hstop
      omega

end Stops

/-- The text is empty or ends in a newline, so that a line starts after it. -/
def EndsLine (text : List Char) : Prop :=
  ∀ c ∈ text.getLast?, c = '\n'

/-- The table of a source has one start between the line that a text ends and the end of the text
on that line. -/
theorem lineStarts_split {source : String} {text line rest : List Char}
    (h : source.toList = text ++ line ++ rest) (htext : EndsLine text) (hline : '\n' ∉ line) :
    ∃ earlier later, lineStarts source = earlier ++ width text :: later ∧
      earlier.length = text.count '\n' ∧ (∀ start ∈ earlier, start < width text) ∧
      ∀ start ∈ later, width (text ++ line) < start := by
  have hlater : ∀ start ∈ newlineStops (width (text ++ line)) rest,
      width (text ++ line) < start := fun start hstart => (mem_newlineStops hstart).1
  have hstarts : lineStarts source =
      0 :: (newlineStops 0 text ++ newlineStops (width (text ++ line)) rest) := by
    rw [lineStarts, h, newlineStops_append, newlineStops_append, newlineStops_eq_nil hline,
      List.append_nil, Nat.zero_add]
  cases text using List.reverseRecOn with
  | nil => exact ⟨[], _, hstarts, rfl, nofun, hlater⟩
  | append_singleton text c =>
    obtain rfl : c = '\n' := htext c (by simp)
    have hnewline : newlineStops 0 (text ++ ['\n']) =
        newlineStops 0 text ++ [width (text ++ ['\n'])] := by
      rw [newlineStops_append, width_append, Nat.zero_add]
      rfl
    refine ⟨0 :: newlineStops 0 text, _, ?_, ?_, ?_, hlater⟩
    · rw [hstarts, hnewline, List.append_assoc]
      rfl
    · simp [length_newlineStops]
    · have hpos : width text < width (text ++ ['\n']) := by
        rw [width_append]
        exact Nat.lt_add_of_pos_right (by decide)
      intro start hstart
      rcases List.mem_cons.1 hstart with rfl | hstart
      · omega
      · have := (mem_newlineStops hstart).2
        omega

/-- A line starts after a text that ends one. -/
theorem lineStart?_eq {source : String} {text line rest : List Char}
    (h : source.toList = text ++ line ++ rest) (htext : EndsLine text) (hline : '\n' ∉ line) :
    lineStart? source (text.count '\n' + 1) = some (width text) := by
  obtain ⟨earlier, later, hstarts, hlength, -, -⟩ := lineStarts_split h htext hline
  simp [lineStart?, hstarts, ← hlength]

/-- A text is what its last line starts after, and that line. -/
theorem exists_lastLine (text : List Char) :
    ∃ before, text = before ++ text.rtakeWhile (· != '\n') ∧ EndsLine before ∧
      '\n' ∉ text.rtakeWhile (· != '\n') ∧ before.count '\n' = text.count '\n' := by
  have hsplit : text.rdropWhile (· != '\n') ++ text.rtakeWhile (· != '\n') = text :=
    List.rdropWhile_append_rtakeWhile ..
  have hline : '\n' ∉ text.rtakeWhile (· != '\n') := by
    intro hmem
    rw [List.rtakeWhile, List.mem_reverse] at hmem
    simpa using List.all_eq_true.1 List.all_takeWhile _ hmem
  refine ⟨_, hsplit.symm, ?_, hline, ?_⟩
  · intro c hc
    obtain ⟨hne, rfl⟩ := List.mem_getLast?_eq_getLast hc
    simpa using List.rdropWhile_last_not (· != '\n') text hne
  · have := congrArg (List.count '\n') hsplit
    rwa [List.count_append, List.count_eq_zero.2 hline] at this

/-- The line of an offset: its start is in the table, after those of the earlier lines, and its text
up to the boundary tells the column. -/
theorem exists_line (source : String) (offset : Nat) :
    ∃ start line earlier later, Covers source start (boundaryOf source offset) (String.ofList line) ∧
      lineStarts source = earlier ++ start :: later ∧
      (∀ a ∈ earlier, a < start) ∧ (∀ a ∈ later, boundaryOf source offset < a) ∧
      Position.ofOffset source offset = ⟨earlier.length + 1, line.length + 1⟩ := by
  obtain ⟨text, cur, hp, hcur, hpos⟩ := Position.exists_passes_boundaryOf source offset
  obtain ⟨before, htext, hends, hline, hcount⟩ := exists_lastLine text
  generalize hlast : text.rtakeWhile (· != '\n') = line at htext hline
  subst htext
  obtain ⟨earlier, later, hstarts, hlength, hearlier, hlater⟩ :=
    lineStarts_split hp.rest_eq hends hline
  have hbefore : (Cursor.start source).Passes before ⟨width before, line ++ cur.rest⟩ :=
    ⟨hp.rest_eq.trans (List.append_assoc ..), (Nat.zero_add _).symm⟩
  have hboundary : cur.offset = width (before ++ line) := hp.offset_eq.trans (Nat.zero_add _)
  have hpasses : (⟨width before, line ++ cur.rest⟩ : Cursor).Passes line cur :=
    ⟨rfl, by rw [hboundary, width_append]⟩
  rw [← hboundary, hcur] at hlater
  refine ⟨width before, line, earlier, later, ?_, hstarts, hearlier, hlater, ?_⟩
  · rw [← hcur]
    exact Cursor.In.covers_ofList ⟨before, hbefore⟩ hpasses
  · rw [hpos, Position.after_eq, hlast, ← hcount, hlength]

/-! ## Search in the table -/

/-- Where a number stands among ascending ones, or else where it could be inserted. -/
def searchPlace (numbers : List Nat) (n : Nat) : Except Nat Nat :=
  let place := numbers.countP (· < n)
  if numbers[place]? = some n then .ok place else .error place

/-- Where the last of some ascending numbers stands that is at most `n`. -/
def lastAtMost? (numbers : List Nat) (n : Nat) : Option Nat :=
  match searchPlace numbers n with
  | .ok place => some place
  | .error 0 => none
  | .error (place + 1) => some place

/-- The position of an offset by a search among the line starts for the last one at or before its
boundary. It fails where there is no such start, and where no piece of the source stands from there
to the boundary. -/
def Position.search? (source : String) (offset : Nat) : Option Position := do
  let index ← lastAtMost? (lineStarts source) (boundaryOf source offset)
  let start ← (lineStarts source)[index]?
  let text ← Span.slice? ⟨start, boundaryOf source offset⟩ source
  return ⟨index + 1, text.length + 1⟩

section Search

variable {earlier later : List Nat} {start n : Nat}

theorem getElem?_after (earlier later : List Nat) (start : Nat) :
    (earlier ++ start :: later)[earlier.length + 1]? = later.head? := by
  rw [List.getElem?_append_right (Nat.le_add_right _ 1), Nat.add_sub_cancel_left,
    List.getElem?_cons_succ, List.head?_eq_getElem?]

theorem searchPlace_eq (hearlier : ∀ a ∈ earlier, a < start) (hstart : start ≤ n)
    (hlater : ∀ a ∈ later, n < a) :
    searchPlace (earlier ++ start :: later) n =
      if start = n then .ok earlier.length else .error (earlier.length + 1) := by
  have hbefore : earlier.countP (· < n) = earlier.length := by
    refine List.countP_eq_length.2 fun a ha => decide_eq_true ?_
    exact Nat.lt_of_lt_of_le (hearlier a ha) hstart
  have hafter : later.countP (· < n) = 0 := by
    refine List.countP_eq_zero.2 fun a ha => ?_
    simpa using Nat.le_of_lt (hlater a ha)
  unfold searchPlace
  by_cases hsame : start = n
  · simp [hbefore, hafter, hsame]
  · have hlt : start < n := Nat.lt_of_le_of_ne hstart hsame
    have hnext : later.head? ≠ some n := fun hhead =>
      absurd (hlater n (List.mem_of_head? hhead)) (Nat.lt_irrefl n)
    simp [hbefore, hafter, hsame, hlt, getElem?_after, hnext]

theorem lastAtMost?_eq (hearlier : ∀ a ∈ earlier, a < start) (hstart : start ≤ n)
    (hlater : ∀ a ∈ later, n < a) :
    lastAtMost? (earlier ++ start :: later) n = some earlier.length := by
  rw [lastAtMost?, searchPlace_eq hearlier hstart hlater]
  by_cases hsame : start = n <;> simp [hsame]

end Search

namespace Position

theorem search?_eq (source : String) (offset : Nat) :
    search? source offset = some (ofOffset source offset) := by
  obtain ⟨start, line, earlier, later, hcovers, hstarts, hearlier, hlater, hpos⟩ :=
    exists_line source offset
  have hslice : Span.slice? ⟨start, boundaryOf source offset⟩ source = some (String.ofList line) :=
    hcovers
  simp [search?, hstarts, lastAtMost?_eq hearlier hcovers.le hlater, hslice, hpos]

theorem ofOffset_mono (source : String) {offset later : Nat} (h : offset ≤ later) :
    ofOffset source offset ≤ ofOffset source later := by
  have hle : boundaryOf source offset ≤ boundaryOf source later :=
    boundaryAtMost_mono (by omega)
  rcases Nat.lt_or_eq_of_le hle with hlt | heq
  · exact le_of_lt (ofOffset_lt hlt)
  · rw [ofOffset_congr heq]
    exact le_refl _

theorem ofOffset_injective {source : String} {offset other : Nat}
    (h : isBoundary source offset = true) (hother : isBoundary source other = true)
    (heq : ofOffset source offset = ofOffset source other) : offset = other := by
  rw [← boundaryOf_of_isBoundary h, ← boundaryOf_of_isBoundary hother]
  rcases Nat.lt_trichotomy (boundaryOf source offset) (boundaryOf source other) with
    hlt | hsame | hlt
  · exact absurd heq (ne_of_lt (ofOffset_lt hlt))
  · exact hsame
  · exact absurd heq.symm (ne_of_lt (ofOffset_lt hlt))

/-- The boundary of an offset is between the start of its line and that of the next one. -/
theorem lineStart?_ofOffset (source : String) (offset : Nat) :
    (∃ start, lineStart? source (ofOffset source offset).line = some start ∧
        start ≤ boundaryOf source offset) ∧
      ∀ stop, lineStart? source ((ofOffset source offset).line + 1) = some stop →
        boundaryOf source offset < stop := by
  obtain ⟨start, line, earlier, later, hcovers, hstarts, -, hlater, hpos⟩ :=
    exists_line source offset
  refine ⟨⟨start, ?_, hcovers.le⟩, fun stop hstop => ?_⟩
  · simp [lineStart?, hpos, hstarts]
  · simp only [lineStart?, hpos, hstarts, Nat.add_one_ne_zero, if_false, Nat.add_sub_cancel,
      getElem?_after] at hstop
    exact hlater stop (List.mem_of_head? hstop)

/-- An offset counts as the last boundary at or before it, and the search among the line starts
finds its position: the newlines before the boundary tell the line, and the characters after the
last of them the column. Positions are in the order of offsets and tell boundaries apart, and the
boundary is between the start of its line and that of the next one. -/
theorem ofOffset_exact (source : String) (offset : Nat) :
    search? source offset = some (ofOffset source offset) ∧
      (∃ before, Covers source 0 (boundaryOf source offset) before ∧
        (ofOffset source offset).line = before.toList.count '\n' + 1 ∧
        (ofOffset source offset).column =
          (before.toList.rtakeWhile (· != '\n')).length + 1) ∧
      (∀ later, offset ≤ later → ofOffset source offset ≤ ofOffset source later) ∧
      (∀ other, isBoundary source offset = true → isBoundary source other = true →
        offset ≠ other → ofOffset source offset ≠ ofOffset source other) ∧
      (∃ start, lineStart? source (ofOffset source offset).line = some start ∧
        start ≤ boundaryOf source offset) ∧
      ∀ stop, lineStart? source ((ofOffset source offset).line + 1) = some stop →
        boundaryOf source offset < stop := by
  refine ⟨search?_eq source offset, ?_, fun later => ofOffset_mono source, ?_,
    lineStart?_ofOffset source offset⟩
  · obtain ⟨text, cur, hp, hcur, hpos⟩ := exists_passes_boundaryOf source offset
    refine ⟨String.ofList text, ?_, ?_, ?_⟩
    · rw [← hcur]
      exact (Cursor.start_in source).covers_ofList hp
    · rw [hpos, after_eq, String.toList_ofList]
    · rw [hpos, after_eq, String.toList_ofList]
  · exact fun other h hother hne heq => hne (ofOffset_injective h hother heq)

theorem ofOffset_exact_accented :
    search? "é\nb" 1 = some ⟨1, 1⟩ ∧ ofOffset "é\nb" 1 ≤ ofOffset "é\nb" 9 ∧
      isBoundary "é\nb" 3 = true ∧ isBoundary "é\nb" 0 = true ∧
      ofOffset "é\nb" 3 ≠ ofOffset "é\nb" 0 ∧ lineStart? "é\nb" 2 = some 3 ∧
      boundaryOf "é\nb" 1 < 3 := by
  have hfirst : ofOffset "é\nb" 1 = ⟨1, 1⟩ := by decide +kernel
  have hthree : isBoundary "é\nb" 3 = true := by decide +kernel
  have hzero : isBoundary "é\nb" 0 = true := by decide +kernel
  have hstart : lineStart? "é\nb" 2 = some 3 := by decide +kernel
  obtain ⟨hsearch, -, hmono, -, -, hnext⟩ := ofOffset_exact "é\nb" 1
  obtain ⟨-, -, -, hdistinct, -, -⟩ := ofOffset_exact "é\nb" 3
  rw [hfirst] at hsearch hnext
  exact ⟨hsearch, hmono 9 (by decide), hthree, hzero, hdistinct 0 hthree hzero (by decide), hstart,
    hnext 3 hstart⟩

end Position

end Prosemark
