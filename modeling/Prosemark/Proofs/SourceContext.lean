import Mathlib.Data.List.Forall2
import Mathlib.Data.List.Intervals
import Mathlib.Data.List.Nodup
import Prosemark.Error
import Prosemark.Proofs.Positions

/-!
# Lines around an offset

The lines of a source are what stands from each line start to what ends the line (`IsLine`): a
newline, with a carriage return right before it, or the end of the source. The last newline may be
the end of the source, and then the empty line after it is left out, unless an offset is on it.

A context numbers the lines and keeps those around the line of the offset, which is therefore among
them, once, and marked (`sourceContext_lines`).
-/

namespace Prosemark

/-! ## The lines of a source -/

/-- What ends a line stands after its text. -/
inductive LineEnds (text : List Char) : (rest : List Char) → Prop
  | source : LineEnds text []
  | newline (more : List Char) (h : text.getLast? ≠ some '\r') : LineEnds text ('\n' :: more)
  | carriage (more : List Char) : LineEnds text ('\r' :: '\n' :: more)

/-- The text, without what ends it, is the line of the given number. -/
def IsLine (source : String) (number : Nat) (text : List Char) : Prop :=
  '\n' ∉ text ∧ ∃ start rest, lineStart? source number = some start ∧
    restAt source start = text ++ rest ∧ LineEnds text rest

theorem IsLine.of_split {source : String} {before text rest : List Char}
    (h : source.toList = before ++ text ++ rest) (hbefore : EndsLine before) (htext : '\n' ∉ text)
    (hrest : LineEnds text rest) : IsLine source (before.count '\n' + 1) text := by
  have hcur : Cursor.In source ⟨width before, text ++ rest⟩ :=
    ⟨before, h.trans (List.append_assoc ..), (Nat.zero_add _).symm⟩
  exact ⟨htext, _, rest, lineStart?_eq h hbefore htext, hcur.restAt_eq, hrest⟩

theorem EndsLine.append {text : List Char} (h : EndsLine text) (line : List Char) :
    EndsLine (line ++ '\n' :: text) := by
  intro c hc
  rw [List.getLast?_append_cons] at hc
  cases text with
  | nil => exact (Option.some.inj hc).symm
  | cons d ds => exact h c (by rwa [List.getLast?_cons_cons] at hc)

/-- The lines of a text without what ends them. -/
def textLines (cs : List Char) : List (List Char) :=
  chompLines (splitNewlines cs)

theorem splitNewlines_ne_nil (cs : List Char) : splitNewlines cs ≠ [] := by
  cases cs with
  | nil => exact List.cons_ne_nil _ _
  | cons c cs =>
    rw [splitNewlines]
    split
    · exact List.cons_ne_nil _ _
    · split <;> exact List.cons_ne_nil _ _

theorem splitNewlines_of_not_mem {line : List Char} (h : '\n' ∉ line) :
    splitNewlines line = [line] := by
  induction line with
  | nil => rfl
  | cons c cs ih =>
    rw [List.mem_cons, not_or] at h
    simp [splitNewlines, Ne.symm h.1, ih h.2]

theorem splitNewlines_append {line : List Char} (h : '\n' ∉ line) (more : List Char) :
    splitNewlines (line ++ '\n' :: more) = line :: splitNewlines more := by
  induction line with
  | nil => simp [splitNewlines]
  | cons c cs ih =>
    rw [List.mem_cons, not_or] at h
    simp [splitNewlines, Ne.symm h.1, ih h.2]

theorem textLines_of_not_mem {line : List Char} (h : '\n' ∉ line) :
    textLines line = if line = [] then [] else [line] := by
  rw [textLines, splitNewlines_of_not_mem h, chompLines]

theorem textLines_append {line : List Char} (h : '\n' ∉ line) (more : List Char) :
    textLines (line ++ '\n' :: more) = chompReturn line :: textLines more := by
  rw [textLines, splitNewlines_append h, textLines]
  cases hmore : splitNewlines more with
  | nil => exact absurd hmore (splitNewlines_ne_nil more)
  | cons next lines => rfl

/-- A text is one line, or a line with a newline and a text after it. -/
theorem lines_induction {motive : List Char → Prop} (last : ∀ line, '\n' ∉ line → motive line)
    (line : ∀ line more, '\n' ∉ line → motive more → motive (line ++ '\n' :: more))
    (cs : List Char) : motive cs := by
  by_cases h : '\n' ∈ cs
  · obtain ⟨first, more, rfl, hfirst⟩ := List.eq_append_cons_of_mem h
    exact line first more hfirst (lines_induction last line more)
  · exact last cs h
termination_by cs.length
decreasing_by simp_all; omega

/-- A line without its newline ends where a carriage return before that newline stands, if one
does. -/
theorem exists_chompReturn (line more : List Char) :
    ∃ rest, line ++ '\n' :: more = chompReturn line ++ rest ∧ LineEnds (chompReturn line) rest := by
  rw [chompReturn]
  split
  · next h =>
    obtain ⟨init, rfl⟩ := List.getLast?_eq_some_iff.1 h
    exact ⟨_, by simp, .carriage more⟩
  · next h => exact ⟨_, rfl, .newline more h⟩

theorem not_mem_chompReturn {line : List Char} (h : '\n' ∉ line) : '\n' ∉ chompReturn line := by
  rw [chompReturn]
  split
  · exact fun hmem => h (List.dropLast_subset _ hmem)
  · exact h

/-- The lines of a text stand in it. -/
theorem exists_split_of_textLines {cs text : List Char} {k : Nat}
    (h : (textLines cs)[k]? = some text) :
    ∃ before rest, cs = before ++ text ++ rest ∧ EndsLine before ∧ before.count '\n' = k ∧
      '\n' ∉ text ∧ LineEnds text rest := by
  induction cs using lines_induction generalizing k with
  | last line hline =>
    rw [textLines_of_not_mem hline] at h
    split at h
    · cases h
    · obtain ⟨rfl, rfl⟩ : k = 0 ∧ line = text := by
        simpa [List.getElem?_singleton] using h
      exact ⟨[], [], by simp, nofun, rfl, hline, .source⟩
  | line line more hline ih =>
    rw [textLines_append hline] at h
    cases k with
    | zero =>
      obtain rfl := Option.some.inj h
      obtain ⟨rest, hrest, hends⟩ := exists_chompReturn line more
      exact ⟨[], rest, hrest, nofun, rfl, not_mem_chompReturn hline, hends⟩
    | succ k =>
      obtain ⟨before, rest, rfl, hbefore, rfl, htext, hends⟩ := ih h
      exact ⟨line ++ '\n' :: before, rest, by simp, hbefore.append line,
        by simp [List.count_eq_zero.2 hline], htext, hends⟩

/-- The lines of a text are those that end in a newline, and what comes after the last newline,
unless nothing does. -/
theorem length_textLines (cs : List Char) :
    cs.count '\n' ≤ (textLines cs).length ∧
      ((textLines cs).length ≤ cs.count '\n' → EndsLine cs) := by
  induction cs using lines_induction with
  | last line hline =>
    rw [textLines_of_not_mem hline, List.count_eq_zero.2 hline]
    refine ⟨Nat.zero_le _, fun h => ?_⟩
    split at h
    · next hnil =>
      rw [hnil]
      exact nofun
    · exact absurd h (Nat.not_succ_le_zero 0)
  | line line more hline ih =>
    rw [textLines_append hline]
    have hcount : (line ++ '\n' :: more).count '\n' = more.count '\n' + 1 := by
      simp [List.count_eq_zero.2 hline]
    rw [hcount, List.length_cons]
    exact ⟨Nat.succ_le_succ ih.1, fun h => (ih.2 (Nat.le_of_succ_le_succ h)).append line⟩

/-! ## Lines around an offset -/

section Through

variable {source : String} {marked : Nat}

theorem line_ofOffset_bounds (source : String) (offset : Nat) :
    1 ≤ (Position.ofOffset source offset).line ∧
      (Position.ofOffset source offset).line ≤ source.toList.count '\n' + 1 := by
  obtain ⟨before, cur, hp, -, hpos⟩ := Position.exists_passes_boundaryOf source offset
  have hbefore : before <+: source.toList := ⟨_, hp.rest_eq.symm⟩
  rw [hpos, Position.after_eq]
  exact ⟨Nat.le_add_left _ _, Nat.succ_le_succ (hbefore.sublist.count_le _)⟩

theorem isLine_of_sourceLines {k : Nat} {text : List Char}
    (h : (sourceLines source)[k]? = some text) : IsLine source (k + 1) text := by
  obtain ⟨before, rest, hsplit, hbefore, rfl, htext, hrest⟩ := exists_split_of_textLines h
  exact .of_split hsplit hbefore htext hrest

/-- Only the empty line after the last newline may be missing from the lines of a source. -/
theorem isLine_of_linesThrough (hmarked : marked ≤ source.toList.count '\n' + 1) {k : Nat}
    {text : List Char} (h : (linesThrough source marked)[k]? = some text) :
    IsLine source (k + 1) text := by
  obtain ⟨hleast, hends⟩ := length_textLines source.toList
  rw [linesThrough] at h
  split at h
  · next hlt =>
    have hlength : (sourceLines source).length = source.toList.count '\n' := by
      show (textLines source.toList).length = _
      have : (textLines source.toList).length < marked := hlt
      omega
    rcases Nat.lt_trichotomy k (sourceLines source).length with hk | rfl | hk
    · rw [List.getElem?_append_left hk] at h
      exact isLine_of_sourceLines h
    · obtain rfl : [] = text := by simpa using h
      rw [hlength]
      exact .of_split (by simp) (hends (Nat.le_of_eq hlength)) List.not_mem_nil .source
    · rw [List.getElem?_eq_none (by simpa using Nat.succ_le_of_lt hk)] at h
      cases h
  · exact isLine_of_sourceLines h

theorem length_linesThrough (hmarked : marked ≤ source.toList.count '\n' + 1) :
    (linesThrough source marked).length = max (sourceLines source).length marked := by
  have hleast : source.toList.count '\n' ≤ (sourceLines source).length :=
    (length_textLines source.toList).1
  rw [linesThrough]
  split
  · rw [List.length_append, List.length_singleton]
    omega
  · omega

end Through

/-- The numbers near one of them are consecutive. -/
theorem filter_near (n marked : Nat) :
    (List.range' 1 n).filter (fun i => i ≤ marked + 2 && marked ≤ i + 2) =
      List.Ico (max 1 (marked - 2)) (min n (marked + 2) + 1) := by
  have hnumbers : List.range' 1 n = List.Ico 1 (n + 1) := rfl
  have hlast : min n (marked + 2) + 1 = min (n + 1) (marked + 3) := by omega
  rw [hnumbers, hlast, ← List.Ico.filter_lt, ← List.Ico.filter_le, List.filter_filter]
  refine List.filter_congr fun i _ => ?_
  rw [← Bool.decide_and, ← Bool.decide_and, decide_eq_decide]
  omega

/-- Whether a line of a context carries the marker. -/
def isMarked (line : String) : Bool :=
  line.toList.take 2 == ['>', '>']

theorem isMarked_contextLine (marked number : Nat) (text : List Char) :
    isMarked (contextLine marked number text) = (number == marked) := by
  by_cases h : number = marked <;> simp [isMarked, contextLine, h]

/-- The numbers of the lines from two before a line to two after it, as far as the source has them.
The line itself always counts as one of the source. -/
def nearNumbers (source : String) (marked : Nat) : List Nat :=
  List.Ico (max 1 (marked - 2)) (min (max (sourceLines source).length marked) (marked + 2) + 1)

theorem count_nearNumbers (source : String) {marked : Nat} (h : 1 ≤ marked) :
    (nearNumbers source marked).count marked = 1 := by
  refine List.count_eq_one_of_mem (List.Ico.nodup _ _) (List.Ico.mem.2 ?_)
  omega

/-- The entries of a context are the lines near the one of the offset. -/
theorem exists_near (source : String) (offset : Nat) :
    ∃ near : List (List Char × Nat),
      sourceContext source offset = String.join (near.map fun entry =>
        contextLine (Position.ofOffset source offset).line entry.2 entry.1) ∧
      near.map Prod.snd = nearNumbers source (Position.ofOffset source offset).line ∧
      ∀ entry ∈ near, IsLine source entry.2 entry.1 := by
  have hmost := (line_ofOffset_bounds source offset).2
  generalize hmarked : (Position.ofOffset source offset).line = marked at hmost ⊢
  refine ⟨((linesThrough source marked).zipIdx 1).filter fun entry =>
    entry.2 ≤ marked + 2 && marked ≤ entry.2 + 2, by rw [sourceContext, hmarked], ?_, ?_⟩
  · rw [nearNumbers, ← length_linesThrough hmost, ← filter_near, ← List.zipIdx_map_snd 1,
      List.filter_map]
    rfl
  · intro entry hentry
    obtain ⟨k, hk⟩ := List.mem_iff_getElem?.1 (List.mem_of_mem_filter hentry)
    rw [List.getElem?_zipIdx, Option.map_eq_some_iff] at hk
    obtain ⟨text, htext, rfl⟩ := hk
    rw [Nat.add_comm]
    exact isLine_of_linesThrough hmost htext

/-- The text of an error that is located in a source ends in the line and the column. -/
theorem Error.exists_text_locate (source : String) {offset : Nat} {e : Error}
    (h : e.place? = some (.ofOffset offset)) : ∃ opening, (e.locate source).text =
      opening ++ " at line " ++ toString (Position.ofOffset source offset).line ++ ", col " ++
        toString (Position.ofOffset source offset).column := by
  have hat : ∀ opening : String, opening ++ " at " ++ (Position.ofOffset source offset).text =
      opening ++ " at line " ++ toString (Position.ofOffset source offset).line ++ ", col " ++
        toString (Position.ofOffset source offset).column := by
    intro opening
    rw [Position.text, show " at line " = " at " ++ "line " from rfl]
    simp only [String.append_assoc]
  cases e with
  | switch char fault => cases h
  | grammar fault place =>
    obtain rfl : place = .ofOffset offset := Option.some.inj h
    exact ⟨_, hat ("syntax error: " ++ fault.message)⟩
  | render fault place =>
    obtain rfl : place = .ofOffset offset := Option.some.inj h
    exact ⟨_, hat ("render error: " ++ fault.message)⟩

/-- A context consists of the lines near the one of the offset, in order and each with its number.
One of them is marked, that of the number which the text of an error at the offset gives. -/
theorem sourceContext_lines (source : String) (offset : Nat) :
    ∃ lines : List String, sourceContext source offset = String.join lines ∧
      List.Forall₂ (fun number line => ∃ text, IsLine source number text ∧
          line = contextLine (Position.ofOffset source offset).line number text)
        (nearNumbers source (Position.ofOffset source offset).line) lines ∧
      lines.countP isMarked = 1 ∧
      ∀ e : Error, e.place? = some (.ofOffset offset) → ∃ opening, (e.locate source).text =
        opening ++ " at line " ++ toString (Position.ofOffset source offset).line ++ ", col " ++
          toString (Position.ofOffset source offset).column := by
  obtain ⟨near, hcontext, hnumbers, hlines⟩ := exists_near source offset
  refine ⟨_, hcontext, ?_, ?_, fun e => Error.exists_text_locate source⟩
  · rw [← hnumbers, List.forall₂_map_left_iff, List.forall₂_map_right_iff, List.forall₂_same]
    exact fun entry hentry => ⟨entry.1, hlines entry hentry, rfl⟩
  · have hmarked : (isMarked ∘ fun entry : List Char × Nat =>
        contextLine (Position.ofOffset source offset).line entry.2 entry.1) =
          (· == (Position.ofOffset source offset).line) ∘ Prod.snd :=
      funext fun entry => isMarked_contextLine _ _ _
    rw [List.countP_map, hmarked, ← List.countP_map, hnumbers]
    exact count_nearNumbers source (line_ofOffset_bounds source offset).1

theorem sourceContext_lines_empty_last :
    (Error.grammar (.other "") (.ofOffset 9)).place? = some (.ofOffset 9) ∧
      sourceContext "a\r\nb\n" 9 = "     1 | a\n     2 | b\n>>   3 | \n" ∧
      ∃ opening, ((Error.grammar (.other "") (.ofOffset 9)).locate "a\r\nb\n").text =
        opening ++ " at line " ++ toString 3 ++ ", col " ++ toString 1 := by
  have hposition : Position.ofOffset "a\r\nb\n" 9 = ⟨3, 1⟩ := by decide +kernel
  obtain ⟨-, -, -, -, hlocated⟩ := sourceContext_lines "a\r\nb\n" 9
  rw [hposition] at hlocated
  exact ⟨rfl, by decide +kernel, hlocated _ rfl⟩

end Prosemark
