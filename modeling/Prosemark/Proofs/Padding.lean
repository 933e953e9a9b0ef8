import Prosemark.Proofs.Refusal
import Prosemark.Proofs.Wrapping

/-!
# The padding of braces

A name with braces after it, `left` times `#` before the opening one and `right` times `#` after the
closing one, around a text in which neither a switch nor the closing brace with its padding stands
(`parse_padding`). Where both numbers are the same, this is a command whose body is that text; with
fewer `#` on the right the braces are not closed, and with more of them they are unbalanced unless
they have no padding on the left: then the `#` on the right are prose.

With fewer `#` on the right, no right fence is found further on, as it is one `}` and as many `#` as
on the left, so it would have to lie in the text (`Fence.not_infix_append_right`).
-/

namespace Prosemark

open Prosemark.Parser

/-! ## Right fences -/

theorem Fence.length_right (fence : Fence) : fence.right.length = fence.hashes + 1 := by
  simp [right]

/-- A right fence is not made by a shorter one at the end of a text. -/
theorem Fence.not_infix_append_right {fence shorter : Fence} {text : List Char}
    (h : ¬fence.right <:+: text) (hlt : shorter.hashes < fence.hashes) :
    ¬fence.right <:+: text ++ shorter.right := by
  have hwithin : Break.NoneWithin [fence.right] text shorter.right := by
    apply Break.noneWithin_of_not_infix
    · simpa using Break.isMark_right fence
    · simpa [right] using Fence.closing_ne_hash shorter.delimiter
    · simpa using h
  have hshort : ∀ u w, shorter.right ≠ u ++ (fence.right ++ w) := by
    intro u w heq
    have hlength := congrArg List.length heq
    simp only [List.length_append, length_right] at hlength
    omega
  rintro ⟨u, w, hwhole⟩
  rw [List.append_assoc] at hwhole
  rcases List.append_eq_append_iff.1 hwhole with ⟨v, rfl, htail⟩ | ⟨v, rfl, htail⟩
  · by_cases hnil : v = []
    · rw [hnil, List.nil_append] at htail
      exact hshort [] w htail.symm
    · apply hwithin u v rfl hnil _ List.mem_cons_self
      rw [← htail]
      exact List.prefix_append _ _
  · exact hshort v w htail

/-! ## Braces after a name -/

section Readers

variable {sw : Switch} {nested : Bool} {fence : Fence} {cur start after next : Cursor}
  {flaw : Flaw}

/-- Prose up to the end of its scope is all that the scope has. -/
theorem fragments_yields_of_prose {scope : Scope} {inner : List Char}
    (hinner : cur.Passes inner start) (hprose : IsProse sw scope.closing inner)
    (hright : start.Passes scope.right next) (hend : scope.closing = none → next.rest = [])
    {bound : Nat} (h : 4 * cur.rest.length < bound) :
    Yields (fragments sw bound scope cur h) (prose cur.offset inner, start.offset) next := by
  obtain ⟨bound, rfl⟩ := Nat.exists_eq_add_of_lt h
  exact fragments_yields_iff.2 ⟨inner, start, hinner, hprose, .inl ⟨hright, hend, rfl, rfl⟩⟩

theorem body?_eq_error_of_unclosed (hd : fence.delimiter = .brace)
    (hleft : cur.Passes fence.left start)
    (he : ∀ bound h, fragments sw bound (.braces fence cur.offset) start h = .error flaw)
    {bound : Nat} (h : 4 * cur.rest.length + 1 < bound) :
    body? sw bound nested cur h = .error flaw := by
  obtain ⟨bound, rfl⟩ := Nat.exists_eq_add_of_lt h
  obtain ⟨cut, hcut, rfl⟩ := Fence.cut?_of_passes hleft
  rw [body?, ← hd, hcut]
  exact bind_eq_error_iff.2 (.inl (he _ _))

theorem body?_eq_error_of_unbalanced {fs : List Fragment} {stop : Nat}
    (hd : fence.delimiter = .brace) (hleft : cur.Passes fence.left start)
    (hinner : ∀ bound h,
      Yields (fragments sw bound (.braces fence cur.offset) start h) (fs, stop) next)
    (hpad : ¬fence.Balanced nested next.rest) {bound : Nat}
    (h : 4 * cur.rest.length + 1 < bound) :
    body? sw bound nested cur h = .error (.unbalanced fence cur.offset) := by
  have hcheck : checkPadding nested fence cur.offset next =
      .error (.unbalanced fence cur.offset) := by
    cases hc : checkPadding nested fence cur.offset next with
    | ok _ => exact absurd (checkPadding_eq_ok_iff.1 hc) hpad
    | error found => rw [(checkPadding_eq_error hc).1]
  have hlt := hleft.length_lt fence.left_ne_nil
  obtain ⟨bound, rfl⟩ := Nat.exists_eq_add_of_lt h
  obtain ⟨inner, hstep, -, rfl⟩ := hinner (4 * cur.rest.length + 1 + bound) (by omega)
  obtain ⟨cut, hcut, rfl⟩ := Fence.cut?_of_passes hleft
  rw [body?, ← hd, hcut]
  exact bind_eq_error_iff.2 (.inr ⟨inner, hstep, bind_eq_error_iff.2 (.inl hcheck)⟩)

variable {name : List Char} {offset : Nat} (hname : Lexeme.IsIdentifier name)
  (hp : cur.Passes name after) (hopens : Opens .brace after.rest)

include hopens in
theorem group?_eq_none_of_opens {bound : Nat} (h : 4 * after.rest.length + 1 < bound) :
    group? sw bound nested after h = .ok none := by
  rw [group?_eq_none_iff]
  obtain ⟨c, rest, hrest, rfl | rfl⟩ := hopens.head <;> simp [hrest, Delimiter.opening]

theorem Lexeme.IsIdentifier.ne_nil {text : List Char} (h : Lexeme.IsIdentifier text) :
    text ≠ [] := by
  obtain ⟨c, cs, rfl, -⟩ := h
  simp

include hname hp hopens

/-- A name and the body after it are a command. -/
theorem expression_yields_of_body {body : Body}
    (hbody : ∀ bound h, Finds (body? sw bound nested after h) body next) {bound : Nat}
    (h : 4 * cur.rest.length + 2 < bound) :
    Yields (expression sw bound nested offset cur h)
      (.command ⟨⟨offset, next.offset⟩, String.ofList name, .unfenced, none, some body⟩) next := by
  have hlt := hp.length_lt hname.ne_nil
  have hcall : ∀ bound h, Yields (call sw bound nested offset name .unfenced after h)
      ⟨⟨offset, next.offset⟩, String.ofList name, .unfenced, none, some body⟩ next := by
    intro bound h
    obtain ⟨bound, rfl⟩ := Nat.exists_eq_add_of_lt h
    exact call_yields_iff.2 (.inr ⟨hname.ne_nil, none, after, some body,
      ⟨by omega, .inl ⟨group?_eq_none_of_opens hopens _, rfl, rfl⟩⟩,
      ⟨by omega, .inr ⟨body, rfl, hbody _ _⟩⟩, rfl⟩)
  obtain ⟨bound, rfl⟩ := Nat.exists_eq_add_of_lt h
  exact expression_yields_iff.2 (.inl ⟨name, after, _, hp, hname, hopens.isIdContinue_head,
    ⟨by omega, hcall _ _⟩, rfl⟩)

/-- What the body after a name is refused for is what the command is refused for. -/
theorem expression_eq_error_of_body
    (hbody : ∀ bound h, body? sw bound nested after h = .error flaw) {bound : Nat}
    (h : 4 * cur.rest.length + 2 < bound) :
    expression sw bound nested offset cur h = .error flaw := by
  have hlt := hp.length_lt hname.ne_nil
  have hcall : ∀ bound h, call sw bound nested offset name .unfenced after h = .error flaw := by
    intro bound h
    obtain ⟨bound, rfl⟩ := Nat.exists_eq_add_of_lt h
    rw [call, if_neg hname.ne_nil, group?_eq_none_of_opens hopens]
    exact bind_eq_error_iff.2 (.inr ⟨none, rfl, bind_eq_error_iff.2 (.inl (hbody _ _))⟩)
  obtain ⟨bound, rfl⟩ := Nat.exists_eq_add_of_lt h
  obtain ⟨cut, hcut, rfl⟩ := Lexeme.identifier?_of_append hp.rest_eq hname hopens.isIdContinue_head
  obtain rfl := Cursor.past_eq_of_passes hp
  rw [expression, hcut]
  exact bind_eq_error_iff.2 (.inl (hcall _ _))

end Readers

/-! ## Sources -/

/-- A name with a text between braces after it, with `left` times `#` before the opening brace and
`right` times `#` after the closing one. -/
def Switch.braced (sw : Switch) (name : String) (left : Nat) (text : String) (right : Nat) :
    String :=
  sw.text ++ name ++ (Fence.enclosing ⟨.brace, left⟩).left ++ text ++
    (Fence.enclosing ⟨.brace, right⟩).right

section Sources

variable {sw : Switch} {source : String} {start mid : Cursor}

theorem isProse_document {text : List Char} (h : sw.char ∉ text) :
    IsProse sw Scope.document.closing text :=
  ⟨h, by simp [Scope.closing]⟩

/-- A source that starts with a command, and has no switch after it, is that command and prose. -/
theorem parse_of_expression {f : Fragment} (hp : (Cursor.start source).Passes [sw.char] start)
    (hy : ∀ bound h, Yields (expression sw bound false 0 start h) f mid) (hmid : mid.In source)
    (hrest : sw.char ∉ mid.rest) :
    parse sw source =
      .ok ⟨⟨0, source.utf8ByteSize⟩, f :: prose mid.offset mid.rest, .unfenced⟩ := by
  obtain ⟨stop, hstop, hend⟩ := Cursor.exists_passes (List.append_nil mid.rest).symm
  have hoffset : stop.offset = source.utf8ByteSize := by
    rw [hstop.offset_eq, hmid.offset_add_width]
  have htail : ∀ bound h, Yields (fragments sw bound .document mid h)
      (prose mid.offset mid.rest, stop.offset) stop :=
    fun bound h => fragments_yields_of_prose hstop (isProse_document hrest) (.refl stop)
      (fun _ => hend) h
  have hlt := hp.length_lt (List.cons_ne_nil _ _)
  have hafter := (hy _ (Nat.lt_succ_self _)).length_lt
  have hstart : (Cursor.start source).rest = source.toList := rfl
  rw [hstart] at hlt
  refine parse_eq_ok_iff.2 ⟨_, source.utf8ByteSize, stop, Nat.lt_succ_self _, ?_, rfl⟩
  rw [← hoffset]
  refine fragments_yields_iff.2 ⟨[], _, .refl _, isProse_document List.not_mem_nil, .inr ?_⟩
  exact ⟨start, f, mid, _, hp, ⟨by omega, hy _ _⟩, ⟨by omega, htail _ _⟩, rfl⟩

theorem parse_eq_error_of_expression {flaw : Flaw}
    (hp : (Cursor.start source).Passes [sw.char] start)
    (he : ∀ bound h, expression sw bound false 0 start h = .error flaw) :
    parse sw source = .error (flaw.toError source) := by
  have hlt := hp.length_lt (List.cons_ne_nil _ _)
  have hstart : (Cursor.start source).rest = source.toList := rfl
  rw [hstart] at hlt
  refine parse_eq_error_iff.2 ⟨flaw, Nat.lt_succ_self _, ?_, rfl⟩
  refine fragments_eq_error_iff.2
    (.inr ⟨[], _, start, .refl _, isProse_document List.not_mem_nil, hp, .inl ⟨?_, he _ _⟩⟩)
  omega

end Sources

/-- Where the parts of a name with braces after it end: the switch, the name, the left brace and the
text. -/
structure BracedCursors (sw : Switch) (name : String) (left : Nat) (text : String) (right : Nat)
    (start after opened stop : Cursor) : Prop where
  switch : (Cursor.start (sw.braced name left text right)).Passes [sw.char] start
  name : start.Passes name.toList after
  brace : after.Passes (Fence.left ⟨.brace, left⟩) opened
  text : opened.Passes text.toList stop
  rest : stop.rest = Fence.right ⟨.brace, right⟩

namespace BracedCursors

theorem exists_of_braced (sw : Switch) (name : String) (left : Nat) (text : String) (right : Nat) :
    ∃ start after opened stop, BracedCursors sw name left text right start after opened stop := by
  have hwhole : (Cursor.start (sw.braced name left text right)).rest =
      [sw.char] ++ (name.toList ++ (Fence.left ⟨.brace, left⟩ ++
        (text.toList ++ Fence.right ⟨.brace, right⟩))) := by
    simp [Cursor.start, Switch.braced, Switch.text, Fence.enclosing]
  obtain ⟨start, hswitch, hstart⟩ := Cursor.exists_passes hwhole
  obtain ⟨after, hname, hafter⟩ := Cursor.exists_passes hstart
  obtain ⟨opened, hbrace, hopened⟩ := Cursor.exists_passes hafter
  obtain ⟨stop, htext, hstop⟩ := Cursor.exists_passes hopened
  exact ⟨start, after, opened, stop, hswitch, hname, hbrace, htext, hstop⟩

variable {sw : Switch} {name text : String} {left right : Nat}
  {start after opened stop : Cursor}
  (h : BracedCursors sw name left text right start after opened stop)

include h

theorem after_offset : after.offset = sw.size + name.utf8ByteSize := by
  have hsize : width [sw.char] = sw.size := rfl
  have hzero : (Cursor.start (sw.braced name left text right)).offset = 0 := rfl
  rw [h.name.offset_eq, h.switch.offset_eq, width_toList, hsize, hzero, Nat.zero_add]

theorem opened_offset : opened.offset = sw.size + name.utf8ByteSize + (left + 1) := by
  rw [h.brace.offset_eq, Fence.width_left, h.after_offset]

theorem stop_offset :
    stop.offset = sw.size + name.utf8ByteSize + (left + 1) + text.utf8ByteSize := by
  rw [h.text.offset_eq, width_toList, h.opened_offset]

theorem stop_in : stop.In (sw.braced name left text right) :=
  (((Cursor.start_in _).passes h.switch).passes h.name).passes h.brace |>.passes h.text

theorem eq_error_of_body {flaw : Flaw} (hname : Lexeme.IsIdentifier name.toList)
    (hbody : ∀ bound h, body? sw bound false after h = .error flaw) :
    parse sw (sw.braced name left text right) =
      .error (flaw.toError (sw.braced name left text right)) :=
  parse_eq_error_of_expression h.switch fun _ hbound =>
    expression_eq_error_of_body hname h.name h.brace.opens hbody hbound

variable (hswitch : sw.char ∉ text.toList) (hright : ¬Fence.right ⟨.brace, left⟩ <:+: text.toList)

include hswitch hright

/-- With less padding on the right, the braces are not closed. -/
theorem unclosed (hlt : right < left) {bound : Nat} (hbound : 4 * opened.rest.length < bound) :
    fragments sw bound (.braces ⟨.brace, left⟩ after.offset) opened hbound =
      .error (.unclosed ⟨.brace, left⟩ after.offset) := by
  have hrest : opened.rest = text.toList ++ Fence.right ⟨.brace, right⟩ := by
    rw [h.text.rest_eq, h.rest]
  have hclosing : sw.char ∉ Fence.right ⟨.brace, right⟩ := fun hmem =>
    sw.char_ne_of_mem_reserved (Fence.right_mem_reserved _ _ hmem) rfl
  obtain ⟨bound, rfl⟩ := Nat.exists_eq_add_of_lt hbound
  refine fragments_eq_error_iff.2 (.inl ⟨_, _, rfl, rfl, ?_, ?_⟩)
  · rw [hrest, List.mem_append, not_or]
    exact ⟨hswitch, hclosing⟩
  · rw [hrest]
    exact Fence.not_infix_append_right hright hlt

/-- With at least as much padding on the right, the braces enclose the text. -/
theorem closes {extra : Nat} (heq : right = left + extra) :
    ∃ closed, stop.Passes (Fence.right ⟨.brace, left⟩) closed ∧
      closed.rest = List.replicate extra '#' ∧ closed.offset = stop.offset + (left + 1) ∧
      ∀ bound hbound, Yields
        (fragments sw bound (.braces ⟨.brace, left⟩ after.offset) opened hbound)
        (prose opened.offset text.toList, stop.offset) closed := by
  have hrest : stop.rest = Fence.right ⟨.brace, left⟩ ++ List.replicate extra '#' := by
    rw [h.rest, heq, Fence.right, Fence.right, List.cons_append, List.replicate_append_replicate]
  obtain ⟨closed, hp, hclosed⟩ := Cursor.exists_passes hrest
  refine ⟨closed, hp, hclosed, ?_, fun bound hbound => ?_⟩
  · rw [hp.offset_eq, Fence.width_right]
  · have hprose : IsProse sw (Scope.braces ⟨.brace, left⟩ after.offset).closing text.toList :=
      ⟨hswitch, by simpa [Scope.closing] using hright⟩
    exact fragments_yields_of_prose h.text hprose hp (by simp [Scope.closing]) hbound

/-- Where the padding is the same, or the left brace has none, the braces are the body of a command,
and what is left of the padding is prose. -/
theorem parse_eq_ok {extra : Nat} (hname : Lexeme.IsIdentifier name.toList)
    (heq : right = left + extra) (hpad : left = 0 ∨ extra = 0) :
    parse sw (sw.braced name left text right) =
      .ok ⟨⟨0, (sw.braced name left text right).utf8ByteSize⟩,
        .command ⟨⟨0, stop.offset + (left + 1)⟩, name, .unfenced, none,
          some (.block ⟨⟨opened.offset, stop.offset⟩, prose opened.offset text.toList,
            Fence.enclosing ⟨.brace, left⟩⟩)⟩ ::
          prose (stop.offset + (left + 1)) (List.replicate extra '#'), .unfenced⟩ := by
  obtain ⟨closed, hp, hclosed, hoffset, hinner⟩ := h.closes hswitch hright heq
  have hbalanced : Fence.Balanced false ⟨.brace, left⟩ closed.rest := by
    rintro - hpos
    obtain rfl : extra = 0 := hpad.resolve_left (Nat.ne_of_gt hpos)
    simp [hclosed]
  have hbody : ∀ bound h, Finds (body? sw bound false after h)
      (.block ⟨⟨opened.offset, stop.offset⟩, prose opened.offset text.toList,
        Fence.enclosing ⟨.brace, left⟩⟩) closed := by
    intro bound hbound
    have hlt := h.brace.length_lt (Fence.left_ne_nil _)
    obtain ⟨bound, rfl⟩ := Nat.exists_eq_add_of_lt hbound
    exact body?_finds_iff.2 (.inl ⟨⟨.brace, left⟩, opened, _, _, rfl, h.brace,
      ⟨by omega, hinner _ _⟩, hbalanced, rfl⟩)
  have hrest : sw.char ∉ closed.rest := by
    rw [hclosed]
    intro hmem
    exact sw.char_ne_of_mem_reserved (by decide) (List.eq_of_mem_replicate hmem)
  have hparse := parse_of_expression h.switch
    (fun _ hbound => expression_yields_of_body hname h.name h.brace.opens hbody hbound)
    (h.stop_in.passes hp) hrest
  rw [hclosed, hoffset, String.ofList_toList] at hparse
  exact hparse

/-- With more padding on the right than on the left, where there is some, the left brace is
unbalanced. -/
theorem unbalanced {extra : Nat} (heq : right = left + extra) (hleft : 0 < left)
    (hextra : 0 < extra) {bound : Nat} (hbound : 4 * after.rest.length + 1 < bound) :
    body? sw bound false after hbound = .error (.unbalanced ⟨.brace, left⟩ after.offset) := by
  obtain ⟨closed, hp, hclosed, -, hinner⟩ := h.closes hswitch hright heq
  refine body?_eq_error_of_unbalanced rfl h.brace hinner (fun hbalanced => ?_) hbound
  apply hbalanced rfl hleft
  rw [hclosed, List.head?_replicate, if_neg (Nat.ne_of_gt hextra)]

end BracedCursors

/-- A name with braces around a text in which neither a switch nor the right brace with the padding
of the left one stands: with the same padding on both sides the text is the body of a command, with
less padding on the right the left brace is not closed, and with more it is unbalanced, unless it
has no padding: then what is on the right is prose after the command. -/
theorem parse_padding {sw : Switch} {name text : String} (left right : Nat)
    (hname : Lexeme.IsIdentifier name.toList) (hswitch : sw.char ∉ text.toList)
    (hright : ¬Fence.right ⟨.brace, left⟩ <:+: text.toList) :
    let source := sw.braced name left text right
    let opener := sw.size + name.utf8ByteSize
    let start := opener + (left + 1)
    let stop := start + text.utf8ByteSize
    let command : Command := ⟨⟨0, stop + (left + 1)⟩, name, .unfenced, none,
      some (.block ⟨⟨start, stop⟩, prose start text.toList, Fence.enclosing ⟨.brace, left⟩⟩)⟩
    (right = left → parse sw source =
        .ok ⟨⟨0, source.utf8ByteSize⟩, [.command command], .unfenced⟩) ∧
      (right < left → parse sw source =
        .error ((Flaw.unclosed ⟨.brace, left⟩ opener).toError source)) ∧
      (0 < left → left < right → parse sw source =
        .error ((Flaw.unbalanced ⟨.brace, left⟩ opener).toError source)) ∧
      (left = 0 → 0 < right → parse sw source =
        .ok ⟨⟨0, source.utf8ByteSize⟩,
          .command command :: prose (stop + 1) (List.replicate right '#'), .unfenced⟩) := by
  intro source opener start stop command
  obtain ⟨_, after, opened, last, h⟩ :=
    BracedCursors.exists_of_braced sw name left text right
  have hafter : after.offset = opener := h.after_offset
  have hopened : opened.offset = start := h.opened_offset
  have hlast : last.offset = stop := h.stop_offset
  refine ⟨fun heq => ?_, fun hlt => ?_, fun hpos hlt => ?_, fun hzero _ => ?_⟩
  · have hparse := h.parse_eq_ok hswitch hright hname (show right = left + 0 from heq) (.inr rfl)
    rwa [hopened, hlast] at hparse
  · rw [← hafter]
    apply h.eq_error_of_body hname
    intro bound hbound
    exact body?_eq_error_of_unclosed rfl h.brace
      (fun _ hbound => h.unclosed hswitch hright hlt hbound) hbound
  · obtain ⟨extra, heq⟩ := Nat.exists_eq_add_of_lt hlt
    rw [← hafter]
    apply h.eq_error_of_body hname
    intro bound hbound
    exact h.unbalanced hswitch hright heq hpos (Nat.succ_pos extra) hbound
  · subst hzero
    have hparse := h.parse_eq_ok hswitch hright hname (Nat.zero_add right).symm (.inl rfl)
    rwa [hopened, hlast] at hparse

/-- Braces with two `#` on the left around a text that has a brace with one, and braces without. -/
theorem parse_padding_two :
    Lexeme.IsIdentifier "f".toList ∧ Switch.standard.char ∉ "a\x7d#".toList ∧
      ¬Fence.right ⟨.brace, 2⟩ <:+: "a\x7d#".toList ∧
      parse .standard (Switch.standard.braced "f" 2 "a\x7d#" 2) =
        .ok ⟨⟨0, 11⟩, [.command ⟨⟨0, 11⟩, "f", .unfenced, none, some (.block
          ⟨⟨5, 8⟩, [.text ⟨⟨5, 8⟩, "a\x7d#", .unfenced⟩], ⟨"##\x7b", "\x7d##"⟩⟩)⟩], .unfenced⟩ ∧
      parse .standard (Switch.standard.braced "f" 2 "a\x7d#" 1) =
        .error (.grammar (.unclosed "##\x7b" "\x7d##") ⟨2, some ⟨1, 3⟩⟩) ∧
      parse .standard (Switch.standard.braced "f" 2 "a\x7d#" 3) =
        .error (.grammar (.unbalanced "##\x7b" "\x7d##") ⟨2, some ⟨1, 3⟩⟩) ∧
      parse .standard (Switch.standard.braced "f" 0 "a" 1) =
        .ok ⟨⟨0, 6⟩, [.command ⟨⟨0, 5⟩, "f", .unfenced, none, some (.block
          ⟨⟨3, 4⟩, [.text ⟨⟨3, 4⟩, "a", .unfenced⟩], ⟨"\x7b", "\x7d"⟩⟩)⟩,
            .text ⟨⟨5, 6⟩, "#", .unfenced⟩], .unfenced⟩ := by
  have hname : Lexeme.IsIdentifier "f".toList := ⟨'f', [], rfl, by decide, by simp⟩
  have hswitch : Switch.standard.char ∉ "a\x7d#".toList := by decide
  have hright : ¬Fence.right ⟨.brace, 2⟩ <:+: "a\x7d#".toList := by decide
  obtain ⟨heq, -⟩ := parse_padding 2 2 hname hswitch hright
  obtain ⟨-, hunclosed, -⟩ := parse_padding 2 1 hname hswitch hright
  obtain ⟨-, -, hunbalanced, -⟩ := parse_padding 2 3 hname hswitch hright
  obtain ⟨-, -, -, hprose⟩ :=
    @parse_padding .standard "f" "a" 0 1 hname (by decide) (by decide)
  exact ⟨hname, hswitch, hright, heq rfl, hunclosed (by decide),
    hunbalanced (by decide) (by decide), hprose rfl (by decide)⟩

end Prosemark
