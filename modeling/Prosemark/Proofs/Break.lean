import Prosemark.Proofs.Lexeme
import Prosemark.Tree.Parser

/-!
# Where texts break

Prose runs to the first switch or to the first right fence of its scope, and verbatim text to the
first right fence of its own. `Break.find?` looks at every place in turn, also at those where a mark
would begin inside the text and end after it. A mark of the language is one character followed by
`#` only, and what comes after a text never starts with `#`, so no mark lies across the end of a
text (`noneWithin_of_not_infix`). Hence it is enough that no mark lies inside the text.
-/

namespace Prosemark

/-- Text without the switch and without the right fence that closes its scope, if one does. -/
def IsProse (sw : Switch) (closing : Option Fence) (text : List Char) : Prop :=
  sw.char ∉ text ∧ ∀ fence ∈ closing, ¬fence.right <:+: text

theorem isProse_nil (sw : Switch) (closing : Option Fence) : IsProse sw closing [] := by
  refine ⟨List.not_mem_nil, fun fence _ hoccurs => ?_⟩
  exact absurd (List.infix_nil.1 hoccurs) (List.cons_ne_nil _ _)

namespace Break

/-! ## The first mark -/

/-- No mark begins in the text, when `tail` comes after it. -/
def NoneWithin (marks : List (List Char)) (text tail : List Char) : Prop :=
  ∀ u v, text = u ++ v → v ≠ [] → ∀ mark ∈ marks, ¬mark <+: v ++ tail

theorem here?_eq_none_iff {mark cs : List Char} : here? mark cs = none ↔ ¬mark <+: cs := by
  unfold here?
  split
  · next h =>
    simp only [true_iff]
    rintro ⟨rest, hrest⟩
    simp [remainder?_eq_some_iff.2 hrest] at h
  · next rest h =>
    simp only [reduceCtorEq, false_iff, Classical.not_not]
    exact ⟨rest, remainder?_eq_some_iff.1 h⟩

theorem here?_spec {mark cs : List Char} {b : Break cs} (h : here? mark cs = some b) :
    b.inner = [] ∧ b.mark = mark := by
  unfold here? at h
  split at h
  · simp at h
  · obtain rfl := Option.some.inj h
    exact ⟨rfl, rfl⟩

variable {marks : List (List Char)} {cs : List Char}

theorem find?_eq_none_iff : find? marks cs = none ↔ ∀ mark ∈ marks, ¬mark <:+: cs := by
  induction cs with
  | nil =>
    simp only [find?, List.findSome?_eq_none_iff, here?_eq_none_iff, List.prefix_nil,
      List.infix_nil]
  | cons c cs ih =>
    simp only [List.infix_cons_iff, not_or, forall_and, ← ih, find?]
    split
    · next b hb =>
      obtain ⟨mark, hmem, hmark⟩ := List.exists_of_findSome?_eq_some hb
      simp only [reduceCtorEq, false_iff, not_and]
      intro hnone
      simp [here?_eq_none_iff.2 (hnone mark hmem)] at hmark
    · next hnone =>
      simp only [List.findSome?_eq_none_iff, here?_eq_none_iff] at hnone
      rw [Option.map_eq_none_iff]
      exact ⟨fun h => ⟨hnone, h⟩, fun h => h.2⟩

theorem find?_spec {b : Break cs} (h : find? marks cs = some b) :
    b.mark ∈ marks ∧ NoneWithin marks b.inner (b.mark ++ b.rest) := by
  have hhere : ∀ {ds : List Char} {b : Break ds},
      (marks.findSome? fun mark => here? mark ds) = some b →
        b.mark ∈ marks ∧ NoneWithin marks b.inner (b.mark ++ b.rest) := by
    intro ds b hb
    obtain ⟨mark, hmem, hmark⟩ := List.exists_of_findSome?_eq_some hb
    obtain ⟨hinner, rfl⟩ := here?_spec hmark
    refine ⟨hmem, fun u v huv hv => ?_⟩
    exact absurd (List.append_eq_nil_iff.1 (huv.symm.trans hinner)).2 hv
  induction cs with
  | nil => exact hhere h
  | cons c cs ih =>
    rw [find?] at h
    split at h
    · next b' hb =>
      obtain rfl := Option.some.inj h
      exact hhere hb
    · next hnone =>
      simp only [List.findSome?_eq_none_iff, here?_eq_none_iff] at hnone
      obtain ⟨b', hb', rfl⟩ := Option.map_eq_some_iff.1 h
      obtain ⟨hmem, hwithin⟩ := ih hb'
      refine ⟨hmem, ?_⟩
      intro u v huv hv mark hmark
      cases u with
      | nil =>
        obtain rfl : c :: b'.inner = v := huv
        rw [List.cons_append, show (cons c b').mark = b'.mark from rfl,
          show (cons c b').rest = b'.rest from rfl, b'.whole]
        exact hnone mark hmark
      | cons d u =>
        obtain ⟨-, htail⟩ := List.cons.inj huv
        exact hwithin u v htail hv mark hmark

/-- A break is found at a mark that no other mark comes before. -/
theorem find?_of_noneWithin (marks : List (List Char)) {inner mark rest : List Char}
    (hcs : inner ++ (mark ++ rest) = cs) (hmem : mark ∈ marks)
    (hwithin : NoneWithin marks inner (mark ++ rest))
    (hunique : ∀ m ∈ marks, m <+: mark ++ rest → m = mark) :
    ∃ b : Break cs, find? marks cs = some b ∧ b.inner = inner ∧ b.mark = mark ∧ b.rest = rest := by
  cases hf : find? marks cs with
  | none =>
    refine absurd ?_ (find?_eq_none_iff.1 hf mark hmem)
    rw [← hcs]
    exact List.infix_append' _ _ _
  | some b =>
    obtain ⟨hbmem, hbwithin⟩ := find?_spec hf
    refine ⟨b, rfl, ?_⟩
    -- neither of the two places comes before the other
    have hinner : b.inner = inner ∧ b.mark ++ b.rest = mark ++ rest := by
      have hwhole := b.whole.trans hcs.symm
      rcases List.append_eq_append_iff.1 hwhole with ⟨v, hv, htail⟩ | ⟨v, hv, htail⟩
      · by_cases hnil : v = []
        · subst hnil
          exact ⟨by rw [hv, List.append_nil], by rw [htail, List.nil_append]⟩
        · refine absurd ?_ (hwithin _ v hv hnil b.mark hbmem)
          rw [← htail]
          exact List.prefix_append _ _
      · by_cases hnil : v = []
        · subst hnil
          exact ⟨by rw [hv, List.append_nil], by rw [htail, List.nil_append]⟩
        · refine absurd ?_ (hbwithin _ v hv hnil mark hmem)
          rw [← htail]
          exact List.prefix_append _ _
    have hmark : b.mark = mark := hunique _ hbmem (hinner.2 ▸ List.prefix_append _ _)
    refine ⟨hinner.1, hmark, ?_⟩
    have htail := hinner.2
    rw [hmark] at htail
    exact List.append_cancel_left htail

/-! ## Marks of the language -/

/-- One character, and only `#` after it. -/
def IsMark (mark : List Char) : Prop :=
  ∃ c k, mark = c :: List.replicate k '#'

theorem isMark_switch (sw : Switch) : IsMark [sw.char] :=
  ⟨sw.char, 0, rfl⟩

theorem isMark_right (f : Fence) : IsMark f.right :=
  ⟨f.delimiter.closing, f.hashes, rfl⟩

/-- A mark that lies across the end of a text goes on with `#` there. -/
theorem noneWithin_of_not_infix {text tail : List Char} (hmarks : ∀ mark ∈ marks, IsMark mark)
    (htail : tail.head? ≠ some '#') (h : ∀ mark ∈ marks, ¬mark <:+: text) :
    NoneWithin marks text tail := by
  rintro u v rfl hv mark hmem hpre
  have hmark := h mark hmem
  rcases List.prefix_or_prefix_of_prefix hpre (List.prefix_append v tail) with hin | ⟨w, rfl⟩
  · exact hmark (hin.isInfix.trans (List.suffix_append u v).isInfix)
  · obtain ⟨c, k, hck⟩ := hmarks _ hmem
    obtain ⟨d, v', rfl⟩ := List.exists_cons_of_ne_nil hv
    cases w with
    | nil => exact hmark (by simpa using (List.suffix_append u (d :: v')).isInfix)
    | cons x w =>
      obtain ⟨-, hrep⟩ := List.cons.inj hck
      have hx : x ∈ List.replicate k '#' := by
        rw [← hrep]
        simp
      rw [List.prefix_append_right_inj] at hpre
      obtain ⟨t, rfl⟩ := hpre
      exact htail (by simp [List.eq_of_mem_replicate hx])

theorem not_infix_of_noneWithin {text tail mark : List Char} (h : NoneWithin marks text tail)
    (hmem : mark ∈ marks) (hne : mark ≠ []) : ¬mark <:+: text := by
  rintro ⟨u, w, rfl⟩
  apply h u (mark ++ w) (List.append_assoc u mark w) (by simp [hne]) mark hmem
  rw [List.append_assoc]
  exact List.prefix_append _ _

theorem head_right_append (f : Fence) (t : List Char) : (f.right ++ t).head? ≠ some '#' := by
  simpa [Fence.right] using Fence.closing_ne_hash f.delimiter

theorem closing_mem_reserved (d : Delimiter) : d.closing ∈ Charset.reserved := by
  cases d <;> decide

theorem singleton_infix_iff {c : Char} {text : List Char} : [c] <:+: text ↔ c ∈ text := by
  constructor
  · rintro ⟨u, w, rfl⟩
    simp
  · intro h
    obtain ⟨u, w, rfl⟩ := List.append_of_mem h
    exact ⟨u, w, by simp⟩

end Break

/-! ## The next break of a scope -/

namespace Parser.Scope

/-- The fence whose right text ends the scope; the document has none. -/
def closing : Scope → Option Fence
  | document => none
  | braces fence _ => some fence

/-- What ends the scope. -/
def right : Scope → List Char
  | document => []
  | braces fence _ => fence.right

theorem isSome_closing (scope : Scope) : scope.closing.isSome = scope.isNested := by
  cases scope <;> rfl

variable {sw : Switch} {scope : Scope} {cs : List Char}

theorem right_ne_switch (sw : Switch) (scope : Scope) : scope.right ≠ [sw.char] := by
  cases scope with
  | document => simp [right]
  | braces fence opener =>
    intro h
    exact sw.char_ne_of_mem_reserved (Break.closing_mem_reserved fence.delimiter)
      (List.cons.inj h).1.symm

/-- The text up to the next break is prose, and at the break stands the switch or what ends the
scope. -/
theorem nextBreak_ok {b : Break cs} (h : scope.nextBreak sw cs = .ok b) :
    IsProse sw scope.closing b.inner ∧
      (b.mark = [sw.char] ∨ b.mark = scope.right ∧ (scope.closing = none → b.rest = [])) := by
  cases scope with
  | document =>
    obtain rfl := Except.ok.inj h
    have hprose : ∀ text, sw.char ∉ text → IsProse sw Scope.document.closing text :=
      fun text hsw => ⟨hsw, by simp [closing]⟩
    simp only [Break.ofDocument]
    cases hf : Break.find? [[sw.char]] cs with
    | none =>
      have hnone := Break.find?_eq_none_iff.1 hf [sw.char] (List.mem_singleton.2 rfl)
      rw [Break.singleton_infix_iff] at hnone
      exact ⟨hprose _ hnone, .inr ⟨rfl, fun _ => rfl⟩⟩
    | some b =>
      obtain ⟨hmem, hwithin⟩ := Break.find?_spec hf
      have hnone := Break.not_infix_of_noneWithin hwithin (List.mem_singleton.2 rfl)
        (List.cons_ne_nil sw.char [])
      rw [Break.singleton_infix_iff] at hnone
      exact ⟨hprose _ hnone, .inl (List.mem_singleton.1 hmem)⟩
  | braces fence opener =>
    simp only [nextBreak, Break.ofFragments?] at h
    split at h
    · next b' hf =>
      obtain rfl := Except.ok.inj h
      obtain ⟨hmem, hwithin⟩ := Break.find?_spec hf
      have hsw := Break.not_infix_of_noneWithin hwithin List.mem_cons_self
        (List.cons_ne_nil sw.char [])
      have hright := Break.not_infix_of_noneWithin hwithin
        (List.mem_cons_of_mem _ (List.mem_singleton.2 rfl)) fence.right_ne_nil
      rw [Break.singleton_infix_iff] at hsw
      refine ⟨⟨hsw, by simpa [closing] using hright⟩, ?_⟩
      rcases List.mem_cons.1 hmem with hmark | hmark
      · exact .inl hmark
      · exact .inr ⟨List.mem_singleton.1 hmark, by simp [closing]⟩
    · simp at h

/-- Only braces can be left unclosed. -/
theorem nextBreak_error {flaw : Flaw} (h : scope.nextBreak sw cs = .error flaw) :
    ∃ fence opener, scope = .braces fence opener ∧ flaw = .unclosed fence opener ∧
      sw.char ∉ cs ∧ ¬fence.right <:+: cs := by
  cases scope with
  | document => simp [nextBreak] at h
  | braces fence opener =>
    simp only [nextBreak, Break.ofFragments?] at h
    split at h
    · simp at h
    · next hf =>
      have hnone := Break.find?_eq_none_iff.1 hf
      refine ⟨fence, opener, rfl, (Except.error.inj h).symm, ?_, ?_⟩
      · rw [← Break.singleton_infix_iff]
        exact hnone _ List.mem_cons_self
      · exact hnone _ (List.mem_cons_of_mem _ (List.mem_singleton.2 rfl))

/-- After prose, the next break of a scope is at a switch or at what ends the scope. -/
theorem nextBreak_of_mark {inner mark rest : List Char} (hcs : inner ++ (mark ++ rest) = cs)
    (hprose : IsProse sw scope.closing inner)
    (hmark : mark = [sw.char] ∨ mark = scope.right ∧ (scope.closing = none → rest = [])) :
    ∃ b, scope.nextBreak sw cs = .ok b ∧ b.inner = inner ∧ b.mark = mark ∧ b.rest = rest := by
  obtain ⟨hsw, hright⟩ := hprose
  cases scope with
  | document =>
    simp only [nextBreak, Break.ofDocument]
    rcases hmark with rfl | ⟨rfl, hrest⟩
    · obtain ⟨b, hb, hparts⟩ := Break.find?_of_noneWithin [[sw.char]] hcs
        (List.mem_singleton.2 rfl)
        (Break.noneWithin_of_not_infix (by simpa using Break.isMark_switch sw)
          (by simpa using sw.char_ne_hash) (by simpa [Break.singleton_infix_iff] using hsw))
        (by simp)
      exact ⟨b, by rw [hb]; rfl, hparts⟩
    · obtain rfl := hrest rfl
      have hf : Break.find? [[sw.char]] cs = none := by
        rw [Break.find?_eq_none_iff, ← hcs]
        simpa [right, Break.singleton_infix_iff] using hsw
      rw [hf]
      exact ⟨_, rfl, by simpa [right, Break.atEnd] using hcs.symm, rfl, rfl⟩
  | braces fence opener =>
    have hright : ¬fence.right <:+: inner := hright fence rfl
    have hmarks : ∀ m ∈ [[sw.char], fence.right], Break.IsMark m := by
      simpa using ⟨Break.isMark_switch sw, Break.isMark_right fence⟩
    have hnone : ∀ m ∈ [[sw.char], fence.right], ¬m <:+: inner := by
      simpa [Break.singleton_infix_iff] using ⟨hsw, hright⟩
    have hclosing : sw.char ≠ fence.delimiter.closing :=
      sw.char_ne_of_mem_reserved (Break.closing_mem_reserved _)
    have hmem : mark ∈ [[sw.char], fence.right] := by
      rcases hmark with rfl | ⟨rfl, -⟩ <;> simp [right]
    have htail : (mark ++ rest).head? ≠ some '#' := by
      rcases hmark with rfl | ⟨rfl, -⟩
      · simpa using sw.char_ne_hash
      · exact Break.head_right_append fence rest
    have hunique : ∀ m ∈ [[sw.char], fence.right], m <+: mark ++ rest → m = mark := by
      -- the two marks differ in their first characters
      rcases hmark with rfl | ⟨rfl, -⟩
      · simp [Fence.right, hclosing.symm]
      · simp [right, Fence.right, hclosing]
    obtain ⟨b, hb, hparts⟩ := Break.find?_of_noneWithin _ hcs hmem
      (Break.noneWithin_of_not_infix hmarks htail hnone) hunique
    refine ⟨b, ?_, hparts⟩
    simp only [nextBreak, Break.ofFragments?, hb]

theorem nextBreak_of_passes {cur mid next : Cursor} {inner mark : List Char}
    (h₁ : cur.Passes inner mid) (h₂ : mid.Passes mark next)
    (hprose : IsProse sw scope.closing inner)
    (hmark : mark = [sw.char] ∨ mark = scope.right ∧ (scope.closing = none → next.rest = [])) :
    ∃ b, scope.nextBreak sw cur.rest = .ok b ∧ b.inner = inner ∧ b.mark = mark ∧
      b.rest = next.rest := by
  refine nextBreak_of_mark ?_ hprose hmark
  rw [h₁.rest_eq, h₂.rest_eq]

theorem isSwitch_iff {b : Break cs} (sw : Switch) : b.isSwitch sw = true ↔ b.mark = [sw.char] := by
  rw [Break.isSwitch, beq_iff_eq]

/-- After prose, the break at a switch leads to the cursor after it. -/
theorem nextBreak_of_switch {cur mid start : Cursor} {inner : List Char}
    (hinner : cur.Passes inner mid) (hswitch : mid.Passes [sw.char] start)
    (hprose : IsProse sw scope.closing inner) :
    ∃ brk, scope.nextBreak sw cur.rest = .ok brk ∧ brk.inner = inner ∧ brk.isSwitch sw = true ∧
      mid.offset = cur.offset + width brk.inner ∧
      start = ⟨cur.offset + width brk.inner + width brk.mark, brk.rest⟩ := by
  obtain ⟨brk, hbrk, hbinner, hmark, hbrest⟩ := nextBreak_of_passes hinner hswitch hprose (.inl rfl)
  have hmid : mid.offset = cur.offset + width brk.inner := by
    rw [hbinner, hinner.offset_eq]
  refine ⟨brk, hbrk, hbinner, (isSwitch_iff sw).2 hmark, hmid, ?_⟩
  rw [hswitch.eq_mk, hmid, hmark, hbrest]

end Parser.Scope

/-! ## Texts in fences -/

/-- Verbatim text between the texts of a fence: the left one stands at the cursor, the inner text
between `start` and `mid`, and the right one, which is not in the inner text, before `next`. -/
structure Fence.Encloses (fence : Fence) (cur start : Cursor) (inner : List Char)
    (mid next : Cursor) : Prop where
  left : cur.Passes fence.left start
  middle : start.Passes inner mid
  right : mid.Passes fence.right next
  unbroken : ¬fence.right <:+: inner

/-- A padded right fence that ends outside all braces must not run into a further `#`. -/
def Fence.Balanced (nested : Bool) (fence : Fence) (rest : List Char) : Prop :=
  nested = false → 0 < fence.hashes → rest.head? ≠ some '#'

namespace Parser

variable {fence : Fence} {opener : Nat} {nested : Bool} {cur : Cursor}

theorem checkPadding_eq_ok_iff :
    checkPadding nested fence opener cur = .ok () ↔ fence.Balanced nested cur.rest := by
  unfold checkPadding Fence.Balanced
  split
  · next h => simp [h.1, h.2.1, h.2.2]
  · next h =>
    simp only [true_iff]
    intro hn hpos hhead
    exact h ⟨hn, hpos, hhead⟩

theorem checkPadding_eq_error {flaw : Flaw}
    (h : checkPadding nested fence opener cur = .error flaw) :
    flaw = .unbalanced fence opener ∧ 0 < fence.hashes ∧ cur.rest.head? = some '#' := by
  unfold checkPadding at h
  split at h
  · next hbad => exact ⟨(Except.error.inj h).symm, hbad.2⟩
  · simp at h

/-! ## Verbatim text -/

theorem verbatim_ok {start : Cursor} {step : Step (start.rest.length + 1) (List Char × Nat)}
    (hleft : cur.Passes fence.left start) (h : verbatim fence opener start = .ok step) :
    ∃ mid, fence.Encloses cur start step.value.1 mid step.next ∧ mid.offset = step.value.2 := by
  simp only [verbatim, Break.ofVerbatim?] at h
  split at h
  · simp at h
  · next b hf =>
    obtain rfl := Except.ok.inj h
    obtain ⟨hmem, hwithin⟩ := Break.find?_spec hf
    have hmark := List.mem_singleton.1 hmem
    refine ⟨⟨start.offset + width b.inner, b.mark ++ b.rest⟩, ⟨hleft, ?_, ?_, ?_⟩, rfl⟩
    · exact Cursor.passes_of_rest_eq b.whole.symm
    · rw [← hmark]
      exact Cursor.passes_of_rest_eq rfl
    · exact Break.not_infix_of_noneWithin hwithin (List.mem_singleton.2 rfl) fence.right_ne_nil

theorem verbatim_error {flaw : Flaw} (h : verbatim fence opener cur = .error flaw) :
    flaw = .unclosed fence opener ∧ ¬fence.right <:+: cur.rest := by
  simp only [verbatim, Break.ofVerbatim?] at h
  split at h
  · next hf =>
    exact ⟨(Except.error.inj h).symm, Break.find?_eq_none_iff.1 hf _ (List.mem_singleton.2 rfl)⟩
  · simp at h

theorem verbatim_of_encloses {start mid next : Cursor} {inner : List Char}
    (h : fence.Encloses cur start inner mid next) (opener : Nat) :
    ∃ step, verbatim fence opener start = .ok step ∧ step.value = (inner, mid.offset) ∧
      step.next = next := by
  have hcs : inner ++ (fence.right ++ next.rest) = start.rest := by
    rw [h.middle.rest_eq, h.right.rest_eq]
  obtain ⟨b, hb, hbinner, hbmark, hbrest⟩ := Break.find?_of_noneWithin [fence.right] hcs
    (List.mem_singleton.2 rfl)
    (Break.noneWithin_of_not_infix (by simpa using Break.isMark_right fence)
      (Break.head_right_append fence _) (by simpa using h.unbroken))
    (by simp)
  simp only [verbatim, Break.ofVerbatim?, hb]
  refine ⟨_, rfl, ?_, ?_⟩
  · simp only [hbinner, h.middle.offset_eq]
  · rw [(h.middle.trans h.right).eq_mk]
    simp only [hbinner, hbmark, hbrest, width_append, Nat.add_assoc]

end Parser

end Prosemark
