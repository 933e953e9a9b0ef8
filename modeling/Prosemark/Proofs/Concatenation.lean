import Prosemark.Proofs.Refusal
import Prosemark.Proofs.Shift
import Prosemark.Proofs.Transfer

/-!
# Sources put together

No construct looks further ahead than what continues it, and none looks behind. So a source that is
parsed can be put before another one, with prose between that continues nothing: the whole has the
fragments of both, with the prose between them (`parse_append`), and where the second source is
refused the whole is refused for the same fault.

Prose at the end of the first source runs on into what stands between, and this into prose at the
start of the second, so the fragments are those of the parts with adjacent prose put together
(`Fragment.merge`).
-/

namespace Prosemark

open Prosemark.Parser

/-! ## Adjacent prose -/

/-- The text with the one that stands right after it. -/
def Text.join (t u : Text) : Text :=
  ⟨⟨t.span.start, u.span.stop⟩, t.inner ++ u.inner, t.enclosing⟩

/-- The fragment before the others, put together with the first of these if both are prose. -/
def Fragment.attach : Fragment → List Fragment → List Fragment
  | .text t, .text u :: fs =>
    if t.isProse && u.isProse then .text (t.join u) :: fs else .text t :: .text u :: fs
  | f, fs => f :: fs

/-- The fragments with adjacent prose put together. -/
def Fragment.merge (fs : List Fragment) : List Fragment :=
  fs.foldr Fragment.attach []

section Merge

variable {sw : Switch} {source : String} {f : Fragment} {fs gs : List Fragment} {a b c : Nat}

/-- Either two texts are put together, or no prose is before prose. -/
theorem Fragment.attach_cases (f : Fragment) (fs : List Fragment) :
    (∃ t u gs, f = .text t ∧ fs = .text u :: gs ∧ t.isProse = true ∧ u.isProse = true ∧
        f.attach fs = .text (t.join u) :: gs) ∨
      f.attach fs = f :: fs ∧ (f.isProse = true → ∀ g ∈ fs.head?, g.isProse = false) := by
  cases f with
  | command c => exact .inr ⟨rfl, by simp [isProse]⟩
  | block block => exact .inr ⟨rfl, by simp [isProse]⟩
  | text t =>
    cases fs with
    | nil => exact .inr ⟨rfl, by simp⟩
    | cons g gs =>
      cases g with
      | command c => exact .inr ⟨rfl, by simp [isProse]⟩
      | block block => exact .inr ⟨rfl, by simp [isProse]⟩
      | text u =>
        by_cases h : t.isProse = true ∧ u.isProse = true
        · exact .inl ⟨t, u, gs, rfl, rfl, h.1, h.2, by simp [attach, h]⟩
        · exact .inr ⟨by simp [attach, h], by simpa [isProse] using h⟩

theorem Fragment.tile_attach (hf : f.Fills sw source a b) (h : Fragment.Tile sw source fs b c) :
    Fragment.Tile sw source (f.attach fs) a c := by
  rcases f.attach_cases fs with ⟨t, u, gs, rfl, rfl, ht, hu, heq⟩ | ⟨heq, -⟩
  · rw [heq]
    obtain ⟨i, hg, h⟩ := h
    simp only [Fills, ht, hu, if_true] at hf hg
    obtain ⟨hspan, hcovers⟩ := hf
    obtain ⟨hspan', hcovers'⟩ := hg
    have hjoin : (t.join u).isProse = true := ht
    refine ⟨i, ?_, h⟩
    simp only [Fills, hjoin, if_true]
    refine ⟨?_, hcovers.append hcovers'⟩
    rw [Text.join, hspan, hspan']
  · rw [heq]
    exact ⟨b, hf, h⟩

theorem Fragment.normalAll_attach (hf : f.Normal sw source none)
    (h : Fragment.NormalAll sw source none fs) :
    Fragment.NormalAll sw source none (f.attach fs) := by
  rcases f.attach_cases fs with ⟨t, u, gs, rfl, rfl, ht, hu, heq⟩ | ⟨heq, hadjacent⟩
  · rw [heq]
    obtain ⟨hg, hadjacent, h⟩ := h
    simp only [Normal, ht, hu, if_true] at hf hg
    obtain ⟨he, hne, hswitch, -⟩ := hf
    obtain ⟨-, -, hswitch', -⟩ := hg
    have hjoin : (t.join u).isProse = true := ht
    refine ⟨?_, fun _ => hadjacent hu, h⟩
    simp only [Normal, hjoin, if_true]
    refine ⟨he, ?_, ?_, by simp⟩
    · rw [Text.join, ne_eq, String.append_eq_empty_iff]
      exact fun h => hne h.1
    · rw [Text.join, String.toList_append, List.mem_append]
      exact not_or.2 ⟨hswitch, hswitch'⟩
  · rw [heq]
    exact ⟨hf, hadjacent, h⟩

theorem Fragment.tile_merge (h : Fragment.Tile sw source fs a b) :
    Fragment.Tile sw source (Fragment.merge fs) a b := by
  induction fs generalizing a with
  | nil => exact h
  | cons f fs ih =>
    obtain ⟨i, hf, h⟩ := h
    exact tile_attach hf (ih h)

/-- Fragments that are each in normal form at the top level are so together once adjacent prose is
put together. -/
theorem Fragment.normalAll_merge (h : ∀ f ∈ fs, f.Normal sw source none) :
    Fragment.NormalAll sw source none (Fragment.merge fs) := by
  induction fs with
  | nil => trivial
  | cons f fs ih =>
    obtain ⟨hf, h⟩ := List.forall_mem_cons.1 h
    exact normalAll_attach hf (ih h)

theorem Fragment.Tile.append (h : Fragment.Tile sw source fs a b)
    (h' : Fragment.Tile sw source gs b c) : Fragment.Tile sw source (fs ++ gs) a c := by
  induction fs generalizing a with
  | nil =>
    obtain rfl : a = b := h
    exact h'
  | cons f fs ih =>
    obtain ⟨i, hf, h⟩ := h
    exact ⟨i, hf, ih h⟩

end Merge

/-! ## Faults after fragments -/

theorem Fragment.passes_of_isProse {sw : Switch} {source : String} {closing : Option Fence}
    {f : Fragment} {cur next : Cursor} (hin : cur.In source) (hnext : next.In source)
    (hf : f.Fills sw source cur.offset next.offset) (hn : f.Normal sw source closing)
    (hprose : f.isProse = true) : ∃ inner, cur.Passes inner next ∧ IsProse sw closing inner := by
  cases f with
  | command c => cases hprose
  | block block => cases hprose
  | text t =>
    have ht : t.isProse = true := hprose
    simp only [Fills, ht, if_true] at hf
    simp only [Normal, ht, if_true] at hn
    exact ⟨t.inner.toList, hin.passes_to hnext hf.2, hn.2.2⟩

namespace Parser

variable {sw : Switch} {source : String} {cur mid next : Cursor} {flaw : Flaw}

/-- The fragments of a document have the flaw from the cursor on, under every bound. -/
def FailsWith (sw : Switch) (flaw : Flaw) (cur : Cursor) : Prop :=
  ∀ bound, ∀ h : 4 * cur.rest.length < bound, fragments sw bound .document cur h = .error flaw

theorem FailsWith.of_prose {inner : List Char} (h : FailsWith sw flaw mid)
    (hp : cur.Passes inner mid) (hswitch : sw.char ∉ inner) : FailsWith sw flaw cur := by
  intro bound hbound
  obtain ⟨bound, rfl⟩ := Nat.exists_eq_add_of_lt hbound
  have hle := hp.length_le
  have hfails := h (4 * cur.rest.length + bound + 1) (by omega)
  rcases fragments_eq_error_iff.1 hfails with ⟨fence, opener, hscope, -⟩ |
    ⟨more, stop, start, hmore, hprose, he⟩
  · cases hscope
  · refine fragments_eq_error_iff.2 (.inr ⟨inner ++ more, stop, start, hp.trans hmore, ?_, he⟩)
    refine ⟨?_, by simp [Scope.closing]⟩
    rw [List.mem_append]
    exact not_or.2 ⟨hswitch, hprose.1⟩

theorem FailsWith.of_follows {f : Fragment} {start : Cursor} (h : FailsWith sw flaw next)
    (hin : cur.In source) (hp : cur.Passes [sw.char] start)
    (hf : f.Follows sw source false cur start next) : FailsWith sw flaw cur := by
  intro bound hbound
  obtain ⟨bound, rfl⟩ := Nat.exists_eq_add_of_lt hbound
  have hlt := hp.length_lt (List.cons_ne_nil _ _)
  have hy := (complete sw source (4 * cur.rest.length + bound)).expression_yields hin hp hf
    (by omega)
  have hle := hy.length_lt
  exact fragments_eq_error_iff.2 (.inr ⟨[], cur, start, .refl cur, isProse_nil _ _, hp,
    .inr ⟨f, next, ⟨_, hy⟩, _, h _ (by omega)⟩⟩)

/-- What the fragments of a document are refused for after some that tile the source, they are
refused for from the start of those. -/
theorem FailsWith.of_tile {fs : List Fragment} (h : FailsWith sw flaw next)
    (hin : cur.In source) (hnext : next.In source)
    (htile : Fragment.Tile sw source fs cur.offset next.offset)
    (hn : ∀ f ∈ fs, f.Normal sw source none) : FailsWith sw flaw cur := by
  induction fs generalizing cur with
  | nil =>
    obtain rfl := hin.eq_of_offset hnext htile
    exact h
  | cons f fs ih =>
    obtain ⟨hf, hn⟩ := List.forall_mem_cons.1 hn
    obtain ⟨i, hfills, htile⟩ := htile
    obtain ⟨_, hreaches⟩ := (f.sits hfills).reaches
    obtain ⟨mid, hmid, rfl⟩ := hreaches.exists_stop
    have hrest := ih hmid htile hn
    cases hprose : f.isProse with
    | false =>
      obtain ⟨start, hp, hfollows⟩ := Fragment.exists_switch hin hmid hfills hf hprose
      exact hrest.of_follows hin hp hfollows
    | true =>
      obtain ⟨inner, hp, hswitch⟩ := Fragment.passes_of_isProse hin hmid hfills hf hprose
      exact hrest.of_prose hp hswitch.1

end Parser

/-! ## The parts of the whole -/

theorem IsSeam.append {text : List Char} (h : IsSeam text) (hne : text ≠ []) (more : List Char) :
    IsSeam (text ++ more) := by
  obtain ⟨c, cs, rfl⟩ := List.exists_cons_of_ne_nil hne
  exact h

section Parts

variable {sw : Switch} {s₁ w s₂ : String} {t₁ t₂ : Block}

/-- The fragments of the first source stand where they stood, and the prose between right after
them. -/
theorem leading_stands (h₁ : parse sw s₁ = .ok t₁) (hne : w ≠ "") (hswitch : sw.char ∉ w.toList)
    (hseam : IsSeam w.toList) (s₂ : String) :
    Fragment.Tile sw (s₁ ++ w ++ s₂)
        (t₁.children ++ [.text ⟨⟨s₁.utf8ByteSize, (s₁ ++ w).utf8ByteSize⟩, w, .unfenced⟩]) 0
        (s₁ ++ w).utf8ByteSize ∧
      ∀ f ∈ t₁.children ++ [.text ⟨⟨s₁.utf8ByteSize, (s₁ ++ w).utf8ByteSize⟩, w, .unfenced⟩],
        f.Normal sw (s₁ ++ w ++ s₂) none := by
  obtain ⟨⟨-, -, htile⟩, hn⟩ := parse_eq_ok_iff_laidOut.1 h₁
  have hafter : IsSeam (w ++ s₂).toList := by
    rw [String.toList_append]
    exact hseam.append (by simpa using hne) _
  have hsize : ("" : String).utf8ByteSize = 0 := rfl
  have hplace : ((0 : Nat) + ·) = id := funext Nat.zero_add
  obtain ⟨htile', hn'⟩ := Transfer.fragments_within "" _ hafter id htile hn hn.unbroken
  rw [hsize, hplace, Fragment.carryAll_id, String.empty_append, ← String.append_assoc]
    at htile' hn'
  rw [Nat.add_zero, Nat.zero_add] at htile'
  refine ⟨htile'.append ⟨_, ⟨rfl, covers_append s₁ w s₂⟩, rfl⟩, ?_⟩
  · rw [List.forall_mem_append, List.forall_mem_singleton]
    exact ⟨hn'.normal, rfl, hne, hswitch, by simp⟩

/-- The fragments of the second source stand further on. -/
theorem trailing_stands (h₂ : parse sw s₂ = .ok t₂) (before : String) :
    Fragment.Tile sw (before ++ s₂) (Fragment.carryAll (before.utf8ByteSize + ·) id t₂.children)
        before.utf8ByteSize (before ++ s₂).utf8ByteSize ∧
      ∀ f ∈ Fragment.carryAll (before.utf8ByteSize + ·) id t₂.children,
        f.Normal sw (before ++ s₂) none := by
  obtain ⟨⟨-, -, htile⟩, hn⟩ := parse_eq_ok_iff_laidOut.1 h₂
  obtain ⟨htile', hn'⟩ := Transfer.fragments_within before "" isSeam_nil id htile hn hn.unbroken
  rw [String.append_empty, Nat.add_zero, ← String.utf8ByteSize_append] at htile'
  rw [String.append_empty] at hn'
  exact ⟨htile', hn'.normal⟩

end Parts

/-- A source that is parsed can be put before another one, with a text between that has no switch
and continues nothing. If the other one is parsed, the whole is parsed to the fragments of the
first, the text, and those of the other moved by what stands before them, with adjacent prose put
together. If it is refused, the whole is refused for the same fault, as much further on. -/
theorem parse_append {sw : Switch} {s₁ w : String} {t₁ : Block} (h₁ : parse sw s₁ = .ok t₁)
    (hne : w ≠ "") (hswitch : sw.char ∉ w.toList) (hseam : IsSeam w.toList) (s₂ : String) :
    (∀ t₂, parse sw s₂ = .ok t₂ →
      parse sw (s₁ ++ w ++ s₂) =
        .ok ⟨⟨0, (s₁ ++ w ++ s₂).utf8ByteSize⟩,
          Fragment.merge (t₁.children ++
            .text ⟨⟨s₁.utf8ByteSize, (s₁ ++ w).utf8ByteSize⟩, w, .unfenced⟩ ::
              Fragment.carryAll ((s₁ ++ w).utf8ByteSize + ·) id t₂.children), .unfenced⟩) ∧
    ∀ e, parse sw s₂ = .error e →
      ∃ fault offset, e = .grammar fault ⟨offset, some (Position.ofOffset s₂ offset)⟩ ∧
        parse sw (s₁ ++ w ++ s₂) =
          .error (.grammar fault ⟨(s₁ ++ w).utf8ByteSize + offset,
            some (Position.ofOffset (s₁ ++ w ++ s₂) ((s₁ ++ w).utf8ByteSize + offset))⟩) := by
  obtain ⟨htile, hn⟩ := leading_stands h₁ hne hswitch hseam s₂
  refine ⟨fun t₂ h₂ => ?_, fun e he => ?_⟩
  · obtain ⟨htile', hn'⟩ := trailing_stands h₂ (s₁ ++ w)
    have hall := htile.append htile'
    have hnall := List.forall_mem_append.2 ⟨hn, hn'⟩
    rw [List.append_assoc] at hall hnall
    exact parse_of_laidOut ⟨rfl, rfl, Fragment.tile_merge hall⟩ (Fragment.normalAll_merge hnall)
  · obtain ⟨flaw, h, hfails, rfl⟩ := parse_eq_error_iff.1 he
    refine ⟨flaw.fault, flaw.offset, rfl, ?_⟩
    have hnext : Cursor.In (s₁ ++ w ++ s₂) ⟨(s₁ ++ w).utf8ByteSize, s₂.toList⟩ := by
      refine ⟨(s₁ ++ w).toList, ?_, ?_⟩
      · exact String.toList_append
      · rw [width_toList]
        exact (Nat.zero_add _).symm
    have hrest : FailsWith sw (flaw.shift (s₁ ++ w).utf8ByteSize)
        ⟨(s₁ ++ w).utf8ByteSize, s₂.toList⟩ := by
      intro bound hbound
      exact ((shifting sw _ _).fragments_shift rfl rfl).error_eq hfails
    have hstart := hrest.of_tile (Cursor.start_in _) hnext htile hn
    exact parse_eq_error_iff.2 ⟨_, Nat.lt_succ_self _, hstart _ _, rfl⟩

/-- The prose `b` runs on from what stands between; the brace that is not closed is refused where it
stands now. -/
theorem parse_append_seams :
    ∃ t₁ t₂, parse .standard "a@f" = .ok t₁ ∧ parse .standard "b@\x7bc\x7d" = .ok t₂ ∧
      ", " ≠ "" ∧ Switch.standard.char ∉ ", ".toList ∧ IsSeam ", ".toList ∧
      parse .standard ("a@f" ++ ", " ++ "b@\x7bc\x7d") =
        .ok ⟨⟨0, 10⟩,
          Fragment.merge (t₁.children ++ .text ⟨⟨3, 5⟩, ", ", .unfenced⟩ ::
            Fragment.carryAll (5 + ·) id t₂.children), .unfenced⟩ ∧
      parse .standard "b@\x7bc" =
        .error (.grammar (.unclosed "\x7b" "\x7d") ⟨2, some ⟨1, 3⟩⟩) ∧
      parse .standard ("a@f" ++ ", " ++ "b@\x7bc") =
        .error (.grammar (.unclosed "\x7b" "\x7d") ⟨7, some ⟨1, 8⟩⟩) := by
  have hseam : IsSeam ", ".toList := by
    rintro _ ⟨⟩
    decide
  have hsome : (parse .standard "a@f").toOption.isSome = true := by
    decide +kernel
  have hsome' : (parse .standard "b@\x7bc\x7d").toOption.isSome = true := by
    decide +kernel
  obtain ⟨t₁, h₁⟩ := exists_tree hsome
  obtain ⟨t₂, h₂⟩ := exists_tree hsome'
  have herror : parse .standard "b@\x7bc" =
      .error (.grammar (.unclosed "\x7b" "\x7d") ⟨2, some ⟨1, 3⟩⟩) :=
    eq_error_of_match (by decide +kernel)
  refine ⟨t₁, t₂, h₁, h₂, by decide, by decide, hseam, ?_, herror, ?_⟩
  · exact (parse_append h₁ (by decide) (by decide) hseam _).1 t₂ h₂
  · obtain ⟨fault, offset, he, hwhole⟩ :=
      (parse_append h₁ (by decide) (by decide) hseam _).2 _ herror
    obtain ⟨rfl, hplace⟩ := Error.grammar.inj he
    obtain ⟨rfl, -⟩ := Place.mk.inj hplace
    exact hwhole

end Prosemark
