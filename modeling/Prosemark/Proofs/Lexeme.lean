import Prosemark.Lexeme
import Prosemark.Proofs.Category
import Prosemark.Proofs.Numeral
import Prosemark.Proofs.Place

/-!
# What the scanners find

For each scanner: what the piece that it cuts off is and what cannot come after it, when it finds
nothing, and that it finds a piece of its kind that cannot be longer. The kinds are predicates on
texts (`IsIdentifier`, `IsOperator`, `Numeral.IsLongest`), and `Opens` says that a fence of a
delimiter stands at the head of a text.
-/

namespace Prosemark

theorem Cursor.past_eq_of_passes {cur next : Cursor} {cut : Cut cur.rest}
    (h : cur.Passes cut.piece next) : cur.past cut = next :=
  (cur.passes_past cut).right_unique h

/-- Skipping stops at the first character that is not to be skipped. -/
theorem Cursor.skip_eq_of_passes {p : Char → Bool} {cur next : Cursor} {text : List Char}
    (h : cur.Passes text next) (htext : ∀ c ∈ text, p c = true)
    (hnext : ∀ c ∈ next.rest.head?, p c = false) : cur.skip p = next := by
  apply (cur.passes_skip p).right_unique
  rwa [h.rest_eq, takeWhile_append_of_head htext hnext]

namespace Cut

/-! ## Single characters and runs -/

section One

variable {p : Char → Bool} {cs : List Char}

theorem one?_eq_none_iff : one? p cs = none ↔ ∀ c ∈ cs.head?, p c = false := by
  cases cs with
  | nil => simp [one?]
  | cons c cs => simp [one?]

theorem one?_piece {cut : Cut cs} (h : one? p cs = some cut) :
    ∃ c, cut.piece = [c] ∧ p c = true := by
  cases cs with
  | nil => simp [one?] at h
  | cons c cs =>
    simp only [one?, Option.ite_none_right_eq_some, Option.some.injEq] at h
    obtain ⟨hc, rfl⟩ := h
    exact ⟨c, rfl, hc⟩

theorem one?_of_head {c : Char} {rest : List Char} (hcs : cs = [c] ++ rest) (hc : p c = true) :
    ∃ cut : Cut cs, one? p cs = some cut ∧ cut.piece = [c] := by
  subst hcs
  exact ⟨⟨[c], rest, rfl, List.cons_ne_nil c []⟩, if_pos hc, rfl⟩

end One

section Run

variable {p q : Char → Bool} {cs : List Char}

theorem run?_eq_none_iff : run? p q cs = none ↔ ∀ c ∈ cs.head?, p c = false := by
  cases cs with
  | nil => simp [run?]
  | cons c cs => simp [run?]

theorem run?_piece {cut : Cut cs} (h : run? p q cs = some cut) :
    ∃ c ds, cut.piece = c :: ds ∧ p c = true ∧ (∀ d ∈ ds, q d = true) ∧
      ∀ d ∈ cut.rest.head?, q d = false := by
  cases cs with
  | nil => simp [run?] at h
  | cons c cs =>
    simp only [run?, Option.ite_none_right_eq_some, Option.some.injEq] at h
    obtain ⟨hc, rfl⟩ := h
    exact ⟨c, cs.takeWhile q, rfl, hc, forall_mem_takeWhile q cs, head_dropWhile q cs⟩

theorem run?_of_append {c : Char} {ds rest : List Char} (hcs : cs = c :: ds ++ rest)
    (hc : p c = true) (hds : ∀ d ∈ ds, q d = true) (hrest : ∀ d ∈ rest.head?, q d = false) :
    ∃ cut : Cut cs, run? p q cs = some cut ∧ cut.piece = c :: ds := by
  subst hcs
  simp only [List.cons_append, run?, if_pos hc]
  exact ⟨_, rfl, by simp only [takeWhile_append_of_head hds hrest]⟩

end Run

end Cut

namespace Lexeme

/-! ## Identifiers, operators and symbols -/

/-- A character that starts identifiers, and others that continue them. -/
def IsIdentifier (text : List Char) : Prop :=
  ∃ c cs, text = c :: cs ∧ Charset.isIdStart c = true ∧ ∀ d ∈ cs, Charset.isIdContinue d = true

/-- A separator, or a run of operator characters that does not go on in what comes after it. -/
def IsOperator (sw : Switch) (text rest : List Char) : Prop :=
  (∃ c, text = [c] ∧ Charset.isSeparator c = true) ∨
    (text ≠ [] ∧ (∀ c ∈ text, joinsRun sw c = true) ∧ ∀ c ∈ rest.head?, joinsRun sw c = false)

section Identifier

variable {cs : List Char}

theorem identifier?_eq_none_iff :
    identifier? cs = none ↔ ∀ c ∈ cs.head?, Charset.isIdStart c = false :=
  Cut.run?_eq_none_iff

theorem identifier?_piece {cut : Cut cs} (h : identifier? cs = some cut) :
    IsIdentifier cut.piece ∧ ∀ c ∈ cut.rest.head?, Charset.isIdContinue c = false := by
  obtain ⟨c, ds, hpiece, hc, hds, hrest⟩ := Cut.run?_piece h
  exact ⟨⟨c, ds, hpiece, hc, hds⟩, hrest⟩

theorem identifier?_of_append {text rest : List Char} (hcs : cs = text ++ rest)
    (h : IsIdentifier text) (hrest : ∀ c ∈ rest.head?, Charset.isIdContinue c = false) :
    ∃ cut : Cut cs, identifier? cs = some cut ∧ cut.piece = text := by
  obtain ⟨c, ds, rfl, hc, hds⟩ := h
  exact Cut.run?_of_append hcs hc hds hrest

end Identifier

section Operator

variable {sw : Switch} {cs : List Char}

theorem joinsRun_eq_false_of_isSeparator {c : Char} (h : Charset.isSeparator c = true) :
    joinsRun sw c = false := by
  have hstop : Charset.operatorStops.contains c = true := by
    rw [Charset.isSeparator, Bool.or_eq_true, beq_iff_eq, beq_iff_eq] at h
    rcases h with rfl | rfl <;> decide
  rw [joinsRun, hstop, Bool.not_true, Bool.and_false, Bool.false_and]

theorem isOperator_of_joinsRun {c : Char} (h : joinsRun sw c = true) :
    Charset.isOperator c = true := by
  simp only [joinsRun, Bool.and_eq_true] at h
  exact h.1.1

/-- Whether a character is an operator or starts one. -/
def startsOperator (sw : Switch) (c : Char) : Bool :=
  joinsRun sw c || Charset.isSeparator c

theorem startsOperator_eq_false {c : Char}
    (h : Charset.isOperator c = false ∨ Charset.operatorStops.contains c = true ∨ c = sw.char)
    (hsep : Charset.isSeparator c = false) : startsOperator sw c = false := by
  rw [startsOperator, hsep, Bool.or_false, joinsRun]
  rcases h with h | h | h
  · rw [h, Bool.false_and, Bool.false_and]
  · rw [h, Bool.not_true, Bool.and_false, Bool.false_and]
  · rw [h, bne_self_eq_false, Bool.and_false]

theorem startsOperator_minus_eq_false_iff : startsOperator sw '-' = false ↔ sw.char = '-' := by
  have hoperator : Charset.isOperator '-' = true := by decide
  have hstop : Charset.operatorStops.contains '-' = false := by decide
  have hsep : Charset.isSeparator '-' = false := by decide
  rw [startsOperator, joinsRun, hoperator, hstop, hsep, Bool.or_false, Bool.not_false,
    Bool.true_and, Bool.true_and, bne_eq_false_iff_eq]
  exact eq_comm

theorem operator?_eq_none_iff :
    operator? sw cs = none ↔ ∀ c ∈ cs.head?, startsOperator sw c = false := by
  simp only [operator?, Option.or_eq_none_iff, Cut.run?_eq_none_iff, Cut.one?_eq_none_iff,
    startsOperator, Bool.or_eq_false_iff]
  constructor
  · rintro ⟨hrun, hone⟩ c hc
    exact ⟨hrun c hc, hone c hc⟩
  · intro h
    exact ⟨fun c hc => (h c hc).1, fun c hc => (h c hc).2⟩

theorem operator?_piece {cut : Cut cs} (h : operator? sw cs = some cut) :
    IsOperator sw cut.piece cut.rest := by
  rw [operator?, Option.or_eq_some_iff] at h
  rcases h with h | ⟨-, h⟩
  · obtain ⟨c, ds, hpiece, hc, hds, hrest⟩ := Cut.run?_piece h
    refine .inr ⟨cut.piece_ne_nil, ?_, hrest⟩
    rw [hpiece]
    exact List.forall_mem_cons.2 ⟨hc, hds⟩
  · exact .inl (Cut.one?_piece h)

theorem operator?_of_append {text rest : List Char} (hcs : cs = text ++ rest)
    (h : IsOperator sw text rest) :
    ∃ cut : Cut cs, operator? sw cs = some cut ∧ cut.piece = text := by
  rcases h with ⟨c, rfl, hc⟩ | ⟨hne, htext, hrest⟩
  · obtain ⟨cut, hcut, hpiece⟩ := Cut.one?_of_head hcs hc
    have hrun : Cut.run? (joinsRun sw) (joinsRun sw) cs = none := by
      rw [Cut.run?_eq_none_iff, hcs]
      rintro d ⟨⟩
      exact joinsRun_eq_false_of_isSeparator hc
    exact ⟨cut, by rw [operator?, hrun, Option.none_or, hcut], hpiece⟩
  · obtain ⟨c, ds, rfl⟩ := List.exists_cons_of_ne_nil hne
    obtain ⟨hc, hds⟩ := List.forall_mem_cons.1 htext
    obtain ⟨cut, hcut, hpiece⟩ := Cut.run?_of_append hcs hc hds hrest
    exact ⟨cut, by rw [operator?, hcut, Option.some_or], hpiece⟩

/-- An operator starts with a character that nothing else starts with. -/
theorem startsOperator_spec {c : Char} (h : startsOperator sw c = true) :
    Charset.isIdStart c = false ∧ Charset.isBlank c = false ∧ c.isDigit = false ∧ c ≠ sw.char := by
  rw [startsOperator, Bool.or_eq_true] at h
  rcases h with h | h
  · have hop := isOperator_of_joinsRun h
    refine ⟨Charset.isIdStart_eq_false_of_isOperator hop,
      Charset.isBlank_eq_false_of_isOperator hop, ?_, ?_⟩
    · rw [Bool.eq_false_iff]
      intro hdigit
      rw [Charset.isOperator_eq_false_of_isDigit hdigit] at hop
      cases hop
    · rw [joinsRun, Bool.and_eq_true, bne_iff_ne] at h
      exact h.2
  · have hne : sw.char ≠ ',' ∧ sw.char ≠ ';' :=
      ⟨sw.char_ne_of_mem_reserved (by decide), sw.char_ne_of_mem_reserved (by decide)⟩
    rw [Charset.isSeparator, Bool.or_eq_true, beq_iff_eq, beq_iff_eq] at h
    rcases h with rfl | rfl
    · exact ⟨by decide, by decide, by decide, hne.1.symm⟩
    · exact ⟨by decide, by decide, by decide, hne.2.symm⟩

theorem IsOperator.startsOperator_head {text rest : List Char} (h : IsOperator sw text rest) :
    ∃ c cs, text = c :: cs ∧ startsOperator sw c = true := by
  rcases h with ⟨c, rfl, hc⟩ | ⟨hne, htext, -⟩
  · exact ⟨c, [], rfl, Bool.or_eq_true_iff.2 (.inr hc)⟩
  · obtain ⟨c, cs, rfl⟩ := List.exists_cons_of_ne_nil hne
    exact ⟨c, cs, rfl, Bool.or_eq_true_iff.2 (.inl (htext c List.mem_cons_self))⟩

/-- An operator starts with a character that starts no identifier and is no blank. -/
theorem IsOperator.head {text rest : List Char} (h : IsOperator sw text rest) :
    ∃ c cs, text = c :: cs ∧ Charset.isIdStart c = false ∧ Charset.isBlank c = false := by
  obtain ⟨c, cs, rfl, hc⟩ := h.startsOperator_head
  obtain ⟨hid, hblank, -⟩ := startsOperator_spec hc
  exact ⟨c, cs, rfl, hid, hblank⟩

end Operator

theorem symbol?_eq_none_iff {cs : List Char} :
    symbol? cs = none ↔ ∀ c ∈ cs.head?, Charset.isSymbol c = false :=
  Cut.one?_eq_none_iff

theorem char?_eq_none_iff {c : Char} {cs : List Char} : char? c cs = none ↔ cs.head? ≠ some c := by
  rw [char?, Cut.one?_eq_none_iff]
  cases cs <;> simp

theorem char?_passes {c : Char} {cur : Cursor} {cut : Cut cur.rest}
    (h : char? c cur.rest = some cut) : cur.Passes [c] (cur.past cut) := by
  obtain ⟨d, hpiece, hd⟩ := Cut.one?_piece h
  rw [← beq_iff_eq.1 hd, ← hpiece]
  exact cur.passes_past cut

theorem char?_of_passes {c : Char} {cur next : Cursor} (h : cur.Passes [c] next) :
    ∃ cut, char? c cur.rest = some cut ∧ cur.past cut = next := by
  obtain ⟨cut, hcut, hpiece⟩ :=
    Cut.one?_of_head (p := (· == c)) h.rest_eq (beq_self_eq_true c)
  exact ⟨cut, hcut, Cursor.past_eq_of_passes (hpiece ▸ h)⟩

end Lexeme

/-! ## Numerals -/

namespace Numeral

/-- The numeral stands at the head of the text, and no longer one does. -/
def IsLongest (n : Numeral) (cs : List Char) : Prop :=
  n.Valid ∧ n.chars <+: cs ∧
    ∀ m : Numeral, m.Valid → m.chars <+: cs → m.chars.length ≤ n.chars.length

theorem cut?_eq_none_iff {cs : List Char} :
    cut? cs = none ↔ ∀ n : Numeral, n.Valid → ¬n.chars <+: cs := by
  rw [← scan?_eq_none_iff, cut?]
  split <;> simp_all

theorem cut?_piece {cs : List Char} {n : Numeral} {cut : Cut cs} (h : cut? cs = some (n, cut)) :
    cut.piece = n.chars ∧ n.IsLongest cs := by
  unfold cut? at h
  split at h
  · simp at h
  · next n' rest hs =>
    obtain ⟨rfl, rfl⟩ := Prod.mk.inj (Option.some.inj h)
    obtain ⟨hn, hwhole, hlongest⟩ := scan?_eq_some_iff.1 hs
    exact ⟨rfl, hn, ⟨rest, hwhole⟩, hlongest⟩

theorem cut?_of_isLongest {cs : List Char} {n : Numeral} (h : n.IsLongest cs) :
    ∃ cut, cut? cs = some (n, cut) ∧ cut.piece = n.chars := by
  obtain ⟨hn, ⟨rest, hwhole⟩, hlongest⟩ := h
  have hs := scan?_eq_some_iff.2 ⟨hn, hwhole, hlongest⟩
  unfold cut?
  split
  · next hs' => simp [hs] at hs'
  · next n' rest' hs' =>
    obtain ⟨rfl, rfl⟩ := Prod.mk.inj (Option.some.inj (hs.symm.trans hs'))
    exact ⟨_, rfl, rfl⟩

/-- A numeral starts with a minus or a digit. -/
theorem Valid.head {n : Numeral} (h : n.Valid) :
    ∃ c cs, n.chars = c :: cs ∧
      (c.isDigit = true ∨ c = '-' ∧ ∃ d ds, cs = d :: ds ∧ d.isDigit = true) := by
  obtain ⟨d, ds, hds⟩ := List.exists_cons_of_ne_nil h.whole_ne_nil
  have hd : d.isDigit = true := h.whole d (by rw [hds]; exact List.mem_cons_self)
  rw [chars_eq, hds]
  cases n.negative with
  | true => exact ⟨'-', _, rfl, .inr ⟨rfl, d, _, rfl, hd⟩⟩
  | false => exact ⟨d, _, rfl, .inl hd⟩

theorem Valid.isIdStart_head {n : Numeral} (h : n.Valid) (t : List Char) :
    ∀ c ∈ (n.chars ++ t).head?, Charset.isIdStart c = false := by
  obtain ⟨c, cs, hchars, hc⟩ := h.head
  rw [hchars]
  rintro _ ⟨⟩
  rcases hc with hc | ⟨rfl, -⟩
  · exact Charset.isIdStart_eq_false_of_isDigit hc
  · decide

theorem Valid.isBlank_head {n : Numeral} (h : n.Valid) (t : List Char) :
    ∀ c ∈ (n.chars ++ t).head?, Charset.isBlank c = false := by
  obtain ⟨c, cs, hchars, hc⟩ := h.head
  rw [hchars]
  rintro _ ⟨⟩
  rcases hc with hc | ⟨rfl, -⟩
  · exact Charset.isBlank_eq_false_of_isDigit hc
  · decide

/-- A numeral starts no operator, unless its minus is one. -/
theorem Valid.startsOperator_head {sw : Switch} {n : Numeral} (h : n.Valid) (t : List Char)
    (hminus : (n.chars ++ t).head? = some '-' → sw.char = '-') :
    ∀ c ∈ (n.chars ++ t).head?, Lexeme.startsOperator sw c = false := by
  obtain ⟨c, cs, hchars, hc⟩ := h.head
  rw [hchars] at hminus ⊢
  rintro _ ⟨⟩
  rcases hc with hc | ⟨rfl, -⟩
  · apply Lexeme.startsOperator_eq_false (.inl (Charset.isOperator_eq_false_of_isDigit hc))
    rw [Charset.isSeparator, Bool.or_eq_false_iff, beq_eq_false_iff_ne, beq_eq_false_iff_ne]
    constructor <;> rintro rfl <;> exact absurd hc (by decide)
  · exact Lexeme.startsOperator_minus_eq_false_iff.2 (hminus rfl)

/-- Where neither a digit nor a minus with a digit after it stands, there is no numeral. -/
theorem cut?_eq_none_of_head {cs : List Char} (h : ∀ c ∈ cs.head?, c.isDigit = false)
    (hminus : ∀ c rest, cs = '-' :: c :: rest → c.isDigit = false) : cut? cs = none := by
  rw [cut?_eq_none_iff]
  rintro n hn ⟨t, rfl⟩
  obtain ⟨c, ds, hchars, hc | ⟨rfl, d, ds', rfl, hd⟩⟩ := hn.head
  · exact Bool.false_ne_true ((h c (by simp [hchars])).symm.trans hc)
  · exact Bool.false_ne_true ((hminus d (ds' ++ t) (by simp [hchars])).symm.trans hd)

end Numeral

/-! ## Fences -/

/-- A fence of the delimiter stands at the head of the text. -/
def Opens (d : Delimiter) (cs : List Char) : Prop :=
  ∃ fence : Fence, fence.delimiter = d ∧ fence.left <+: cs

theorem width_replicate_hash (k : Nat) : width (List.replicate k '#') = k := by
  induction k with
  | zero => rfl
  | succ k ih =>
    have hone : '#'.utf8Size = 1 := by decide
    rw [List.replicate_succ, width_cons, ih, hone, Nat.add_comm]

namespace Fence

theorem left_eq_cons (f : Fence) :
    ∃ c cs, f.left = c :: cs ∧ (c = '#' ∨ c = f.delimiter.opening) := by
  obtain ⟨d, k⟩ := f
  cases k with
  | zero => exact ⟨d.opening, [], rfl, .inr rfl⟩
  | succ k => exact ⟨'#', _, rfl, .inl rfl⟩

theorem opening_ne_hash (d : Delimiter) : d.opening ≠ '#' := by
  cases d <;> decide

theorem closing_ne_hash (d : Delimiter) : d.closing ≠ '#' := by
  cases d <;> decide

theorem left_ne_nil (f : Fence) : f.left ≠ [] :=
  List.append_ne_nil_of_right_ne_nil _ (List.cons_ne_nil _ _)

theorem right_ne_nil (f : Fence) : f.right ≠ [] :=
  List.cons_ne_nil _ _

theorem width_left (f : Fence) : width f.left = f.hashes + 1 := by
  have hone : f.delimiter.opening.utf8Size = 1 := by
    cases f.delimiter <;> decide
  rw [left, width_append, width_replicate_hash, width_cons, hone, width_nil]

theorem width_right (f : Fence) : width f.right = f.hashes + 1 := by
  have hone : f.delimiter.closing.utf8Size = 1 := by
    cases f.delimiter <;> decide
  rw [right, width_cons, width_replicate_hash, hone, Nat.add_comm]

theorem takeWhile_hash_left (f : Fence) (t : List Char) :
    (f.left ++ t).takeWhile (· == '#') = List.replicate f.hashes '#' := by
  rw [left, List.append_assoc]
  apply takeWhile_append_of_head (by simp [List.mem_replicate])
  rintro c ⟨⟩
  simpa using opening_ne_hash f.delimiter

theorem dropWhile_hash_left (f : Fence) (t : List Char) :
    (f.left ++ t).dropWhile (· == '#') = f.delimiter.opening :: t := by
  rw [left, List.append_assoc]
  apply dropWhile_append_of_head (by simp [List.mem_replicate])
  rintro c ⟨⟩
  simpa using opening_ne_hash f.delimiter

theorem cut?_piece {d : Delimiter} {cs : List Char} {f : Fence} {cut : Cut cs}
    (h : cut? d cs = some (f, cut)) : f.delimiter = d ∧ cut.piece = f.left := by
  simp only [cut?] at h
  split at h
  · simp at h
  · next c rest hdrop =>
    split at h
    · next hc =>
      obtain ⟨rfl, rfl⟩ := Prod.mk.inj (Option.some.inj h)
      refine ⟨rfl, ?_⟩
      have hpad : cs.takeWhile (· == '#') =
          List.replicate (cs.takeWhile (· == '#')).length '#' := by
        rw [List.eq_replicate_iff]
        exact ⟨rfl, fun c hc => beq_iff_eq.1 (forall_mem_takeWhile _ cs c hc)⟩
      simp only [left, hc]
      rw [← hpad]
    · simp at h

theorem cut?_of_left {cs rest : List Char} {f : Fence} (hcs : cs = f.left ++ rest) :
    ∃ cut, cut? f.delimiter cs = some (f, cut) ∧ cut.piece = f.left := by
  have hdrop : cs.dropWhile (· == '#') = f.delimiter.opening :: rest := by
    rw [hcs, dropWhile_hash_left]
  have htake : cs.takeWhile (· == '#') = List.replicate f.hashes '#' := by
    rw [hcs, takeWhile_hash_left]
  simp only [cut?]
  split
  · next h => simp [hdrop] at h
  · next c rest' h =>
    obtain ⟨rfl, rfl⟩ := List.cons.inj (hdrop.symm.trans h)
    simp only [if_pos, htake, List.length_replicate]
    exact ⟨_, rfl, rfl⟩

theorem cut?_passes {d : Delimiter} {cur : Cursor} {f : Fence} {cut : Cut cur.rest}
    (h : cut? d cur.rest = some (f, cut)) :
    f.delimiter = d ∧ cur.Passes f.left (cur.past cut) := by
  obtain ⟨hd, hpiece⟩ := cut?_piece h
  rw [← hpiece]
  exact ⟨hd, cur.passes_past cut⟩

theorem cut?_of_passes {cur next : Cursor} {f : Fence} (h : cur.Passes f.left next) :
    ∃ cut, cut? f.delimiter cur.rest = some (f, cut) ∧ cur.past cut = next := by
  obtain ⟨cut, hcut, hpiece⟩ := cut?_of_left h.rest_eq
  exact ⟨cut, hcut, Cursor.past_eq_of_passes (hpiece ▸ h)⟩

theorem cut?_eq_none_iff {d : Delimiter} {cs : List Char} : cut? d cs = none ↔ ¬Opens d cs := by
  constructor
  · rintro h ⟨f, rfl, rest, rfl⟩
    obtain ⟨cut, hcut, -⟩ := cut?_of_left (rfl : f.left ++ rest = f.left ++ rest)
    simp [h] at hcut
  · intro h
    cases hc : cut? d cs with
    | none => rfl
    | some p =>
      obtain ⟨f, cut⟩ := p
      obtain ⟨hf, hpiece⟩ := cut?_piece hc
      exact absurd ⟨f, hf, cut.rest, by rw [← hpiece, cut.whole]⟩ h

end Fence

theorem opens_of_cut? {d : Delimiter} {cs : List Char} {p : Fence × Cut cs}
    (h : Fence.cut? d cs = some p) : Opens d cs := by
  refine Classical.not_not.1 fun hno => ?_
  rw [Fence.cut?_eq_none_iff.2 hno] at h
  simp at h

theorem opens_iff {d : Delimiter} {cs : List Char} :
    Opens d cs ↔ (cs.dropWhile (· == '#')).head? = some d.opening := by
  constructor
  · rintro ⟨f, rfl, rest, rfl⟩
    rw [f.dropWhile_hash_left]
    rfl
  · intro h
    obtain ⟨rest, hrest⟩ := List.head?_eq_some_iff.1 h
    have hpadding : cs.takeWhile (· == '#') =
        List.replicate (cs.takeWhile (· == '#')).length '#' :=
      List.eq_replicate_iff.2 ⟨rfl, fun c hc => beq_iff_eq.1 (forall_mem_takeWhile _ cs c hc)⟩
    refine ⟨⟨d, (cs.takeWhile (· == '#')).length⟩, rfl, rest, ?_⟩
    rw [Fence.left, ← hpadding, List.append_assoc, List.singleton_append, ← hrest,
      List.takeWhile_append_dropWhile]

theorem Cursor.Passes.opens {cur next : Cursor} {f : Fence} (h : cur.Passes f.left next) :
    Opens f.delimiter cur.rest :=
  ⟨f, rfl, next.rest, h.rest_eq.symm⟩

theorem Delimiter.opening_injective {d e : Delimiter} (h : d.opening = e.opening) : d = e := by
  cases d <;> cases e <;> first | rfl | exact absurd h (by decide)

/-- At most one fence stands at the head of a text. -/
theorem Opens.delimiter_unique {d e : Delimiter} {cs : List Char} (hd : Opens d cs)
    (he : Opens e cs) : d = e := by
  obtain ⟨f, rfl, r, rfl⟩ := hd
  obtain ⟨g, rfl, s, hs⟩ := he
  have := g.dropWhile_hash_left s
  rw [hs, f.dropWhile_hash_left] at this
  exact Delimiter.opening_injective (List.cons.inj this).1

/-- Where a fence opens stands a `#` or the opening character of its delimiter. -/
theorem Opens.head {d : Delimiter} {cs : List Char} (h : Opens d cs) :
    ∃ c rest, cs = c :: rest ∧ (c = '#' ∨ c = d.opening) := by
  obtain ⟨f, rfl, r, rfl⟩ := h
  obtain ⟨c, ds, hleft, hc⟩ := f.left_eq_cons
  exact ⟨c, ds ++ r, by rw [hleft, List.cons_append], hc⟩

theorem not_opens_nil (d : Delimiter) : ¬Opens d [] := by
  intro h
  obtain ⟨c, rest, hrest, -⟩ := h.head
  cases hrest

theorem Opens.forall_head {d : Delimiter} {cs : List Char} (h : Opens d cs) {p : Char → Bool}
    (hhash : p '#' = false) (hopening : ∀ d : Delimiter, p d.opening = false) :
    ∀ c ∈ cs.head?, p c = false := by
  obtain ⟨c, rest, rfl, hc⟩ := h.head
  rintro _ ⟨⟩
  rcases hc with rfl | rfl
  · exact hhash
  · exact hopening d

theorem Opens.isIdStart_head {d : Delimiter} {cs : List Char} (h : Opens d cs) :
    ∀ c ∈ cs.head?, Charset.isIdStart c = false :=
  h.forall_head (by decide) fun d => by cases d <;> decide

theorem Opens.isDigit_head {d : Delimiter} {cs : List Char} (h : Opens d cs) :
    ∀ c ∈ cs.head?, c.isDigit = false :=
  h.forall_head (by decide) fun d => by cases d <;> decide

theorem Opens.isBlank_head {d : Delimiter} {cs : List Char} (h : Opens d cs) :
    ∀ c ∈ cs.head?, Charset.isBlank c = false :=
  h.forall_head (by decide) fun d => by cases d <;> decide

/-- No fence opens with the switch or with a bracket. -/
theorem not_opens_of_head {c : Char} {rest : List Char} (hhash : c ≠ '#')
    (h : ∀ d : Delimiter, c ≠ d.opening) (d : Delimiter) : ¬Opens d (c :: rest) := by
  intro hopens
  obtain ⟨c', rest', hcs, hc⟩ := hopens.head
  obtain ⟨rfl, -⟩ := List.cons.inj hcs
  exact hc.elim hhash (h d)

theorem not_opens_switch {sw : Switch} {rest : List Char} (d : Delimiter) :
    ¬Opens d (sw.char :: rest) := by
  refine not_opens_of_head sw.char_ne_hash (fun e => sw.char_ne_of_mem_reserved ?_) d
  cases e <;> decide

theorem not_opens_bracket {c : Char} {rest : List Char} (h : c = '[' ∨ c = ']') (d : Delimiter) :
    ¬Opens d (c :: rest) := by
  refine not_opens_of_head ?_ (fun e => ?_) d
  · rcases h with rfl | rfl <;> decide
  · rcases h with rfl | rfl <;> cases e <;> decide

/-! ## Identifiers, operators and numbers -/

/-- Neither an identifier nor an operator nor a numeral stands at the head of the text. -/
def NoAtom (sw : Switch) (cs : List Char) : Prop :=
  (∀ c ∈ cs.head?, Charset.isIdStart c = false) ∧
    (∀ c ∈ cs.head?, Lexeme.startsOperator sw c = false) ∧
    ∀ n : Numeral, n.Valid → ¬n.chars <+: cs

theorem noAtom_of_head {sw : Switch} {c : Char} {rest : List Char}
    (hid : Charset.isIdStart c = false) (hop : Lexeme.startsOperator sw c = false)
    (hdigit : c.isDigit = false) (hminus : c = '-' → ∀ d ∈ rest.head?, d.isDigit = false) :
    NoAtom sw (c :: rest) := by
  refine ⟨?_, ?_, Numeral.cut?_eq_none_iff.1 (Numeral.cut?_eq_none_of_head ?_ ?_)⟩
  · rintro _ ⟨⟩
    exact hid
  · rintro _ ⟨⟩
    exact hop
  · rintro _ ⟨⟩
    exact hdigit
  · rintro d ds hds
    obtain ⟨rfl, rfl⟩ := List.cons.inj hds
    exact hminus rfl d rfl

theorem noAtom_switch {sw : Switch} {rest : List Char} (h : ∀ c ∈ rest.head?, c.isDigit = false) :
    NoAtom sw (sw.char :: rest) := by
  refine noAtom_of_head sw.isIdStart_char ?_ sw.isDigit_char fun _ => h
  apply Lexeme.startsOperator_eq_false (.inr (.inr rfl))
  rw [Charset.isSeparator, Bool.or_eq_false_iff, beq_eq_false_iff_ne, beq_eq_false_iff_ne]
  exact ⟨sw.char_ne_of_mem_reserved (by decide), sw.char_ne_of_mem_reserved (by decide)⟩

/-- The characters of brackets and of the fences that tokens open with. -/
def isTokenMark (c : Char) : Bool :=
  ['#', '\x7b', '"', '[', ']'].contains c

section TokenMark

variable {sw : Switch} {c : Char} (h : isTokenMark c = true)

include h

theorem isTokenMark_cases : c = '#' ∨ c = '\x7b' ∨ c = '"' ∨ c = '[' ∨ c = ']' := by
  simpa [isTokenMark] using h

theorem isIdStart_eq_false_of_isTokenMark : Charset.isIdStart c = false := by
  rcases isTokenMark_cases h with rfl | rfl | rfl | rfl | rfl <;> decide

theorem isDigit_eq_false_of_isTokenMark : c.isDigit = false := by
  rcases isTokenMark_cases h with rfl | rfl | rfl | rfl | rfl <;> decide

theorem startsOperator_eq_false_of_isTokenMark : Lexeme.startsOperator sw c = false := by
  have hc : (Charset.isOperator c = false ∨ Charset.operatorStops.contains c = true) ∧
      Charset.isSeparator c = false := by
    rcases isTokenMark_cases h with rfl | rfl | rfl | rfl | rfl <;> decide
  refine Lexeme.startsOperator_eq_false ?_ hc.2
  rcases hc.1 with hop | hstop
  · exact .inl hop
  · exact .inr (.inl hstop)

theorem Switch.char_ne_of_isTokenMark : c ≠ sw.char := by
  apply Ne.symm
  apply sw.char_ne_of_mem_reserved
  rcases isTokenMark_cases h with rfl | rfl | rfl | rfl | rfl <;> decide

theorem noAtom_mark {rest : List Char} : NoAtom sw (c :: rest) := by
  refine noAtom_of_head (isIdStart_eq_false_of_isTokenMark h)
    (startsOperator_eq_false_of_isTokenMark h) (isDigit_eq_false_of_isTokenMark h) ?_
  rintro rfl
  exact absurd h (by decide)

end TokenMark

theorem Opens.noAtom {sw : Switch} {d : Delimiter} {cs : List Char} (h : Opens d cs)
    (hd : d ≠ .bar) : NoAtom sw cs := by
  obtain ⟨c, rest, rfl, hc⟩ := h.head
  apply noAtom_mark
  rcases hc with rfl | rfl
  · decide
  · cases d with
    | brace => decide
    | quote => decide
    | bar => exact absurd rfl hd

end Prosemark
