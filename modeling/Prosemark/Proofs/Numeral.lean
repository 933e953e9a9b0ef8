import Prosemark.Number.Numeral

/-!
# The longest numeral

`Numeral.Valid` is the grammar of numerals. A text may begin with several of them, since a numeral
can stop before its fraction, before its exponent or between two digits; `Numeral.scan?` finds the
longest (`scan?_eq_some_iff`), and finds none only where there is none (`scan?_eq_none_iff`).

That a valid numeral at the head of a text is no longer than what is found is shown part by part:
only the last part of the numeral can be read further than the numeral goes, and then what is found
is longer. Before a character that is no part of numerals, nothing can be read further
(`Valid.scan?_eq`).
-/

namespace Prosemark

/-! ## Runs -/

section Run

variable {α : Type} {p : α → Bool} {body rest : List α}

theorem takeWhile_append_of_head (hbody : ∀ c ∈ body, p c = true)
    (hrest : ∀ c ∈ rest.head?, p c = false) : (body ++ rest).takeWhile p = body := by
  rw [List.takeWhile_append_of_pos hbody]
  cases rest with
  | nil => simp
  | cons c cs => simp [hrest c rfl]

theorem dropWhile_append_of_head (hbody : ∀ c ∈ body, p c = true)
    (hrest : ∀ c ∈ rest.head?, p c = false) : (body ++ rest).dropWhile p = rest := by
  rw [List.dropWhile_append_of_pos hbody]
  cases rest with
  | nil => simp
  | cons c cs => simp [hrest c rfl]

/-- Two lists that begin with a run and go on with something else are the same only where the runs
are. -/
theorem append_inj_of_head {body' rest' : List α} (hbody : ∀ c ∈ body, p c = true)
    (hrest : ∀ c ∈ rest.head?, p c = false) (hbody' : ∀ c ∈ body', p c = true)
    (hrest' : ∀ c ∈ rest'.head?, p c = false) (h : body ++ rest = body' ++ rest') :
    body = body' ∧ rest = rest' := by
  constructor
  · rw [← takeWhile_append_of_head hbody hrest, h, takeWhile_append_of_head hbody' hrest']
  · rw [← dropWhile_append_of_head hbody hrest, h, dropWhile_append_of_head hbody' hrest']

theorem takeWhile_eq_nil_of_head (hrest : ∀ c ∈ rest.head?, p c = false) :
    rest.takeWhile p = [] :=
  takeWhile_append_of_head (List.forall_mem_nil _) hrest

theorem dropWhile_eq_self_of_head (hrest : ∀ c ∈ rest.head?, p c = false) :
    rest.dropWhile p = rest :=
  dropWhile_append_of_head (List.forall_mem_nil _) hrest

theorem forall_mem_takeWhile (p : Char → Bool) (cs : List Char) :
    ∀ c ∈ cs.takeWhile p, p c = true :=
  fun _ hc => List.all_eq_true.1 List.all_takeWhile _ hc

theorem head_dropWhile (p : Char → Bool) (cs : List Char) :
    ∀ c ∈ (cs.dropWhile p).head?, p c = false := by
  intro c hc
  have := List.head?_dropWhile_not p cs
  rw [Option.mem_def.1 hc] at this
  simpa using this

end Run

/-! ## The grammar of numerals -/

/-- A letter, perhaps a sign, and at least one digit. -/
structure Exponent.Valid (e : Exponent) : Prop where
  letter : e.letter = 'e' ∨ e.letter = 'E'
  sign : ∀ s ∈ e.sign, s = '+' ∨ s = '-'
  digits_ne_nil : e.digits ≠ []
  digits : ∀ c ∈ e.digits, c.isDigit = true

/-- A whole part that starts with a zero only if it is one, and a fraction and an exponent that may
be absent. -/
structure Numeral.Valid (n : Numeral) : Prop where
  whole_ne_nil : n.whole ≠ []
  whole : ∀ c ∈ n.whole, c.isDigit = true
  whole_zero : n.whole.head? = some '0' → n.whole = ['0']
  fraction : ∀ c ∈ n.fraction, c.isDigit = true
  exponent : ∀ e ∈ n.exponent, e.Valid

namespace Exponent

theorem digits?_valid {letter : Char} {sign : Option Char} {cs rest : List Char} {e : Exponent}
    (hl : letter = 'e' ∨ letter = 'E') (hs : ∀ s ∈ sign, s = '+' ∨ s = '-')
    (h : digits? letter sign cs = some (e, rest)) : e.Valid := by
  unfold digits? at h
  split at h
  · simp at h
  · next d ds htake =>
    obtain ⟨rfl, -⟩ := Prod.mk.inj (Option.some.inj h)
    exact ⟨hl, hs, List.cons_ne_nil d ds, htake ▸ forall_mem_takeWhile _ cs⟩

theorem scan?_valid {cs rest : List Char} {e : Exponent} (h : scan? cs = some (e, rest)) :
    e.Valid := by
  unfold scan? at h
  split at h
  · simp at h
  · split at h
    · next hl =>
      split at h
      · simp at h
      · split at h
        · next hs => exact digits?_valid hl (by simpa using hs) h
        · exact digits?_valid hl (by simp) h
    · simp at h

theorem digits?_append (letter : Char) (sign : Option Char) {ds : List Char} (hne : ds ≠ [])
    (hds : ∀ c ∈ ds, c.isDigit = true) (t : List Char) :
    digits? letter sign (ds ++ t) =
      some (⟨letter, sign, ds ++ t.takeWhile Char.isDigit⟩, t.dropWhile Char.isDigit) := by
  obtain ⟨d, ds', rfl⟩ := List.exists_cons_of_ne_nil hne
  rw [digits?, List.takeWhile_append_of_pos hds, List.dropWhile_append_of_pos hds]
  rfl

/-- Of a valid exponent, only the digits can go on in the text after it. -/
theorem Valid.scan?_append {e : Exponent} (h : e.Valid) (t : List Char) :
    scan? (e.chars ++ t) =
      some (⟨e.letter, e.sign, e.digits ++ t.takeWhile Char.isDigit⟩,
        t.dropWhile Char.isDigit) := by
  have hdigits := fun sign => digits?_append e.letter sign h.digits_ne_nil h.digits t
  obtain ⟨letter, sign, digits⟩ := e
  cases sign with
  | some s =>
    have hs : s = '+' ∨ s = '-' := h.sign s rfl
    rw [← hdigits (some s)]
    simp only [chars, Option.toList_some, List.cons_append, List.nil_append, scan?,
      if_pos h.letter, if_pos hs]
  | none =>
    rw [← hdigits none]
    obtain ⟨d, ds, rfl⟩ := List.exists_cons_of_ne_nil h.digits_ne_nil
    have hd : ¬(d = '+' ∨ d = '-') := by
      have hdigit : d.isDigit = true := h.digits d List.mem_cons_self
      rintro (rfl | rfl) <;> exact absurd hdigit (by decide)
    simp only [chars, Option.toList_none, List.cons_append, List.nil_append, scan?,
      if_pos h.letter, if_neg hd]

end Exponent

namespace Numeral

/-! ## What is found is a numeral -/

theorem whole?_valid {cs w rest : List Char} (h : whole? cs = some (w, rest)) :
    w ≠ [] ∧ (∀ c ∈ w, c.isDigit = true) ∧ (w.head? = some '0' → w = ['0']) := by
  unfold whole? at h
  split at h
  · simp at h
  · next c tail =>
    split at h
    · obtain ⟨rfl, -⟩ := Prod.mk.inj (Option.some.inj h)
      simp
    · split at h
      · next h0 hc =>
        obtain ⟨rfl, -⟩ := Prod.mk.inj (Option.some.inj h)
        refine ⟨List.cons_ne_nil _ _, ?_, by simp [h0]⟩
        intro d hd
        rcases List.mem_cons.1 hd with rfl | hd
        · exact hc
        · exact forall_mem_takeWhile _ tail d hd
      · simp at h

theorem splitFraction_digits (cs : List Char) : ∀ c ∈ (splitFraction cs).1, c.isDigit = true := by
  unfold splitFraction
  split
  · simp
  · split
    · exact forall_mem_takeWhile _ _
    · simp

/-- A numeral is read part by part. -/
theorem unsigned?_eq {negative : Bool} {cs w a : List Char} (hw : whole? cs = some (w, a)) :
    unsigned? negative cs =
      match Exponent.scan? (splitFraction a).2 with
      | some (e, rest) => some (⟨negative, w, (splitFraction a).1, some e⟩, rest)
      | none => some (⟨negative, w, (splitFraction a).1, none⟩, (splitFraction a).2) := by
  simp only [unsigned?, hw, Option.bind_eq_bind, Option.bind_some]
  split <;> simp_all

theorem unsigned?_valid {negative : Bool} {cs rest : List Char} {n : Numeral}
    (h : unsigned? negative cs = some (n, rest)) : n.Valid := by
  cases hw : whole? cs with
  | none => simp [unsigned?, hw] at h
  | some p =>
    obtain ⟨w, a⟩ := p
    obtain ⟨hne, hdigits, hzero⟩ := whole?_valid hw
    rw [unsigned?_eq hw] at h
    split at h
    · next e r he =>
      obtain ⟨rfl, -⟩ := Prod.mk.inj (Option.some.inj h)
      exact ⟨hne, hdigits, hzero, splitFraction_digits a, by simpa using Exponent.scan?_valid he⟩
    · obtain ⟨rfl, -⟩ := Prod.mk.inj (Option.some.inj h)
      exact ⟨hne, hdigits, hzero, splitFraction_digits a, by simp⟩

theorem scan?_valid {cs rest : List Char} {n : Numeral} (h : scan? cs = some (n, rest)) :
    n.Valid := by
  unfold scan? at h
  split at h
  · simp at h
  · split at h
    · exact unsigned?_valid h
    · exact unsigned?_valid h

/-! ## No numeral is longer -/

/-- Of a whole part, only the digits can go on in the text after it. -/
theorem Valid.whole?_append {n : Numeral} (h : n.Valid) (t : List Char) :
    ∃ more rest, whole? (n.whole ++ t) = some (n.whole ++ more, rest) ∧
      ((∀ c ∈ t.head?, c.isDigit = false) → more = [] ∧ rest = t) := by
  obtain ⟨d, ds, hds⟩ := List.exists_cons_of_ne_nil h.whole_ne_nil
  rw [hds]
  by_cases h0 : d = '0'
  · subst h0
    obtain rfl : ds = [] := by simpa [hds] using h.whole_zero (by simp [hds])
    exact ⟨[], t, by simp [whole?], fun _ => ⟨rfl, rfl⟩⟩
  · have hdigits : ∀ c ∈ ds, c.isDigit = true :=
      fun c hc => h.whole c (by rw [hds]; exact List.mem_cons_of_mem _ hc)
    have hd : d.isDigit = true := h.whole d (by rw [hds]; exact List.mem_cons_self)
    refine ⟨t.takeWhile Char.isDigit, t.dropWhile Char.isDigit, ?_, ?_⟩
    · rw [List.cons_append, whole?, if_neg h0, if_pos hd,
        List.takeWhile_append_of_pos hdigits, List.dropWhile_append_of_pos hdigits,
        List.cons_append]
    · intro ht
      exact ⟨takeWhile_eq_nil_of_head ht, dropWhile_eq_self_of_head ht⟩

theorem splitFraction_of_head {t : List Char} (h : ∀ c ∈ t.head?, c ≠ '.') :
    splitFraction t = ([], t) := by
  cases t with
  | nil => rfl
  | cons c cs => exact if_neg fun hc => h c rfl hc.1

/-- Of a fraction, only the digits can go on in the text after it. -/
theorem splitFraction_point {f t : List Char} (hne : f ≠ []) (hf : ∀ c ∈ f, c.isDigit = true) :
    splitFraction ('.' :: f ++ t) = (f ++ t.takeWhile Char.isDigit, t.dropWhile Char.isDigit) := by
  rw [List.cons_append, splitFraction, List.takeWhile_append_of_pos hf,
    List.dropWhile_append_of_pos hf, if_pos]
  exact ⟨rfl, List.append_ne_nil_of_left_ne_nil hne _⟩

/-- A fraction ends before what is neither a digit nor a point. -/
theorem splitFraction_fraction_append {f t : List Char} (hf : ∀ c ∈ f, c.isDigit = true)
    (ht : ∀ c ∈ t.head?, c.isDigit = false ∧ c ≠ '.') :
    splitFraction ((if f = [] then [] else '.' :: f) ++ t) = (f, t) := by
  by_cases hne : f = []
  · subst hne
    exact splitFraction_of_head fun c hc => (ht c hc).2
  · have hdigit : ∀ c ∈ t.head?, c.isDigit = false := fun c hc => (ht c hc).1
    rw [if_neg hne, splitFraction_point hne hf, takeWhile_eq_nil_of_head hdigit,
      dropWhile_eq_self_of_head hdigit, List.append_nil]

/-- The head of a valid exponent is not a digit and not a point. -/
theorem head_exponent {e : Exponent} (h : e.Valid) (t : List Char) :
    ∀ c ∈ (e.chars ++ t).head?, c.isDigit = false ∧ c ≠ '.' := by
  intro c hc
  have hc : e.letter = c := by simpa [Exponent.chars] using hc
  rcases h.letter with hl | hl <;> rw [← hc, hl] <;> decide

/-- The fraction and the exponent of a numeral. -/
def afterWhole (n : Numeral) : List Char :=
  (if n.fraction = [] then [] else '.' :: n.fraction) ++ n.exponent.elim [] Exponent.chars

theorem chars_eq (n : Numeral) :
    n.chars = (if n.negative then ['-'] else []) ++ (n.whole ++ n.afterWhole) := by
  obtain ⟨negative, w, f, exponent⟩ := n
  cases exponent <;> simp [chars, afterWhole]

/-- What is found at the head of a text reaches at least as far as a valid numeral there, and is
that numeral if the text ends with it. -/
theorem Valid.unsigned?_append {n : Numeral} (h : n.Valid) (t : List Char) :
    ∃ m rest, unsigned? n.negative (n.whole ++ (n.afterWhole ++ t)) = some (m, rest) ∧
      n.chars.length ≤ m.chars.length ∧ (t = [] → m = n) := by
  obtain ⟨negative, w, f, exponent⟩ := n
  cases exponent with
  | some e =>
    -- the exponent ends the fraction, so only its own digits can go on in the text after it
    have he : e.Valid := h.exponent e rfl
    have hhead := head_exponent he t
    obtain ⟨more, rest, hw, hexact⟩ :=
      h.whole?_append ((if f = [] then [] else '.' :: f) ++ (e.chars ++ t))
    have hdigit : ∀ c ∈ ((if f = [] then [] else '.' :: f) ++ (e.chars ++ t)).head?,
        c.isDigit = false := by
      by_cases hf : f = []
      · rw [if_pos hf]
        exact fun c hc => (hhead c hc).1
      · rw [if_neg hf]
        rintro _ ⟨⟩
        decide
    obtain ⟨rfl, rfl⟩ := hexact hdigit
    refine ⟨⟨negative, w, f, some ⟨e.letter, e.sign, e.digits ++ t.takeWhile Char.isDigit⟩⟩,
      t.dropWhile Char.isDigit, ?_, ?_, ?_⟩
    · simp only [afterWhole, Option.elim_some, List.append_assoc]
      rw [unsigned?_eq hw, splitFraction_fraction_append h.fraction hhead, he.scan?_append,
        List.append_nil]
    · simp [chars, Exponent.chars]
    · rintro rfl
      simp
  | none =>
    -- the last run of digits can go on in the text after it, and an exponent can follow there
    by_cases hf : f = []
    · subst hf
      obtain ⟨more, rest, hw, hexact⟩ := h.whole?_append t
      simp only [afterWhole, if_pos, Option.elim_none, List.append_nil, List.nil_append]
      rw [unsigned?_eq hw]
      split
      · next e r he =>
        refine ⟨_, _, rfl, by simp [chars], ?_⟩
        rintro rfl
        obtain ⟨rfl, rfl⟩ := hexact (by simp)
        simp [splitFraction, Exponent.scan?] at he
      · refine ⟨_, _, rfl, by simp [chars], ?_⟩
        rintro rfl
        obtain ⟨rfl, rfl⟩ := hexact (by simp)
        simp [splitFraction]
    · obtain ⟨more, rest, hw, hexact⟩ := h.whole?_append ('.' :: f ++ t)
      obtain ⟨rfl, rfl⟩ := hexact (by simp)
      simp only [afterWhole, if_neg hf, Option.elim_none, List.append_nil]
      rw [unsigned?_eq hw, splitFraction_point hf h.fraction]
      split
      · next e r he =>
        refine ⟨_, _, rfl, by simp [chars, hf], ?_⟩
        rintro rfl
        simp [Exponent.scan?] at he
      · refine ⟨_, _, rfl, by simp [chars, hf], ?_⟩
        rintro rfl
        simp

theorem Valid.scan?_append {n : Numeral} (h : n.Valid) (t : List Char) :
    ∃ m rest, scan? (n.chars ++ t) = some (m, rest) ∧ n.chars.length ≤ m.chars.length ∧
      (t = [] → m = n) := by
  obtain ⟨m, rest, hm, hle, heq⟩ := h.unsigned?_append t
  refine ⟨m, rest, ?_, hle, heq⟩
  obtain ⟨d, ds, hds⟩ := List.exists_cons_of_ne_nil h.whole_ne_nil
  have hd : d ≠ '-' := by
    have hdigit := h.whole d (by rw [hds]; exact List.mem_cons_self)
    rintro rfl
    exact absurd hdigit (by decide)
  rw [← hm, chars_eq]
  cases n.negative with
  | true => simp [scan?]
  | false =>
    simp only [Bool.false_eq_true, if_false, List.nil_append, hds, List.cons_append, scan?,
      if_neg hd, List.append_assoc]

/-- A numeral is found exactly when it is the longest at the head of the text. -/
theorem scan?_eq_some_iff {cs rest : List Char} {n : Numeral} :
    scan? cs = some (n, rest) ↔
      n.Valid ∧ n.chars ++ rest = cs ∧
        ∀ m : Numeral, m.Valid → m.chars <+: cs → m.chars.length ≤ n.chars.length := by
  constructor
  · intro h
    refine ⟨scan?_valid h, (scan?_chars h).1, ?_⟩
    rintro m hm ⟨t, rfl⟩
    obtain ⟨m', rest', hm', hle, -⟩ := hm.scan?_append t
    obtain ⟨rfl, -⟩ := Prod.mk.inj (Option.some.inj (h.symm.trans hm'))
    exact hle
  · rintro ⟨hn, rfl, hlongest⟩
    obtain ⟨m, rest', hm, hle, -⟩ := hn.scan?_append rest
    have hwhole := (scan?_chars hm).1
    have hge := hlongest m (scan?_valid hm) ⟨rest', hwhole⟩
    obtain ⟨hchars, rfl⟩ := List.append_inj hwhole (Nat.le_antisymm hge hle)
    -- both are what is found in the text that is nothing but the numeral
    obtain ⟨m₁, r₁, hscan₁, -, heq₁⟩ := hn.scan?_append []
    obtain ⟨m₂, r₂, hscan₂, -, heq₂⟩ := (scan?_valid hm).scan?_append []
    rw [hchars, hscan₁] at hscan₂
    obtain ⟨rfl, -⟩ := Prod.mk.inj (Option.some.inj hscan₂)
    rw [hm, ← heq₁ rfl, ← heq₂ rfl]

theorem scan?_eq_none_iff {cs : List Char} :
    scan? cs = none ↔ ∀ n : Numeral, n.Valid → ¬n.chars <+: cs := by
  constructor
  · rintro h n hn ⟨t, rfl⟩
    obtain ⟨m, rest, hm, -⟩ := hn.scan?_append t
    rw [h] at hm
    simp at hm
  · intro h
    cases hs : scan? cs with
    | none => rfl
    | some p => exact absurd ⟨p.2, (scan?_chars hs).1⟩ (h p.1 (scan?_valid hs))

/-! ## The end of a numeral -/

/-- Whether a character can be part of a numeral. -/
def isPart (c : Char) : Bool :=
  c.isDigit || ['-', '+', '.', 'e', 'E'].contains c

theorem isPart_of_isDigit {c : Char} (h : c.isDigit = true) : isPart c = true := by
  rw [isPart, h, Bool.true_or]

/-- The letter, the sign and the digits of an exponent are parts of numerals. -/
theorem isPart_of_mem_exponent {e : Exponent} (h : e.Valid) : ∀ c ∈ e.chars, isPart c = true := by
  intro c hc
  simp only [Exponent.chars, List.mem_cons, List.mem_append, Option.mem_toList] at hc
  rcases hc with rfl | hc | hc
  · rcases h.letter with hl | hl <;> rw [hl] <;> decide
  · rcases h.sign c hc with rfl | rfl <;> decide
  · exact isPart_of_isDigit (h.digits c hc)

theorem Valid.isPart_chars {n : Numeral} (h : n.Valid) : ∀ c ∈ n.chars, isPart c = true := by
  intro c hc
  simp only [chars, List.mem_append] at hc
  rcases hc with ((hc | hc) | hc) | hc
  · split at hc
    · rw [List.mem_singleton.1 hc]
      decide
    · simp at hc
  · exact isPart_of_isDigit (h.whole c hc)
  · split at hc
    · simp at hc
    · rcases List.mem_cons.1 hc with rfl | hc
      · decide
      · exact isPart_of_isDigit (h.fraction c hc)
  · split at hc
    · simp at hc
    · next e he => exact isPart_of_mem_exponent (h.exponent e he) c hc

/-- A numeral ends before what cannot be part of one. -/
theorem Valid.scan?_eq {n : Numeral} (h : n.Valid) {t : List Char}
    (ht : ∀ c ∈ t.head?, isPart c = false) : scan? (n.chars ++ t) = some (n, t) := by
  refine scan?_eq_some_iff.2 ⟨h, rfl, fun m hm hprefix => ?_⟩
  cases t with
  | nil =>
    rw [List.append_nil] at hprefix
    exact hprefix.length_le
  | cons c cs =>
    refine Nat.le_of_not_lt fun hlt => ?_
    have hnext : n.chars ++ [c] <+: n.chars ++ c :: cs :=
      List.prefix_append_right_inj _ |>.2 ⟨cs, rfl⟩
    have hlonger : n.chars ++ [c] <+: m.chars := by
      apply List.prefix_of_prefix_length_le hnext hprefix
      rw [List.length_append, List.length_singleton]
      omega
    have hpart := hm.isPart_chars c (hlonger.subset (by simp))
    rw [ht c rfl] at hpart
    cases hpart

end Numeral

end Prosemark
