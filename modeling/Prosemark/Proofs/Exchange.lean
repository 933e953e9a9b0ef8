import Prosemark.Proofs.Break

/-!
# Texts with another switch and another end

A text changes when every switch in it is exchanged for another one, and when something comes after
its end. What the scanners find at its head changes along (`opens_exchange_iff`,
`Lexeme.IsOperator.exchange`, `Numeral.Valid.prefix_of_exchange`): a switch is an operator whatever
character it is, and at the end nothing goes on that is seamless (`IsSeam`). Numerals are delicate,
since the new switch can be a sign or a point. A numeral that took the switch in would have a digit
after it (`Numeral.Valid.signsLead`), and no digit follows a switch that starts an expression.
-/

namespace Prosemark

/-! ## Characters -/

namespace Switch

/-- The character, or the second switch for the first. -/
def exchange (sw sw' : Switch) (c : Char) : Char :=
  if c = sw.char then sw'.char else c

variable {sw sw' : Switch} {c d : Char}

theorem exchange_switch (sw sw' : Switch) : sw.exchange sw' sw.char = sw'.char :=
  if_pos rfl

theorem exchange_of_ne (h : c ≠ sw.char) : sw.exchange sw' c = c :=
  if_neg h

theorem exchange_self (sw : Switch) : sw.exchange sw = id := by
  funext c
  by_cases h : c = sw.char
  · rw [h, exchange_switch, id]
  · rw [exchange_of_ne h, id]

theorem exchange_eq_iff (h : d ∈ Charset.reserved) : sw.exchange sw' c = d ↔ c = d := by
  by_cases hc : c = sw.char
  · have hleft : sw'.char ≠ d := sw'.char_ne_of_mem_reserved h
    have hright : sw.char ≠ d := sw.char_ne_of_mem_reserved h
    simp [hc, exchange_switch, hleft, hright]
  · rw [exchange_of_ne hc]

/-- A class to which all switches belong, or none, is not changed. -/
theorem class_exchange {p : Char → Bool} (h : p sw.char = p sw'.char) (c : Char) :
    p (sw.exchange sw' c) = p c := by
  by_cases hc : c = sw.char
  · rw [hc, exchange_switch, h]
  · rw [exchange_of_ne hc]

variable (sw sw') (c)

theorem isIdStart_exchange : Charset.isIdStart (sw.exchange sw' c) = Charset.isIdStart c :=
  class_exchange (by rw [sw.isIdStart_char, sw'.isIdStart_char]) c

theorem isIdContinue_exchange :
    Charset.isIdContinue (sw.exchange sw' c) = Charset.isIdContinue c :=
  class_exchange (by rw [sw.isIdContinue_char, sw'.isIdContinue_char]) c

theorem isSymbol_exchange : Charset.isSymbol (sw.exchange sw' c) = Charset.isSymbol c :=
  class_exchange (by rw [sw.isSymbol_char, sw'.isSymbol_char]) c

theorem isBlank_exchange : Charset.isBlank (sw.exchange sw' c) = Charset.isBlank c :=
  class_exchange (by rw [sw.isBlank_char, sw'.isBlank_char]) c

theorem isDigit_exchange : (sw.exchange sw' c).isDigit = c.isDigit :=
  class_exchange (p := Char.isDigit) (by rw [sw.isDigit_char, sw'.isDigit_char]) c

end Switch

section Text

variable {sw sw' : Switch} {cs text tail : List Char}

theorem map_exchange_of_notMem (h : sw.char ∉ text) : text.map (sw.exchange sw') = text := by
  have hid : ∀ c ∈ text, sw.exchange sw' c = c := by
    rintro c hc
    apply Switch.exchange_of_ne
    rintro rfl
    exact h hc
  rw [List.map_congr_left hid, List.map_id']

theorem map_exchange_eq_iff (h : ∀ d ∈ text, d ∈ Charset.reserved) :
    cs.map (sw.exchange sw') = text ↔ cs = text := by
  induction text generalizing cs with
  | nil => exact List.map_eq_nil_iff
  | cons d ds ih =>
    obtain ⟨hd, hds⟩ := List.forall_mem_cons.1 h
    cases cs with
    | nil => simp
    | cons c cs => rw [List.map_cons, List.cons.injEq, List.cons.injEq,
        Switch.exchange_eq_iff hd, ih hds]

theorem Fence.right_mem_reserved (fence : Fence) : ∀ c ∈ fence.right, c ∈ Charset.reserved := by
  intro c hc
  rcases List.mem_cons.1 hc with rfl | hc
  · exact Break.closing_mem_reserved fence.delimiter
  · rw [List.eq_of_mem_replicate hc]
    decide

theorem Fence.left_mem_reserved (fence : Fence) : ∀ c ∈ fence.left, c ∈ Charset.reserved := by
  intro c hc
  rcases List.mem_append.1 hc with hc | hc
  · rw [List.eq_of_mem_replicate hc]
    decide
  · rw [List.mem_singleton.1 hc]
    cases fence.delimiter <;> decide

theorem Fence.not_infix_exchange {fence : Fence} (h : ¬fence.right <:+: text) :
    ¬fence.right <:+: text.map (sw.exchange sw') := by
  rintro ⟨u, w, huw⟩
  obtain ⟨u', w', rfl, hu, -⟩ := List.map_eq_append_iff.1 huw.symm
  obtain ⟨v', r', rfl, -, hr⟩ := List.map_eq_append_iff.1 hu
  rw [map_exchange_eq_iff fence.right_mem_reserved] at hr
  exact h ⟨v', w', by rw [hr]⟩

/-! ## Heads -/

/-- Characters that attach what they start to a command before them. -/
def attaching : List Char :=
  ['[', '\x7b', '"', '|', '#']

/-- The text continues nothing that stands before it. -/
def IsSeam (tail : List Char) : Prop :=
  ∀ c ∈ tail.head?, Charset.isIdContinue c = false ∧ c ∉ attaching

theorem isSeam_nil : IsSeam [] := by
  simp [IsSeam]

variable (hseam : IsSeam tail)

include hseam

theorem head_exchange_iff {d : Char} (hd : d ∈ attaching) :
    (cs.map (sw.exchange sw') ++ tail).head? = some d ↔ cs.head? = some d := by
  have hreserved : d ∈ Charset.reserved := by
    simp only [attaching, List.mem_cons, List.not_mem_nil, or_false] at hd
    rcases hd with rfl | rfl | rfl | rfl | rfl <;> decide
  cases cs with
  | nil =>
    simp only [List.map_nil, List.nil_append, List.head?_nil, reduceCtorEq, iff_false]
    exact fun h => (hseam d h).2 hd
  | cons c cs => simp [Switch.exchange_eq_iff hreserved]

theorem isIdContinue_head_exchange (h : ∀ c ∈ cs.head?, Charset.isIdContinue c = false) :
    ∀ c ∈ (cs.map (sw.exchange sw') ++ tail).head?, Charset.isIdContinue c = false := by
  cases cs with
  | nil => exact fun c hc => (hseam c hc).1
  | cons c cs =>
    rintro _ ⟨⟩
    rw [Switch.isIdContinue_exchange]
    exact h c rfl

theorem isIdStart_head_exchange (h : ∀ c ∈ cs.head?, Charset.isIdStart c = false) :
    ∀ c ∈ (cs.map (sw.exchange sw') ++ tail).head?, Charset.isIdStart c = false := by
  cases cs with
  | nil => exact fun c hc => Charset.isIdStart_eq_false_of_isIdContinue (hseam c hc).1
  | cons c cs =>
    rintro _ ⟨⟩
    rw [Switch.isIdStart_exchange]
    exact h c rfl

theorem dropWhile_hash_exchange :
    (cs.map (sw.exchange sw') ++ tail).dropWhile (· == '#') =
      (cs.dropWhile (· == '#')).map (sw.exchange sw') ++ tail := by
  induction cs with
  | nil =>
    refine dropWhile_eq_self_of_head fun c hc => ?_
    rw [beq_eq_false_iff_ne]
    rintro rfl
    exact (hseam '#' hc).2 (by decide)
  | cons c cs ih =>
    have hhash : sw.exchange sw' c = '#' ↔ c = '#' := Switch.exchange_eq_iff (by decide)
    by_cases hc : c = '#'
    · rw [List.map_cons, List.cons_append, List.dropWhile_cons_of_pos (by simpa [hhash] using hc),
        List.dropWhile_cons_of_pos (by simpa using hc), ih]
    · rw [List.map_cons, List.cons_append, List.dropWhile_cons_of_neg (by simpa [hhash] using hc),
        List.dropWhile_cons_of_neg (by simpa using hc), List.map_cons, List.cons_append]

/-- The same fences open. -/
theorem opens_exchange_iff {d : Delimiter} :
    Opens d (cs.map (sw.exchange sw') ++ tail) ↔ Opens d cs := by
  have hopening : d.opening ∈ attaching := by
    cases d <;> decide
  rw [opens_iff, opens_iff, dropWhile_hash_exchange hseam, head_exchange_iff hseam hopening]

theorem Fence.Balanced.exchange {fence : Fence} {nested nested' : Bool}
    (h : fence.Balanced nested cs) (hnested : nested' = false → nested = false) :
    fence.Balanced nested' (cs.map (sw.exchange sw') ++ tail) := by
  intro hn hpadded
  rw [ne_eq, head_exchange_iff hseam (by decide)]
  exact h (hnested hn) hpadded

end Text

/-! ## Operators -/

namespace Lexeme

variable {sw sw' : Switch} {text rest tail : List Char}

theorem joinsRun_eq_true_iff {c : Char} :
    joinsRun sw c = true ↔
      Charset.isOperator c = true ∧ Charset.operatorStops.contains c = false ∧ c ≠ sw.char := by
  simp [joinsRun, and_assoc]

theorem joinsRun_exchange {c : Char} (h : joinsRun sw c = false) :
    joinsRun sw' (sw.exchange sw' c) = false := by
  rw [Bool.eq_false_iff] at h ⊢
  rw [ne_eq, joinsRun_eq_true_iff] at h ⊢
  by_cases hc : c = sw.char
  · simp [hc, Switch.exchange_switch]
  · rw [Switch.exchange_of_ne hc]
    exact fun hjoins => h ⟨hjoins.1, hjoins.2.1, hc⟩

theorem IsIdentifier.notMem_switch (sw : Switch) (h : IsIdentifier text) : sw.char ∉ text := by
  obtain ⟨c, cs, rfl, hc, hcs⟩ := h
  intro hmem
  rcases List.mem_cons.1 hmem with rfl | hmem
  · exact Bool.false_ne_true (sw.isIdStart_char.symm.trans hc)
  · exact Bool.false_ne_true (sw.isIdContinue_char.symm.trans (hcs _ hmem))

theorem IsIdentifier.exchange (h : IsIdentifier text) :
    IsIdentifier (text.map (sw.exchange sw')) := by
  rwa [map_exchange_of_notMem (h.notMem_switch sw)]

theorem IsOperator.notMem_switch (h : IsOperator sw text rest) : sw.char ∉ text := by
  rcases h with ⟨c, rfl, hc⟩ | ⟨-, htext, -⟩
  · rw [List.mem_singleton]
    rintro rfl
    rw [Charset.isSeparator, Bool.or_eq_true, beq_iff_eq, beq_iff_eq] at hc
    rcases hc with hc | hc
    · exact sw.char_ne_of_mem_reserved (by decide) hc
    · exact sw.char_ne_of_mem_reserved (by decide) hc
  · intro hmem
    exact (joinsRun_eq_true_iff.1 (htext _ hmem)).2.2 rfl

/-- An operator ends before the new switch where it ended before the old one. -/
theorem IsOperator.exchange (h : IsOperator sw text rest) (hfresh : sw = sw' ∨ sw'.char ∉ text)
    (hrest : rest ≠ []) : IsOperator sw' text (rest.map (sw.exchange sw') ++ tail) := by
  rcases h with h | ⟨hne, htext, hend⟩
  · exact .inl h
  · refine .inr ⟨hne, fun c hc => ?_, ?_⟩
    · obtain ⟨hoperator, hstop, hswitch⟩ := joinsRun_eq_true_iff.1 (htext c hc)
      refine joinsRun_eq_true_iff.2 ⟨hoperator, hstop, ?_⟩
      rintro rfl
      rcases hfresh with rfl | hfresh
      · exact hswitch rfl
      · exact hfresh hc
    · obtain ⟨c, cs, rfl⟩ := List.exists_cons_of_ne_nil hrest
      rintro _ ⟨⟩
      exact joinsRun_exchange (hend c rfl)

end Lexeme

/-! ## Numerals -/

namespace Numeral

/-- Every operator in the text has a digit after it. -/
def SignsLead (text : List Char) : Prop :=
  ∀ u c v, text = u ++ c :: v → Charset.isOperator c = true →
    ∃ d w, v = d :: w ∧ d.isDigit = true

theorem signsLead_of_none {text : List Char} (h : ∀ c ∈ text, Charset.isOperator c = false) :
    SignsLead text := by
  rintro u c v rfl hc
  exact absurd hc (by simp [h c (by simp)])

theorem SignsLead.append {a b : List Char} (ha : SignsLead a) (hb : SignsLead b) :
    SignsLead (a ++ b) := by
  intro u c v huv hc
  rcases List.append_eq_append_iff.1 huv with ⟨w, rfl, hw⟩ | ⟨w, rfl, hw⟩
  · exact hb w c v hw hc
  · cases w with
    | nil => exact hb [] c v (by simpa using hw.symm) hc
    | cons x w =>
      obtain ⟨rfl, rfl⟩ := List.cons.inj hw
      obtain ⟨d, w', rfl, hd⟩ := ha u c w rfl hc
      exact ⟨d, w' ++ b, rfl, hd⟩

theorem signsLead_digits {ds : List Char} (h : ∀ c ∈ ds, c.isDigit = true) : SignsLead ds :=
  signsLead_of_none fun c hc => Charset.isOperator_eq_false_of_isDigit (h c hc)

theorem signsLead_cons_digits {c : Char} {ds : List Char} (hne : ds ≠ [])
    (h : ∀ d ∈ ds, d.isDigit = true) : SignsLead (c :: ds) := by
  intro u d v huv hd
  cases u with
  | nil =>
    obtain ⟨rfl, rfl⟩ := List.cons.inj huv
    obtain ⟨e, ds, rfl⟩ := List.exists_cons_of_ne_nil hne
    exact ⟨e, ds, rfl, h e List.mem_cons_self⟩
  | cons x u =>
    obtain ⟨-, rfl⟩ := List.cons.inj huv
    exact signsLead_digits h u d v rfl hd

theorem signsLead_exponent {e : Exponent} (h : e.Valid) : SignsLead e.chars := by
  have hletter : SignsLead [e.letter] := by
    apply signsLead_of_none
    rintro c hc
    rw [List.mem_singleton.1 hc]
    rcases h.letter with hl | hl <;> rw [hl] <;> decide
  have hrest : SignsLead (e.sign.toList ++ e.digits) := by
    cases e.sign with
    | none => exact signsLead_digits h.digits
    | some s => exact signsLead_cons_digits h.digits_ne_nil h.digits
  exact hletter.append hrest

theorem Valid.signsLead {n : Numeral} (h : n.Valid) : SignsLead n.chars := by
  have hwhole : SignsLead ((if n.negative then ['-'] else []) ++ n.whole) := by
    split
    · exact signsLead_cons_digits h.whole_ne_nil h.whole
    · exact signsLead_digits h.whole
  have hfraction : SignsLead (if n.fraction = [] then [] else '.' :: n.fraction) := by
    split
    · exact signsLead_of_none (by simp)
    · next hne => exact signsLead_cons_digits hne h.fraction
  refine (hwhole.append hfraction).append ?_
  split
  · exact signsLead_of_none (by simp)
  · next e he => exact signsLead_exponent (h.exponent e he)

/-- After parts of numerals stands a character that is none, and if that is the switch, what comes
next is not a digit. -/
def RunsOut (sw : Switch) (cs : List Char) : Prop :=
  ∃ u c v, cs = u ++ c :: v ∧ (∀ d ∈ u, isPart d = true) ∧ isPart c = false ∧
    (c = sw.char → ∃ d w, v = d :: w ∧ d.isDigit = false)

theorem RunsOut.ne_nil {sw : Switch} {cs : List Char} (h : RunsOut sw cs) : cs ≠ [] := by
  obtain ⟨u, c, v, rfl, -⟩ := h
  simp

/-- A text without the switch, unless the switch is a part of numerals, changes nothing of it. -/
theorem RunsOut.append {sw : Switch} {cs text : List Char} (h : RunsOut sw cs)
    (htext : ∀ c ∈ text, isPart c = true ∨ c ≠ sw.char) : RunsOut sw (text ++ cs) := by
  induction text with
  | nil => exact h
  | cons c text ih =>
    obtain ⟨hc, htext⟩ := List.forall_mem_cons.1 htext
    cases hpart : isPart c with
    | true =>
      obtain ⟨u, d, v, hcs, hu, hd⟩ := ih htext
      exact ⟨c :: u, d, v, congrArg (c :: ·) hcs, List.forall_mem_cons.2 ⟨hpart, hu⟩, hd⟩
    | false =>
      refine ⟨[], c, text ++ cs, rfl, List.forall_mem_nil _, hpart, fun hswitch => ?_⟩
      exact absurd hswitch (hc.resolve_left (by simp [hpart]))

/-- The standard switch is no part of a numeral, so numerals stay when it is exchanged. -/
theorem map_exchange_of_isPart {sw sw' : Switch} {text : List Char}
    (hkept : sw = sw' ∨ sw = .standard) (h : ∀ c ∈ text, isPart c = true) :
    text.map (sw.exchange sw') = text := by
  rcases hkept with rfl | rfl
  · rw [Switch.exchange_self, List.map_id]
  · apply map_exchange_of_notMem
    intro hmem
    exact absurd (h _ hmem) (by decide)

/-- A numeral that stands at the head of the changed text stood there before. -/
theorem Valid.prefix_of_exchange {sw sw' : Switch} {cs tail : List Char} {n : Numeral}
    (hn : n.Valid) (hkept : sw = sw' ∨ sw = .standard) (hruns : RunsOut sw cs)
    (h : n.chars <+: cs.map (sw.exchange sw') ++ tail) : n.chars <+: cs := by
  obtain ⟨u, c, v, rfl, hu, hc, hv⟩ := hruns
  rw [List.map_append, map_exchange_of_isPart hkept hu, List.append_assoc] at h
  rcases List.prefix_or_prefix_of_prefix h (List.prefix_append u _) with hin | ⟨w, hw⟩
  · exact hin.trans (List.prefix_append u _)
  · rw [← hw, List.prefix_append_right_inj, List.map_cons, List.cons_append,
      List.prefix_cons_iff] at h
    rcases h with rfl | ⟨w, rfl, hwv⟩
    · rw [← hw, List.append_nil]
      exact List.prefix_append u _
    · -- the numeral takes in the first character after its parts, which can only be the switch
      exfalso
      have hpart : isPart (sw.exchange sw' c) = true := hn.isPart_chars _ (by simp [← hw])
      have hswitch : c = sw.char := by
        refine Classical.not_not.1 fun hne => ?_
        rw [Switch.exchange_of_ne hne, hc] at hpart
        exact Bool.false_ne_true hpart
      obtain ⟨e, v', rfl, he⟩ := hv hswitch
      have hoperator : Charset.isOperator (sw.exchange sw' c) = true := by
        rw [hswitch, Switch.exchange_switch]
        exact sw'.isOperator
      obtain ⟨d, w', rfl, hd⟩ := hn.signsLead u _ w hw.symm hoperator
      obtain ⟨rfl, -⟩ := List.cons_prefix_cons.1 hwv
      rw [Switch.isDigit_exchange, he] at hd
      exact Bool.false_ne_true hd

end Numeral

end Prosemark
