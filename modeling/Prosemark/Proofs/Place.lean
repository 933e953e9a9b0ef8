import Prosemark.Source

/-!
# Where texts stand in a source

A cursor passes a text when the text stands at it, and is in a source when it is reached from the
start of that source by passing what comes before. An offset that is no character boundary belongs
to no cursor, and two cursors in a source at one offset are the same (`In.eq_of_offset`), so that
offsets alone name the places of a source: `Covers` says what stands between two of them, and
`restAt` is what stands from one of them on.
-/

namespace Prosemark

theorem utf8ByteSize_ofList (cs : List Char) : (String.ofList cs).utf8ByteSize = width cs := by
  induction cs with
  | nil => rfl
  | cons c cs ih =>
    rw [width_cons, ← ih, ← List.singleton_append, String.ofList_append,
      String.utf8ByteSize_append, ← String.singleton_eq_ofList, String.utf8ByteSize_singleton]

theorem width_toList (s : String) : width s.toList = s.utf8ByteSize := by
  rw [← utf8ByteSize_ofList, String.ofList_toList]

theorem width_eq_zero_iff {cs : List Char} : width cs = 0 ↔ cs = [] := by
  cases cs with
  | nil => simp
  | cons c cs =>
    have := Char.utf8Size_pos c
    simp only [width_cons, reduceCtorEq, iff_false]
    omega

theorem width_pos {cs : List Char} (h : cs ≠ []) : 0 < width cs :=
  Nat.pos_of_ne_zero (mt width_eq_zero_iff.1 h)

/-- Of one text, two beginnings that are equally wide are the same. -/
theorem append_inj_of_width_eq {a b r r' : List Char} (h : a ++ r = b ++ r')
    (hw : width a = width b) : a = b ∧ r = r' := by
  induction a generalizing b with
  | nil =>
    obtain rfl := width_eq_zero_iff.1 hw.symm
    exact ⟨rfl, h⟩
  | cons c cs ih =>
    cases b with
    | nil => exact absurd (width_eq_zero_iff.1 hw) (List.cons_ne_nil c cs)
    | cons d ds =>
      obtain ⟨rfl, htail⟩ := List.cons.inj h
      obtain ⟨rfl, rfl⟩ := ih htail (by simpa using hw)
      exact ⟨rfl, rfl⟩

/-- Of the beginnings of one text, the longer is the wider. -/
theorem width_le_iff_length_le {a b cs : List Char} (ha : a <+: cs) (hb : b <+: cs) :
    width a ≤ width b ↔ a.length ≤ b.length := by
  constructor
  · intro hw
    rcases List.prefix_or_prefix_of_prefix ha hb with ⟨t, rfl⟩ | ⟨t, rfl⟩
    · simp
    · have ht : width t = 0 := by
        rw [width_append] at hw
        omega
      simp [width_eq_zero_iff.1 ht]
  · intro hl
    obtain ⟨t, rfl⟩ := List.prefix_of_prefix_length_le ha hb hl
    simp

namespace Cursor

/-! ## Passing a text -/

/-- The text stands at the cursor, and `next` is the cursor right after it. -/
structure Passes (cur : Cursor) (text : List Char) (next : Cursor) : Prop where
  rest_eq : cur.rest = text ++ next.rest
  offset_eq : next.offset = cur.offset + width text

theorem Passes.refl (cur : Cursor) : cur.Passes [] cur :=
  ⟨rfl, rfl⟩

theorem Passes.trans {a b c : Cursor} {s t : List Char} (h₁ : a.Passes s b) (h₂ : b.Passes t c) :
    a.Passes (s ++ t) c := by
  refine ⟨?_, ?_⟩
  · rw [h₁.rest_eq, h₂.rest_eq, List.append_assoc]
  · rw [h₂.offset_eq, h₁.offset_eq, width_append, Nat.add_assoc]

/-- The cursor after a text that begins what is still to be read. -/
theorem passes_of_rest_eq {cur : Cursor} {text rest : List Char} (h : cur.rest = text ++ rest) :
    cur.Passes text ⟨cur.offset + width text, rest⟩ :=
  ⟨h, rfl⟩

theorem exists_passes {cur : Cursor} {text rest : List Char} (h : cur.rest = text ++ rest) :
    ∃ next, cur.Passes text next ∧ next.rest = rest :=
  ⟨_, passes_of_rest_eq h, rfl⟩

theorem Passes.eq_mk {cur next : Cursor} {text : List Char} (h : cur.Passes text next) :
    next = ⟨cur.offset + width text, next.rest⟩ := by
  rw [← h.offset_eq]

/-- From one cursor, an offset is reached by passing one text only. -/
theorem Passes.eq_of_offset {a b c : Cursor} {s t : List Char} (h₁ : a.Passes s b)
    (h₂ : a.Passes t c) (h : b.offset = c.offset) : s = t ∧ b = c := by
  have hw : width s = width t := by
    rw [h₁.offset_eq, h₂.offset_eq] at h
    omega
  obtain ⟨rfl, hr⟩ := append_inj_of_width_eq (h₁.rest_eq.symm.trans h₂.rest_eq) hw
  cases b
  cases c
  exact ⟨rfl, by simp_all⟩

theorem Passes.length_le {cur next : Cursor} {text : List Char} (h : cur.Passes text next) :
    next.rest.length ≤ cur.rest.length := by
  rw [h.rest_eq, List.length_append]
  exact Nat.le_add_left _ _

theorem Passes.length_lt {cur next : Cursor} {text : List Char} (h : cur.Passes text next)
    (hne : text ≠ []) : next.rest.length < cur.rest.length := by
  have hpos := List.length_pos_iff.2 hne
  rw [h.rest_eq, List.length_append]
  omega

theorem Passes.right_unique {a b c : Cursor} {s : List Char} (h₁ : a.Passes s b)
    (h₂ : a.Passes s c) : b = c :=
  (h₁.eq_of_offset h₂ (by rw [h₁.offset_eq, h₂.offset_eq])).2

/-- The first character is passed by all texts but the empty one, and the rest after it. -/
theorem passes_cons_iff {here : Nat} {c : Char} {cs text : List Char} {next : Cursor}
    (hne : here ≠ next.offset) :
    (⟨here, c :: cs⟩ : Cursor).Passes text next ↔
      ∃ tail, text = c :: tail ∧ (⟨here + c.utf8Size, cs⟩ : Cursor).Passes tail next := by
  constructor
  · intro hp
    cases text with
    | nil => exact absurd hp.offset_eq.symm hne
    | cons d ds =>
      obtain ⟨rfl, hrest⟩ := List.cons.inj hp.rest_eq
      refine ⟨ds, rfl, hrest, ?_⟩
      rw [hp.offset_eq, width_cons, Nat.add_assoc]
  · rintro ⟨tail, rfl, hp⟩
    have hc : (⟨here, c :: cs⟩ : Cursor).Passes [c] ⟨here + c.utf8Size, cs⟩ := ⟨rfl, rfl⟩
    exact hc.trans hp

theorem passes_past (cur : Cursor) (cut : Cut cur.rest) : cur.Passes cut.piece (cur.past cut) :=
  ⟨cut.whole.symm, rfl⟩

theorem passes_skip (p : Char → Bool) (cur : Cursor) :
    cur.Passes (cur.rest.takeWhile p) (cur.skip p) :=
  ⟨List.takeWhile_append_dropWhile.symm, rfl⟩

/-! ## Cursors in a source -/

/-- The cursor is reached from the start of the source. -/
def In (source : String) (cur : Cursor) : Prop :=
  ∃ before, (start source).Passes before cur

theorem start_in (source : String) : (start source).In source :=
  ⟨[], .refl _⟩

/-- The whole source, from its start to its end. -/
theorem start_passes (source : String) :
    (start source).Passes source.toList ⟨source.utf8ByteSize, []⟩ := by
  refine ⟨(List.append_nil _).symm, ?_⟩
  rw [width_toList]
  exact (Nat.zero_add _).symm

theorem In.passes {source : String} {cur next : Cursor} {text : List Char} (h : cur.In source)
    (hp : cur.Passes text next) : next.In source := by
  obtain ⟨before, hb⟩ := h
  exact ⟨before ++ text, hb.trans hp⟩

/-- A source has one cursor at an offset. -/
theorem In.eq_of_offset {source : String} {a b : Cursor} (ha : a.In source) (hb : b.In source)
    (h : a.offset = b.offset) : a = b := by
  obtain ⟨_, ha⟩ := ha
  obtain ⟨_, hb⟩ := hb
  exact (ha.eq_of_offset hb h).2

theorem In.offset_add_width {source : String} {cur : Cursor} (h : cur.In source) :
    cur.offset + width cur.rest = source.utf8ByteSize := by
  obtain ⟨before, hb⟩ := h
  have hrest : source.toList = before ++ cur.rest := hb.rest_eq
  have hoffset : cur.offset = 0 + width before := hb.offset_eq
  rw [← width_toList, hrest, width_append, hoffset, Nat.zero_add]

theorem In.offset_le {source : String} {cur : Cursor} (h : cur.In source) :
    cur.offset ≤ source.utf8ByteSize := by
  have := h.offset_add_width
  omega

/-- A source has one cursor before what is left of it. -/
theorem In.eq_of_rest {source : String} {a b : Cursor} (ha : a.In source) (hb : b.In source)
    (h : a.rest = b.rest) : a = b := by
  have hwa := ha.offset_add_width
  have hwb := hb.offset_add_width
  rw [h] at hwa
  exact ha.eq_of_offset hb (by omega)

theorem seekFrom?_eq_some_iff {offset here : Nat} {cs : List Char} {cur : Cursor} :
    seekFrom? offset here cs = some cur ↔
      ∃ before, (⟨here, cs⟩ : Cursor).Passes before cur ∧ cur.offset = offset := by
  induction cs generalizing here with
  | nil =>
    simp only [seekFrom?, Option.ite_none_right_eq_some, Option.some.injEq]
    constructor
    · rintro ⟨rfl, rfl⟩
      exact ⟨[], .refl _, rfl⟩
    · rintro ⟨before, hp, rfl⟩
      obtain ⟨rfl, hrest⟩ := List.append_eq_nil_iff.1 hp.rest_eq.symm
      exact ⟨hp.offset_eq.symm, by rw [hp.eq_mk, hrest]; rfl⟩
  | cons c cs ih =>
    simp only [seekFrom?]
    split
    · next h =>
      subst h
      rw [Option.some.injEq]
      constructor
      · rintro rfl
        exact ⟨[], .refl _, rfl⟩
      · rintro ⟨before, hp, ho⟩
        exact ((Passes.refl _).eq_of_offset hp ho.symm).2
    · next h =>
      rw [ih]
      constructor
      · rintro ⟨before, hp, rfl⟩
        exact ⟨c :: before, (passes_cons_iff h).2 ⟨before, rfl, hp⟩, rfl⟩
      · rintro ⟨before, hp, rfl⟩
        obtain ⟨tail, -, htail⟩ := (passes_cons_iff h).1 hp
        exact ⟨tail, htail, rfl⟩

theorem seek?_start_eq_some_iff {source : String} {offset : Nat} {cur : Cursor} :
    (start source).seek? offset = some cur ↔ cur.In source ∧ cur.offset = offset := by
  rw [seek?, seekFrom?_eq_some_iff]
  constructor
  · rintro ⟨before, hp, ho⟩
    exact ⟨⟨before, hp⟩, ho⟩
  · rintro ⟨⟨before, hp⟩, ho⟩
    exact ⟨before, hp, ho⟩

theorem textFrom?_eq_some_iff {offset here : Nat} {cs text : List Char} :
    textFrom? offset here cs = some text ↔
      ∃ next, (⟨here, cs⟩ : Cursor).Passes text next ∧ next.offset = offset := by
  induction cs generalizing here text with
  | nil =>
    simp only [textFrom?, Option.ite_none_right_eq_some, Option.some.injEq]
    constructor
    · rintro ⟨rfl, rfl⟩
      exact ⟨_, .refl _, rfl⟩
    · rintro ⟨next, hp, rfl⟩
      obtain ⟨rfl, -⟩ := List.append_eq_nil_iff.1 hp.rest_eq.symm
      exact ⟨hp.offset_eq.symm, rfl⟩
  | cons c cs ih =>
    simp only [textFrom?]
    split
    · next h =>
      subst h
      rw [Option.some.injEq]
      constructor
      · rintro rfl
        exact ⟨_, .refl _, rfl⟩
      · rintro ⟨next, hp, ho⟩
        exact ((Passes.refl _).eq_of_offset hp ho.symm).1
    · next h =>
      simp only [Option.map_eq_some_iff, ih]
      constructor
      · rintro ⟨tail, ⟨next, hp, rfl⟩, rfl⟩
        exact ⟨next, (passes_cons_iff h).2 ⟨tail, rfl, hp⟩, rfl⟩
      · rintro ⟨next, hp, rfl⟩
        obtain ⟨tail, rfl, htail⟩ := (passes_cons_iff h).1 hp
        exact ⟨tail, ⟨next, htail, rfl⟩, rfl⟩

end Cursor

/-! ## Places named by offsets -/

theorem Span.slice?_eq_some_iff {span : Span} {source text : String} :
    span.slice? source = some text ↔
      ∃ cur next : Cursor, cur.In source ∧ cur.Passes text.toList next ∧ cur.offset = span.start ∧
        next.offset = span.stop := by
  simp only [Span.slice?, Cursor.upTo?, Option.bind_eq_bind, Option.pure_def,
    Option.bind_eq_some_iff, Cursor.seek?_start_eq_some_iff, Cursor.textFrom?_eq_some_iff,
    Option.some.injEq]
  constructor
  · rintro ⟨cur, ⟨hin, hstart⟩, cs, ⟨next, hp, hstop⟩, rfl⟩
    exact ⟨cur, next, hin, by rwa [String.toList_ofList], hstart, hstop⟩
  · rintro ⟨cur, next, hin, hp, hstart, hstop⟩
    exact ⟨cur, ⟨hin, hstart⟩, text.toList, ⟨next, hp, hstop⟩, String.ofList_toList⟩

/-- The text stands in the source from the offset `a` to the offset `b`. -/
def Covers (source : String) (a b : Nat) (text : String) : Prop :=
  Span.slice? ⟨a, b⟩ source = some text

/-- What stands in the source from an offset on. -/
def restAt (source : String) (offset : Nat) : List Char :=
  (((Cursor.start source).seek? offset).map Cursor.rest).getD []

theorem Cursor.In.restAt_eq {source : String} {cur : Cursor} (h : cur.In source) :
    restAt source cur.offset = cur.rest := by
  simp [restAt, Cursor.seek?_start_eq_some_iff.2 ⟨h, rfl⟩]

theorem covers_iff {source : String} {a b : Nat} {text : String} :
    Covers source a b text ↔
      ∃ cur next : Cursor, cur.In source ∧ cur.Passes text.toList next ∧ cur.offset = a ∧
        next.offset = b :=
  Span.slice?_eq_some_iff

theorem Cursor.In.covers {source : String} {cur next : Cursor} {text : String}
    (h : cur.In source) (hp : cur.Passes text.toList next) :
    Covers source cur.offset next.offset text :=
  covers_iff.2 ⟨cur, next, h, hp, rfl, rfl⟩

theorem Cursor.In.covers_ofList {source : String} {cur next : Cursor} {cs : List Char}
    (h : cur.In source) (hp : cur.Passes cs next) :
    Covers source cur.offset next.offset (String.ofList cs) :=
  h.covers (by rwa [String.toList_ofList])

/-- What stands from the offset of a cursor on is passed by that cursor. -/
theorem Cursor.In.passes_of_covers {source : String} {cur : Cursor} {b : Nat} {text : String}
    (h : cur.In source) (hc : Covers source cur.offset b text) :
    ∃ next, cur.Passes text.toList next ∧ next.In source ∧ next.offset = b := by
  obtain ⟨cur', next, hin, hp, hcur, hnext⟩ := covers_iff.1 hc
  obtain rfl := hin.eq_of_offset h hcur
  exact ⟨next, hp, hin.passes hp, hnext⟩

section Offsets

variable {source : String} {cur next : Cursor}

theorem Cursor.In.passes_to {text : String} (h : cur.In source) (hnext : next.In source)
    (hc : Covers source cur.offset next.offset text) : cur.Passes text.toList next := by
  obtain ⟨next', hp, hin, ho⟩ := h.passes_of_covers hc
  obtain rfl := hin.eq_of_offset hnext ho
  exact hp

theorem Cursor.In.passes_list_to {cs : List Char} (h : cur.In source) (hnext : next.In source)
    (hc : Covers source cur.offset next.offset (String.ofList cs)) : cur.Passes cs next := by
  have hp := h.passes_to hnext hc
  rwa [String.toList_ofList] at hp

theorem Covers.exists_start {a b : Nat} {text : String} (h : Covers source a b text) :
    ∃ cur : Cursor, cur.In source ∧ cur.offset = a := by
  obtain ⟨cur, next, hin, -, ha, -⟩ := covers_iff.1 h
  exact ⟨cur, hin, ha⟩

theorem Covers.exists_stop {a b : Nat} {text : String} (h : Covers source a b text) :
    ∃ next : Cursor, next.In source ∧ next.offset = b := by
  obtain ⟨cur, next, hin, hp, -, hb⟩ := covers_iff.1 h
  exact ⟨next, hin.passes hp, hb⟩

end Offsets

theorem Covers.stop_eq {source : String} {a b : Nat} {text : String} (h : Covers source a b text) :
    b = a + width text.toList := by
  obtain ⟨cur, next, -, hp, rfl, rfl⟩ := covers_iff.1 h
  exact hp.offset_eq

theorem Covers.le {source : String} {a b : Nat} {text : String} (h : Covers source a b text) :
    a ≤ b := by
  rw [h.stop_eq]
  exact Nat.le_add_right _ _

theorem Covers.stop_le {source : String} {a b : Nat} {text : String}
    (h : Covers source a b text) : b ≤ source.utf8ByteSize := by
  obtain ⟨cur, next, hin, hp, rfl, rfl⟩ := covers_iff.1 h
  exact (hin.passes hp).offset_le

theorem Covers.append {source : String} {a b c : Nat} {s t : String} (h₁ : Covers source a b s)
    (h₂ : Covers source b c t) : Covers source a c (s ++ t) := by
  obtain ⟨cur, mid, hin, hp, rfl, rfl⟩ := covers_iff.1 h₁
  obtain ⟨next, hp', -, rfl⟩ := (hin.passes hp).passes_of_covers h₂
  apply hin.covers
  rw [String.toList_append]
  exact hp.trans hp'

/-- A text stands in each source that has it between two others. -/
theorem covers_append (a b c : String) :
    Covers (a ++ b ++ c) a.utf8ByteSize (a ++ b).utf8ByteSize b := by
  have hstart : (Cursor.start (a ++ b ++ c)).Passes a.toList
      ⟨a.utf8ByteSize, b.toList ++ c.toList⟩ := by
    refine ⟨?_, ?_⟩
    · simp [Cursor.start, String.toList_append]
    · rw [width_toList]
      exact (Nat.zero_add _).symm
  refine covers_iff.2 ⟨_, ⟨(a ++ b).utf8ByteSize, c.toList⟩, ⟨_, hstart⟩, ⟨rfl, ?_⟩, rfl, rfl⟩
  rw [width_toList, String.utf8ByteSize_append]

theorem restAt_utf8ByteSize (source : String) : restAt source source.utf8ByteSize = [] :=
  Cursor.In.restAt_eq ⟨_, Cursor.start_passes source⟩

end Prosemark
