import Mathlib.Data.List.Infix
import Prosemark.Proofs.Carry
import Prosemark.Proofs.Completeness
import Prosemark.Proofs.Exchange

/-!
# Trees in another source

A source may stand within another one, with its switch exchanged for another switch there. Then what
is laid out over the first source and in normal form is so over the other one when it is carried
over (`Transfer.fragments`): each cursor of the first source has an image in the other one, where
the changed text stands and something that continues nothing after it.

No reader takes part in this. Conditions on a node are about texts that stand at the node and about
what comes next; only that a numeral is not longer in the other source depends on the tokens after
it (`Token.Spread.runsOut`).
-/

namespace Prosemark

open Prosemark.Parser

/-- The first source stands within the other, with its switch exchanged for the other one. -/
structure Transfer (sw : Switch) (source : String) (sw' : Switch) (source' : String) where
  /-- Where an offset of the first source is in the other. -/
  place : Nat → Nat
  /-- What comes after the first source in the other. -/
  tail : List Char
  image_in {cur : Cursor} (hin : cur.In source) :
    Cursor.In source' ⟨place cur.offset, cur.rest.map (sw.exchange sw') ++ tail⟩
  kept : sw = sw' ∨ sw = .standard ∧ sw'.char ∉ source.toList
  seam : IsSeam tail

/-! ## Fragments of a scope -/

section Fragments

variable {sw : Switch} {source : String} {closing : Option Fence} {f : Fragment}
  {fs : List Fragment}

/-- No prose among the fragments contains the right text of the fence. -/
def Fragment.Unbroken (closing : Option Fence) (fs : List Fragment) : Prop :=
  ∀ t : Text, .text t ∈ fs → t.isProse = true → ∀ fence ∈ closing,
    ¬fence.right <:+: t.inner.toList

/-- Whether the fragment is no prose with the right text of the fence in it. -/
def Fragment.isUnbroken (closing : Option Fence) : Fragment → Bool
  | .text t => !t.isProse || closing.toList.all fun fence => decide ¬fence.right <:+: t.inner.toList
  | _ => true

theorem Fragment.unbroken_iff : Fragment.Unbroken closing fs ↔ fs.all (·.isUnbroken closing) := by
  rw [List.all_eq_true]
  constructor
  · intro h f hf
    cases f with
    | text t => simpa [isUnbroken, Classical.or_iff_not_imp_left] using h t hf
    | command c => rfl
    | block block => rfl
  · intro h t ht hprose
    simpa [isUnbroken, hprose] using h (.text t) ht

instance : Decidable (Fragment.Unbroken closing fs) :=
  decidable_of_iff _ Fragment.unbroken_iff.symm

theorem Fragment.Unbroken.head (h : Fragment.Unbroken closing (f :: fs)) :
    Fragment.Unbroken closing [f] := by
  intro t ht
  rw [List.mem_singleton] at ht
  exact h t (ht ▸ List.mem_cons_self)

theorem Fragment.Unbroken.tail (h : Fragment.Unbroken closing (f :: fs)) :
    Fragment.Unbroken closing fs :=
  fun t ht => h t (List.mem_cons_of_mem f ht)

theorem Fragment.NormalAll.normal (h : Fragment.NormalAll sw source closing fs) :
    ∀ f ∈ fs, f.Normal sw source closing := by
  induction fs with
  | nil => exact List.forall_mem_nil _
  | cons f fs ih => exact List.forall_mem_cons.2 ⟨h.1, ih h.2.2⟩

theorem Fragment.NormalAll.unbroken (h : Fragment.NormalAll sw source closing fs) :
    Fragment.Unbroken closing fs := by
  intro t ht hprose
  have hnormal := h.normal _ ht
  simp only [Fragment.Normal, hprose, if_true] at hnormal
  exact hnormal.2.2.2

variable {place : Nat → Nat} {char : Char → Char}

theorem Fragment.isProse_carry (f : Fragment) : (f.carry place char).isProse = f.isProse := by
  cases f <;> rfl

theorem Fragment.isProse_head_carryAll (h : ∀ g ∈ fs.head?, g.isProse = false) :
    ∀ g ∈ (Fragment.carryAll place char fs).head?, g.isProse = false := by
  cases fs with
  | nil => simp [Fragment.carryAll]
  | cons f fs =>
    rintro _ ⟨⟩
    rw [Fragment.isProse_carry]
    exact h f rfl

end Fragments

/-! ## Tokens and what comes after them -/

section Tokens

variable {sw : Switch} {source : String} {nested : Bool}

theorem Fragment.Follows.head {f : Fragment} {start cur next : Cursor} (hin : start.In source)
    (hswitch : start.Passes [sw.char] cur) (h : f.Follows sw source nested start cur next) :
    ∃ c rest, cur.rest = c :: rest ∧ c.isDigit = false :=
  head_of_expression ((complete sw source _).expression_yields hin hswitch h (Nat.lt_succ_self _))

theorem Body.Stands.opens {body : Body} {cur next : Cursor} (hin : cur.In source)
    (h : body.Stands sw source nested cur next) : ∃ d, d ≠ .bar ∧ Opens d cur.rest :=
  ((complete sw source _).body_finds hin h (Nat.lt_succ_self _)).opens

namespace Numeral

theorem runsOut_cons {c : Char} {cs : List Char} (hpart : isPart c = false) (hc : c ≠ sw.char) :
    RunsOut sw (c :: cs) :=
  ⟨[], c, cs, rfl, List.forall_mem_nil _, hpart, fun h => absurd h hc⟩

theorem runsOut_of_opens {d : Delimiter} {cs : List Char} (h : Opens d cs) : RunsOut sw cs := by
  obtain ⟨c, rest, rfl, hc⟩ := h.head
  have hmark : isPart c = false ∧ c ∈ Charset.reserved := by
    rcases hc with rfl | rfl
    · decide
    · cases d <;> decide
  exact runsOut_cons hmark.1 (sw.char_ne_of_mem_reserved hmark.2).symm

theorem runsOut_of_switch {f : Fragment} {start cur next : Cursor}
    (hpart : isPart sw.char = false) (hin : start.In source)
    (hswitch : start.Passes [sw.char] cur) (h : f.Follows sw source nested start cur next) :
    RunsOut sw start.rest := by
  rw [hswitch.rest_eq]
  exact ⟨[], sw.char, cur.rest, rfl, List.forall_mem_nil _, hpart, fun _ => h.head hin hswitch⟩

end Numeral

open Numeral

/-- A body that is a token, with or without a switch before it, ends what is before. -/
theorem Body.runsOut {body : Body} {cur next : Cursor} {i : Nat} (hpart : isPart sw.char = false)
    (hin : cur.In source) (hi : i = cur.offset ∨ Covers source cur.offset i sw.text)
    (hb : ∀ mid : Cursor, mid.offset = i → body.Stands sw source nested mid next) :
    RunsOut sw cur.rest := by
  rcases hi with rfl | hswitch
  · obtain ⟨d, -, hopens⟩ := (hb cur rfl).opens hin
    exact runsOut_of_opens hopens
  · obtain ⟨start, hp, -, rfl⟩ := hin.passes_switch hswitch
    exact runsOut_of_switch hpart hin hp (.inr ⟨body, rfl, hb start rfl⟩)

/-- Numerals run out in a token, or they do so after it. -/
theorem Token.Stands.runsOut {t : Token} {cur next : Cursor} (hpart : isPart sw.char = false)
    (hin : cur.In source) (h : t.Stands sw source nested cur next) (hnext : RunsOut sw next.rest) :
    RunsOut sw cur.rest := by
  obtain ⟨hnextin, hfills, hnormal⟩ := h
  cases t with
  | identifier span name =>
    rw [(hin.passes_to hnextin hfills.2).rest_eq]
    refine hnext.append fun c hc => .inr ?_
    rintro rfl
    exact hnormal.1.notMem_switch sw hc
  | operator span symbols =>
    rw [(hin.passes_to hnextin hfills.2).rest_eq]
    refine hnext.append fun c hc => .inr ?_
    rintro rfl
    exact Lexeme.IsOperator.notMem_switch hnormal hc
  | number span value =>
    obtain ⟨-, numeral, hvalid, hcovers, -⟩ := hfills
    rw [(hin.passes_list_to hnextin hcovers).rest_eq]
    exact hnext.append fun c hc => .inl (hvalid.isPart_chars c hc)
  | group g =>
    obtain ⟨⟨a, b⟩, children⟩ := g
    obtain ⟨start, hp, -⟩ := hin.passes_of_covers hfills.1
    rw [hp.rest_eq]
    exact runsOut_cons (by decide) (sw.char_ne_of_mem_reserved (by decide)).symm
  | block block =>
    obtain ⟨i, hi, hfills⟩ := hfills
    have hb : ∀ mid : Cursor, mid.offset = i →
        Body.Stands sw source nested (.block block) mid next := by
      rintro mid rfl
      exact ⟨hnextin, hfills, hnormal⟩
    exact Body.runsOut hpart hin hi hb
  | text t =>
    obtain ⟨i, hi, hfills⟩ := hfills
    have hb : ∀ mid : Cursor, mid.offset = i →
        Body.Stands sw source nested (.text t) mid next := by
      rintro mid rfl
      exact ⟨hnextin, hfills, hnormal⟩
    exact Body.runsOut hpart hin hi hb
  | command c =>
    obtain ⟨start, hp, -⟩ := Command.exists_switch hin hfills
    exact runsOut_of_switch hpart hin hp (.inl ⟨c, rfl, hnextin, hfills, hnormal⟩)

/-- Numerals run out before the bracket that closes a group. -/
theorem Token.Spread.runsOut : ∀ {ts : List Token} {cur mid next : Cursor}, cur.In source →
    mid.In source → mid.Passes [']'] next → Token.Spread sw source ts cur.offset mid.offset →
      Token.NormalAll sw source nested ts → RunsOut sw cur.rest := by
  intro ts cur mid next hin hmid hclose hspread hnormal
  have hbracket : RunsOut sw mid.rest := by
    rw [hclose.rest_eq]
    exact runsOut_cons (by decide) (sw.char_ne_of_mem_reserved (by decide)).symm
  cases hpart : isPart sw.char with
  | true =>
    -- the first character that is no part of numerals is not the switch then
    obtain ⟨_, hreaches⟩ := (Token.sitInOrder ts hspread).reaches
    rw [(hin.passes_to hmid hreaches).rest_eq]
    refine hbracket.append fun c _ => ?_
    cases hc : isPart c with
    | true => exact .inl rfl
    | false =>
      refine .inr ?_
      rintro rfl
      simp [hpart] at hc
  | false =>
    have hblank : ∀ {text : String} {a b : Cursor}, a.Passes text.toList b →
        (∀ c ∈ text.toList, Charset.isBlank c = true) → RunsOut sw b.rest → RunsOut sw a.rest := by
      intro text a b hp hblank hb
      rw [hp.rest_eq]
      refine hb.append fun c hc => .inr ?_
      rintro rfl
      exact Bool.false_ne_true (sw.isBlank_char.symm.trans (hblank _ hc))
    induction ts generalizing cur with
    | nil =>
      obtain ⟨text, hcovers, htext⟩ := hspread
      exact hblank (hin.passes_to hmid hcovers) htext hbracket
    | cons t ts ih =>
      obtain ⟨i, j, ⟨text, hcovers, htext⟩, ht, hspread⟩ := hspread
      obtain ⟨start, hp, hstart, rfl⟩ := hin.passes_of_covers hcovers
      obtain ⟨_, hreaches⟩ := (t.sits ht).reaches
      obtain ⟨after, hafter, rfl⟩ := hreaches.exists_stop
      have hrest := ih hafter hspread hnormal.2
      exact hblank hp htext (Token.Stands.runsOut hpart hstart ⟨hafter, ht, hnormal.1⟩ hrest)

theorem Token.Spread.runsOut_restAt {ts : List Token} {a b k : Nat}
    (h : Token.Spread sw source ts a b) (hclose : Covers source b k "]")
    (hn : Token.NormalAll sw source nested ts) : RunsOut sw (restAt source a) := by
  obtain ⟨_, hreaches⟩ := (Token.sitInOrder ts h).reaches
  obtain ⟨cur, hin, rfl⟩ := hreaches.exists_start
  obtain ⟨mid, hmid, rfl⟩ := hclose.exists_start
  obtain ⟨next, hp, -⟩ := hmid.passes_of_covers hclose
  rw [hin.restAt_eq]
  exact Token.Spread.runsOut hin hmid hp h hn

end Tokens

/-! ## Offsets of a command -/

theorem Covers.switch_stop_eq {sw : Switch} {source : String} {a b : Nat}
    (h : Covers source a b sw.text) : b = a + sw.size := by
  rw [h.stop_eq, width_toList]
  simp [Switch.text, Switch.size]

theorem Cursor.In.exists_stop_of_fillsOption {sw : Switch} {source : String} {cur : Cursor}
    {options : Option Group} {k : Nat} (hin : cur.In source)
    (h : Group.FillsOption sw source options cur.offset k) :
    ∃ mid : Cursor, mid.In source ∧ mid.offset = k := by
  cases options with
  | none => exact ⟨cur, hin, h⟩
  | some g =>
    obtain ⟨span, children⟩ := g
    exact h.2.2.exists_stop

namespace Transfer

variable {sw sw' : Switch} {source source' : String} (T : Transfer sw source sw' source')
  {cur next : Cursor} {a b i j k : Nat}

/-! ## Images -/

/-- The cursor in the other source. -/
def image (cur : Cursor) : Cursor :=
  ⟨T.place cur.offset, cur.rest.map (sw.exchange sw') ++ T.tail⟩

theorem kept_switch (T : Transfer sw source sw' source') : sw = sw' ∨ sw = .standard :=
  T.kept.imp_right And.left

theorem passes {text : List Char} (hin : cur.In source) (hp : cur.Passes text next) :
    (T.image cur).Passes (text.map (sw.exchange sw')) (T.image next) := by
  have hrest : (T.image cur).rest = text.map (sw.exchange sw') ++ (T.image next).rest := by
    simp only [image, hp.rest_eq, List.map_append, List.append_assoc]
  have hpass := Cursor.passes_of_rest_eq hrest
  have hin' : (T.image cur).In source' := T.image_in hin
  have hnext : (T.image next).In source' := T.image_in (hin.passes hp)
  -- the two cursors after the changed text have the same text left
  rwa [(hin'.passes hpass).eq_of_rest hnext rfl] at hpass

theorem covers {text : String} (h : Covers source a b text) :
    Covers source' (T.place a) (T.place b) (text.map (sw.exchange sw')) := by
  obtain ⟨cur, next, hin, hp, rfl, rfl⟩ := covers_iff.1 h
  refine covers_iff.2 ⟨T.image cur, T.image next, T.image_in hin, ?_, rfl, rfl⟩
  rw [String.toList_map]
  exact T.passes hin hp

theorem covers_of_map_eq {text : String} (h : Covers source a b text)
    (htext : text.toList.map (sw.exchange sw') = text.toList) :
    Covers source' (T.place a) (T.place b) text := by
  have hmap : text.map (sw.exchange sw') = text := by
    rw [← String.toList_inj, String.toList_map, htext]
  rw [← hmap]
  exact T.covers h

theorem covers_switch (h : Covers source a b sw.text) :
    Covers source' (T.place a) (T.place b) sw'.text := by
  have hmap : sw.text.map (sw.exchange sw') = sw'.text := by
    rw [← String.toList_inj, String.toList_map, Switch.text, Switch.text, String.toList_singleton,
      String.toList_singleton, List.map_singleton, Switch.exchange_switch]
  rw [← hmap]
  exact T.covers h

theorem fresh (T : Transfer sw source sw' source') {text : String} (h : Covers source a b text) :
    sw = sw' ∨ sw'.char ∉ text.toList := by
  refine T.kept.imp_right fun hkept hmem => hkept.2 ?_
  obtain ⟨cur, next, ⟨before, hb⟩, hp, -, -⟩ := covers_iff.1 h
  have hsource : source.toList = before ++ cur.rest := hb.rest_eq
  rw [hsource, hp.rest_eq]
  simp [hmem]

theorem restAt_eq (hin : cur.In source) :
    restAt source' (T.place cur.offset) = cur.rest.map (sw.exchange sw') ++ T.tail :=
  Cursor.In.restAt_eq (T.image_in hin)

theorem blank (h : Blank source a b) : Blank source' (T.place a) (T.place b) := by
  obtain ⟨text, hcovers, htext⟩ := h
  refine ⟨text.map (sw.exchange sw'), T.covers hcovers, ?_⟩
  rw [String.toList_map, List.forall_mem_map]
  intro c hc
  rw [Switch.isBlank_exchange]
  exact htext c hc

/-! ## Texts in fences -/

/-- Enclosings of nodes are made of characters that are not exchanged. -/
theorem surrounds {e : Enclosing} {span : Span} (h : e.Surrounds source span a b)
    (he : e = .unfenced ∨ ∃ fence : Fence, e = fence.enclosing) :
    e.Surrounds source' (span.carry T.place) (T.place a) (T.place b) := by
  obtain ⟨hleft, hright⟩ := h
  rcases he with rfl | ⟨fence, rfl⟩
  · exact ⟨T.covers_of_map_eq hleft rfl, T.covers_of_map_eq hright rfl⟩
  · refine ⟨T.covers_of_map_eq hleft ?_, T.covers_of_map_eq hright ?_⟩
    · rw [Fence.enclosing, String.toList_ofList]
      exact (map_exchange_eq_iff fence.left_mem_reserved).2 rfl
    · rw [Fence.enclosing, String.toList_ofList]
      exact (map_exchange_eq_iff fence.right_mem_reserved).2 rfl

theorem text_fills {t : Text} (h : t.Fills source a b)
    (he : t.enclosing = .unfenced ∨ ∃ fence : Fence, t.enclosing = fence.enclosing) :
    (t.carry T.place (sw.exchange sw')).Fills source' (T.place a) (T.place b) :=
  ⟨T.surrounds h.1 he, T.covers h.2⟩

theorem balanced {fence : Fence} {nested nested' : Bool}
    (h : Covers source a b fence.enclosing.right)
    (hb : fence.Balanced nested (restAt source (a + width fence.right)))
    (hnested : nested' = false → nested = false) :
    fence.Balanced nested' (restAt source' (T.place a + width fence.right)) := by
  have hright : fence.enclosing.right.toList = fence.right := String.toList_ofList
  have h' : Covers source' (T.place a) (T.place b) fence.enclosing.right := by
    apply T.covers_of_map_eq h
    rw [hright]
    exact (map_exchange_eq_iff fence.right_mem_reserved).2 rfl
  have hstop := h.stop_eq
  have hstop' := h'.stop_eq
  rw [hright] at hstop hstop'
  obtain ⟨next, hin, rfl⟩ := h.exists_stop
  rw [← hstop, hin.restAt_eq] at hb
  rw [← hstop', T.restAt_eq hin]
  exact hb.exchange T.seam hnested

theorem isQuoted {t : Text} {nested nested' : Bool} (h : t.Fills source a b)
    (hq : t.IsQuoted source nested) (hnested : nested' = false → nested = false) :
    (t.carry T.place (sw.exchange sw')).Fills source' (T.place a) (T.place b) ∧
      (t.carry T.place (sw.exchange sw')).IsQuoted source' nested' := by
  obtain ⟨fence, hd, he, hunbroken, hbalanced⟩ := hq
  have hright : Covers source t.span.stop b fence.enclosing.right := he ▸ h.1.2
  refine ⟨T.text_fills h (.inr ⟨fence, he⟩), fence, hd, he, ?_, ?_⟩
  · rw [Text.carry, String.toList_map]
    exact Fence.not_infix_exchange hunbroken
  · exact T.balanced hright hbalanced hnested

/-! ## Commands -/

/-- The form of a command and what it attaches depend on what stands after the switch, after the
phrase and after the options. -/
theorem formed {c : Command} {place : Span} (hspan : c.span = ⟨a, b⟩)
    (hswitch : Covers source a i sw.text)
    (hphrase : Text.Fills source ⟨place, c.phrase, c.phraseEnclosing⟩ i j)
    (hphrase' : Text.Fills source'
      (Text.carry T.place (sw.exchange sw') ⟨place, c.phrase, c.phraseEnclosing⟩)
      (T.place i) (T.place j))
    (hoptions : Group.FillsOption sw source c.options j k)
    (hoptions' : Group.FillsOption sw' source'
      (Group.carryOption T.place (sw.exchange sw') c.options) (T.place j) (T.place k))
    (h : c.Formed sw source) :
    (c.carry T.place (sw.exchange sw')).Formed sw' source' := by
  have hbare' := c.isBare_carry T.place (sw.exchange sw')
  obtain ⟨span, phrase, e, options, body⟩ := c
  obtain rfl : span = ⟨a, b⟩ := hspan
  obtain ⟨start, hstart, rfl⟩ := hswitch.exists_stop
  obtain ⟨after, hafter, rfl⟩ := hphrase.1.2.exists_stop
  obtain ⟨mid, hmid, rfl⟩ := hafter.exists_stop_of_fillsOption hoptions
  have hswitch' := T.covers_switch hswitch
  have hstop := Command.phraseStop_eq (c := ⟨⟨a, b⟩, phrase, e, options, body⟩) hswitch hphrase
  have hstop' := Command.phraseStop_eq
    (c := Command.carry T.place (sw.exchange sw') ⟨⟨a, b⟩, phrase, e, options, body⟩)
    hswitch' hphrase'
  have hattaches : Command.Attaches sw source ⟨⟨a, b⟩, phrase, e, options, body⟩ →
      (Command.carry T.place (sw.exchange sw') ⟨⟨a, b⟩, phrase, e, options, body⟩).Attaches sw'
        source' := by
    intro h
    rw [Command.attaches_iff hafter hmid hstop
      (Command.optionsStop_eq (by rwa [hstop]))] at h
    rw [Command.attaches_iff (T.image_in hafter) (T.image_in hmid) hstop'
      (Command.optionsStop_eq (by rwa [hstop']))]
    simp only [Command.carry, Group.isSome_carryOption, Body.isSome_carryOption]
    rw [head_exchange_iff T.seam (by decide), opens_exchange_iff T.seam,
      opens_exchange_iff T.seam]
    exact h
  cases h with
  | identifier unfenced kind maximal attaches =>
    refine .identifier unfenced ?_ ?_ (hattaches attaches)
    · rw [Command.carry, String.toList_map]
      exact kind.exchange
    · rw [hstop, hafter.restAt_eq] at maximal
      rw [hstop', T.restAt_eq hafter]
      exact isIdContinue_head_exchange T.seam maximal
  | bars fence delimiter fenced unbroken attaches =>
    refine .bars fence delimiter fenced ?_ ?_
    · rw [Command.carry, String.toList_map]
      exact Fence.not_infix_exchange unbroken
    · have hnil : phrase.map (sw.exchange sw') = "" ↔ phrase = "" := by
        rw [← String.toList_inj, ← String.toList_inj, String.toList_map, String.toList_empty,
          List.map_eq_nil_iff]
      rw [hbare']
      simp only [Command.carry, hnil]
      split at attaches
      · next hphrase =>
        rwa [if_pos hphrase]
      · next hphrase =>
        rw [if_neg hphrase]
        exact hattaches attaches
  | symbol d unfenced phrase_eq kind head opens bare =>
    have hsize : a + sw.size = start.offset := hswitch.switch_stop_eq.symm
    have hsize' : T.place a + sw'.size = T.place start.offset := hswitch'.switch_stop_eq.symm
    obtain rfl : phrase = String.singleton d := phrase_eq
    refine .symbol (sw.exchange sw' d) unfenced ?_ ?_ ?_ ?_ (hbare'.trans bare)
    · rw [Command.carry, ← String.toList_inj, String.toList_map, String.toList_singleton,
        String.toList_singleton, List.map_singleton]
    · rwa [Switch.isSymbol_exchange]
    · rw [hsize, hstart.restAt_eq] at head
      rw [Command.carry, Span.carry, hsize', T.restAt_eq hstart]
      exact isIdStart_head_exchange T.seam head
    · rw [hsize, hstart.restAt_eq] at opens
      rw [Command.carry, Span.carry, hsize', T.restAt_eq hstart]
      exact fun e => (not_congr (opens_exchange_iff T.seam)).2 (opens e)

/-! ## Identifiers, operators and numbers -/

theorem identifier {span : Span} {name : String} (nested nested' : Bool)
    (hf : Token.Fills sw source (.identifier span name) a b)
    (hn : Token.Normal sw source nested (.identifier span name)) :
    Token.Fills sw' source' (.identifier (span.carry T.place) name) (T.place a) (T.place b) ∧
      Token.Normal sw' source' nested' (.identifier (span.carry T.place) name) := by
  obtain ⟨rfl, hcovers⟩ := hf
  obtain ⟨hid, hmaximal⟩ := hn
  obtain ⟨next, hin, rfl⟩ := hcovers.exists_stop
  refine ⟨⟨rfl, T.covers_of_map_eq hcovers ?_⟩, hid, ?_⟩
  · exact map_exchange_of_notMem (hid.notMem_switch sw)
  · rw [hin.restAt_eq] at hmaximal
    rw [Span.carry, T.restAt_eq hin]
    exact isIdContinue_head_exchange T.seam hmaximal

theorem operator {span : Span} {symbols : String} (nested nested' : Bool)
    (hf : Token.Fills sw source (.operator span symbols) a b)
    (hn : Token.Normal sw source nested (.operator span symbols)) (hb : restAt source b ≠ []) :
    Token.Fills sw' source' (.operator (span.carry T.place) symbols) (T.place a) (T.place b) ∧
      Token.Normal sw' source' nested' (.operator (span.carry T.place) symbols) := by
  obtain ⟨rfl, hcovers⟩ := hf
  obtain ⟨next, hin, rfl⟩ := hcovers.exists_stop
  have hoperator : Lexeme.IsOperator sw symbols.toList (restAt source next.offset) := hn
  rw [hin.restAt_eq] at hoperator hb
  refine ⟨⟨rfl, T.covers_of_map_eq hcovers ?_⟩, ?_⟩
  · exact map_exchange_of_notMem hoperator.notMem_switch
  · rw [Token.Normal, Span.carry, T.restAt_eq hin]
    exact hoperator.exchange (T.fresh hcovers) hb

theorem number {span : Span} {value : Number} (nested nested' : Bool)
    (hf : Token.Fills sw source (.number span value) a b)
    (hn : Token.Normal sw source nested (.number span value))
    (hb : Numeral.RunsOut sw (restAt source b)) :
    Token.Fills sw' source' (.number (span.carry T.place) value) (T.place a) (T.place b) ∧
      Token.Normal sw' source' nested' (.number (span.carry T.place) value) := by
  obtain ⟨rfl, numeral, hvalid, hcovers, hvalue⟩ := hf
  obtain ⟨hlongest, hminus⟩ := hn
  have hcovers' : Covers source' (T.place a) (T.place b) (String.ofList numeral.chars) := by
    apply T.covers_of_map_eq hcovers
    rw [String.toList_ofList]
    exact Numeral.map_exchange_of_isPart T.kept_switch hvalid.isPart_chars
  have hstop := hcovers.stop_eq
  have hstop' := hcovers'.stop_eq
  obtain ⟨cur, hin, rfl⟩ := hcovers.exists_start
  obtain ⟨next, hp, hnext, rfl⟩ := hin.passes_of_covers hcovers
  rw [String.toList_ofList] at hp hstop hstop'
  rw [hin.restAt_eq] at hlongest hminus
  rw [hnext.restAt_eq] at hb
  have hruns : Numeral.RunsOut sw cur.rest := by
    rw [hp.rest_eq]
    exact hb.append fun c hc => .inl (hvalid.isPart_chars c hc)
  refine ⟨⟨rfl, numeral, hvalid, hcovers', hvalue⟩, ?_, ?_⟩
  · intro m hm hpre
    rw [Span.carry, T.restAt_eq hin] at hpre
    have hle : cur.offset + width m.chars ≤ next.offset :=
      hlongest m hm (hm.prefix_of_exchange T.kept_switch hruns hpre)
    show T.place cur.offset + width m.chars ≤ T.place next.offset
    omega
  · intro hhead
    rw [Span.carry, T.restAt_eq hin] at hhead
    obtain ⟨c, cs, hcs⟩ := List.exists_cons_of_ne_nil hruns.ne_nil
    rw [hcs] at hhead hminus
    have hc : sw.exchange sw' c = '-' := Option.some.inj hhead
    by_cases hswitch : c = sw.char
    · rwa [hswitch, Switch.exchange_switch] at hc
    · rw [Switch.exchange_of_ne hswitch] at hc
      exact absurd (hc.trans (hminus (by rw [hc]; rfl)).symm) hswitch

/-! ## Trees -/

theorem prose {closing closing' : Option Fence} {t : Text} (ht : t.isProse = true)
    (hf : Fragment.Fills sw source (.text t) a b)
    (hn : Fragment.Normal sw source closing (.text t))
    (hunbroken : Fragment.Unbroken closing' [.text t]) :
    Fragment.Fills sw' source' (.text (t.carry T.place (sw.exchange sw'))) (T.place a)
        (T.place b) ∧
      Fragment.Normal sw' source' closing' (.text (t.carry T.place (sw.exchange sw'))) := by
  have ht' : (t.carry T.place (sw.exchange sw')).isProse = true := ht
  simp only [Fragment.Fills, Fragment.Normal, ht, ht', if_true] at hf hn ⊢
  obtain ⟨hspan, hcovers⟩ := hf
  obtain ⟨he, hne, hswitch, -⟩ := hn
  have hinner : t.inner.toList.map (sw.exchange sw') = t.inner.toList :=
    map_exchange_of_notMem hswitch
  have hmap : t.inner.map (sw.exchange sw') = t.inner := by
    rw [← String.toList_inj, String.toList_map, hinner]
  refine ⟨⟨?_, T.covers hcovers⟩, he, ?_, ?_⟩
  · rw [Text.carry, hspan, Span.carry]
  · rwa [Text.carry, hmap]
  · rw [Text.carry, hmap]
    refine ⟨?_, hunbroken t List.mem_cons_self ht⟩
    rcases T.fresh hcovers with rfl | hfresh
    · exact hswitch
    · exact hfresh

mutual

theorem fragment {closing closing' : Option Fence}
    (hnested : closing'.isSome = false → closing.isSome = false) : ∀ (f : Fragment) {a b : Nat},
    f.Fills sw source a b → f.Normal sw source closing → Fragment.Unbroken closing' [f] →
      (f.carry T.place (sw.exchange sw')).Fills sw' source' (T.place a) (T.place b) ∧
        (f.carry T.place (sw.exchange sw')).Normal sw' source' closing'
  | .text t, a, b, hf, hn, hunbroken => by
    cases ht : t.isProse with
    | true => exact T.prose ht hf hn hunbroken
    | false =>
      have ht' : (t.carry T.place (sw.exchange sw')).isProse = false := ht
      simp only [Fragment.carry, Fragment.Fills, Fragment.Normal, ht, ht', Bool.false_eq_true,
        if_false] at hf hn ⊢
      obtain ⟨i, hswitch, hf⟩ := hf
      obtain ⟨hf', hn'⟩ := T.isQuoted hf hn hnested
      exact ⟨⟨T.place i, T.covers_switch hswitch, hf'⟩, hn'⟩
  | .command c, a, b, hf, hn, _ => command hnested c hf hn
  | .block block, a, b, ⟨i, hswitch, hf⟩, hn, _ => by
    obtain ⟨hf', hn'⟩ := Transfer.block hnested block hf hn
    exact ⟨⟨T.place i, T.covers_switch hswitch, hf'⟩, hn'⟩

/-- Fragments that are carried over stand in the scope that another fence closes, if no prose among
them contains the right text of that. -/
theorem fragments {closing closing' : Option Fence}
    (hnested : closing'.isSome = false → closing.isSome = false) :
    ∀ (fs : List Fragment) {a b : Nat}, Fragment.Tile sw source fs a b →
      Fragment.NormalAll sw source closing fs → Fragment.Unbroken closing' fs →
        Fragment.Tile sw' source' (Fragment.carryAll T.place (sw.exchange sw') fs) (T.place a)
            (T.place b) ∧
          Fragment.NormalAll sw' source' closing'
            (Fragment.carryAll T.place (sw.exchange sw') fs)
  | [], a, b, htile, _, _ => ⟨congrArg T.place htile, trivial⟩
  | f :: fs, a, b, ⟨i, hf, htile⟩, ⟨hn, hadjacent, hns⟩, hunbroken => by
    obtain ⟨hf', hn'⟩ := fragment hnested f hf hn hunbroken.head
    obtain ⟨htile', hns'⟩ := fragments hnested fs htile hns hunbroken.tail
    refine ⟨⟨T.place i, hf', htile'⟩, hn', ?_, hns'⟩
    rw [Fragment.isProse_carry]
    exact fun hprose => Fragment.isProse_head_carryAll (hadjacent hprose)

theorem block {nested nested' : Bool} (hnested : nested' = false → nested = false) :
    ∀ (block : Block) {a b : Nat}, block.Fills sw source a b → block.Normal sw source nested →
      (block.carry T.place (sw.exchange sw')).Fills sw' source' (T.place a) (T.place b) ∧
        (block.carry T.place (sw.exchange sw')).Normal sw' source' nested'
  | ⟨span, children, e⟩, a, b, ⟨hsurrounds, htile⟩, ⟨fence, hd, he, hbalanced, hns⟩ => by
    have hright : Covers source span.stop b fence.enclosing.right := he ▸ hsurrounds.2
    obtain ⟨htile', hns'⟩ :=
      fragments id children htile hns hns.unbroken
    exact ⟨⟨T.surrounds hsurrounds (.inr ⟨fence, he⟩), htile'⟩, fence, hd, he,
      T.balanced hright hbalanced hnested, hns'⟩

theorem command {nested nested' : Bool} (hnested : nested' = false → nested = false) :
    ∀ (c : Command) {a b : Nat}, c.Fills sw source a b → c.Normal sw source nested →
      (c.carry T.place (sw.exchange sw')).Fills sw' source' (T.place a) (T.place b) ∧
        (c.carry T.place (sw.exchange sw')).Normal sw' source' nested'
  | ⟨span, phrase, e, options, body⟩, a, b, ⟨hspan, i, place, j, k, hswitch, hphrase, ho, hb⟩,
      ⟨hformed, hno, hnb⟩ => by
    have he : e = .unfenced ∨ ∃ fence : Fence, e = fence.enclosing := by
      cases hformed with
      | identifier unfenced => exact .inl unfenced
      | bars fence delimiter fenced => exact .inr ⟨fence, fenced⟩
      | symbol d unfenced => exact .inl unfenced
    have hphrase' := T.text_fills hphrase he
    obtain ⟨ho', hno'⟩ := groupOption hnested options ho hno
    obtain ⟨hb', hnb'⟩ := bodyOption hnested body hb hnb
    refine ⟨⟨?_, T.place i, place.carry T.place, T.place j, T.place k, T.covers_switch hswitch,
      hphrase', ho', hb'⟩, T.formed hspan hswitch hphrase hphrase' ho ho' hformed, hno', hnb'⟩
    rw [hspan, Span.carry]

theorem groupOption {nested nested' : Bool} (hnested : nested' = false → nested = false) :
    ∀ (options : Option Group) {a b : Nat}, Group.FillsOption sw source options a b →
      Group.NormalOption sw source nested options →
        Group.FillsOption sw' source' (Group.carryOption T.place (sw.exchange sw') options)
            (T.place a) (T.place b) ∧
          Group.NormalOption sw' source' nested'
            (Group.carryOption T.place (sw.exchange sw') options)
  | none, _, _, h, _ => ⟨congrArg T.place h, trivial⟩
  | some g, _, _, hf, hn => group hnested g hf hn

theorem bodyOption {nested nested' : Bool} (hnested : nested' = false → nested = false) :
    ∀ (o : Option Body) {a b : Nat}, Body.FillsOption sw source o a b →
      Body.NormalOption sw source nested o →
        Body.FillsOption sw' source' (Body.carryOption T.place (sw.exchange sw') o) (T.place a)
            (T.place b) ∧
          Body.NormalOption sw' source' nested' (Body.carryOption T.place (sw.exchange sw') o)
  | none, _, _, h, _ => ⟨congrArg T.place h, trivial⟩
  | some o, _, _, hf, hn => body hnested o hf hn

theorem body {nested nested' : Bool} (hnested : nested' = false → nested = false) :
    ∀ (o : Body) {a b : Nat}, o.Fills sw source a b → o.Normal sw source nested →
      (o.carry T.place (sw.exchange sw')).Fills sw' source' (T.place a) (T.place b) ∧
        (o.carry T.place (sw.exchange sw')).Normal sw' source' nested'
  | .block o, _, _, hf, hn => block hnested o hf hn
  | .text _, _, _, hf, hn => T.isQuoted hf hn hnested

theorem group {nested nested' : Bool} (hnested : nested' = false → nested = false) :
    ∀ (g : Group) {a b : Nat}, g.Fills sw source a b → g.Normal sw source nested →
      (g.carry T.place (sw.exchange sw')).Fills sw' source' (T.place a) (T.place b) ∧
        (g.carry T.place (sw.exchange sw')).Normal sw' source' nested'
  | ⟨span, children⟩, a, b, ⟨hleft, hspread, hright⟩, hn => by
    obtain ⟨hspread', hn'⟩ := tokens hnested children hspread hright hn
    refine ⟨⟨T.covers_of_map_eq hleft ?_, hspread', T.covers_of_map_eq hright ?_⟩, hn'⟩
    · exact (map_exchange_eq_iff (by simp [Charset.reserved])).2 rfl
    · exact (map_exchange_eq_iff (by simp [Charset.reserved])).2 rfl

theorem tokens {nested nested' : Bool} (hnested : nested' = false → nested = false) :
    ∀ (ts : List Token) {a b k : Nat}, Token.Spread sw source ts a b → Covers source b k "]" →
      Token.NormalAll sw source nested ts →
        Token.Spread sw' source' (Token.carryAll T.place (sw.exchange sw') ts) (T.place a)
            (T.place b) ∧
          Token.NormalAll sw' source' nested' (Token.carryAll T.place (sw.exchange sw') ts)
  | [], _, _, _, hblank, _, _ => ⟨T.blank hblank, trivial⟩
  | t :: ts, a, b, k, ⟨i, j, hblank, hf, hspread⟩, hclose, ⟨hn, hns⟩ => by
    have hruns : Numeral.RunsOut sw (restAt source j) := hspread.runsOut_restAt hclose hns
    obtain ⟨hf', hn'⟩ := token hnested t hf hruns hn
    obtain ⟨hspread', hns'⟩ := tokens hnested ts hspread hclose hns
    exact ⟨⟨T.place i, T.place j, T.blank hblank, hf', hspread'⟩, hn', hns'⟩

theorem token {nested nested' : Bool} (hnested : nested' = false → nested = false) :
    ∀ (t : Token) {a b : Nat}, t.Fills sw source a b → Numeral.RunsOut sw (restAt source b) →
      t.Normal sw source nested →
        (t.carry T.place (sw.exchange sw')).Fills sw' source' (T.place a) (T.place b) ∧
          (t.carry T.place (sw.exchange sw')).Normal sw' source' nested'
  | .identifier _ _, _, _, hf, _, hn => T.identifier nested nested' hf hn
  | .operator _ _, _, _, hf, hruns, hn => T.operator nested nested' hf hn hruns.ne_nil
  | .number _ _, _, _, hf, hruns, hn => T.number nested nested' hf hn hruns
  | .group g, _, _, hf, _, hn => group hnested g hf hn
  | .block o, _, _, ⟨i, hi, hf⟩, _, hn => by
    obtain ⟨hf', hn'⟩ := block hnested o hf hn
    exact ⟨⟨T.place i, hi.imp (congrArg T.place) T.covers_switch, hf'⟩, hn'⟩
  | .text _, _, _, ⟨i, hi, hf⟩, _, hn => by
    obtain ⟨hf', hn'⟩ := T.isQuoted hf hn hnested
    exact ⟨⟨T.place i, hi.imp (congrArg T.place) T.covers_switch, hf'⟩, hn'⟩
  | .command c, _, _, hf, _, hn => command hnested c hf hn

end

/-! ## Sources within sources -/

/-- A source stands in any that has it between two texts, the second of which continues nothing. -/
def within (sw : Switch) (before source after : String) (hseam : IsSeam after.toList) :
    Transfer sw source sw (before ++ source ++ after) where
  place offset := before.utf8ByteSize + offset
  tail := after.toList
  image_in := by
    rintro cur ⟨text, hp⟩
    have hsource : source.toList = text ++ cur.rest := hp.rest_eq
    have hoffset : cur.offset = 0 + width text := hp.offset_eq
    refine ⟨before.toList ++ text, ?_, ?_⟩
    · simp [Cursor.start, String.toList_append, hsource, Switch.exchange_self]
    · rw [hoffset, width_append, width_toList]
      simp [Cursor.start]
  kept := .inl rfl
  seam := hseam

theorem fragments_within (before after : String) (hseam : IsSeam after.toList)
    {closing closing' : Option Fence} (hnested : closing'.isSome = false → closing.isSome = false)
    {fs : List Fragment} (htile : Fragment.Tile sw source fs a b)
    (hn : Fragment.NormalAll sw source closing fs) (hunbroken : Fragment.Unbroken closing' fs) :
    Fragment.Tile sw (before ++ source ++ after)
        (Fragment.carryAll (before.utf8ByteSize + ·) id fs) (before.utf8ByteSize + a)
        (before.utf8ByteSize + b) ∧
      Fragment.NormalAll sw (before ++ source ++ after) closing'
        (Fragment.carryAll (before.utf8ByteSize + ·) id fs) := by
  have h := (within sw before source after hseam).fragments hnested fs htile hn hunbroken
  rwa [Switch.exchange_self] at h

end Transfer

end Prosemark
