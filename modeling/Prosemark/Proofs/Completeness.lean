import Prosemark.Proofs.Soundness

/-!
# Trees that are laid out and in normal form are parsed

The converse of soundness, by the same steps: what stands between two cursors is what the reader
finds there (`Complete`). So a source has a tree that is laid out over it and in normal form if and
only if it is parsed, and then it has only one.
-/

namespace Prosemark

open Prosemark.Parser

variable {sw : Switch} {source : String} {cur start mid next : Cursor}

/-! ## Less is left after each part -/

theorem Parser.Yields.length_lt {α : Type} {limit : Nat} {r : Except Flaw (Step limit α)}
    {value : α} (h : Yields r value next) : next.rest.length < limit := by
  obtain ⟨step, -, -, rfl⟩ := h
  exact step.lt

theorem Parser.Finds.length_lt {α : Type} {limit : Nat}
    {r : Except Flaw (Option (Step limit α))} {value : α} (h : Finds r value next) :
    next.rest.length < limit := by
  obtain ⟨step, -, -, rfl⟩ := h
  exact step.lt

theorem Parser.Optionally.length_le {α : Type} {r : Except Flaw (Option (Step cur.rest.length α))}
    {value : Option α} (h : Optionally r value next) : next.rest.length ≤ cur.rest.length := by
  rcases h with ⟨-, -, rfl⟩ | ⟨a, -, hf⟩
  · exact Nat.le_refl _
  · exact Nat.le_of_lt hf.length_lt

/-! ## Texts -/

/-- A fenced text that fills the source stands there between the texts of its fence. -/
theorem Text.Fills.encloses {t : Text} {fence : Fence} (hin : cur.In source)
    (hnext : next.In source) (h : t.Fills source cur.offset next.offset)
    (he : t.enclosing = fence.enclosing) (hn : ¬fence.right <:+: t.inner.toList) :
    ∃ start mid, fence.Encloses cur start t.inner.toList mid next ∧
      t = ⟨⟨start.offset, mid.offset⟩, t.inner, fence.enclosing⟩ := by
  obtain ⟨span, inner, enclosing⟩ := t
  obtain rfl : enclosing = fence.enclosing := he
  obtain ⟨⟨hleft, hright⟩, hinner⟩ := h
  obtain ⟨start, hstart, hstartin, hs⟩ := hin.passes_of_covers hleft
  obtain ⟨mid, hmidin, hm⟩ := hright.exists_start
  obtain ⟨a, b⟩ := span
  obtain rfl : start.offset = a := hs
  obtain rfl : mid.offset = b := hm
  refine ⟨start, mid, ⟨?_, hstartin.passes_to hmidin hinner, ?_, hn⟩, rfl⟩
  · rwa [Fence.enclosing, String.toList_ofList] at hstart
  · exact hmidin.passes_list_to hnext hright

theorem Text.Fills.passes_of_unfenced {t : Text} (hin : cur.In source) (hnext : next.In source)
    (h : t.Fills source cur.offset next.offset) (he : t.enclosing = .unfenced) :
    cur.Passes t.inner.toList next := by
  obtain ⟨⟨hleft, hright⟩, hinner⟩ := h
  rw [he] at hleft hright
  have hstart : t.span.start = cur.offset := hleft.stop_eq
  have hstop : next.offset = t.span.stop := hright.stop_eq
  rw [hstart, ← hstop] at hinner
  exact hin.passes_to hnext hinner

/-! ## Prose -/

theorem prose_eq {offset : Nat} {inner : List Char} (h : inner ≠ []) :
    prose offset inner =
      [.text ⟨⟨offset, offset + width inner⟩, String.ofList inner, .unfenced⟩] := by
  cases inner with
  | nil => exact absurd rfl h
  | cons c cs => rfl

/-- Fragments in normal form are prose, or nothing, and fragments that do not start with prose. -/
theorem tile_split {closing : Option Fence} {fs : List Fragment} {b : Nat} (hin : cur.In source)
    (h : Fragment.Tile sw source fs cur.offset b)
    (hn : Fragment.NormalAll sw source closing fs) :
    ∃ inner mid tail, fs = prose cur.offset inner ++ tail ∧ cur.Passes inner mid ∧
      IsProse sw closing inner ∧ Fragment.Tile sw source tail mid.offset b ∧
      Fragment.NormalAll sw source closing tail ∧ ∀ f ∈ tail.head?, f.isProse = false := by
  cases fs with
  | nil => exact ⟨[], cur, [], rfl, .refl cur, isProse_nil sw closing, h, hn, by simp⟩
  | cons f fs =>
    cases hf : f.isProse with
    | false =>
      refine ⟨[], cur, f :: fs, rfl, .refl cur, isProse_nil sw closing, h, hn, ?_⟩
      rintro _ ⟨⟩
      exact hf
    | true =>
      cases f with
      | command c => simp [Fragment.isProse] at hf
      | block block => simp [Fragment.isProse] at hf
      | text t =>
        have ht : t.isProse = true := hf
        obtain ⟨i, hfills, htile⟩ := h
        obtain ⟨hnormal, hnext, hn⟩ := hn
        simp only [Fragment.Fills, ht, if_true] at hfills
        simp only [Fragment.Normal, ht, if_true] at hnormal
        obtain ⟨hspan, hcovers⟩ := hfills
        obtain ⟨he, hne, hprose⟩ := hnormal
        obtain ⟨mid, hp, -, rfl⟩ := hin.passes_of_covers hcovers
        refine ⟨t.inner.toList, mid, fs, ?_, hp, hprose, htile, hn, hnext hf⟩
        obtain ⟨span, inner, enclosing⟩ := t
        obtain rfl : enclosing = .unfenced := he
        obtain rfl : span = ⟨cur.offset, mid.offset⟩ := hspan
        rw [prose_eq (by simpa using hne), String.ofList_toList, ← hp.offset_eq]
        rfl

/-! ## What follows a switch -/

theorem Cursor.In.passes_switch {i : Nat} (h : cur.In source)
    (hc : Covers source cur.offset i sw.text) :
    ∃ start, cur.Passes [sw.char] start ∧ start.In source ∧ start.offset = i := by
  obtain ⟨start, hp, hin, ho⟩ := h.passes_of_covers hc
  rw [Switch.text, String.toList_singleton] at hp
  exact ⟨start, hp, hin, ho⟩

theorem Command.exists_switch {c : Command} {b : Nat} (hin : cur.In source)
    (h : c.Fills sw source cur.offset b) :
    ∃ start, cur.Passes [sw.char] start ∧ start.In source := by
  obtain ⟨span, phrase, e, options, body⟩ := c
  obtain ⟨-, i, -, -, -, hswitch, -⟩ := h
  obtain ⟨start, hp, hstart, -⟩ := hin.passes_switch hswitch
  exact ⟨start, hp, hstart⟩

theorem Fragment.exists_switch {closing : Option Fence} {f : Fragment} (hin : cur.In source)
    (hnext : next.In source) (h : f.Fills sw source cur.offset next.offset)
    (hn : f.Normal sw source closing) (hf : f.isProse = false) :
    ∃ start, cur.Passes [sw.char] start ∧
      f.Follows sw source closing.isSome cur start next := by
  cases f with
  | text t =>
    have ht : t.isProse = false := hf
    simp only [Fragment.Fills, ht] at h
    simp only [Fragment.Normal, ht] at hn
    obtain ⟨i, hswitch, hfills⟩ := h
    obtain ⟨start, hp, -, rfl⟩ := hin.passes_switch hswitch
    exact ⟨start, hp, .inr ⟨.text t, rfl, hnext, hfills, hn⟩⟩
  | command c =>
    obtain ⟨start, hp, -⟩ := Command.exists_switch hin h
    exact ⟨start, hp, .inl ⟨c, rfl, hnext, h, hn⟩⟩
  | block block =>
    obtain ⟨i, hswitch, hfills⟩ := h
    obtain ⟨start, hp, -, rfl⟩ := hin.passes_switch hswitch
    exact ⟨start, hp, .inr ⟨.block block, rfl, hnext, hfills, hn⟩⟩

/-! ## Identifiers, operators and numbers -/

section Atom

variable {nested : Bool} {span : Span} (hin : cur.In source) (hnext : next.In source)

include hin hnext

theorem Parser.IsAtom.of_identifier {name : String}
    (hf : Token.Fills sw source (.identifier span name) cur.offset next.offset)
    (hn : Token.Normal sw source nested (.identifier span name)) :
    IsAtom sw cur (.identifier span name) next := by
  obtain ⟨rfl, hcovers⟩ := hf
  obtain ⟨hkind, hmaximal⟩ := hn
  rw [hnext.restAt_eq] at hmaximal
  have h : IsAtom sw _ _ _ := .identifier (hin.passes_to hnext hcovers) hkind hmaximal
  rwa [String.ofList_toList] at h

theorem Parser.IsAtom.of_operator {symbols : String}
    (hf : Token.Fills sw source (.operator span symbols) cur.offset next.offset)
    (hn : Token.Normal sw source nested (.operator span symbols)) :
    IsAtom sw cur (.operator span symbols) next := by
  obtain ⟨rfl, hcovers⟩ := hf
  rw [Token.Normal, hnext.restAt_eq] at hn
  have h := IsAtom.operator (hin.passes_to hnext hcovers) hn
  rwa [String.ofList_toList] at h

theorem Parser.IsAtom.of_number {value : Number}
    (hf : Token.Fills sw source (.number span value) cur.offset next.offset)
    (hn : Token.Normal sw source nested (.number span value)) :
    IsAtom sw cur (.number span value) next := by
  obtain ⟨rfl, numeral, hvalid, hcovers, hvalue⟩ := hf
  obtain ⟨hlongest, hminus⟩ := hn
  rw [hin.restAt_eq] at hlongest hminus
  have hp := hin.passes_list_to hnext hcovers
  have hpre : numeral.chars <+: cur.rest := ⟨next.rest, hp.rest_eq.symm⟩
  refine .number hp ⟨hvalid, hpre, ?_⟩ ?_ hvalue
  · intro m hm hmpre
    apply (width_le_iff_length_le hmpre hpre).1
    have hle := hlongest m hm hmpre
    rw [hp.offset_eq] at hle
    exact Nat.add_le_add_iff_left.1 hle
  · rw [hp.rest_eq] at hminus ⊢
    exact hvalid.startsOperator_head _ hminus

end Atom

theorem Command.eq_of_isBare {c : Command} (h : c.isBare = true) :
    c = ⟨c.span, c.phrase, c.phraseEnclosing, none, none⟩ := by
  obtain ⟨span, phrase, e, options, body⟩ := c
  obtain ⟨rfl, rfl⟩ : options = none ∧ body = none := by
    simpa [Command.isBare] using h
  rfl

/-- The phrase of a command and what continues it. -/
theorem Command.Stands.parts {nested : Bool} {c : Command} (hin : start.In source)
    (hswitch : start.Passes [sw.char] cur) (h : c.Stands sw source nested start next) :
    ∃ (place : Span) (after : Cursor), after.In source ∧
      Text.Fills source ⟨place, c.phrase, c.phraseEnclosing⟩ cur.offset after.offset ∧
      c.span = ⟨start.offset, next.offset⟩ ∧ c.phraseStop sw = after.offset ∧
      c.Formed sw source ∧ (c.isBare = true → after = next) ∧
      ((if c.phrase = "" then c.isBare = true else c.Attaches sw source) →
        c.Continues sw source nested after next) := by
  obtain ⟨hnext, hfills, hnormal⟩ := h
  obtain ⟨span, phrase, e, options, body⟩ := c
  obtain ⟨hspan, i, place, j, k, hcovers, hphrase, hoptions, hbody⟩ := hfills
  obtain ⟨hformed, hnoptions, hnbody⟩ := hnormal
  obtain rfl : span = ⟨start.offset, next.offset⟩ := hspan
  obtain ⟨cur', hp, -, rfl⟩ := hin.passes_switch hcovers
  obtain rfl := hp.right_unique hswitch
  obtain ⟨after, hafter, rfl⟩ := hphrase.1.2.exists_stop
  obtain ⟨hreaches, -⟩ := Group.sits_option options ⟨_, hafter.covers_ofList (.refl after)⟩ hoptions
  obtain ⟨mid, hmid, rfl⟩ := hreaches.covers_stop.exists_stop
  have hstop : Command.phraseStop sw ⟨⟨start.offset, next.offset⟩, phrase, e, options, body⟩ =
      after.offset :=
    Command.phraseStop_eq hcovers hphrase
  refine ⟨place, after, hafter, hphrase, rfl, hstop, hformed, ?_, ?_⟩
  · intro hbare
    obtain ⟨rfl, rfl⟩ : options = none ∧ body = none := by
      simpa [Command.isBare] using hbare
    obtain rfl := hafter.eq_of_offset hmid hoptions
    exact hafter.eq_of_offset hnext hbody
  · intro harguments
    refine ⟨hnext, mid, hmid, hoptions, hbody, hnoptions, hnbody, ?_⟩
    split at harguments
    · next hnil =>
      rw [if_pos hnil]
      exact harguments
    · next hne =>
      rw [if_neg hne]
      refine (Command.attaches_iff hafter hmid hstop ?_).1 harguments
      exact Command.optionsStop_eq (by rwa [hstop])

/-! ## One step of each reader -/

/-- What stands between two cursors is found by the readers under a bound. -/
structure Complete (sw : Switch) (source : String) (bound : Nat) : Prop where
  fragments_yields {scope : Scope} {cur next : Cursor} {fs : List Fragment} {stop : Nat}
    (hin : cur.In source) (hs : Fragment.StandAll sw source scope fs stop cur next)
    (h : 4 * cur.rest.length < bound) : Yields (fragments sw bound scope cur h) (fs, stop) next
  body_finds {nested : Bool} {cur next : Cursor} {body : Body} (hin : cur.In source)
    (hs : body.Stands sw source nested cur next) (h : 4 * cur.rest.length + 1 < bound) :
    Finds (body? sw bound nested cur h) body next
  expression_yields {nested : Bool} {start cur next : Cursor} {f : Fragment}
    (hin : start.In source) (hswitch : start.Passes [sw.char] cur)
    (hs : f.Follows sw source nested start cur next) (h : 4 * cur.rest.length + 2 < bound) :
    Yields (expression sw bound nested start.offset cur h) f next
  call_yields {nested : Bool} {cur next : Cursor} {c : Command} {phrase : List Char}
    (hin : cur.In source) (hs : c.Continues sw source nested cur next)
    (hstop : c.span.stop = next.offset) (hphrase : c.phrase = String.ofList phrase)
    (h : 4 * cur.rest.length + 3 < bound) :
    Yields (call sw bound nested c.span.start phrase c.phraseEnclosing cur h) c next
  group_finds {nested : Bool} {cur next : Cursor} {g : Group} (hin : cur.In source)
    (hs : g.Stands sw source nested cur next) (h : 4 * cur.rest.length + 1 < bound) :
    Finds (group? sw bound nested cur h) g next
  token_finds {nested : Bool} {cur next : Cursor} {t : Token} (hin : cur.In source)
    (hs : t.Stands sw source nested cur next) (h : 4 * cur.rest.length + 2 < bound) :
    Finds (token? sw bound nested cur h) t next
  tokens_yields {nested : Bool} {opener : Nat} {cur next : Cursor} {ts : List Token} {stop : Nat}
    (hin : cur.In source) (hs : Token.StandAll sw source nested ts stop cur next)
    (h : 4 * cur.rest.length + 3 < bound) :
    Yields (tokens sw bound nested opener cur h) (ts, stop) next

namespace Complete

variable {bound : Nat} {nested : Bool} (hc : Complete sw source bound)

include hc

theorem fragments_yields_step {scope : Scope} {fs : List Fragment} {stop : Nat}
    (hin : cur.In source) (hs : Fragment.StandAll sw source scope fs stop cur next)
    (h : 4 * cur.rest.length < bound + 1) :
    Yields (fragments sw (bound + 1) scope cur h) (fs, stop) next := by
  obtain ⟨last, rfl, hlast, hright, hend, htile, hnormal⟩ := hs
  obtain ⟨inner, mid, tail, rfl, hinner, hprose, htile, hnormal, hhead⟩ :=
    tile_split hin htile hnormal
  have hmid := hin.passes hinner
  refine fragments_yields_iff.2 ⟨inner, mid, hinner, hprose, ?_⟩
  cases tail with
  | nil =>
    obtain rfl := hmid.eq_of_offset hlast htile
    exact .inl ⟨hright, hend, List.append_nil _, rfl⟩
  | cons f tail =>
    obtain ⟨i, hf, htile⟩ := htile
    obtain ⟨hnf, -, hntail⟩ := hnormal
    obtain ⟨text, hcovers⟩ := (f.sits hf).reaches
    obtain ⟨after, hafter, rfl⟩ := hcovers.exists_stop
    obtain ⟨start, hswitch, hfollows⟩ := Fragment.exists_switch hmid hafter hf hnf (hhead f rfl)
    rw [scope.isSome_closing] at hfollows
    -- the switch was passed, so the bound allows for both readers
    have hstart := hswitch.length_lt (List.cons_ne_nil _ _)
    have hcur := hinner.length_le
    have hnode := hc.expression_yields hmid hswitch hfollows (by omega)
    have hlt := hnode.length_lt
    have hrest := hc.fragments_yields hafter ⟨last, rfl, hlast, hright, hend, htile, hntail⟩
      (by omega)
    exact .inr ⟨start, f, after, tail, hswitch, ⟨_, hnode⟩, ⟨_, hrest⟩, rfl⟩

theorem body_finds_step {body : Body} (hin : cur.In source)
    (hs : body.Stands sw source nested cur next) (h : 4 * cur.rest.length + 1 < bound + 1) :
    Finds (body? sw (bound + 1) nested cur h) body next := by
  apply body?_finds_iff.2
  cases body with
  | block block =>
    obtain ⟨fence, start, fs, stop, hd, hp, hstand, hpad, rfl⟩ :=
      (Block.stands_iff hin cur.offset).1 hs
    have hlt := hp.length_lt fence.left_ne_nil
    exact .inl ⟨fence, start, fs, stop, hd, hp,
      ⟨by omega, hc.fragments_yields (hin.passes hp) hstand _⟩, hpad, rfl⟩
  | text t =>
    obtain ⟨hnext, hfills, fence, hd, he, hn, hpad⟩ := hs
    obtain ⟨start, mid, hencloses, ht⟩ := Text.Fills.encloses hin hnext hfills he hn
    refine .inr ⟨fence, start, mid, t.inner.toList, hd, hencloses, ?_, ?_⟩
    · rw [ht] at hpad
      exact (Fence.balanced_restAt_iff hencloses.right hnext).1 hpad
    · rw [String.ofList_toList, ← ht]

theorem group_finds_step {g : Group} (hin : cur.In source)
    (hs : g.Stands sw source nested cur next) (h : 4 * cur.rest.length + 1 < bound + 1) :
    Finds (group? sw (bound + 1) nested cur h) g next := by
  obtain ⟨start, ts, stop, hp, hstand, rfl⟩ := (Group.stands_iff hin).1 hs
  have hlt := hp.length_lt (by decide)
  exact group?_finds_iff.2 ⟨start, ts, stop, hp,
    ⟨by omega, hc.tokens_yields (hin.passes hp) hstand _⟩, rfl⟩

theorem group_optionally {options : Option Group} (hin : cur.In source) (hnext : next.In source)
    (hfills : Group.FillsOption sw source options cur.offset next.offset)
    (hnormal : Group.NormalOption sw source nested options)
    (hbracket : options.isSome = true ↔ cur.rest.head? = some '[')
    (h : 4 * cur.rest.length + 1 < bound) :
    Optionally (group? sw bound nested cur h) options next := by
  cases options with
  | none =>
    obtain rfl := hin.eq_of_offset hnext hfills
    refine .inl ⟨group?_eq_none_iff.2 ?_, rfl, rfl⟩
    intro hopen
    simpa using hbracket.2 hopen
  | some g => exact .inr ⟨g, rfl, hc.group_finds hin ⟨hnext, hfills, hnormal⟩ h⟩

theorem body_optionally {body : Option Body} (hin : cur.In source) (hnext : next.In source)
    (hfills : Body.FillsOption sw source body cur.offset next.offset)
    (hnormal : Body.NormalOption sw source nested body)
    (hfence : body.isSome = true ↔ Opens .brace cur.rest ∨ Opens .quote cur.rest)
    (h : 4 * cur.rest.length + 1 < bound) :
    Optionally (body? sw bound nested cur h) body next := by
  cases body with
  | none =>
    obtain rfl := hin.eq_of_offset hnext hfills
    refine .inl ⟨body?_eq_none_iff.2 (not_or.1 ?_), rfl, rfl⟩
    intro hopens
    simpa using hfence.2 hopens
  | some b => exact .inr ⟨b, rfl, hc.body_finds hin ⟨hnext, hfills, hnormal⟩ h⟩

theorem call_yields_step {c : Command} {phrase : List Char} (hin : cur.In source)
    (hs : c.Continues sw source nested cur next) (hstop : c.span.stop = next.offset)
    (hphrase : c.phrase = String.ofList phrase) (h : 4 * cur.rest.length + 3 < bound + 1) :
    Yields (call sw (bound + 1) nested c.span.start phrase c.phraseEnclosing cur h) c next := by
  obtain ⟨hnext, mid, hmid, hoptions, hbody, hnoptions, hnbody, harguments⟩ := hs
  obtain ⟨⟨start, stop⟩, text, e, options, body⟩ := c
  obtain rfl : stop = next.offset := hstop
  obtain rfl : text = String.ofList phrase := hphrase
  apply call_yields_iff.2
  by_cases hnil : phrase = []
  · subst hnil
    rw [if_pos rfl] at harguments
    obtain ⟨rfl, rfl⟩ : options = none ∧ body = none := by
      simpa [Command.isBare] using harguments
    obtain rfl := hin.eq_of_offset hmid hoptions
    obtain rfl := hin.eq_of_offset hnext hbody
    exact .inl ⟨rfl, rfl, rfl⟩
  · rw [if_neg (by simpa using hnil)] at harguments
    obtain ⟨hbracket, hfence⟩ := harguments
    have ho := hc.group_optionally hin hmid hoptions hnoptions hbracket (by omega)
    have hle := ho.length_le
    have hb := hc.body_optionally hmid hnext hbody hnbody hfence (by omega)
    exact .inr ⟨hnil, options, mid, body, ⟨_, ho⟩, ⟨_, hb⟩, rfl⟩

theorem expression_yields_step {f : Fragment} (hin : start.In source)
    (hswitch : start.Passes [sw.char] cur) (hs : f.Follows sw source nested start cur next)
    (h : 4 * cur.rest.length + 2 < bound + 1) :
    Yields (expression sw (bound + 1) nested start.offset cur h) f next := by
  have hcur := hin.passes hswitch
  apply expression_yields_iff.2
  rcases hs with ⟨c, rfl, hnext, hfills, hnormal⟩ | ⟨body, rfl, hbody⟩
  · obtain ⟨place, after, hafter, hphrase, hspan, hstop, hformed, hbare, hcontinues⟩ :=
      Command.Stands.parts hin hswitch ⟨hnext, hfills, hnormal⟩
    have hcall : c.Continues sw source nested after next →
        after.rest.length < cur.rest.length → ∃ h,
          Yields (call sw bound nested start.offset c.phrase.toList c.phraseEnclosing after h) c
            next := by
      intro hcontinues hlt
      have hstart : c.span.start = start.offset := by rw [hspan]
      have hend : c.span.stop = next.offset := by rw [hspan]
      rw [← hstart]
      exact ⟨by omega, hc.call_yields hafter hcontinues hend String.ofList_toList.symm _⟩
    cases hformed with
    | identifier unfenced kind maximal attaches =>
      have hp : cur.Passes c.phrase.toList after :=
        Text.Fills.passes_of_unfenced hcur hafter hphrase unfenced
      have hne : c.phrase.toList ≠ [] := by
        obtain ⟨d, ds, hd, -⟩ := kind
        rw [hd]
        exact List.cons_ne_nil d ds
      have hcontinues := hcontinues (by rwa [if_neg (by simpa using hne)])
      rw [hstop, hafter.restAt_eq] at maximal
      have hy := hcall hcontinues (hp.length_lt hne)
      rw [unfenced] at hy
      exact .inl ⟨c.phrase.toList, after, c, hp, kind, maximal, hy, rfl⟩
    | bars fence delimiter fenced unbroken attaches =>
      obtain ⟨inner, mid, hencloses, -⟩ :=
        Text.Fills.encloses hcur hafter hphrase fenced unbroken
      have hlt := hencloses.left.length_lt fence.left_ne_nil
      have hle := (hencloses.middle.trans hencloses.right).length_le
      have hy := hcall (hcontinues attaches) (Nat.lt_of_le_of_lt hle hlt)
      rw [fenced] at hy
      exact .inr (.inl ⟨fence, inner, mid, after, c.phrase.toList, c, delimiter, hencloses, hy,
        rfl⟩)
    | symbol d unfenced phrase_eq kind head opens bare =>
      have hp : cur.Passes c.phrase.toList after :=
        Text.Fills.passes_of_unfenced hcur hafter hphrase unfenced
      -- the command takes nothing, so it ends with its phrase
      obtain rfl := hbare bare
      have hoffset : c.span.start + sw.size = cur.offset := by
        rw [hspan]
        exact hswitch.offset_switch
      rw [hoffset, hcur.restAt_eq] at head opens
      rw [phrase_eq, String.toList_singleton] at hp
      refine .inr (.inr (.inr ⟨d, hp, head d ?_, kind, opens, ?_⟩))
      · rw [hp.rest_eq]
        rfl
      · rw [Command.eq_of_isBare bare, hspan, phrase_eq, unfenced, String.singleton_eq_ofList]
  · exact .inr (.inr (.inl ⟨body, ⟨by omega, hc.body_finds hcur hbody _⟩, rfl⟩))

/-- A body is a token, with or without a switch before it. -/
theorem token_body {body : Body} {i : Nat} (hin : cur.In source)
    (hi : i = cur.offset ∨ Covers source cur.offset i sw.text)
    (hb : ∀ mid : Cursor, mid.offset = i → body.Stands sw source nested mid next)
    (h : 4 * cur.rest.length + 2 < bound + 1) :
    (∃ b, (∃ h, Finds (body? sw bound nested cur h) b next) ∧ body.toToken = b.toToken) ∨
      (∃ start f, cur.Passes [sw.char] start ∧
        (∃ h, Yields (expression sw bound nested cur.offset start h) f next) ∧
        body.toToken = f.toToken) ∨
      ∃ g, (∃ h, Finds (group? sw bound nested cur h) g next) ∧ body.toToken = .group g := by
  rcases hi with rfl | hswitch
  · exact .inl ⟨body, ⟨by omega, hc.body_finds hin (hb cur rfl) _⟩, rfl⟩
  · obtain ⟨start, hp, -, rfl⟩ := hin.passes_switch hswitch
    have hlt := hp.length_lt (List.cons_ne_nil _ _)
    refine .inr (.inl ⟨start, body.toFragment, hp, ⟨by omega, ?_⟩, ?_⟩)
    · exact hc.expression_yields hin hp (.inr ⟨body, rfl, hb start rfl⟩) _
    · exact body.toToken_toFragment.symm

theorem token_finds_step {t : Token} (hin : cur.In source)
    (hs : t.Stands sw source nested cur next) (h : 4 * cur.rest.length + 2 < bound + 1) :
    Finds (token? sw (bound + 1) nested cur h) t next := by
  obtain ⟨hnext, hfills, hnormal⟩ := hs
  apply token?_finds_iff.2
  cases t with
  | identifier span name => exact .inl (Parser.IsAtom.of_identifier hin hnext hfills hnormal)
  | operator span symbols => exact .inl (Parser.IsAtom.of_operator hin hnext hfills hnormal)
  | number span value => exact .inl (Parser.IsAtom.of_number hin hnext hfills hnormal)
  | group g =>
    exact .inr (.inr (.inr ⟨g, ⟨by omega, hc.group_finds hin ⟨hnext, hfills, hnormal⟩ _⟩, rfl⟩))
  | block block =>
    obtain ⟨i, hi, hfills⟩ := hfills
    have hb : ∀ cur : Cursor, cur.offset = i →
        Body.Stands sw source nested (.block block) cur next := by
      rintro cur rfl
      exact ⟨hnext, hfills, hnormal⟩
    exact .inr (hc.token_body hin hi hb h)
  | text t =>
    obtain ⟨i, hi, hfills⟩ := hfills
    have hb : ∀ cur : Cursor, cur.offset = i →
        Body.Stands sw source nested (.text t) cur next := by
      rintro cur rfl
      exact ⟨hnext, hfills, hnormal⟩
    exact .inr (hc.token_body hin hi hb h)
  | command c =>
    obtain ⟨start, hp, -⟩ := Command.exists_switch hin hfills
    have hlt := hp.length_lt (List.cons_ne_nil _ _)
    exact .inr (.inr (.inl ⟨start, .command c, hp, ⟨by omega,
      hc.expression_yields hin hp (.inl ⟨c, rfl, hnext, hfills, hnormal⟩) _⟩, rfl⟩))

theorem tokens_yields_step {opener : Nat} {ts : List Token} {stop : Nat} (hin : cur.In source)
    (hs : Token.StandAll sw source nested ts stop cur next)
    (h : 4 * cur.rest.length + 3 < bound + 1) :
    Yields (tokens sw (bound + 1) nested opener cur h) (ts, stop) next := by
  obtain ⟨last, rfl, hlast, hclose, hspread, hnormal⟩ := hs
  apply tokens_yields_iff.2
  cases ts with
  | nil =>
    obtain ⟨text, hcovers, hblank⟩ := hspread
    exact ⟨text.toList, last, hin.passes_to hlast hcovers, hblank, .inl ⟨hclose, rfl, rfl⟩⟩
  | cons t ts =>
    obtain ⟨i, j, ⟨text, hcovers, hblank⟩, ht, hspread⟩ := hspread
    obtain ⟨hnt, hnts⟩ := hnormal
    obtain ⟨mid, hp, hmid, rfl⟩ := hin.passes_of_covers hcovers
    obtain ⟨_, hreaches⟩ := (t.sits ht).reaches
    obtain ⟨after, hafter, rfl⟩ := hreaches.exists_stop
    have hle := hp.length_le
    have hf := hc.token_finds hmid ⟨hafter, ht, hnt⟩ (by omega)
    have hlt := hf.length_lt
    have hstand : Token.StandAll sw source nested ts last.offset after next :=
      ⟨last, rfl, hlast, hclose, hspread, hnts⟩
    exact ⟨text.toList, mid, hp, hblank, .inr ⟨t, after, ts, ⟨_, hf⟩,
      ⟨by omega, hc.tokens_yields hafter hstand _⟩, rfl⟩⟩

end Complete

/-- What stands between two cursors is found, whatever the bound. -/
theorem complete (sw : Switch) (source : String) (bound : Nat) : Complete sw source bound := by
  induction bound with
  | zero =>
    -- no text is short enough for a bound of zero
    constructor <;> intros <;> omega
  | succ bound ih =>
    exact
      { fragments_yields := ih.fragments_yields_step
        body_finds := ih.body_finds_step
        expression_yields := ih.expression_yields_step
        call_yields := ih.call_yields_step
        group_finds := ih.group_finds_step
        token_finds := ih.token_finds_step
        tokens_yields := ih.tokens_yields_step }

/-! ## Parsed trees -/

theorem parse_of_laidOut {tree : Block} (hl : tree.LaidOut sw source)
    (hn : tree.InNormalForm sw source) : parse sw source = .ok tree := by
  obtain ⟨span, children, enclosing⟩ := tree
  obtain ⟨rfl, rfl, htile⟩ := hl
  have hstart := Cursor.start_in source
  have hpass := Cursor.start_passes source
  have hstand : Fragment.StandAll sw source .document children source.utf8ByteSize
      (Cursor.start source) ⟨source.utf8ByteSize, []⟩ :=
    ⟨_, rfl, hstart.passes hpass, .refl _, fun _ => rfl, htile, hn⟩
  exact parse_eq_ok_iff.2 ⟨children, _, _, Nat.lt_succ_self _,
    (complete sw source _).fragments_yields hstart hstand _, rfl⟩

/-- A source is parsed to the tree that is laid out over it and in normal form. -/
theorem parse_eq_ok_iff_laidOut {tree : Block} :
    parse sw source = .ok tree ↔ tree.LaidOut sw source ∧ tree.InNormalForm sw source := by
  constructor
  · intro h
    obtain ⟨hspan, henclosing, htile, hnormal⟩ := standAll_of_parse h
    exact ⟨⟨hspan, henclosing, htile⟩, hnormal⟩
  · rintro ⟨hl, hn⟩
    exact parse_of_laidOut hl hn

/-- A tree that is laid out over a source and in normal form is what the source is parsed to, and
no other tree is. -/
theorem parse_complete {tree : Block} (hl : tree.LaidOut sw source)
    (hn : tree.InNormalForm sw source) :
    parse sw source = .ok tree ∧
      ∀ other : Block, other.LaidOut sw source → other.InNormalForm sw source → other = tree := by
  have htree := parse_of_laidOut hl hn
  refine ⟨htree, fun other hl' hn' => ?_⟩
  have hother := parse_of_laidOut hl' hn'
  rw [htree] at hother
  exact (Except.ok.inj hother).symm

/-- The tree of prose and a command with quoted text. -/
def quotedTree : Block :=
  ⟨⟨0, 7⟩,
    [.text ⟨⟨0, 2⟩, "é", .unfenced⟩,
      .command ⟨⟨2, 7⟩, "a", .unfenced, none, some (.text ⟨⟨5, 6⟩, "b", ⟨"\"", "\""⟩⟩)⟩],
    .unfenced⟩

theorem quotedTree_laidOut : quotedTree.LaidOut .standard "é@a\"b\"" := by
  have hcovers : ∀ a b text, Span.slice? ⟨a, b⟩ "é@a\"b\"" = some text →
      Covers "é@a\"b\"" a b text := fun _ _ _ h => h
  have hprose : Fragment.Fills .standard "é@a\"b\"" (.text ⟨⟨0, 2⟩, "é", .unfenced⟩) 0 2 :=
    ⟨rfl, hcovers _ _ _ (by decide)⟩
  have hphrase : Text.Fills "é@a\"b\"" ⟨⟨3, 4⟩, "a", .unfenced⟩ 3 4 :=
    ⟨⟨hcovers _ _ _ (by decide), hcovers _ _ _ (by decide)⟩, hcovers _ _ _ (by decide)⟩
  have hquoted : Text.Fills "é@a\"b\"" ⟨⟨5, 6⟩, "b", ⟨"\"", "\""⟩⟩ 4 7 :=
    ⟨⟨hcovers _ _ _ (by decide), hcovers _ _ _ (by decide)⟩, hcovers _ _ _ (by decide)⟩
  refine ⟨rfl, rfl, 2, hprose, 7, ?_, rfl⟩
  exact ⟨rfl, 3, ⟨3, 4⟩, 4, 4, hcovers _ _ _ (by decide), hphrase, rfl, hquoted⟩

theorem quotedTree_inNormalForm : quotedTree.InNormalForm .standard "é@a\"b\"" := by
  have hprose : Fragment.Normal .standard "é@a\"b\"" none (.text ⟨⟨0, 2⟩, "é", .unfenced⟩) :=
    ⟨rfl, by decide, by decide, by simp⟩
  have hquoted : Text.IsQuoted "é@a\"b\"" false ⟨⟨5, 6⟩, "b", ⟨"\"", "\""⟩⟩ := by
    refine ⟨⟨.quote, 0⟩, rfl, by decide, by decide, ?_⟩
    intro _ hpadded
    exact absurd hpadded (by decide)
  have hformed : Command.Formed .standard "é@a\"b\"" ⟨⟨2, 7⟩, "a", .unfenced, none,
      some (.text ⟨⟨5, 6⟩, "b", ⟨"\"", "\""⟩⟩)⟩ := by
    have hhead : (restAt "é@a\"b\"" 4).head? = some '"' := by decide
    have hmaximal : ∀ d ∈ (restAt "é@a\"b\"" 4).head?, Charset.isIdContinue d = false := by
      intro d hd
      obtain rfl : '"' = d := Option.some.inj (hhead.symm.trans hd)
      decide
    refine .identifier rfl ⟨'a', [], rfl, by decide, by simp⟩ hmaximal ⟨by decide, ?_⟩
    have hopens : Opens .quote (restAt "é@a\"b\"" 4) := ⟨⟨.quote, 0⟩, rfl, by decide⟩
    exact ⟨fun _ => .inr hopens, fun _ => rfl⟩
  exact ⟨hprose, by simp [Fragment.isProse], ⟨hformed, trivial, hquoted⟩, by simp, trivial⟩

theorem parse_complete_quotedTree :
    parse .standard "é@a\"b\"" = .ok quotedTree ∧
      ∀ other : Block, other.LaidOut .standard "é@a\"b\"" →
        other.InNormalForm .standard "é@a\"b\"" → other = quotedTree :=
  parse_complete quotedTree_laidOut quotedTree_inNormalForm

end Prosemark
