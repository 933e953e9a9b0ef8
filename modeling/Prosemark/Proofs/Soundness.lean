import Prosemark.Proofs.NormalForm
import Prosemark.Proofs.Rules
import Prosemark.Proofs.SpanCheck

/-!
# Parsed trees are laid out and in normal form

One step lemma for each reader says that what it yields fills the source between the cursors and is
in normal form, provided that this holds of the readers it calls (`Sound`). Induction on the bound
gives both properties for every parsed tree.
-/

namespace Prosemark

open Prosemark.Parser

variable {sw : Switch} {source : String} {cur start mid next : Cursor}

/-! ## Texts -/

theorem Cursor.In.covers_switch (h : cur.In source) (hp : cur.Passes [sw.char] next) :
    Covers source cur.offset next.offset sw.text := by
  rw [Switch.text, String.singleton_eq_ofList]
  exact h.covers_ofList hp

theorem Fence.isUnfenced_enclosing (fence : Fence) : fence.enclosing.isUnfenced = false := by
  obtain ⟨c, cs, hleft, -⟩ := fence.left_eq_cons
  simp [Enclosing.isUnfenced, Fence.enclosing, hleft]

theorem fills_unfenced {inner : List Char} (hin : cur.In source) (hp : cur.Passes inner next) :
    Text.Fills source ⟨⟨cur.offset, next.offset⟩, String.ofList inner, .unfenced⟩ cur.offset
      next.offset := by
  refine ⟨⟨?_, ?_⟩, hin.covers_ofList hp⟩
  · exact hin.covers_ofList (.refl cur)
  · exact (hin.passes hp).covers_ofList (.refl next)

section Encloses

variable {fence : Fence} {inner : List Char} (h : fence.Encloses cur start inner mid next)

include h

theorem Fence.Encloses.next_in (hin : cur.In source) : next.In source :=
  ((hin.passes h.left).passes h.middle).passes h.right

theorem Fence.Encloses.fills (hin : cur.In source) :
    Text.Fills source ⟨⟨start.offset, mid.offset⟩, String.ofList inner, fence.enclosing⟩
      cur.offset next.offset := by
  have hstart := hin.passes h.left
  have hmid := hstart.passes h.middle
  exact ⟨⟨hin.covers_ofList h.left, hmid.covers_ofList h.right⟩, hstart.covers_ofList h.middle⟩

theorem Fence.Encloses.isQuoted {nested : Bool} (hin : cur.In source)
    (hd : fence.delimiter = .quote) (hpad : fence.Balanced nested next.rest) :
    Text.IsQuoted source nested
      ⟨⟨start.offset, mid.offset⟩, String.ofList inner, fence.enclosing⟩ := by
  refine ⟨fence, hd, rfl, ?_, ?_⟩
  · rw [String.toList_ofList]
    exact h.unbroken
  · exact (Fence.balanced_restAt_iff h.right (h.next_in hin)).2 hpad

end Encloses

/-! ## Prose -/

section Prose

variable {closing : Option Fence} {inner : List Char} {fs : List Fragment} {stop : Nat}

theorem tile_prose_append (hin : cur.In source) (hp : cur.Passes inner mid)
    (h : Fragment.Tile sw source fs mid.offset stop) :
    Fragment.Tile sw source (prose cur.offset inner ++ fs) cur.offset stop := by
  cases inner with
  | nil =>
    obtain rfl := hp.right_unique (.refl cur)
    exact h
  | cons c cs =>
    refine ⟨mid.offset, ?_, h⟩
    refine ⟨?_, ?_⟩
    · rw [hp.offset_eq]
    · exact hin.covers_ofList hp

theorem normalAll_prose_append (hprose : IsProse sw closing inner)
    (h : Fragment.NormalAll sw source closing fs) (hfs : ∀ g ∈ fs.head?, g.isProse = false) :
    Fragment.NormalAll sw source closing (prose cur.offset inner ++ fs) := by
  cases inner with
  | nil => exact h
  | cons c cs =>
    refine ⟨⟨rfl, ?_, ?_⟩, fun _ => hfs, h⟩
    · simp
    · rwa [String.toList_ofList]

end Prose

/-! ## Fragments and tokens of bodies and commands -/

section Body

variable {nested : Bool} {body : Body} {c : Command} {a b i : Nat}

theorem Body.fills_toFragment (hswitch : Covers source a i sw.text)
    (h : body.Fills sw source i b) (hn : body.Normal sw source nested) :
    body.toFragment.Fills sw source a b := by
  cases body with
  | block block => exact ⟨i, hswitch, h⟩
  | text t =>
    obtain ⟨fence, -, he, -⟩ := hn
    simp only [toFragment, Fragment.Fills, Text.isProse, he, fence.isUnfenced_enclosing]
    exact ⟨i, hswitch, h⟩

theorem Body.isProse_toFragment (hn : body.Normal sw source nested) :
    body.toFragment.isProse = false := by
  cases body with
  | block block => rfl
  | text t =>
    obtain ⟨fence, -, he, -⟩ := hn
    simp only [toFragment, Fragment.isProse, Text.isProse, he, fence.isUnfenced_enclosing]

theorem Body.normal_toFragment {closing : Option Fence}
    (hn : body.Normal sw source closing.isSome) :
    body.toFragment.Normal sw source closing := by
  cases body with
  | block block => exact hn
  | text t =>
    obtain ⟨fence, -, he, -⟩ := id hn
    simp only [toFragment, Fragment.Normal, Text.isProse, he, fence.isUnfenced_enclosing]
    exact hn

theorem Body.fills_toToken (hswitch : i = a ∨ Covers source a i sw.text)
    (h : body.Fills sw source i b) : body.toToken.Fills sw source a b := by
  cases body with
  | block block => exact ⟨i, hswitch, h⟩
  | text t => exact ⟨i, hswitch, h⟩

theorem Body.normal_toToken (hn : body.Normal sw source nested) :
    body.toToken.Normal sw source nested := by
  cases body with
  | block block => exact hn
  | text t => exact hn

end Body

/-! ## Commands -/

/-- A command stands where its phrase is what it may be and what follows the phrase continues
it. -/
theorem Command.Continues.stands {nested : Bool} {after : Cursor} {c : Command} {place : Span}
    (hin : start.In source) (hswitch : start.Passes [sw.char] cur)
    (hspan : c.span = ⟨start.offset, next.offset⟩)
    (hphrase : Text.Fills source ⟨place, c.phrase, c.phraseEnclosing⟩ cur.offset after.offset)
    (hafter : after.In source) (hc : c.Continues sw source nested after next)
    (hformed : c.phraseStop sw = after.offset →
      (c.phrase ≠ "" → c.Attaches sw source) → (c.phrase = "" → c.isBare = true) →
        c.Formed sw source) :
    c.Stands sw source nested start next := by
  obtain ⟨hnext, mid, hmid, hoptions, hbody, hnoptions, hnbody, harguments⟩ := hc
  have hcovers := hin.covers_switch hswitch
  have hstart : c.span.start = start.offset := by rw [hspan]
  have hstop : c.phraseStop sw = after.offset :=
    Command.phraseStop_eq (by rwa [hstart]) hphrase
  have hformed : c.Formed sw source := by
    refine hformed hstop ?_ ?_
    · intro hne
      rw [if_neg hne] at harguments
      refine (Command.attaches_iff hafter hmid hstop ?_).2 harguments
      exact Command.optionsStop_eq (by rwa [hstop])
    · intro hnil
      rwa [if_pos hnil] at harguments
  obtain ⟨span, phrase, e, options, body⟩ := c
  exact ⟨hnext, ⟨hspan, cur.offset, place, after.offset, mid.offset, hcovers, hphrase, hoptions,
    hbody⟩, hformed, hnoptions, hnbody⟩

/-! ## Tokens -/

theorem Body.toToken_toFragment (body : Body) : body.toFragment.toToken = body.toToken := by
  cases body <;> rfl

theorem Cursor.In.blank {blanks : List Char} (hin : cur.In source) (hp : cur.Passes blanks next)
    (hblanks : ∀ c ∈ blanks, Charset.isBlank c = true) : Blank source cur.offset next.offset :=
  ⟨String.ofList blanks, hin.covers_ofList hp, by rwa [String.toList_ofList]⟩

theorem Parser.IsAtom.stands {nested : Bool} {t : Token} (hin : cur.In source)
    (h : IsAtom sw cur t next) : t.Stands sw source nested cur next := by
  cases h with
  | identifier pass kind maximal =>
    have hnext := hin.passes pass
    refine ⟨hnext, ⟨rfl, hin.covers_ofList pass⟩, ?_, ?_⟩
    · rwa [String.toList_ofList]
    · rwa [hnext.restAt_eq]
  | operator pass kind =>
    have hnext := hin.passes pass
    refine ⟨hnext, ⟨rfl, hin.covers_ofList pass⟩, ?_⟩
    rw [Token.Normal, String.toList_ofList, hnext.restAt_eq]
    exact kind
  | @number numeral _ _ pass longest head represents =>
    have hnext := hin.passes pass
    refine ⟨hnext, ⟨rfl, numeral, longest.1, hin.covers_ofList pass, represents⟩, ?_, ?_⟩
    · intro m hm hpre
      rw [hin.restAt_eq] at hpre
      have hle := (width_le_iff_length_le hpre longest.2.1).2 (longest.2.2 m hm hpre)
      rw [pass.offset_eq]
      exact Nat.add_le_add_left hle _
    · intro hminus
      rw [hin.restAt_eq] at hminus
      exact Lexeme.startsOperator_minus_eq_false_iff.1 (head _ hminus)

/-! ## One step of each reader -/

/-- What the readers find under a bound stands between the cursors. -/
structure Sound (sw : Switch) (source : String) (bound : Nat) : Prop where
  fragments_stand {scope : Scope} {cur next : Cursor} {h : 4 * cur.rest.length < bound}
    {fs : List Fragment} {stop : Nat} (hin : cur.In source)
    (hy : Yields (fragments sw bound scope cur h) (fs, stop) next) :
    Fragment.StandAll sw source scope fs stop cur next
  body_stands {nested : Bool} {cur next : Cursor} {h : 4 * cur.rest.length + 1 < bound}
    {body : Body} (hin : cur.In source) (hf : Finds (body? sw bound nested cur h) body next) :
    body.Stands sw source nested cur next
  expression_follows {nested : Bool} {start cur next : Cursor} {h : 4 * cur.rest.length + 2 < bound}
    {f : Fragment} (hin : start.In source) (hs : start.Passes [sw.char] cur)
    (hy : Yields (expression sw bound nested start.offset cur h) f next) :
    f.Follows sw source nested start cur next
  call_continues {nested : Bool} {start : Nat} {phrase : List Char} {e : Enclosing}
    {cur next : Cursor} {h : 4 * cur.rest.length + 3 < bound} {c : Command} (hin : cur.In source)
    (hy : Yields (call sw bound nested start phrase e cur h) c next) :
    c.span = ⟨start, next.offset⟩ ∧ c.phrase = String.ofList phrase ∧ c.phraseEnclosing = e ∧
      c.Continues sw source nested cur next
  group_stands {nested : Bool} {cur next : Cursor} {h : 4 * cur.rest.length + 1 < bound} {g : Group}
    (hin : cur.In source) (hf : Finds (group? sw bound nested cur h) g next) :
    g.Stands sw source nested cur next
  token_stands {nested : Bool} {cur next : Cursor} {h : 4 * cur.rest.length + 2 < bound} {t : Token}
    (hin : cur.In source) (hf : Finds (token? sw bound nested cur h) t next) :
    t.Stands sw source nested cur next
  tokens_stand {nested : Bool} {opener : Nat} {cur next : Cursor}
    {h : 4 * cur.rest.length + 3 < bound} {ts : List Token} {stop : Nat} (hin : cur.In source)
    (hy : Yields (tokens sw bound nested opener cur h) (ts, stop) next) :
    Token.StandAll sw source nested ts stop cur next

namespace Sound

variable {bound : Nat} {nested : Bool} (hs : Sound sw source bound)

include hs

theorem fragments_stand_step {scope : Scope} {h : 4 * cur.rest.length < bound + 1}
    {fs : List Fragment} {stop : Nat} (hin : cur.In source)
    (hy : Yields (fragments sw (bound + 1) scope cur h) (fs, stop) next) :
    Fragment.StandAll sw source scope fs stop cur next := by
  obtain ⟨inner, mid, hinner, hprose, ⟨hright, hend, rfl, rfl⟩ |
    ⟨start, f, after, tail, hswitch, ⟨_, hf⟩, ⟨_, htail⟩, rfl⟩⟩ := fragments_yields_iff.1 hy
  · refine ⟨mid, rfl, hin.passes hinner, hright, hend, ?_, ?_⟩
    · rw [← List.append_nil (prose cur.offset inner)]
      exact tile_prose_append hin hinner rfl
    · rw [← List.append_nil (prose cur.offset inner)]
      exact normalAll_prose_append hprose trivial (by simp)
  · have hmid := hin.passes hinner
    have hnode : after.In source ∧ f.Fills sw source mid.offset after.offset ∧
        f.Normal sw source scope.closing ∧ f.isProse = false := by
      have hf := hs.expression_follows hmid hswitch hf
      rw [← scope.isSome_closing] at hf
      rcases hf with ⟨c, rfl, hafter, hfills, hnormal⟩ | ⟨body, rfl, hafter, hfills, hnormal⟩
      · exact ⟨hafter, hfills, hnormal, rfl⟩
      · exact ⟨hafter, Body.fills_toFragment (hmid.covers_switch hswitch) hfills hnormal,
          Body.normal_toFragment hnormal, Body.isProse_toFragment hnormal⟩
    obtain ⟨hafter, hfills, hnormal, hproseless⟩ := hnode
    obtain ⟨last, hlast, hlastin, hright, hend, htile, hnormals⟩ := hs.fragments_stand hafter htail
    refine ⟨last, hlast, hlastin, hright, hend, ?_, ?_⟩
    · exact tile_prose_append hin hinner ⟨after.offset, hfills, htile⟩
    · refine normalAll_prose_append hprose ⟨hnormal, ?_, hnormals⟩ ?_
      · simp [hproseless]
      · rintro _ ⟨⟩
        exact hproseless

theorem body_stands_step {h : 4 * cur.rest.length + 1 < bound + 1} {body : Body}
    (hin : cur.In source) (hf : Finds (body? sw (bound + 1) nested cur h) body next) :
    body.Stands sw source nested cur next := by
  rcases body?_finds_iff.1 hf with ⟨fence, start, fs, stop, hd, hleft, ⟨_, hy⟩, hpad, rfl⟩ |
    ⟨fence, start, mid, inner, hd, hencloses, hpad, rfl⟩
  · have hstand := hs.fragments_stand (hin.passes hleft) hy
    exact (Block.stands_iff hin cur.offset).2 ⟨fence, start, fs, stop, hd, hleft, hstand, hpad, rfl⟩
  · exact ⟨hencloses.next_in hin, hencloses.fills hin, hencloses.isQuoted hin hd hpad⟩

theorem group_stands_step {h : 4 * cur.rest.length + 1 < bound + 1} {g : Group}
    (hin : cur.In source) (hf : Finds (group? sw (bound + 1) nested cur h) g next) :
    g.Stands sw source nested cur next := by
  obtain ⟨start, ts, stop, hopen, ⟨_, hy⟩, rfl⟩ := group?_finds_iff.1 hf
  have hstand := hs.tokens_stand (hin.passes hopen) hy
  exact (Group.stands_iff hin).2 ⟨start, ts, stop, hopen, hstand, rfl⟩

theorem group_stands_optional {h : 4 * cur.rest.length + 1 < bound} {options : Option Group}
    (hin : cur.In source) (ho : Optionally (group? sw bound nested cur h) options next) :
    next.In source ∧ Group.FillsOption sw source options cur.offset next.offset ∧
      Group.NormalOption sw source nested options ∧
      (options.isSome = true ↔ cur.rest.head? = some '[') := by
  rcases ho with ⟨hnone, rfl, rfl⟩ | ⟨g, rfl, hf⟩
  · rw [group?_eq_none_iff] at hnone
    exact ⟨hin, rfl, trivial, by simp [hnone]⟩
  · obtain ⟨hnext, hfills, hnormal⟩ := hs.group_stands hin hf
    exact ⟨hnext, hfills, hnormal, by simp [hf.bracket]⟩

theorem body_stands_optional {h : 4 * cur.rest.length + 1 < bound} {body : Option Body}
    (hin : cur.In source) (ho : Optionally (body? sw bound nested cur h) body next) :
    next.In source ∧ Body.FillsOption sw source body cur.offset next.offset ∧
      Body.NormalOption sw source nested body ∧
      (body.isSome = true ↔ Opens .brace cur.rest ∨ Opens .quote cur.rest) := by
  rcases ho with ⟨hnone, rfl, rfl⟩ | ⟨b, rfl, hf⟩
  · rw [body?_eq_none_iff] at hnone
    exact ⟨hin, rfl, trivial, by simp [hnone]⟩
  · obtain ⟨hnext, hfills, hnormal⟩ := hs.body_stands hin hf
    refine ⟨hnext, hfills, hnormal, ?_⟩
    obtain ⟨d, hd, hopens⟩ := hf.opens
    cases d with
    | brace => simp [hopens]
    | quote => simp [hopens]
    | bar => exact absurd rfl hd

theorem call_continues_step {start : Nat} {phrase : List Char} {e : Enclosing}
    {h : 4 * cur.rest.length + 3 < bound + 1} {c : Command} (hin : cur.In source)
    (hy : Yields (call sw (bound + 1) nested start phrase e cur h) c next) :
    c.span = ⟨start, next.offset⟩ ∧ c.phrase = String.ofList phrase ∧ c.phraseEnclosing = e ∧
      c.Continues sw source nested cur next := by
  rcases call_yields_iff.1 hy with ⟨rfl, rfl, rfl⟩ |
    ⟨hne, options, mid, body, ⟨_, hoptions⟩, ⟨_, hbody⟩, rfl⟩
  · exact ⟨rfl, rfl, rfl, hin, next, hin, rfl, rfl, trivial, trivial, rfl⟩
  · obtain ⟨hmid, hfills, hnormal, hbracket⟩ := hs.group_stands_optional hin hoptions
    obtain ⟨hnext, hfills', hnormal', hfence⟩ := hs.body_stands_optional hmid hbody
    refine ⟨rfl, rfl, rfl, hnext, mid, hmid, hfills, hfills', hnormal, hnormal', ?_⟩
    rw [if_neg (by simpa using hne)]
    exact ⟨hbracket, hfence⟩

theorem expression_follows_step {h : 4 * cur.rest.length + 2 < bound + 1} {f : Fragment}
    (hin : start.In source) (hswitch : start.Passes [sw.char] cur)
    (hy : Yields (expression sw (bound + 1) nested start.offset cur h) f next) :
    f.Follows sw source nested start cur next := by
  have hcur := hin.passes hswitch
  rcases expression_yields_iff.1 hy with
    ⟨phrase, after, c, hphrase, hid, hmaximal, ⟨_, hc⟩, rfl⟩ |
    ⟨fence, inner, mid, after, phrase, c, hd, hencloses, ⟨_, hc⟩, rfl⟩ | ⟨body, ⟨_, hb⟩, rfl⟩ |
    ⟨c, hc, hid, hsymbol, hopens, rfl⟩
  · have hafter := hcur.passes hphrase
    obtain ⟨hspan, hcphrase, he, hcontinues⟩ := hs.call_continues hafter hc
    have hfills := fills_unfenced hcur hphrase
    rw [← hcphrase, ← he] at hfills
    refine .inl ⟨c, rfl, hcontinues.stands hin hswitch hspan hfills hafter ?_⟩
    intro hstop hattaches hbare
    refine .identifier he ?_ ?_ (hattaches ?_)
    · rwa [hcphrase, String.toList_ofList]
    · rwa [hstop, hafter.restAt_eq]
    · obtain ⟨d, ds, rfl, -⟩ := hid
      simp [hcphrase]
  · have hafter := hencloses.next_in hcur
    obtain ⟨hspan, hcphrase, he, hcontinues⟩ := hs.call_continues hafter hc
    have hfills := hencloses.fills hcur
    rw [← hcphrase, ← he] at hfills
    refine .inl ⟨c, rfl, hcontinues.stands hin hswitch hspan hfills hafter ?_⟩
    intro hstop hattaches hbare
    refine .bars fence hd he ?_ ?_
    · rw [hcphrase, String.toList_ofList]
      exact hencloses.unbroken
    · split
      · next hnil => exact hbare hnil
      · next hne => exact hattaches hne
  · exact .inr ⟨body, rfl, hs.body_stands hcur hb⟩
  · have hnext := hcur.passes hc
    refine .inl ⟨_, rfl, hnext, ?_, ?_, trivial, trivial⟩
    · exact ⟨rfl, cur.offset, _, next.offset, next.offset, hin.covers_switch hswitch,
        fills_unfenced hcur hc, rfl, rfl⟩
    · refine .symbol c rfl ?_ hsymbol ?_ ?_ rfl
      · rw [String.singleton_eq_ofList]
      · rw [hswitch.offset_switch, hcur.restAt_eq, hc.rest_eq]
        rintro _ ⟨⟩
        exact hid
      · rw [hswitch.offset_switch, hcur.restAt_eq]
        exact hopens

theorem token_stands_step {h : 4 * cur.rest.length + 2 < bound + 1} {t : Token}
    (hin : cur.In source) (hf : Finds (token? sw (bound + 1) nested cur h) t next) :
    t.Stands sw source nested cur next := by
  rcases token?_finds_iff.1 hf with hatom | ⟨body, ⟨_, hb⟩, rfl⟩ |
    ⟨start, f, hswitch, ⟨_, hy⟩, rfl⟩ | ⟨g, ⟨_, hg⟩, rfl⟩
  · exact hatom.stands hin
  · obtain ⟨hnext, hfills, hnormal⟩ := hs.body_stands hin hb
    exact ⟨hnext, Body.fills_toToken (.inl rfl) hfills, Body.normal_toToken hnormal⟩
  · rcases hs.expression_follows hin hswitch hy with ⟨c, rfl, hnext, hfills, hnormal⟩ |
      ⟨body, rfl, hnext, hfills, hnormal⟩
    · exact ⟨hnext, hfills, hnormal⟩
    · rw [Body.toToken_toFragment]
      exact ⟨hnext, Body.fills_toToken (.inr (hin.covers_switch hswitch)) hfills,
        Body.normal_toToken hnormal⟩
  · exact hs.group_stands hin hg

theorem tokens_stand_step {opener : Nat} {h : 4 * cur.rest.length + 3 < bound + 1}
    {ts : List Token} {stop : Nat} (hin : cur.In source)
    (hy : Yields (tokens sw (bound + 1) nested opener cur h) (ts, stop) next) :
    Token.StandAll sw source nested ts stop cur next := by
  obtain ⟨blanks, mid, hblanks, hblank, ⟨hclose, rfl, rfl⟩ |
    ⟨t, after, tail, ⟨_, ht⟩, ⟨_, htail⟩, rfl⟩⟩ := tokens_yields_iff.1 hy
  · have hmid := hin.passes hblanks
    exact ⟨mid, rfl, hmid, hclose, hin.blank hblanks hblank, trivial⟩
  · have hmid := hin.passes hblanks
    obtain ⟨hafter, hfills, hnormal⟩ := hs.token_stands hmid ht
    obtain ⟨last, hlast, hlastin, hclose, hspread, hnormals⟩ := hs.tokens_stand hafter htail
    refine ⟨last, hlast, hlastin, hclose, ?_, hnormal, hnormals⟩
    exact ⟨mid.offset, after.offset, hin.blank hblanks hblank, hfills, hspread⟩

end Sound

/-- What the readers find stands between the cursors, whatever the bound. -/
theorem sound (sw : Switch) (source : String) (bound : Nat) : Sound sw source bound := by
  induction bound with
  | zero =>
    -- no text is short enough for a bound of zero
    constructor <;> intros <;> omega
  | succ bound ih =>
    exact
      { fragments_stand := ih.fragments_stand_step
        body_stands := ih.body_stands_step
        expression_follows := ih.expression_follows_step
        call_continues := ih.call_continues_step
        group_stands := ih.group_stands_step
        token_stands := ih.token_stands_step
        tokens_stand := ih.tokens_stand_step }

/-! ## Parsed trees -/

theorem standAll_of_parse {tree : Block} (h : parse sw source = .ok tree) :
    tree.span = ⟨0, source.utf8ByteSize⟩ ∧ tree.enclosing = .unfenced ∧
      Fragment.Tile sw source tree.children 0 source.utf8ByteSize ∧
      Fragment.NormalAll sw source none tree.children := by
  obtain ⟨fs, stop, next, _, hy, rfl⟩ := parse_eq_ok_iff.1 h
  obtain ⟨mid, rfl, hmid, hright, hend, htile, hnormal⟩ :=
    (sound sw source _).fragments_stand (Cursor.start_in source) hy
  -- nothing is left where the document ends
  have hstop : mid.offset = source.utf8ByteSize := by
    have hnext := hmid.passes hright
    have hwidth := hnext.offset_add_width
    have hoffset : next.offset = mid.offset + width [] := hright.offset_eq
    rw [hend rfl, hoffset, width_nil, Nat.add_zero] at hwidth
    exact hwidth
  rw [hstop] at htile ⊢
  exact ⟨rfl, rfl, htile, hnormal⟩

theorem exists_tree {r : Except Error Block} (h : r.toOption.isSome = true) :
    ∃ tree, r = .ok tree := by
  cases r with
  | error e => simp [Except.toOption] at h
  | ok tree => exact ⟨tree, rfl⟩

theorem exists_tree_of {r : Except Error Block} {p : Block → Prop} [DecidablePred p]
    (h : r.toOption.any (fun tree => decide (p tree)) = true) : ∃ tree, r = .ok tree ∧ p tree := by
  cases r with
  | error e => simp [Except.toOption] at h
  | ok tree => exact ⟨tree, rfl, by simpa [Except.toOption] using h⟩

/-- The spans of a parsed tree account for every byte of its source exactly once, and pass the span
check. -/
theorem parse_laidOut {tree : Block} (h : parse sw source = .ok tree) :
    tree.LaidOut sw source ∧ tree.checkSpans source = .ok () := by
  obtain ⟨hspan, henclosing, htile, -⟩ := standAll_of_parse h
  have hlaid : tree.LaidOut sw source := ⟨hspan, henclosing, htile⟩
  exact ⟨hlaid, hlaid.checkSpans⟩

theorem parse_laidOut_nested :
    ∃ tree, parse .standard "é @b[c= 12 @\"@e\" [x]]#\x7bf @|g|\x7d# @!" = .ok tree ∧
      tree.LaidOut .standard "é @b[c= 12 @\"@e\" [x]]#\x7bf @|g|\x7d# @!" ∧
      tree.checkSpans "é @b[c= 12 @\"@e\" [x]]#\x7bf @|g|\x7d# @!" = .ok () := by
  have hsome : (parse .standard
      "é @b[c= 12 @\"@e\" [x]]#\x7bf @|g|\x7d# @!").toOption.isSome = true := by
    decide +kernel
  obtain ⟨tree, htree⟩ := exists_tree hsome
  exact ⟨tree, htree, parse_laidOut htree⟩

/-- A parsed tree is in normal form. -/
theorem parse_inNormalForm {tree : Block} (h : parse sw source = .ok tree) :
    tree.InNormalForm sw source :=
  (standAll_of_parse h).2.2.2

theorem parse_inNormalForm_nested :
    ∃ tree, parse .standard "@b[c -1.5e3,@\x7b\x7d] @a\"@\"#x @||\"#" = .ok tree ∧
      tree.InNormalForm .standard "@b[c -1.5e3,@\x7b\x7d] @a\"@\"#x @||\"#" := by
  have hsome : (parse .standard
      "@b[c -1.5e3,@\x7b\x7d] @a\"@\"#x @||\"#").toOption.isSome = true := by
    decide +kernel
  obtain ⟨tree, htree⟩ := exists_tree hsome
  exact ⟨tree, htree, parse_inNormalForm htree⟩

end Prosemark
