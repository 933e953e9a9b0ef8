import Mathlib.Data.List.Infix
import Prosemark.Proofs.Completeness
import Prosemark.Proofs.Transfer

/-!
# What stands before a change of blanks

Two sources are the same but for one place, where the second one has other blanks than the first, or
blanks where the first has none (`Respacing`). A cursor before the place has its counterpart in the
second source (`Respacing.Keeps`), with the same text up to the place. What nodes up to the place
require of the source is that texts stand there, which they still do, or that nothing but a blank
goes on after them, which holds before the new blanks. So these nodes stand in the second source
where they are (`Respacing.token_kept` and its companions).
-/

namespace Prosemark

open Prosemark.Parser

/-- The second source has some blanks at a place where the first has others or none. -/
structure Respacing (source source' : String) where
  before : List Char
  gap : List Char
  blanks : List Char
  after : List Char
  source_eq : source.toList = before ++ (gap ++ after)
  source_eq' : source'.toList = before ++ (blanks ++ after)
  gap_blank : ∀ c ∈ gap, Charset.isBlank c = true
  blanks_blank : ∀ c ∈ blanks, Charset.isBlank c = true
  blanks_ne_nil : blanks ≠ []

theorem isBlank_eq_false_of_mem_reserved {c : Char} (h : c ∈ Charset.reserved) :
    Charset.isBlank c = false := by
  have hall : Charset.reserved.all (!Charset.isBlank ·) = true := by
    decide +kernel
  simpa using List.all_eq_true.1 hall c h

theorem Numeral.isBlank_eq_false_of_isPart {c : Char} (h : isPart c = true) :
    Charset.isBlank c = false := by
  rw [isPart, Bool.or_eq_true, List.contains_iff_mem] at h
  rcases h with h | h
  · exact Charset.isBlank_eq_false_of_isDigit h
  · have hall : ['-', '+', '.', 'e', 'E'].all (!Charset.isBlank ·) = true := by
      decide +kernel
    simpa using List.all_eq_true.1 hall c h

namespace Respacing

variable {sw : Switch} {source source' : String} (R : Respacing source source')

/-- The offset at which the blanks change. -/
def place : Nat :=
  width R.before

/-! ## Cursors before the place -/

/-- The cursors stand at one offset, no further than the place, each in its source. -/
structure Keeps (cur cur' : Cursor) : Prop where
  left : cur.In source
  right : cur'.In source'
  offset_eq : cur'.offset = cur.offset
  le : cur.offset ≤ R.place

variable {R} {cur cur' next : Cursor} {a b i j k : Nat} {text : String}

/-- The sources have the same text between a cursor and the place. -/
theorem exists_rest (hin : cur.In source) (hle : cur.offset ≤ R.place) :
    ∃ u, cur.rest = u ++ (R.gap ++ R.after) ∧ cur.offset + width u = R.place ∧
      (⟨cur.offset, u ++ (R.blanks ++ R.after)⟩ : Cursor).In source' := by
  obtain ⟨pre, hpre⟩ := hin
  have hsource : source.toList = pre ++ cur.rest := hpre.rest_eq
  have hoffset : cur.offset = 0 + width pre := hpre.offset_eq
  rw [Nat.zero_add] at hoffset
  have hprefix : pre <+: source.toList := ⟨_, hsource.symm⟩
  have hbefore : R.before <+: source.toList := ⟨_, R.source_eq.symm⟩
  rw [hoffset, place, width_le_iff_length_le hprefix hbefore] at hle
  obtain ⟨u, hu⟩ := List.prefix_of_prefix_length_le hprefix hbefore hle
  have hrest : pre ++ cur.rest = pre ++ (u ++ (R.gap ++ R.after)) := by
    rw [← hsource, R.source_eq, ← hu, List.append_assoc]
  refine ⟨u, List.append_cancel_left hrest, ?_, pre, ?_, ?_⟩
  · rw [hoffset, place, ← hu, width_append]
  · show source'.toList = pre ++ (u ++ (R.blanks ++ R.after))
    rw [R.source_eq', ← hu, List.append_assoc]
  · show cur.offset = 0 + width pre
    rw [hoffset, Nat.zero_add]

theorem exists_keeps (hin : cur.In source) (hle : cur.offset ≤ R.place) :
    ∃ cur', R.Keeps cur cur' := by
  obtain ⟨u, -, -, hin'⟩ := exists_rest hin hle
  exact ⟨_, hin, hin', rfl, hle⟩

namespace Keeps

variable (K : R.Keeps cur cur')

include K

theorem exists_rest :
    ∃ u, cur.rest = u ++ (R.gap ++ R.after) ∧ cur'.rest = u ++ (R.blanks ++ R.after) ∧
      cur.offset + width u = R.place := by
  obtain ⟨u, hrest, hplace, hin⟩ := Respacing.exists_rest K.left K.le
  obtain rfl := hin.eq_of_offset K.right K.offset_eq.symm
  exact ⟨u, hrest, rfl, hplace⟩

/-- A text up to the place is passed in the second source as well. -/
theorem passes {cs : List Char} (hp : cur.Passes cs next) (hle : next.offset ≤ R.place) :
    ∃ next', R.Keeps next next' ∧ cur'.Passes cs next' := by
  obtain ⟨next', hnext⟩ := exists_keeps (K.left.passes hp) hle
  obtain ⟨u, hrest, hrest', hplace⟩ := K.exists_rest
  obtain ⟨v, hnrest, hnrest', hnplace⟩ := hnext.exists_rest
  have hu : u = cs ++ v := by
    have h := hp.rest_eq
    rw [hrest, hnrest, ← List.append_assoc] at h
    exact List.append_cancel_right (by simpa only [List.append_assoc] using h)
  refine ⟨next', hnext, ?_, ?_⟩
  · rw [hrest', hnrest', hu, List.append_assoc]
  · rw [hnext.offset_eq, hp.offset_eq, K.offset_eq]

/-- A text before a kept cursor is passed in the second source as well. -/
theorem exists_passes {start : Cursor} {cs : List Char} (hin : start.In source)
    (hp : start.Passes cs cur) : ∃ start', R.Keeps start start' ∧ start'.Passes cs cur' := by
  have hle : start.offset ≤ cur.offset := by
    rw [hp.offset_eq]
    exact Nat.le_add_right _ _
  obtain ⟨start', K'⟩ := exists_keeps hin (hle.trans K.le)
  obtain ⟨next', hnext, hp'⟩ := K'.passes hp K.le
  obtain rfl := hnext.right.eq_of_offset K.right (hnext.offset_eq.trans K.offset_eq.symm)
  exact ⟨start', K', hp'⟩

/-- A text without blanks that stands at the second cursor ends before the new blanks. -/
theorem prefix_of_prefix {cs : List Char} (hcs : ∀ c ∈ cs, Charset.isBlank c = false)
    (h : cs <+: cur'.rest) : cs <+: cur.rest := by
  obtain ⟨u, hrest, hrest', -⟩ := K.exists_rest
  rw [hrest'] at h
  rw [hrest]
  obtain hu | ⟨t, rfl⟩ := List.prefix_or_prefix_of_prefix h (List.prefix_append u _)
  · exact hu.trans (List.prefix_append u _)
  · cases t with
    | nil =>
      rw [List.append_nil]
      exact List.prefix_append u _
    | cons c t =>
      -- the character after the common text would be the first of the new blanks
      obtain ⟨d, ds, hblanks⟩ := List.exists_cons_of_ne_nil R.blanks_ne_nil
      rw [List.prefix_append_right_inj, hblanks] at h
      obtain ⟨rfl, -⟩ := List.cons_prefix_cons.1 h
      have hd := R.blanks_blank c (by simp [hblanks])
      exact absurd ((hcs c (by simp)).symm.trans hd) Bool.false_ne_true

theorem head_of_head {c : Char} (hc : Charset.isBlank c = false)
    (h : cur'.rest.head? = some c) : cur.rest.head? = some c := by
  obtain ⟨cs, hcs⟩ := List.head?_eq_some_iff.1 h
  have hpre : [c] <+: cur'.rest := ⟨cs, hcs.symm⟩
  obtain ⟨ds, hds⟩ := K.prefix_of_prefix (by simpa using hc) hpre
  rw [← hds]
  rfl

theorem head_eq_false {p : Char → Bool} (hp : ∀ c, p c = true → Charset.isBlank c = false)
    (h : ∀ c ∈ cur.rest.head?, p c = false) : ∀ c ∈ cur'.rest.head?, p c = false := by
  intro c hc
  rw [Bool.eq_false_iff]
  intro hpc
  exact Bool.false_ne_true ((h c (K.head_of_head (hp c hpc) hc)).symm.trans hpc)

theorem opens_of_opens {d : Delimiter} (h : Opens d cur'.rest) : Opens d cur.rest := by
  obtain ⟨fence, hd, hpre⟩ := h
  exact ⟨fence, hd, K.prefix_of_prefix (fun c hc =>
    isBlank_eq_false_of_mem_reserved (fence.left_mem_reserved c hc)) hpre⟩

theorem balanced {fence : Fence} {nested : Bool} (h : fence.Balanced nested cur.rest) :
    fence.Balanced nested cur'.rest :=
  fun hn hpos hhead => h hn hpos (K.head_of_head (by decide) hhead)

end Keeps

/-! ## Texts up to the place -/

section Texts

variable (R)

include R

theorem covers (h : Covers source a b text) (hb : b ≤ R.place) : Covers source' a b text := by
  obtain ⟨cur, next, hin, hp, rfl, rfl⟩ := covers_iff.1 h
  obtain ⟨cur', K⟩ := exists_keeps hin (Nat.le_trans h.le hb)
  obtain ⟨next', K', hp'⟩ := K.passes hp hb
  exact covers_iff.2 ⟨cur', next', K.right, hp', K.offset_eq, K'.offset_eq⟩

theorem blank (h : Blank source a b) (hb : b ≤ R.place) : Blank source' a b := by
  obtain ⟨text, hcovers, hblank⟩ := h
  exact ⟨text, R.covers hcovers hb, hblank⟩

theorem text_fills {t : Text} (h : t.Fills source a b) (hb : b ≤ R.place) :
    t.Fills source' a b := by
  obtain ⟨⟨hleft, hright⟩, hinner⟩ := h
  have hstop := hright.le
  have hstart := hinner.le
  exact ⟨⟨R.covers hleft (by omega), R.covers hright hb⟩, R.covers hinner (by omega)⟩

/-- What is at the end of a text up to the place. -/
theorem keeps_stop (h : Covers source a b text) (hb : b ≤ R.place) :
    ∃ cur cur' : Cursor, R.Keeps cur cur' ∧ cur.offset = b ∧
      restAt source b = cur.rest ∧ restAt source' b = cur'.rest := by
  obtain ⟨cur, hin, rfl⟩ := h.exists_stop
  obtain ⟨cur', K⟩ := exists_keeps hin hb
  exact ⟨cur, cur', K, rfl, hin.restAt_eq, by rw [← K.offset_eq, K.right.restAt_eq]⟩

theorem balanced {fence : Fence} {nested : Bool} (h : Covers source a b fence.enclosing.right)
    (hb : b ≤ R.place) (hbalanced : fence.Balanced nested (restAt source (a + width fence.right))) :
    fence.Balanced nested (restAt source' (a + width fence.right)) := by
  have hstop : a + width fence.right = b := by
    rw [h.stop_eq, Fence.enclosing, String.toList_ofList]
  obtain ⟨cur, cur', K, -, hrest, hrest'⟩ := R.keeps_stop h hb
  rw [hstop, hrest] at hbalanced
  rw [hstop, hrest']
  exact K.balanced hbalanced

theorem isQuoted {t : Text} {nested : Bool} (h : t.Fills source a b) (hb : b ≤ R.place)
    (hq : t.IsQuoted source nested) :
    t.Fills source' a b ∧ t.IsQuoted source' nested := by
  obtain ⟨fence, hd, he, hunbroken, hbalanced⟩ := hq
  refine ⟨R.text_fills h hb, fence, hd, he, hunbroken, ?_⟩
  exact R.balanced (he ▸ h.1.2) hb hbalanced

end Texts

/-! ## Commands -/

namespace Keeps

variable {options options' : Option Group} {body body' : Option Body} {nested : Bool}
  (K : R.Keeps cur cur')

include K

/-- A bracket follows in the second source where options stand there and follow in the first. -/
theorem bracket_iff (hsome : options'.isSome = options.isSome)
    (h : options.isSome = true ↔ cur.rest.head? = some '[')
    (hfills : Group.FillsOption sw source' options' cur'.offset k) :
    options'.isSome = true ↔ cur'.rest.head? = some '[' := by
  constructor
  · intro ho
    obtain ⟨⟨span, children⟩, rfl⟩ := Option.isSome_iff_exists.1 ho
    obtain ⟨start, hp, -⟩ := K.right.passes_of_covers hfills.1
    rw [hp.rest_eq]
    rfl
  · intro hhead
    rw [hsome]
    exact h.2 (K.head_of_head (by decide) hhead)

/-- A fence follows in the second source where a body stands there and follows in the first. -/
theorem fence_iff (hsome : body'.isSome = body.isSome)
    (h : body.isSome = true ↔ Opens .brace cur.rest ∨ Opens .quote cur.rest)
    (hstands : ∀ b ∈ body', b.Stands sw source' nested cur' next) :
    body'.isSome = true ↔ Opens .brace cur'.rest ∨ Opens .quote cur'.rest := by
  constructor
  · intro hb
    obtain ⟨b, hb⟩ := Option.isSome_iff_exists.1 hb
    obtain ⟨d, hd, hopens⟩ := (hstands b hb).opens K.right
    cases d with
    | brace => exact .inl hopens
    | quote => exact .inr hopens
    | bar => exact absurd rfl hd
  · intro hopens
    rw [hsome]
    exact h.2 (hopens.imp K.opens_of_opens K.opens_of_opens)

end Keeps

/-- The form of a command depends on its phrase, on what follows that up to the place, and on the
options and the body that it attaches. -/
theorem Keeps.formed {c c' : Command} {place : Span} {mid mid' : Cursor} (K : R.Keeps cur cur')
    (hstart : c'.span.start = c.span.start) (hphrase : c'.phrase = c.phrase)
    (he : c'.phraseEnclosing = c.phraseEnclosing)
    (hswitch : Covers source c.span.start i sw.text)
    (hfills : Text.Fills source ⟨place, c.phrase, c.phraseEnclosing⟩ i cur.offset)
    (ho : Group.FillsOption sw source c.options cur.offset mid.offset)
    (ho' : Group.FillsOption sw source' c'.options cur'.offset mid'.offset)
    (hoptions : c'.options.isSome = c.options.isSome) (hbody : c'.body.isSome = c.body.isSome)
    (hmid : mid.In source) (hmid' : mid'.In source')
    (hfence : (c.body.isSome = true ↔ Opens .brace mid.rest ∨ Opens .quote mid.rest) →
      (c'.body.isSome = true ↔ Opens .brace mid'.rest ∨ Opens .quote mid'.rest))
    (h : c.Formed sw source) : c'.Formed sw source' := by
  have hstop : c.phraseStop sw = cur.offset := Command.phraseStop_eq hswitch hfills
  have hstop' : c'.phraseStop sw = cur'.offset := by
    rw [K.offset_eq, ← hstop, Command.phraseStop, Command.phraseStop, hstart, hphrase, he]
  have hbare : c'.isBare = c.isBare := by
    simp only [Command.isBare, ← Option.not_isSome, hoptions, hbody]
  have hattaches : c.Attaches sw source → c'.Attaches sw source' := by
    rw [Command.attaches_iff K.left hmid hstop (Command.optionsStop_eq (by rwa [hstop])),
      Command.attaches_iff K.right hmid' hstop' (Command.optionsStop_eq (by rwa [hstop']))]
    exact And.imp (fun h => K.bracket_iff hoptions h ho') hfence
  have hrest : restAt source (c.phraseStop sw) = cur.rest := by
    rw [hstop, K.left.restAt_eq]
  have hrest' : restAt source' (c'.phraseStop sw) = cur'.rest := by
    rw [hstop', K.right.restAt_eq]
  cases h with
  | identifier unfenced kind maximal attaches =>
    refine .identifier (he.trans unfenced) (hphrase ▸ kind) ?_ (hattaches attaches)
    rw [hrest] at maximal
    rw [hrest']
    exact K.head_eq_false (fun _ => Charset.isBlank_eq_false_of_isIdContinue) maximal
  | bars fence delimiter fenced unbroken attaches =>
    refine .bars fence delimiter (he.trans fenced) (hphrase ▸ unbroken) ?_
    rw [hphrase, hbare]
    split at attaches
    · next hnil => rwa [if_pos hnil]
    · next hne =>
      rw [if_neg hne]
      exact hattaches attaches
  | symbol d unfenced phrase_eq kind head opens bare =>
    have hi : i ≤ cur.offset := (Text.sits hfills).reaches.le
    obtain ⟨start, start', K', -, hhead, hhead'⟩ := R.keeps_stop hswitch (hi.trans K.le)
    rw [← hswitch.switch_stop_eq, hhead] at head opens
    refine .symbol d (he.trans unfenced) (hphrase.trans phrase_eq) kind ?_ ?_ (hbare.trans bare)
    · rw [hstart, ← hswitch.switch_stop_eq, hhead']
      exact K'.head_eq_false (fun _ => Charset.isBlank_eq_false_of_isIdStart) head
    · rw [hstart, ← hswitch.switch_stop_eq, hhead']
      exact fun e hopens => opens e (K'.opens_of_opens hopens)

/-! ## Identifiers, operators and numbers -/

section Atoms

variable (R)

include R

theorem identifier_kept {span : Span} {name : String} (nested : Bool)
    (hf : Token.Fills sw source (.identifier span name) a b)
    (hn : Token.Normal sw source nested (.identifier span name)) (hb : b ≤ R.place) :
    Token.Fills sw source' (.identifier span name) a b ∧
      Token.Normal sw source' nested (.identifier span name) := by
  obtain ⟨rfl, hcovers⟩ := hf
  obtain ⟨hid, hmaximal⟩ := hn
  refine ⟨⟨rfl, R.covers hcovers hb⟩, hid, ?_⟩
  obtain ⟨cur, cur', K, -, hrest, hrest'⟩ := R.keeps_stop hcovers hb
  rw [hrest] at hmaximal
  rw [hrest']
  exact K.head_eq_false (fun _ => Charset.isBlank_eq_false_of_isIdContinue) hmaximal

theorem operator_kept {span : Span} {symbols : String} (nested : Bool)
    (hf : Token.Fills sw source (.operator span symbols) a b)
    (hn : Token.Normal sw source nested (.operator span symbols)) (hb : b ≤ R.place) :
    Token.Fills sw source' (.operator span symbols) a b ∧
      Token.Normal sw source' nested (.operator span symbols) := by
  obtain ⟨rfl, hcovers⟩ := hf
  have hoperator : Lexeme.IsOperator sw symbols.toList (restAt source b) := hn
  refine ⟨⟨rfl, R.covers hcovers hb⟩, ?_⟩
  obtain ⟨cur, cur', K, -, hrest, hrest'⟩ := R.keeps_stop hcovers hb
  rw [hrest] at hoperator
  rw [Token.Normal, hrest']
  apply hoperator.imp_right
  rintro ⟨hne, hall, hmaximal⟩
  refine ⟨hne, hall, K.head_eq_false (fun d hd => ?_) hmaximal⟩
  exact Charset.isBlank_eq_false_of_isOperator (Lexeme.isOperator_of_joinsRun hd)

theorem number_kept {span : Span} {value : Number} (nested : Bool)
    (hf : Token.Fills sw source (.number span value) a b)
    (hn : Token.Normal sw source nested (.number span value)) (hb : b ≤ R.place) :
    Token.Fills sw source' (.number span value) a b ∧
      Token.Normal sw source' nested (.number span value) := by
  obtain ⟨rfl, numeral, hvalid, hcovers, hvalue⟩ := hf
  obtain ⟨hlongest, hminus⟩ := hn
  refine ⟨⟨rfl, numeral, hvalid, R.covers hcovers hb, hvalue⟩, ?_⟩
  obtain ⟨cur, hin, rfl⟩ := hcovers.exists_start
  obtain ⟨cur', K⟩ := exists_keeps hin (hcovers.le.trans hb)
  have hrest' : restAt source' cur.offset = cur'.rest := by
    rw [← K.offset_eq, K.right.restAt_eq]
  rw [hin.restAt_eq] at hlongest hminus
  constructor
  · intro m hm hpre
    rw [hrest'] at hpre
    exact hlongest m hm (K.prefix_of_prefix
      (fun c hc => Numeral.isBlank_eq_false_of_isPart (hm.isPart_chars c hc)) hpre)
  · intro hhead
    rw [hrest'] at hhead
    exact hminus (K.head_of_head (by decide) hhead)

end Atoms

/-! ## Trees -/

section Trees

variable (R)

mutual

theorem fragment_kept {closing : Option Fence} : ∀ (f : Fragment) {a b : Nat},
    f.Fills sw source a b → f.Normal sw source closing → b ≤ R.place →
      f.Fills sw source' a b ∧ f.Normal sw source' closing
  | .text t, a, b, hf, hn, hb => by
    rw [Fragment.Fills, Fragment.Normal] at *
    split at hf
    · next ht =>
      rw [if_pos ht] at hn ⊢
      rw [if_pos ht]
      exact ⟨⟨hf.1, R.covers hf.2 hb⟩, hn⟩
    · next ht =>
      rw [if_neg ht] at hn ⊢
      rw [if_neg ht]
      obtain ⟨i, hswitch, hfills⟩ := hf
      obtain ⟨hfills', hn'⟩ := R.isQuoted hfills hb hn
      exact ⟨⟨i, R.covers hswitch (((Text.sits hfills).reaches.le).trans hb), hfills'⟩, hn'⟩
  | .command c, _, _, hf, hn, hb => command_kept c hf hn hb
  | .block block, _, _, ⟨i, hswitch, hf⟩, hn, hb => by
    obtain ⟨hf', hn'⟩ := block_kept block hf hn hb
    exact ⟨⟨i, R.covers hswitch ((block.sits hf).reaches.le.trans hb), hf'⟩, hn'⟩

theorem fragments_kept {closing : Option Fence} : ∀ (fs : List Fragment) {a b : Nat},
    Fragment.Tile sw source fs a b → Fragment.NormalAll sw source closing fs → b ≤ R.place →
      Fragment.Tile sw source' fs a b ∧ Fragment.NormalAll sw source' closing fs
  | [], _, _, h, _, _ => ⟨h, trivial⟩
  | f :: fs, _, b, ⟨i, hf, htile⟩, ⟨hn, hprose, hns⟩, hb => by
    have hle := (Fragment.sitInOrder fs (f.sits hf).reaches.stop_self htile).reaches.le
    obtain ⟨hf', hn'⟩ := fragment_kept f hf hn (hle.trans hb)
    obtain ⟨htile', hns'⟩ := fragments_kept fs htile hns hb
    exact ⟨⟨i, hf', htile'⟩, hn', hprose, hns'⟩

theorem block_kept {nested : Bool} : ∀ (block : Block) {a b : Nat}, block.Fills sw source a b →
    block.Normal sw source nested → b ≤ R.place →
      block.Fills sw source' a b ∧ block.Normal sw source' nested
  | ⟨span, children, e⟩, a, b, ⟨⟨hleft, hright⟩, htile⟩, ⟨fence, hd, he, hbalanced, hns⟩, hb => by
    have hle := (Fragment.sitInOrder children hleft.reaches.stop_self htile).reaches.le
    have hstop := hright.le
    obtain ⟨htile', hns'⟩ := fragments_kept children htile hns (hstop.trans hb)
    refine ⟨⟨⟨R.covers hleft (by omega), R.covers hright hb⟩, htile'⟩, fence, hd, he, ?_, hns'⟩
    exact R.balanced (he ▸ hright) hb hbalanced

theorem command_kept {nested : Bool} : ∀ (c : Command) {a b : Nat}, c.Fills sw source a b →
    c.Normal sw source nested → b ≤ R.place →
      c.Fills sw source' a b ∧ c.Normal sw source' nested
  | ⟨span, phrase, e, options, body⟩, a, b, ⟨hspan, i, place, j, k, hswitch, hphrase, ho, hbody⟩,
      ⟨hformed, hno, hnb⟩, hb => by
    subst hspan
    obtain ⟨cur, hcur, rfl⟩ := hphrase.1.2.exists_stop
    have hreaches := (Group.sits_option options hphrase.1.2.reaches.stop_self ho).1
    obtain ⟨mid, hmid, rfl⟩ := hcur.exists_stop_of_fillsOption ho
    obtain ⟨_, hkb⟩ := (Body.sits_option body hreaches.stop_self hbody).1
    obtain ⟨next, hnext, rfl⟩ := hkb.exists_stop
    have hmidle : mid.offset ≤ R.place := hkb.le.trans hb
    have hcurle : cur.offset ≤ R.place := hreaches.le.trans hmidle
    have hi : i ≤ cur.offset := (Text.sits hphrase).reaches.le
    obtain ⟨ho', hno'⟩ := groupOption_kept options ho hno hmidle
    obtain ⟨hbody', hnb'⟩ := bodyOption_kept body hbody hnb hb
    obtain ⟨cur', K⟩ := exists_keeps hcur hcurle
    obtain ⟨mid', K'⟩ := exists_keeps hmid hmidle
    obtain ⟨next', K''⟩ := exists_keeps hnext hb
    refine ⟨⟨rfl, i, place, _, _, R.covers hswitch (hi.trans hcurle), R.text_fills hphrase hcurle,
      ho', hbody'⟩, ?_, hno', hnb'⟩
    have hstands : ∀ b ∈ body, b.Stands sw source' nested mid' next' := by
      rintro b rfl
      rw [← K'.offset_eq, ← K''.offset_eq] at hbody'
      exact ⟨K''.right, hbody', hnb'⟩
    rw [← K.offset_eq, ← K'.offset_eq] at ho'
    exact K.formed rfl rfl rfl hswitch hphrase ho ho' rfl rfl hmid K'.right
      (fun h => K'.fence_iff rfl h hstands) hformed

theorem groupOption_kept {nested : Bool} : ∀ (options : Option Group) {a b : Nat},
    Group.FillsOption sw source options a b → Group.NormalOption sw source nested options →
      b ≤ R.place →
        Group.FillsOption sw source' options a b ∧ Group.NormalOption sw source' nested options
  | none, _, _, h, _, _ => ⟨h, trivial⟩
  | some g, _, _, hf, hn, hb => group_kept g hf hn hb

theorem bodyOption_kept {nested : Bool} : ∀ (o : Option Body) {a b : Nat},
    Body.FillsOption sw source o a b → Body.NormalOption sw source nested o → b ≤ R.place →
      Body.FillsOption sw source' o a b ∧ Body.NormalOption sw source' nested o
  | none, _, _, h, _, _ => ⟨h, trivial⟩
  | some o, _, _, hf, hn, hb => body_kept o hf hn hb

theorem body_kept {nested : Bool} : ∀ (o : Body) {a b : Nat}, o.Fills sw source a b →
    o.Normal sw source nested → b ≤ R.place →
      o.Fills sw source' a b ∧ o.Normal sw source' nested
  | .block block, _, _, hf, hn, hb => block_kept block hf hn hb
  | .text _, _, _, hf, hn, hb => R.isQuoted hf hb hn

theorem group_kept {nested : Bool} : ∀ (g : Group) {a b : Nat}, g.Fills sw source a b →
    g.Normal sw source nested → b ≤ R.place →
      g.Fills sw source' a b ∧ g.Normal sw source' nested
  | ⟨span, children⟩, a, b, ⟨hleft, hspread, hright⟩, hn, hb => by
    have hle := (Token.sitInOrder children hspread).reaches.le
    have hstop := hright.le
    obtain ⟨hspread', hn'⟩ := tokens_kept children hspread hn (hstop.trans hb)
    exact ⟨⟨R.covers hleft (by omega), hspread', R.covers hright hb⟩, hn'⟩

theorem tokens_kept {nested : Bool} : ∀ (ts : List Token) {a b : Nat},
    Token.Spread sw source ts a b → Token.NormalAll sw source nested ts → b ≤ R.place →
      Token.Spread sw source' ts a b ∧ Token.NormalAll sw source' nested ts
  | [], _, _, h, _, hb => ⟨R.blank h hb, trivial⟩
  | t :: ts, _, b, ⟨i, j, hblank, hf, hspread⟩, ⟨hn, hns⟩, hb => by
    have hle := (Token.sitInOrder ts hspread).reaches.le
    have hle' := (t.sits hf).reaches.le
    obtain ⟨hf', hn'⟩ := token_kept t hf hn (hle.trans hb)
    obtain ⟨hspread', hns'⟩ := tokens_kept ts hspread hns hb
    exact ⟨⟨i, j, R.blank hblank (by omega), hf', hspread'⟩, hn', hns'⟩

theorem token_kept {nested : Bool} : ∀ (t : Token) {a b : Nat}, t.Fills sw source a b →
    t.Normal sw source nested → b ≤ R.place →
      t.Fills sw source' a b ∧ t.Normal sw source' nested
  | .identifier _ _, _, _, hf, hn, hb => R.identifier_kept nested hf hn hb
  | .operator _ _, _, _, hf, hn, hb => R.operator_kept nested hf hn hb
  | .number _ _, _, _, hf, hn, hb => R.number_kept nested hf hn hb
  | .group g, _, _, hf, hn, hb => group_kept g hf hn hb
  | .block block, _, _, ⟨i, hi, hf⟩, hn, hb => by
    obtain ⟨hf', hn'⟩ := block_kept block hf hn hb
    exact ⟨⟨i, hi.imp_right fun h => R.covers h ((block.sits hf).reaches.le.trans hb), hf'⟩, hn'⟩
  | .text t, _, _, ⟨i, hi, hf⟩, hn, hb => by
    obtain ⟨hf', hn'⟩ := R.isQuoted hf hb hn
    exact ⟨⟨i, hi.imp_right fun h => R.covers h ((Text.sits hf).reaches.le.trans hb), hf'⟩, hn'⟩
  | .command c, _, _, hf, hn, hb => command_kept c hf hn hb

end

end Trees

end Respacing

end Prosemark
