import Prosemark.Proofs.LineJoining
import Prosemark.Proofs.Run
import Prosemark.Proofs.Wrapping

/-!
# Texts that render to themselves

Any text can be written so that it renders to itself: in quotes that are padded enough
(`render_quoted`), and as prose with each switch doubled, which then loses no more than its line
continuations (`render_doubled`). Nothing that may come after a doubled switch belongs to it, since
the second switch is a command that takes no arguments.
-/

namespace Prosemark

open Prosemark.Parser

/-! ## Rendering fragments -/

theorem render_of_parse {source : String} {tree : Block} {values : List Value} {after : State}
    (h : parse .standard source = .ok tree)
    (hvalues : (tree.meaning .none).run.run (.ofEnv .standard) = (.ok values, after)) :
    render source = .ok (Value.render values) := by
  rw [render, run_of_parse h, hvalues]
  rfl

theorem Text.meaning_of_joined {t : Text} {out : List Char} (h : t.isProse = true)
    (hout : Joined t.inner.toList out) : t.meaning = .string (String.ofList out) := by
  rw [Text.meaning, if_pos h, ← String.length_toList, joined_iff.1 hout]

theorem Text.meaning_of_fence {t : Text} {fence : Fence} (h : t.enclosing = fence.enclosing) :
    t.meaning = .string t.inner := by
  rw [Text.meaning, isProse, h, fence.isUnfenced_enclosing]
  rfl

theorem Value.render_nil : Value.render [] = "" :=
  rfl

theorem Value.render_string_cons (text : String) (values : List Value) :
    Value.render (.string text :: values) = text ++ Value.render values := by
  simp [Value.render, flatten, leaves, Value.text, isNothing]

section Meanings

variable {host : Host} {f : Fragment} {fs : List Fragment} {values : List Value}
  {s s' after : State}

theorem Fragment.meanings_cons_run {v : Value} (hf : (f.meaning host).run.run s = (.ok v, s'))
    (hfs : (Fragment.meanings host fs).run.run s' = (.ok values, after)) :
    (Fragment.meanings host (f :: fs)).run.run s =
      (.ok (if v.isNothing then values else v :: values), after) := by
  rw [meanings, Run.run_bind, hf]
  dsimp only
  rw [Run.run_bind, hfs]
  rfl

/-- Prose renders to itself with its lines joined. -/
theorem Fragment.meanings_prose_append {offset : Nat} {inner out : List Char}
    (hinner : Joined inner out)
    (hfs : (Fragment.meanings host fs).run.run s = (.ok values, after)) :
    ∃ values',
      (Fragment.meanings host (prose offset inner ++ fs)).run.run s = (.ok values', after) ∧
      Value.render values' = String.ofList out ++ Value.render values := by
  cases inner with
  | nil =>
    obtain rfl : [] = out := joined_iff.1 hinner
    exact ⟨values, hfs, by simp⟩
  | cons c cs =>
    refine ⟨_, Fragment.meanings_cons_run rfl hfs, ?_⟩
    rw [Text.meaning_of_joined rfl (by rwa [String.toList_ofList])]
    exact Value.render_string_cons _ _

theorem Fragment.meanings_quoted {t : Text} {fence : Fence} (h : t.enclosing = fence.enclosing)
    (s : State) : (Fragment.meanings host [.text t]).run.run s = (.ok [.string t.inner], s) := by
  rw [Fragment.meanings_cons_run rfl rfl, Text.meaning_of_fence h]
  rfl

end Meanings

/-! ## Quoted texts -/

/-- A text in quotes after a switch is one fragment, if its own right quote is not in it. -/
theorem parse_quoted {sw : Switch} {fence : Fence} (hd : fence.delimiter = .quote) {text : String}
    (h : ¬fence.right <:+: text.toList) :
    ∃ span, parse sw (fence.wrap sw.text text) =
      .ok ⟨⟨0, (fence.wrap sw.text text).utf8ByteSize⟩, [.text ⟨span, text, fence.enclosing⟩],
        .unfenced⟩ := by
  have hrest : (Cursor.start (fence.wrap sw.text text)).rest =
      [sw.char] ++ (fence.left ++ (text.toList ++ (fence.right ++ []))) := by
    simp [Cursor.start, Fence.wrap, Switch.text, Fence.enclosing]
  have hin := Cursor.start_in (fence.wrap sw.text text)
  obtain ⟨cur, hswitch, hcur⟩ := Cursor.exists_passes hrest
  obtain ⟨start, hleft, hstart⟩ := Cursor.exists_passes hcur
  obtain ⟨mid, hmiddle, hmid⟩ := Cursor.exists_passes hstart
  obtain ⟨next, hright, hnext⟩ := Cursor.exists_passes hmid
  have hencloses : fence.Encloses cur start text.toList mid next := ⟨hleft, hmiddle, hright, h⟩
  have hcurin := hin.passes hswitch
  have hend : next.offset = (fence.wrap sw.text text).utf8ByteSize := by
    have hwidth := (hencloses.next_in hcurin).offset_add_width
    rwa [hnext, width_nil, Nat.add_zero] at hwidth
  have hfills := hencloses.fills hcurin
  have hquoted : Text.IsQuoted (fence.wrap sw.text text) false _ :=
    hencloses.isQuoted hcurin hd (by simp [Fence.Balanced, hnext])
  rw [String.ofList_toList] at hfills hquoted
  have hbody : Body.Fills sw (fence.wrap sw.text text)
    (.text ⟨⟨start.offset, mid.offset⟩, text, fence.enclosing⟩) cur.offset next.offset := hfills
  have hn : Body.Normal sw (fence.wrap sw.text text) (none : Option Fence).isSome
    (.text ⟨⟨start.offset, mid.offset⟩, text, fence.enclosing⟩) := hquoted
  refine ⟨⟨start.offset, mid.offset⟩, parse_of_laidOut ⟨rfl, rfl, next.offset, ?_, hend⟩ ?_⟩
  · exact Body.fills_toFragment (hin.covers_switch hswitch) hbody hn
  · exact ⟨Body.normal_toFragment hn, by simp, trivial⟩

/-- A text whose right quote, as padded as that, is not in it stands in quotes for itself, and there
are such quotes for each text. -/
theorem render_quoted (text : String) :
    (∃ hashes, ¬Fence.right ⟨.quote, hashes⟩ <:+: text.toList) ∧
      ∀ hashes, ¬Fence.right ⟨.quote, hashes⟩ <:+: text.toList →
        render (Fence.wrap ⟨.quote, hashes⟩ "@" text) = .ok text := by
  refine ⟨⟨text.length, fun h => ?_⟩, fun hashes h => ?_⟩
  · have hright : (Fence.right ⟨.quote, text.length⟩).length = text.length + 1 := by
      simp [Fence.right]
    have hlength := h.length_le
    rw [hright, String.length_toList] at hlength
    exact Nat.not_succ_le_self _ hlength
  · have hdelimiter : Fence.delimiter ⟨.quote, hashes⟩ = .quote := rfl
    obtain ⟨span, hparse⟩ := parse_quoted hdelimiter h
    have hrender : render (Fence.wrap ⟨.quote, hashes⟩ "@" text) = _ :=
      render_of_parse hparse (Fragment.meanings_quoted rfl _)
    rw [hrender, Value.render_string_cons, Value.render_nil, String.append_empty]

theorem render_quoted_padded :
    ¬Fence.right ⟨.quote, 2⟩ <:+: "\"#@\\\n\x7b".toList ∧
      render "@##\"\"#@\\\n\x7b\"##" = .ok "\"#@\\\n\x7b" := by
  have hquote : ¬Fence.right ⟨.quote, 2⟩ <:+: "\"#@\\\n\x7b".toList := by decide
  have hwrap : Fence.wrap ⟨.quote, 2⟩ "@" "\"#@\\\n\x7b" = "@##\"\"#@\\\n\x7b\"##" := by decide
  have hrender := (render_quoted "\"#@\\\n\x7b").2 2 hquote
  rw [hwrap] at hrender
  exact ⟨hquote, hrender⟩

/-! ## Doubled switches -/

section Doubled

variable {sw : Switch} {source : String} {text inner tail : List Char}

/-- The text with each switch in it doubled. -/
def Switch.doubled (sw : Switch) (text : List Char) : List Char :=
  text.flatMap fun c => if c = sw.char then [c, c] else [c]

theorem Switch.doubled_of_notMem (h : sw.char ∉ text) : sw.doubled text = text := by
  induction text with
  | nil => rfl
  | cons c cs ih =>
    obtain ⟨hc, hcs⟩ := not_or.1 (mt List.mem_cons.2 h)
    rw [doubled, List.flatMap_cons, if_neg (Ne.symm hc)]
    exact congrArg (c :: ·) (ih hcs)

theorem Switch.doubled_append_cons (h : sw.char ∉ inner) :
    sw.doubled (inner ++ sw.char :: tail) =
      inner ++ ([sw.char] ++ ([sw.char] ++ sw.doubled tail)) := by
  have hinner : inner.flatMap (fun c => if c = sw.char then [c, c] else [c]) = inner :=
    sw.doubled_of_notMem h
  rw [doubled, List.flatMap_append, List.flatMap_cons, if_pos rfl, hinner]
  rfl

/-- The fragments of a text whose switches are doubled: prose, and for each switch the command that
it names. -/
inductive FromDoubled (sw : Switch) : List Char → List Fragment → Prop
  | last {inner : List Char} (unbroken : sw.char ∉ inner) (offset : Nat) :
      FromDoubled sw inner (prose offset inner)
  | more {inner tail : List Char} {fs : List Fragment} (unbroken : sw.char ∉ inner) (offset : Nat)
      (span : Span) (rest : FromDoubled sw tail fs) :
      FromDoubled sw (inner ++ sw.char :: tail)
        (prose offset inner ++
          .command ⟨span, String.singleton sw.char, .unfenced, none, none⟩ :: fs)

/-- A doubled switch is a command that takes no arguments, whatever comes after it. -/
theorem Command.stands_of_doubled {cur start next : Cursor} (hin : cur.In source)
    (hswitch : cur.Passes [sw.char] start) (hsymbol : start.Passes [sw.char] next) :
    Command.Fills sw source
        ⟨⟨cur.offset, next.offset⟩, String.singleton sw.char, .unfenced, none, none⟩ cur.offset
        next.offset ∧
      Command.Normal sw source false
        ⟨⟨cur.offset, next.offset⟩, String.singleton sw.char, .unfenced, none, none⟩ := by
  have hstart := hin.passes hswitch
  have hphrase := fills_unfenced hstart hsymbol
  rw [← String.singleton_eq_ofList] at hphrase
  refine ⟨⟨rfl, start.offset, _, next.offset, next.offset, hin.covers_switch hswitch, hphrase, rfl,
    rfl⟩, .symbol sw.char rfl rfl sw.isSymbol_char ?_ ?_ rfl, trivial, trivial⟩
  · rw [hswitch.offset_switch, hstart.restAt_eq, hsymbol.rest_eq]
    rintro _ ⟨⟩
    exact sw.isIdStart_char
  · rw [hswitch.offset_switch, hstart.restAt_eq, hsymbol.rest_eq]
    exact not_opens_switch

/-- A text whose switches are doubled is read as prose and commands that name the switch. -/
theorem doubled_stands (text : List Char) {cur : Cursor} (hin : cur.In source)
    (hcur : cur.rest = sw.doubled text) :
    ∃ fs, FromDoubled sw text fs ∧
      Fragment.Tile sw source fs cur.offset source.utf8ByteSize ∧
      Fragment.NormalAll sw source none fs := by
  by_cases hsw : sw.char ∈ text
  -- the induction goes on after the first switch of the text
  · obtain ⟨inner, tail, rfl, hinner⟩ := List.eq_append_cons_of_mem hsw
    rw [sw.doubled_append_cons hinner] at hcur
    obtain ⟨mid, hprose, hmid⟩ := Cursor.exists_passes hcur
    obtain ⟨start, hswitch, hstart⟩ := Cursor.exists_passes hmid
    obtain ⟨next, hsymbol, hnext⟩ := Cursor.exists_passes hstart
    have hmidin := hin.passes hprose
    obtain ⟨hfills, hnormal⟩ := Command.stands_of_doubled hmidin hswitch hsymbol
    obtain ⟨fs, hfrom, htile, hn⟩ :=
      doubled_stands tail ((hmidin.passes hswitch).passes hsymbol) hnext
    refine ⟨_, .more hinner cur.offset ⟨mid.offset, next.offset⟩ hfrom, ?_, ?_⟩
    · exact tile_prose_append hin hprose ⟨next.offset, hfills, htile⟩
    · refine normalAll_prose_append ⟨hinner, by simp⟩ ⟨hnormal, by simp [Fragment.isProse], hn⟩ ?_
      rintro _ ⟨⟩
      rfl
  · rw [sw.doubled_of_notMem hsw] at hcur
    rw [← List.append_nil text] at hcur
    obtain ⟨next, hprose, hnext⟩ := Cursor.exists_passes hcur
    have hend := (hin.passes hprose).offset_add_width
    rw [hnext, width_nil, Nat.add_zero] at hend
    refine ⟨_, .last hsw cur.offset, ?_, ?_⟩
    · rw [← List.append_nil (prose cur.offset text)]
      exact tile_prose_append hin hprose hend
    · rw [← List.append_nil (prose cur.offset text)]
      exact normalAll_prose_append ⟨hsw, by simp⟩ trivial (by simp)
termination_by text.length
decreasing_by
  subst_vars
  simp
  omega

theorem parse_doubled (sw : Switch) (text : List Char) :
    ∃ fs, FromDoubled sw text fs ∧ parse sw (String.ofList (sw.doubled text)) =
      .ok ⟨⟨0, (String.ofList (sw.doubled text)).utf8ByteSize⟩, fs, .unfenced⟩ := by
  have hrest : (Cursor.start (String.ofList (sw.doubled text))).rest = sw.doubled text :=
    String.toList_ofList
  obtain ⟨fs, hfrom, htile, hn⟩ := doubled_stands text (Cursor.start_in _) hrest
  exact ⟨fs, hfrom, parse_of_laidOut ⟨rfl, rfl, htile⟩ hn⟩

end Doubled

/-! ## Rendering doubled switches -/

/-- A bare command is what its phrase is. -/
theorem Command.meaning_bare (host : Host) (span : Span) (phrase : String) (e : Enclosing) :
    Command.meaning host ⟨span, phrase, e, none, none⟩ = host.phrase phrase span.start := by
  rw [meaning]
  exact bind_pure _

/-- In the standard environment the phrase of the switch is the switch. -/
theorem Host.phrase_switch (host : Host) (offset : Nat) {s : State} (henv : s.env = .standard) :
    (host.phrase "@" offset).run.run s =
      (.ok (.string "@"), { s with log := s.log.push (.evaluated "@" offset) }) := by
  obtain ⟨env, log⟩ := s
  obtain rfl : env = .standard := henv
  rfl

theorem at_notMem_continuation {text : List Char} (h : IsContinuation text) : '@' ∉ text := by
  obtain ⟨before, after, rfl, hbefore, hafter⟩ := h
  have hblank : ∀ cs : List Char, (∀ c ∈ cs, isLineBlank c = true) → '@' ∉ cs :=
    fun cs hcs hat => absurd (hcs _ hat) (by decide)
  simp [hblank before hbefore, hblank after hafter]

/-- The lines of the pieces between the switches are joined as those of the whole text. -/
theorem FromDoubled.meanings {text : List Char} {fs : List Fragment}
    (h : FromDoubled .standard text fs) {s : State} (henv : s.env = .standard) :
    ∃ out values after, Joined text out ∧
      (Fragment.meanings .none fs).run.run s = (.ok values, after) ∧
      Value.render values = String.ofList out := by
  induction h generalizing s with
  | @last inner _ offset =>
    have hinner := joinLines_joined (Nat.le_refl inner.length)
    have hnil : (Fragment.meanings .none []).run.run s = (.ok [], s) := rfl
    obtain ⟨values, hrun, hrender⟩ := Fragment.meanings_prose_append hinner hnil
    rw [List.append_nil] at hrun
    rw [Value.render_nil, String.append_empty] at hrender
    exact ⟨_, values, s, hinner, hrun, hrender⟩
  | @more inner tail fs _ offset span _ ih =>
    have hinner := joinLines_joined (Nat.le_refl inner.length)
    have hcommand : (Fragment.meaning .none
        (.command ⟨span, "@", .unfenced, none, none⟩)).run.run s =
          (.ok (.string "@"), { s with log := s.log.push (.evaluated "@" span.start) }) := by
      rw [Fragment.meaning, Command.meaning_bare]
      exact Host.phrase_switch .none span.start henv
    obtain ⟨out, values, after, htail, hrun, hrender⟩ :=
      @ih ⟨s.env, s.log.push (.evaluated "@" span.start)⟩ henv
    have hcons := Fragment.meanings_cons_run hcommand hrun
    obtain ⟨values', hrun', hrender'⟩ := Fragment.meanings_prose_append hinner hcons
    refine ⟨_, values', after, hinner.append_cons (fun _ => at_notMem_continuation) htail, hrun',
      ?_⟩
    have hat : "@" ++ String.ofList out = String.ofList (Switch.standard.char :: out) := by
      simp [Switch.standard]
    rw [hrender', String.ofList_append, ← hat, ← hrender]
    exact congrArg _ (Value.render_string_cons _ _)

/-- A text whose switches are doubled renders to itself without its line continuations, taken out
from left to right; it renders to itself if there are none in it. -/
theorem render_doubled (text : String) :
    ∃ out, (∀ cs, Joined text.toList cs ↔ cs = out) ∧
      render (String.ofList (Switch.standard.doubled text.toList)) = .ok (String.ofList out) ∧
      ((∀ piece, IsContinuation piece → ¬piece <:+: text.toList) → String.ofList out = text) := by
  obtain ⟨fs, hfrom, hparse⟩ := parse_doubled .standard text.toList
  obtain ⟨out, values, after, hjoined, hrun, hrender⟩ :=
    hfrom.meanings (rfl : (State.ofEnv .standard).env = .standard)
  refine ⟨out, ?_, ?_, ?_⟩
  · intro cs
    rw [joined_iff, joined_iff.1 hjoined, eq_comm]
  · rw [render_of_parse hparse hrun, hrender]
  · intro h
    rw [← joined_iff.1 hjoined, joined_iff.1 (joined_self h), String.ofList_toList]

theorem render_doubled_address : render "me@@home[\\\x7d@@" = .ok "me@home[\\\x7d@" := by
  obtain ⟨out, -, hrender, hself⟩ := render_doubled "me@home[\\\x7d@"
  have hout := hself (by
    -- there is no newline in the text
    rintro _ ⟨before, after, rfl, -⟩ hin
    have hnewline : '\n' ∈ "me@home[\\\x7d@".toList := hin.subset (by simp)
    exact absurd hnewline (by decide))
  have hdoubled : String.ofList (Switch.standard.doubled "me@home[\\\x7d@".toList) =
      "me@@home[\\\x7d@@" := by
    decide
  rw [hout, hdoubled] at hrender
  exact hrender

end Prosemark
