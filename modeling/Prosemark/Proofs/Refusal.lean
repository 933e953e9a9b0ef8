import Prosemark.Proofs.Reading
import Prosemark.Proofs.Soundness

/-!
# What a source is refused for

A source that is not parsed is refused with an error at a place of the source, and what stands from
that place on bears the error out (`Culprit`): no expression after the switch there, a fence or a
bracket that is never closed, a padded fence that is closed with one `#` more, or a number that is
out of range. The reader that finds the fault may be far from the place; the scope it reads, or the
offset of the opening bracket, leads back to it.
-/

namespace Prosemark

open Prosemark.Parser

variable {sw : Switch} {source : String} {bound : Nat} {nested : Bool}
  {cur start mid next : Cursor} {flaw : Flaw}

/-! ## How readers fail -/

namespace Parser

theorem fragments_eq_error_iff {scope : Scope} {h : 4 * cur.rest.length < bound + 1} :
    fragments sw (bound + 1) scope cur h = .error flaw ↔
      (∃ fence opener, scope = .braces fence opener ∧ flaw = .unclosed fence opener ∧
        sw.char ∉ cur.rest ∧ ¬fence.right <:+: cur.rest) ∨
      ∃ inner mid start, cur.Passes inner mid ∧ IsProse sw scope.closing inner ∧
        mid.Passes [sw.char] start ∧
        ((∃ h, expression sw bound scope.isNested mid.offset start h = .error flaw) ∨
          ∃ f after, (∃ h, Yields (expression sw bound scope.isNested mid.offset start h) f after) ∧
            ∃ h, fragments sw bound scope after h = .error flaw) := by
  rw [fragments, bind_eq_error_iff]
  constructor
  · rintro (he | ⟨brk, hbrk, he⟩)
    · exact .inl (Scope.nextBreak_error he)
    · refine .inr ⟨brk.inner, ⟨cur.offset + width brk.inner, brk.mark ++ brk.rest⟩,
        ⟨cur.offset + width brk.inner + width brk.mark, brk.rest⟩,
        Cursor.passes_of_rest_eq brk.whole.symm, (Scope.nextBreak_ok hbrk).1, ?_⟩
      dsimp only at he
      split at he
      · next hsw =>
        rw [Scope.isSwitch_iff] at hsw
        refine ⟨hsw ▸ Cursor.passes_of_rest_eq rfl, ?_⟩
        rcases bind_eq_error_iff.1 he with he | ⟨node, hnode, he⟩
        · exact .inl ⟨_, he⟩
        · rcases bind_eq_error_iff.1 he with he | ⟨tail, -, he⟩
          · exact .inr ⟨node.value, node.next, ⟨_, node, hnode, rfl, rfl⟩, _, he⟩
          · simp [pure, Except.pure] at he
      · simp [pure, Except.pure] at he
  · rintro (⟨fence, opener, rfl, rfl, hswitch, habsent⟩ |
      ⟨inner, mid, start, hinner, hprose, hswitch, he⟩)
    · have hnone : Break.find? [[sw.char], fence.right] cur.rest = none := by
        simpa [Break.find?_eq_none_iff, Break.singleton_infix_iff] using ⟨hswitch, habsent⟩
      refine .inl ?_
      simp only [Scope.nextBreak, Break.ofFragments?, hnone]
    · obtain ⟨brk, hbrk, -, hsw, hmid, rfl⟩ := Scope.nextBreak_of_switch hinner hswitch hprose
      rw [hmid] at he
      refine .inr ⟨brk, hbrk, ?_⟩
      dsimp only
      rw [dif_pos hsw, bind_eq_error_iff]
      rcases he with ⟨_, he⟩ | ⟨f, after, ⟨_, node, hnode, rfl, rfl⟩, _, he⟩
      · exact .inl he
      · exact .inr ⟨node, hnode, bind_eq_error_iff.2 (.inl he)⟩

theorem body?_error {h : 4 * cur.rest.length + 1 < bound + 1}
    (he : body? sw (bound + 1) nested cur h = .error flaw) :
    (∃ (fence : Fence) (start : Cursor), fence.delimiter = .brace ∧ cur.Passes fence.left start ∧
      ((∃ h, fragments sw bound (.braces fence cur.offset) start h = .error flaw) ∨
        ∃ fs stop next,
          (∃ h, Yields (fragments sw bound (.braces fence cur.offset) start h) (fs, stop) next) ∧
          flaw = .unbalanced fence cur.offset ∧ 0 < fence.hashes ∧
          next.rest.head? = some '#')) ∨
      ∃ (fence : Fence) (start : Cursor), fence.delimiter = .quote ∧
        cur.Passes fence.left start ∧
        ((flaw = .unclosed fence cur.offset ∧ ¬fence.right <:+: start.rest) ∨
          ∃ inner mid next, fence.Encloses cur start inner mid next ∧
            flaw = .unbalanced fence cur.offset ∧ 0 < fence.hashes ∧
            next.rest.head? = some '#') := by
  rw [body?] at he
  split at he
  · next fence cut hcut =>
    obtain ⟨hd, hleft⟩ := Fence.cut?_passes hcut
    refine .inl ⟨fence, cur.past cut, hd, hleft, ?_⟩
    rcases bind_eq_error_iff.1 he with he | ⟨inner, hinner, he⟩
    · exact .inl ⟨_, he⟩
    · rcases bind_eq_error_iff.1 he with he | ⟨_, -, he⟩
      · exact .inr ⟨inner.value.1, inner.value.2, inner.next, ⟨_, inner, hinner, rfl, rfl⟩,
          checkPadding_eq_error he⟩
      · simp [pure, Except.pure] at he
  · split at he
    · next fence cut hcut =>
      obtain ⟨hd, hleft⟩ := Fence.cut?_passes hcut
      refine .inr ⟨fence, cur.past cut, hd, hleft, ?_⟩
      rcases bind_eq_error_iff.1 he with he | ⟨inner, hinner, he⟩
      · exact .inl (verbatim_error he)
      · rcases bind_eq_error_iff.1 he with he | ⟨_, -, he⟩
        · obtain ⟨mid, hencloses, -⟩ := verbatim_ok hleft hinner
          exact .inr ⟨inner.value.1, mid, inner.next, hencloses, checkPadding_eq_error he⟩
        · simp [pure, Except.pure] at he
    · simp at he

theorem expression_error {h : 4 * cur.rest.length + 2 < bound + 1} {start : Nat}
    (he : expression sw (bound + 1) nested start cur h = .error flaw) :
    (∃ text after phrase e, cur.Passes text after ∧
        ∃ h, call sw bound nested start phrase e after h = .error flaw) ∨
      (∃ (fence : Fence) (inner : Cursor), fence.delimiter = .bar ∧ cur.Passes fence.left inner ∧
        flaw = .unclosed fence cur.offset ∧ ¬fence.right <:+: inner.rest) ∨
      (∃ h, body? sw bound nested cur h = .error flaw) ∨
      flaw = ⟨.invalidExpression sw.char, start⟩ ∧
        ∀ c ∈ cur.rest.head?, Charset.isIdStart c = false ∧ Charset.isSymbol c = false := by
  rw [expression] at he
  split at he
  · next cut hcut =>
    rcases bind_eq_error_iff.1 he with he | ⟨command, -, he⟩
    · exact .inl ⟨cut.piece, cur.past cut, _, _, cur.passes_past cut, _, he⟩
    · simp [pure, Except.pure] at he
  · next hid =>
    split at he
    · next fence cut hcut =>
      obtain ⟨hd, hleft⟩ := Fence.cut?_passes hcut
      rcases bind_eq_error_iff.1 he with he | ⟨phrase, hphrase, he⟩
      · exact .inr (.inl ⟨fence, cur.past cut, hd, hleft, verbatim_error he⟩)
      · obtain ⟨mid, hencloses, -⟩ := verbatim_ok hleft hphrase
        rcases bind_eq_error_iff.1 he with he | ⟨command, -, he⟩
        · exact .inl ⟨_, phrase.next, _, _,
            (hleft.trans hencloses.middle).trans hencloses.right, _, he⟩
        · simp [pure, Except.pure] at he
    · refine .inr (.inr ?_)
      rcases bind_eq_error_iff.1 he with he | ⟨o, -, he⟩
      · exact .inl ⟨_, he⟩
      · cases o with
        | some body => simp [pure, Except.pure] at he
        | none =>
          dsimp only at he
          split at he
          · simp [pure, Except.pure] at he
          · next hsymbol =>
            rw [Lexeme.identifier?_eq_none_iff] at hid
            rw [Lexeme.symbol?_eq_none_iff] at hsymbol
            exact .inr ⟨(Except.error.inj he).symm, fun c hc => ⟨hid c hc, hsymbol c hc⟩⟩

theorem call_error {h : 4 * cur.rest.length + 3 < bound + 1} {start : Nat} {phrase : List Char}
    {e : Enclosing} (he : call sw (bound + 1) nested start phrase e cur h = .error flaw) :
    (∃ h, group? sw bound nested cur h = .error flaw) ∨
      ∃ options mid, (∃ h, Optionally (group? sw bound nested cur h) options mid) ∧
        ∃ h, body? sw bound nested mid h = .error flaw := by
  rw [call] at he
  split at he
  · simp at he
  · rcases bind_eq_error_iff.1 he with he | ⟨o, ho, he⟩
    · exact .inl ⟨_, he⟩
    · rcases bind_eq_error_iff.1 he with he | ⟨b, -, he⟩
      · exact .inr ⟨_, _, ⟨_, optionally_iff.2 ⟨o, ho, rfl, rfl⟩⟩, _, he⟩
      · simp [pure, Except.pure] at he

theorem group?_error {h : 4 * cur.rest.length + 1 < bound + 1}
    (he : group? sw (bound + 1) nested cur h = .error flaw) :
    ∃ start, cur.Passes ['['] start ∧
      ∃ h, tokens sw bound nested cur.offset start h = .error flaw := by
  rw [group?] at he
  split at he
  · next cut hcut =>
    rcases bind_eq_error_iff.1 he with he | ⟨inner, -, he⟩
    · exact ⟨cur.past cut, Lexeme.char?_passes hcut, _, he⟩
    · simp [pure, Except.pure] at he
  · simp at he

theorem token?_error {h : 4 * cur.rest.length + 2 < bound + 1}
    (he : token? sw (bound + 1) nested cur h = .error flaw) :
    atom? sw cur = .error flaw ∨ (∃ h, body? sw bound nested cur h = .error flaw) ∨
      (∃ start, cur.Passes [sw.char] start ∧
        ∃ h, expression sw bound nested cur.offset start h = .error flaw) ∨
      ∃ h, group? sw bound nested cur h = .error flaw := by
  rw [token?] at he
  rcases bind_eq_error_iff.1 he with he | ⟨a, -, he⟩
  · exact .inl he
  · apply Or.inr
    cases a with
    | some a => simp [pure, Except.pure] at he
    | none =>
      rcases bind_eq_error_iff.1 he with he | ⟨b, -, he⟩
      · exact .inl ⟨_, he⟩
      · apply Or.inr
        cases b with
        | some b => simp [pure, Except.pure] at he
        | none =>
          dsimp only at he
          split at he
          · next cut hcut =>
            rcases bind_eq_error_iff.1 he with he | ⟨node, -, he⟩
            · exact .inl ⟨cur.past cut, Lexeme.char?_passes hcut, _, he⟩
            · simp [pure, Except.pure] at he
          · rcases bind_eq_error_iff.1 he with he | ⟨g, -, he⟩
            · exact .inr ⟨_, he⟩
            · cases g with
              | some g => simp [pure, Except.pure] at he
              | none => simp [pure, Except.pure] at he

theorem tokens_error {h : 4 * start.rest.length + 3 < bound + 1} {opener : Nat}
    (he : tokens sw (bound + 1) nested opener start h = .error flaw) :
    ∃ blanks cur, start.Passes blanks cur ∧
      ((∃ h, token? sw bound nested cur h = .error flaw) ∨
        (∃ t after, (∃ h, Finds (token? sw bound nested cur h) t after) ∧
          ∃ h, tokens sw bound nested opener after h = .error flaw) ∨
        flaw = ⟨.unclosed "[" "]", opener⟩ ∧ NoToken sw cur.rest ∧ cur.rest.head? ≠ some ']' ∧
          ∀ c ∈ cur.rest.head?, Charset.isBlank c = false) := by
  rw [tokens] at he
  refine ⟨_, start.skip Charset.isBlank, start.passes_skip _, ?_⟩
  rcases bind_eq_error_iff.1 he with he | ⟨o, ho, he⟩
  · exact .inl ⟨_, he⟩
  · apply Or.inr
    cases o with
    | some first =>
      rcases bind_eq_error_iff.1 he with he | ⟨tail, -, he⟩
      · exact .inl ⟨first.value, first.next, ⟨_, first, ho, rfl, rfl⟩, _, he⟩
      · simp [pure, Except.pure] at he
    | none =>
      dsimp only at he
      split at he
      · simp [pure, Except.pure] at he
      · next hclose =>
        exact .inr ⟨(Except.error.inj he).symm, token?_eq_none_iff.1 ho,
          Lexeme.char?_eq_none_iff.1 hclose, head_dropWhile _ _⟩

end Parser

/-! ## The culprit -/

/-- What stands from the place of an error on, for each text that the error may have. -/
inductive Culprit (sw : Switch) : (rest : List Char) → (message : String) → Prop
  /-- Nothing that a command, a block or a text can start with follows the switch. -/
  | expression {after : List Char}
      (head : ∀ c ∈ after.head?, Charset.isIdStart c = false ∧ Charset.isSymbol c = false) :
      Culprit sw ([sw.char] ++ after) ("invalid expression after `" ++ sw.text ++ "`")
  /-- The right text of a fence of quotes or bars does not occur after the left one. -/
  | verbatim {fence : Fence} {after : List Char} (delimiter : fence.delimiter ≠ .brace)
      (absent : ¬flip fence.left <:+: after) :
      Culprit sw (fence.left ++ after)
        ("unclosed `" ++ String.ofList fence.left ++ "`: cannot match `" ++
          String.ofList (flip fence.left) ++ "`")
  /-- From some place after the left text of a fence of braces on, neither its right text nor the
  switch occurs. -/
  | braces {fence : Fence} {inner after : List Char} (delimiter : fence.delimiter = .brace)
      (switchless : sw.char ∉ after) (absent : ¬flip fence.left <:+: after) :
      Culprit sw (fence.left ++ (inner ++ after))
        ("unclosed `" ++ String.ofList fence.left ++ "`: cannot match `" ++
          String.ofList (flip fence.left) ++ "`")
  /-- The right text of a padded fence occurs with one more `#` after it. -/
  | padding {fence : Fence} {inner after : List Char} (delimiter : fence.delimiter ≠ .bar)
      (padded : 0 < fence.hashes) :
      Culprit sw (fence.left ++ (inner ++ (flip fence.left ++ '#' :: after)))
        ("unbalanced `" ++ String.ofList fence.left ++ "`: `" ++
          String.ofList (flip fence.left) ++ "` is followed by another `#`")
  /-- At some place after the bracket, not at a blank, neither a token nor the closing bracket
  stands. -/
  | bracket {inner after : List Char} (head : ∀ c ∈ after.head?, Charset.isBlank c = false)
      (tokenless : NoToken sw after) (absent : after.head? ≠ some ']') :
      Culprit sw (['['] ++ (inner ++ after)) "unclosed `[`: cannot match `]`"
  /-- The longest numeral is out of range, which is noticed at a column of it. -/
  | number {numeral : Numeral} {rest : List Char} {column : Nat} (longest : numeral.IsLongest rest)
      (refused : Number.ofNumeral numeral = .error column)
      (inside : column ≤ numeral.chars.length) :
      Culprit sw rest
        ("invalid number `" ++ String.ofList numeral.chars ++
          "`: number out of range at line 1 column " ++ toString column)

/-- The flaw is pinned to a place of the source where the culprit stands. -/
def Flaw.Blames (sw : Switch) (source : String) (flaw : Flaw) : Prop :=
  ∃ cur : Cursor, cur.In source ∧ cur.offset = flaw.offset ∧
    Culprit sw cur.rest flaw.fault.message

section Blames

variable {fence : Fence} (hin : cur.In source)

include hin

theorem Flaw.unclosed_blames_verbatim (hleft : cur.Passes fence.left start)
    (hd : fence.delimiter ≠ .brace) (habsent : ¬fence.right <:+: start.rest) :
    (Flaw.unclosed fence cur.offset).Blames sw source := by
  refine ⟨cur, hin, rfl, ?_⟩
  rw [← fence.flip_left] at habsent
  have h : Culprit sw _ _ := .verbatim hd habsent
  rw [fence.flip_left] at h
  rwa [hleft.rest_eq]

theorem Flaw.unclosed_blames_braces {inner : List Char} (hleft : cur.Passes fence.left start)
    (hinner : start.Passes inner next) (hd : fence.delimiter = .brace)
    (hswitch : sw.char ∉ next.rest) (habsent : ¬fence.right <:+: next.rest) :
    (Flaw.unclosed fence cur.offset).Blames sw source := by
  refine ⟨cur, hin, rfl, ?_⟩
  rw [← fence.flip_left] at habsent
  have h : Culprit sw (fence.left ++ (inner ++ next.rest)) _ := .braces hd hswitch habsent
  rw [fence.flip_left] at h
  rwa [hleft.rest_eq, hinner.rest_eq]

theorem Flaw.unbalanced_blames {inner : List Char} (hleft : cur.Passes fence.left start)
    (hinner : start.Passes inner mid) (hright : mid.Passes fence.right next)
    (hd : fence.delimiter ≠ .bar) (hpadded : 0 < fence.hashes)
    (hhead : next.rest.head? = some '#') :
    (Flaw.unbalanced fence cur.offset).Blames sw source := by
  refine ⟨cur, hin, rfl, ?_⟩
  obtain ⟨after, hafter⟩ := List.head?_eq_some_iff.1 hhead
  have h : Culprit sw (fence.left ++ (inner ++ (flip fence.left ++ '#' :: after))) _ :=
    .padding hd hpadded
  rw [fence.flip_left] at h
  rwa [hleft.rest_eq, hinner.rest_eq, hright.rest_eq, hafter]

theorem Flaw.atom_blames (he : atom? sw cur = .error flaw) : flaw.Blames sw source := by
  obtain ⟨numeral, column, hlongest, -, hcolumn, rfl⟩ := atom?_eq_error he
  exact ⟨cur, hin, rfl, .number hlongest hcolumn (Number.column_le_of_ofNumeral hcolumn)⟩

end Blames

/-! ## One step of each reader -/

theorem Reaches.passes (hin : cur.In source) (hnext : next.In source)
    (h : Reaches source cur.offset next.offset) : ∃ text, cur.Passes text next := by
  obtain ⟨text, hcovers⟩ := h
  exact ⟨text.toList, hin.passes_to hnext hcovers⟩

theorem Body.Stands.passes {body : Body} (hin : cur.In source)
    (h : body.Stands sw source nested cur next) : ∃ text, cur.Passes text next := by
  obtain ⟨hnext, hfills, -⟩ := h
  cases body with
  | block block => exact (block.sits hfills).reaches.passes hin hnext
  | text t => exact (Text.sits hfills).reaches.passes hin hnext

theorem Fragment.Follows.passes {f : Fragment} (hin : start.In source)
    (hswitch : start.Passes [sw.char] cur) (h : f.Follows sw source nested start cur next) :
    next.In source ∧ ∃ text, start.Passes text next := by
  rcases h with ⟨c, -, hnext, hfills, -⟩ | ⟨body, -, hbody⟩
  · exact ⟨hnext, (c.sits hfills).reaches.passes hin hnext⟩
  · obtain ⟨text, hp⟩ := hbody.passes (hin.passes hswitch)
    exact ⟨hbody.1, [sw.char] ++ text, hswitch.trans hp⟩

/-- The cursor is in the scope: the left fence of braces was passed at the opening offset. -/
def Parser.Scope.Opened (source : String) (cur : Cursor) : Scope → Prop
  | .document => True
  | .braces fence opener =>
    ∃ (start inner : Cursor) (text : List Char), start.In source ∧ start.offset = opener ∧
      fence.delimiter = .brace ∧ start.Passes fence.left inner ∧ inner.Passes text cur

theorem Parser.Scope.Opened.passes {scope : Scope} {text : List Char}
    (h : scope.Opened source cur) (hp : cur.Passes text next) : scope.Opened source next := by
  cases scope with
  | document => trivial
  | braces fence opener =>
    obtain ⟨start, inner, before, hin, ho, hd, hleft, hbefore⟩ := h
    exact ⟨start, inner, before ++ text, hin, ho, hd, hleft, hbefore.trans hp⟩

/-- The flaws that the readers find under a bound are pinned to a culprit. -/
structure Blaming (sw : Switch) (source : String) (bound : Nat) : Prop where
  fragments_blame {scope : Scope} {cur : Cursor} {h : 4 * cur.rest.length < bound} {flaw : Flaw}
    (hin : cur.In source) (hopened : scope.Opened source cur)
    (he : fragments sw bound scope cur h = .error flaw) : flaw.Blames sw source
  body_blames {nested : Bool} {cur : Cursor} {h : 4 * cur.rest.length + 1 < bound} {flaw : Flaw}
    (hin : cur.In source) (he : body? sw bound nested cur h = .error flaw) :
    flaw.Blames sw source
  expression_blames {nested : Bool} {start cur : Cursor} {h : 4 * cur.rest.length + 2 < bound}
    {flaw : Flaw} (hin : start.In source) (hswitch : start.Passes [sw.char] cur)
    (he : expression sw bound nested start.offset cur h = .error flaw) : flaw.Blames sw source
  call_blames {nested : Bool} {start : Nat} {phrase : List Char} {e : Enclosing} {cur : Cursor}
    {h : 4 * cur.rest.length + 3 < bound} {flaw : Flaw} (hin : cur.In source)
    (he : call sw bound nested start phrase e cur h = .error flaw) : flaw.Blames sw source
  group_blames {nested : Bool} {cur : Cursor} {h : 4 * cur.rest.length + 1 < bound} {flaw : Flaw}
    (hin : cur.In source) (he : group? sw bound nested cur h = .error flaw) :
    flaw.Blames sw source
  token_blames {nested : Bool} {cur : Cursor} {h : 4 * cur.rest.length + 2 < bound} {flaw : Flaw}
    (hin : cur.In source) (he : token? sw bound nested cur h = .error flaw) :
    flaw.Blames sw source
  tokens_blame {nested : Bool} {opener start cur : Cursor} {text : List Char}
    {h : 4 * cur.rest.length + 3 < bound} {flaw : Flaw} (hin : opener.In source)
    (hopen : opener.Passes ['['] start) (hp : start.Passes text cur)
    (he : tokens sw bound nested opener.offset cur h = .error flaw) : flaw.Blames sw source

namespace Blaming

variable (hb : Blaming sw source bound)

include hb

theorem fragments_blame_step {scope : Scope} {h : 4 * cur.rest.length < bound + 1}
    (hin : cur.In source) (hopened : scope.Opened source cur)
    (he : fragments sw (bound + 1) scope cur h = .error flaw) : flaw.Blames sw source := by
  rcases fragments_eq_error_iff.1 he with ⟨fence, opener, rfl, rfl, hswitch, habsent⟩ |
    ⟨inner, mid, start, hinner, -, hswitch, ⟨_, he⟩ | ⟨f, after, ⟨_, hf⟩, _, he⟩⟩
  · obtain ⟨start, inner, text, hstart, rfl, hd, hleft, hp⟩ := hopened
    exact Flaw.unclosed_blames_braces hstart hleft hp hd hswitch habsent
  · exact hb.expression_blames (hin.passes hinner) hswitch he
  -- the scope was opened further back, so what was read since is passed on the way here
  · have hmid := hin.passes hinner
    have hfollows := (sound sw source bound).expression_follows hmid hswitch hf
    obtain ⟨hafter, text, hp⟩ := hfollows.passes hmid hswitch
    exact hb.fragments_blame hafter ((hopened.passes hinner).passes hp) he

theorem body_blames_step {h : 4 * cur.rest.length + 1 < bound + 1} (hin : cur.In source)
    (he : body? sw (bound + 1) nested cur h = .error flaw) : flaw.Blames sw source := by
  rcases body?_error he with ⟨fence, start, hd, hleft, ⟨_, he⟩ |
    ⟨fs, stop, next, ⟨_, hy⟩, rfl, hpadded, hhead⟩⟩ |
    ⟨fence, start, hd, hleft, ⟨rfl, habsent⟩ | ⟨inner, mid, next, hencloses, rfl, hpadded, hhead⟩⟩
  · have hopened : (Scope.braces fence cur.offset).Opened source start :=
      ⟨cur, start, [], hin, rfl, hd, hleft, .refl start⟩
    exact hb.fragments_blame (hin.passes hleft) hopened he
  · have hstart := hin.passes hleft
    obtain ⟨mid, rfl, hmid, hright, -, htile, -⟩ :=
      (sound sw source bound).fragments_stand hstart hy
    have hreaches := (Fragment.sitInOrder fs ⟨_, hstart.covers_ofList (.refl start)⟩ htile).reaches
    obtain ⟨text, hp⟩ := hreaches.passes hstart hmid
    exact Flaw.unbalanced_blames hin hleft hp hright (by simp [hd]) hpadded hhead
  · exact Flaw.unclosed_blames_verbatim hin hleft (by simp [hd]) habsent
  · exact Flaw.unbalanced_blames hin hencloses.left hencloses.middle hencloses.right (by simp [hd])
      hpadded hhead

theorem expression_blames_step {h : 4 * cur.rest.length + 2 < bound + 1} (hin : start.In source)
    (hswitch : start.Passes [sw.char] cur)
    (he : expression sw (bound + 1) nested start.offset cur h = .error flaw) :
    flaw.Blames sw source := by
  have hcur := hin.passes hswitch
  rcases expression_error he with ⟨text, after, phrase, e, hp, _, he⟩ |
    ⟨fence, inner, hd, hleft, rfl, habsent⟩ | ⟨_, he⟩ | ⟨rfl, hhead⟩
  · exact hb.call_blames (hcur.passes hp) he
  · exact Flaw.unclosed_blames_verbatim hcur hleft (by simp [hd]) habsent
  · exact hb.body_blames hcur he
  · refine ⟨start, hin, rfl, ?_⟩
    rw [hswitch.rest_eq]
    exact .expression hhead

theorem call_blames_step {h : 4 * cur.rest.length + 3 < bound + 1} {offset : Nat}
    {phrase : List Char} {e : Enclosing} (hin : cur.In source)
    (he : call sw (bound + 1) nested offset phrase e cur h = .error flaw) :
    flaw.Blames sw source := by
  rcases call_error he with ⟨_, he⟩ | ⟨options, mid, ⟨_, ho⟩, _, he⟩
  · exact hb.group_blames hin he
  · exact hb.body_blames ((sound sw source bound).group_stands_optional hin ho).1 he

theorem group_blames_step {h : 4 * cur.rest.length + 1 < bound + 1} (hin : cur.In source)
    (he : group? sw (bound + 1) nested cur h = .error flaw) : flaw.Blames sw source := by
  obtain ⟨start, hopen, _, he⟩ := group?_error he
  exact hb.tokens_blame hin hopen (.refl start) he

theorem token_blames_step {h : 4 * cur.rest.length + 2 < bound + 1} (hin : cur.In source)
    (he : token? sw (bound + 1) nested cur h = .error flaw) : flaw.Blames sw source := by
  rcases token?_error he with he | ⟨_, he⟩ | ⟨start, hswitch, _, he⟩ | ⟨_, he⟩
  · exact Flaw.atom_blames hin he
  · exact hb.body_blames hin he
  · exact hb.expression_blames hin hswitch he
  · exact hb.group_blames hin he

theorem tokens_blame_step {opener : Cursor} {text : List Char}
    {h : 4 * cur.rest.length + 3 < bound + 1} (hin : opener.In source)
    (hopen : opener.Passes ['['] start) (hp : start.Passes text cur)
    (he : tokens sw (bound + 1) nested opener.offset cur h = .error flaw) :
    flaw.Blames sw source := by
  have hcur := (hin.passes hopen).passes hp
  obtain ⟨blanks, mid, hblanks, ⟨_, he⟩ | ⟨t, after, ⟨_, ht⟩, _, he⟩ |
    ⟨rfl, hno, hclose, hhead⟩⟩ := tokens_error he
  · exact hb.token_blames (hcur.passes hblanks) he
  · have hmid := hcur.passes hblanks
    obtain ⟨hafter, hfills, -⟩ := (sound sw source bound).token_stands hmid ht
    obtain ⟨more, hmore⟩ := (t.sits hfills).reaches.passes hmid hafter
    exact hb.tokens_blame hin hopen ((hp.trans hblanks).trans hmore) he
  · refine ⟨opener, hin, rfl, ?_⟩
    rw [hopen.rest_eq, (hp.trans hblanks).rest_eq]
    exact .bracket hhead hno hclose

end Blaming

/-- Flaws are pinned to a culprit, whatever the bound. -/
theorem blaming (sw : Switch) (source : String) (bound : Nat) : Blaming sw source bound := by
  induction bound with
  | zero =>
    -- no text is short enough for a bound of zero
    constructor <;> intros <;> omega
  | succ bound ih =>
    exact
      { fragments_blame := ih.fragments_blame_step
        body_blames := ih.body_blames_step
        expression_blames := ih.expression_blames_step
        call_blames := ih.call_blames_step
        group_blames := ih.group_blames_step
        token_blames := ih.token_blames_step
        tokens_blame := ih.tokens_blame_step }

/-! ## Refused sources -/

/-- The error of a source that is not parsed is one of the grammar, has a place in the source and
the position of that place, and the culprit stands there. -/
theorem parse_error_culprit {e : Error} (h : parse sw source = .error e) :
    ∃ (fault : GrammarFault) (cur : Cursor), cur.In source ∧
      cur.offset ≤ source.utf8ByteSize ∧
      e = .grammar fault ⟨cur.offset, some (Position.ofOffset source cur.offset)⟩ ∧
      Culprit sw cur.rest e.message := by
  obtain ⟨flaw, _, he, rfl⟩ := parse_eq_error_iff.1 h
  have hopened : Scope.document.Opened source (Cursor.start source) := trivial
  obtain ⟨cur, hin, ho, hculprit⟩ :=
    (blaming sw source _).fragments_blame (Cursor.start_in source) hopened he
  refine ⟨flaw.fault, cur, hin, hin.offset_le, ?_, hculprit⟩
  rw [ho]
  rfl

theorem eq_error_of_match {α : Type} {r : Except Error α} {e : Error}
    (h : (match r with | .ok _ => false | .error found => found == e) = true) : r = .error e := by
  cases r with
  | ok a => simp at h
  | error found => rw [beq_iff_eq.1 h]

theorem parse_error_culprit_unbalanced :
    ∃ e, parse .standard "a@b#\x7bx\x7d##" = .error e ∧ e.offset? = some 3 ∧
      ∃ (fault : GrammarFault) (cur : Cursor), cur.In "a@b#\x7bx\x7d##" ∧
        cur.offset ≤ "a@b#\x7bx\x7d##".utf8ByteSize ∧
        e = .grammar fault ⟨cur.offset, some (Position.ofOffset "a@b#\x7bx\x7d##" cur.offset)⟩ ∧
        Culprit .standard cur.rest e.message := by
  have herror : parse .standard "a@b#\x7bx\x7d##" =
      .error (.grammar (.unbalanced "#\x7b" "\x7d#") ⟨3, some ⟨1, 4⟩⟩) :=
    eq_error_of_match (by decide +kernel)
  exact ⟨_, herror, rfl, parse_error_culprit herror⟩

end Prosemark
