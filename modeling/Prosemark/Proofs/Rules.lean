import Prosemark.Proofs.Break

/-!
# The rules that the readers follow

For each reader of the grammar, what it yields in terms of what the readers that it calls yield
(`fragments_yields_iff`, `body?_finds_iff`, `expression_yields_iff`, `call_yields_iff`,
`group?_finds_iff`, `token?_finds_iff`, `tokens_yields_iff`). The order in which alternatives are
tried shows in two rules only: a symbol must not open a fence, and a number must not start like an
operator. Otherwise no two alternatives start alike.

From left to right the rules say what the parts of a tree are, from right to left that such parts
are found.
-/

namespace Prosemark

namespace Parser

variable {ε α β : Type} {limit : Nat}

/-! ## Results -/

theorem bind_eq_ok_iff {r : Except ε α} {f : α → Except ε β} {b : β} :
    r >>= f = .ok b ↔ ∃ a, r = .ok a ∧ f a = .ok b := by
  cases r with
  | error e => simp [bind, Except.bind]
  | ok a => simp [bind, Except.bind]

theorem bind_eq_error_iff {r : Except ε α} {f : α → Except ε β} {e : ε} :
    r >>= f = .error e ↔ r = .error e ∨ ∃ a, r = .ok a ∧ f a = .error e := by
  cases r with
  | error e => simp [bind, Except.bind]
  | ok a => simp [bind, Except.bind]

/-- The reader ends with the value, at the cursor `next`. -/
def Yields (r : Except Flaw (Step limit α)) (value : α) (next : Cursor) : Prop :=
  ∃ step, r = .ok step ∧ step.value = value ∧ step.next = next

/-- The reader finds the value, and ends at the cursor `next`. -/
def Finds (r : Except Flaw (Option (Step limit α))) (value : α) (next : Cursor) : Prop :=
  ∃ step, r = .ok (some step) ∧ step.value = value ∧ step.next = next

theorem yields_ok_iff {step : Step limit α} {value : α} {next : Cursor} :
    Yields (.ok step) value next ↔ step.value = value ∧ step.next = next := by
  simp [Yields]

theorem yields_bind_iff {r : Except Flaw β} {f : β → Except Flaw (Step limit α)} {value : α}
    {next : Cursor} : Yields (r >>= f) value next ↔ ∃ b, r = .ok b ∧ Yields (f b) value next := by
  constructor
  · rintro ⟨step, h, hvalue, hnext⟩
    obtain ⟨b, hb, hf⟩ := bind_eq_ok_iff.1 h
    exact ⟨b, hb, step, hf, hvalue, hnext⟩
  · rintro ⟨b, hb, step, hf, hvalue, hnext⟩
    exact ⟨step, bind_eq_ok_iff.2 ⟨b, hb, hf⟩, hvalue, hnext⟩

theorem finds_bind_iff {r : Except Flaw β} {f : β → Except Flaw (Option (Step limit α))}
    {value : α} {next : Cursor} :
    Finds (r >>= f) value next ↔ ∃ b, r = .ok b ∧ Finds (f b) value next := by
  constructor
  · rintro ⟨step, h, hvalue, hnext⟩
    obtain ⟨b, hb, hf⟩ := bind_eq_ok_iff.1 h
    exact ⟨b, hb, step, hf, hvalue, hnext⟩
  · rintro ⟨b, hb, step, hf, hvalue, hnext⟩
    exact ⟨step, bind_eq_ok_iff.2 ⟨b, hb, hf⟩, hvalue, hnext⟩

variable {sw : Switch} {bound : Nat} {nested : Bool} {scope : Scope} {cur next : Cursor}

/-! ## Fragments -/

theorem fragments_yields_iff {h : 4 * cur.rest.length < bound + 1} {fs : List Fragment}
    {stop : Nat} :
    Yields (fragments sw (bound + 1) scope cur h) (fs, stop) next ↔
      ∃ inner mid, cur.Passes inner mid ∧ IsProse sw scope.closing inner ∧
        (mid.Passes scope.right next ∧ (scope.closing = none → next.rest = []) ∧
            fs = prose cur.offset inner ∧ stop = mid.offset ∨
          ∃ start f after tail, mid.Passes [sw.char] start ∧
            (∃ h, Yields (expression sw bound scope.isNested mid.offset start h) f after) ∧
            (∃ h, Yields (fragments sw bound scope after h) (tail, stop) next) ∧
            fs = prose cur.offset inner ++ f :: tail) := by
  rw [fragments, yields_bind_iff]
  constructor
  · rintro ⟨brk, hbrk, hy⟩
    obtain ⟨hprose, hmark⟩ := Scope.nextBreak_ok hbrk
    refine ⟨brk.inner, ⟨cur.offset + width brk.inner, brk.mark ++ brk.rest⟩,
      Cursor.passes_of_rest_eq brk.whole.symm, hprose, ?_⟩
    dsimp only at hy
    split at hy
    · next hsw =>
      simp only [yields_bind_iff, pure, Except.pure, yields_ok_iff] at hy
      obtain ⟨node, hnode, tail, htail, hvalue, rfl⟩ := hy
      obtain ⟨rfl, rfl⟩ := Prod.mk.inj hvalue
      rw [Scope.isSwitch_iff] at hsw
      refine .inr ⟨⟨cur.offset + width brk.inner + width brk.mark, brk.rest⟩, node.value,
        node.next, tail.value.1, ?_, ⟨_, node, hnode, rfl, rfl⟩, ⟨_, tail, htail, rfl, rfl⟩, rfl⟩
      rw [← hsw]
      exact Cursor.passes_of_rest_eq rfl
    · next hsw =>
      simp only [pure, Except.pure, yields_ok_iff] at hy
      obtain ⟨hvalue, rfl⟩ := hy
      obtain ⟨rfl, rfl⟩ := Prod.mk.inj hvalue
      rw [Scope.isSwitch_iff] at hsw
      obtain ⟨hright, hend⟩ := hmark.resolve_left hsw
      refine .inl ⟨?_, hend, rfl, rfl⟩
      rw [← hright]
      exact Cursor.passes_of_rest_eq rfl
  · rintro ⟨inner, mid, hinner, hprose, ⟨hright, hend, rfl, rfl⟩ |
      ⟨start, f, after, tail, hswitch, ⟨_, node, hnode, rfl, rfl⟩, ⟨_, rest, hrest, hvalue, rfl⟩,
        rfl⟩⟩
    · obtain ⟨brk, hbrk, hbinner, hmark, hbrest⟩ := Scope.nextBreak_of_passes hinner hright hprose
        (.inr ⟨rfl, hend⟩)
      refine ⟨brk, hbrk, ?_⟩
      have hsw : ¬brk.isSwitch sw = true := by
        rw [Scope.isSwitch_iff, hmark]
        exact scope.right_ne_switch sw
      dsimp only
      rw [dif_neg hsw]
      refine ⟨_, rfl, ?_, ?_⟩
      · rw [hbinner, hinner.offset_eq]
      · simp only [hbinner, hmark, hbrest, ← hinner.offset_eq]
        exact hright.eq_mk.symm
    · obtain ⟨brk, hbrk, hbinner, hsw, hmid, rfl⟩ :=
        Scope.nextBreak_of_switch hinner hswitch hprose
      refine ⟨brk, hbrk, ?_⟩
      rw [hmid] at hnode
      dsimp only
      rw [dif_pos hsw]
      refine yields_bind_iff.2 ⟨node, hnode, yields_bind_iff.2 ⟨rest, hrest, _, rfl, ?_, rfl⟩⟩
      rw [hvalue, hbinner]

/-! ## Blocks and quoted texts -/

theorem body?_finds_iff {h : 4 * cur.rest.length + 1 < bound + 1} {body : Body} :
    Finds (body? sw (bound + 1) nested cur h) body next ↔
      (∃ (fence : Fence) (start : Cursor) (fs : List Fragment) (stop : Nat),
        fence.delimiter = .brace ∧ cur.Passes fence.left start ∧
        (∃ h, Yields (fragments sw bound (.braces fence cur.offset) start h) (fs, stop) next) ∧
        fence.Balanced nested next.rest ∧
        body = .block ⟨⟨start.offset, stop⟩, fs, fence.enclosing⟩) ∨
      ∃ (fence : Fence) (start mid : Cursor) (inner : List Char),
        fence.delimiter = .quote ∧ fence.Encloses cur start inner mid next ∧
        fence.Balanced nested next.rest ∧
        body = .text ⟨⟨start.offset, mid.offset⟩, String.ofList inner, fence.enclosing⟩ := by
  rw [body?]
  constructor
  · intro hf
    split at hf
    · next fence cut hcut =>
      obtain ⟨hd, hleft⟩ := Fence.cut?_passes hcut
      simp only [finds_bind_iff] at hf
      obtain ⟨inner, hinner, _, hpad, step, hstep, rfl, rfl⟩ := hf
      obtain rfl := Option.some.inj (Except.ok.inj hstep)
      exact .inl ⟨fence, cur.past cut, inner.value.1, inner.value.2, hd, hleft,
        ⟨_, inner, hinner, rfl, rfl⟩, checkPadding_eq_ok_iff.1 hpad, rfl⟩
    · split at hf
      · next fence cut hcut =>
        obtain ⟨hd, hleft⟩ := Fence.cut?_passes hcut
        simp only [finds_bind_iff] at hf
        obtain ⟨inner, hinner, _, hpad, step, hstep, rfl, rfl⟩ := hf
        obtain rfl := Option.some.inj (Except.ok.inj hstep)
        obtain ⟨mid, hencloses, hoffset⟩ := verbatim_ok hleft hinner
        refine .inr ⟨fence, cur.past cut, mid, inner.value.1, hd, hencloses,
          checkPadding_eq_ok_iff.1 hpad, ?_⟩
        rw [hoffset]
        rfl
      · obtain ⟨step, hstep, -⟩ := hf
        simp at hstep
  · rintro (⟨fence, start, fs, stop, hd, hleft, ⟨_, inner, hinner, hvalue, rfl⟩, hpad, rfl⟩ |
      ⟨fence, start, mid, inner, hd, hencloses, hpad, rfl⟩)
    · obtain ⟨cut, hcut, rfl⟩ := Fence.cut?_of_passes hleft
      rw [← hd, hcut]
      simp only [finds_bind_iff]
      refine ⟨inner, hinner, (), checkPadding_eq_ok_iff.2 hpad, _, rfl, ?_, rfl⟩
      simp only [Step.map, Step.weaken, hvalue]
    · obtain ⟨cut, hcut, rfl⟩ := Fence.cut?_of_passes hencloses.left
      -- braces are tried first, but no text opens with fences of two delimiters
      have hbrace : Fence.cut? .brace cur.rest = none := by
        rw [Fence.cut?_eq_none_iff]
        intro hopens
        have := hopens.delimiter_unique hencloses.left.opens
        simp [hd] at this
      obtain ⟨step, hstep, hvalue, rfl⟩ := verbatim_of_encloses hencloses cur.offset
      rw [hbrace, ← hd, hcut]
      simp only [finds_bind_iff]
      refine ⟨step, hstep, (), checkPadding_eq_ok_iff.2 hpad, _, rfl, ?_, rfl⟩
      simp only [Step.map, Step.weaken, hvalue]

theorem body?_eq_none_iff {h : 4 * cur.rest.length + 1 < bound} :
    body? sw bound nested cur h = .ok none ↔ ¬Opens .brace cur.rest ∧ ¬Opens .quote cur.rest := by
  obtain ⟨bound, rfl⟩ := Nat.exists_eq_add_of_lt h
  rw [body?]
  split
  · next fence cut hcut =>
    simp [bind_eq_ok_iff, pure, Except.pure, opens_of_cut? hcut]
  · next hbrace =>
    rw [Fence.cut?_eq_none_iff] at hbrace
    split
    · next fence cut hcut =>
      simp [bind_eq_ok_iff, pure, Except.pure, opens_of_cut? hcut]
    · next hquote =>
      rw [Fence.cut?_eq_none_iff] at hquote
      simp [hbrace, hquote]

theorem Finds.opens {h : 4 * cur.rest.length + 1 < bound} {body : Body}
    (hf : Finds (body? sw bound nested cur h) body next) :
    ∃ d, d ≠ .bar ∧ Opens d cur.rest := by
  obtain ⟨step, hstep, -⟩ := hf
  have hsome : ¬body? sw bound nested cur h = .ok none := by
    rw [hstep]
    simp
  rw [body?_eq_none_iff, ← not_or, Classical.not_not] at hsome
  rcases hsome with hbrace | hquote
  · exact ⟨.brace, by decide, hbrace⟩
  · exact ⟨.quote, by decide, hquote⟩

/-! ## Commands -/

/-- The optional part of a command that is read at `cur` ends at `next`. -/
def Optionally {cur : Cursor} (r : Except Flaw (Option (Step cur.rest.length α)))
    (value : Option α) (next : Cursor) : Prop :=
  (r = .ok none ∧ value = none ∧ next = cur) ∨ ∃ a, value = some a ∧ Finds r a next

theorem optionally_iff {r : Except Flaw (Option (Step cur.rest.length α))} {value : Option α} :
    Optionally r value next ↔
      ∃ o, r = .ok o ∧ (Step.orStay cur o).value = value ∧ (Step.orStay cur o).next = next := by
  constructor
  · rintro (⟨hr, rfl, rfl⟩ | ⟨a, rfl, step, hr, rfl, rfl⟩)
    · exact ⟨none, hr, rfl, rfl⟩
    · exact ⟨some step, hr, rfl, rfl⟩
  · rintro ⟨o, hr, rfl, rfl⟩
    cases o with
    | none => exact .inl ⟨hr, rfl, rfl⟩
    | some step => exact .inr ⟨step.value, rfl, step, hr, rfl, rfl⟩

theorem call_yields_iff {h : 4 * cur.rest.length + 3 < bound + 1} {start : Nat}
    {phrase : List Char} {e : Enclosing} {c : Command} :
    Yields (call sw (bound + 1) nested start phrase e cur h) c next ↔
      (phrase = [] ∧ next = cur ∧ c = ⟨⟨start, cur.offset⟩, "", e, none, none⟩) ∨
        phrase ≠ [] ∧ ∃ options mid body,
          (∃ h, Optionally (group? sw bound nested cur h) options mid) ∧
          (∃ h, Optionally (body? sw bound nested mid h) body next) ∧
          c = ⟨⟨start, next.offset⟩, String.ofList phrase, e, options, body⟩ := by
  rw [call]
  split
  · next hnil =>
    simp only [hnil, yields_ok_iff, true_and, ne_eq, not_true_eq_false, false_and, or_false]
    constructor
    · rintro ⟨rfl, rfl⟩
      exact ⟨rfl, rfl⟩
    · rintro ⟨rfl, rfl⟩
      exact ⟨rfl, rfl⟩
  · next hne =>
    simp only [yields_bind_iff]
    constructor
    · rintro ⟨o, ho, b, hb, step, hstep, rfl, rfl⟩
      obtain rfl := Except.ok.inj hstep
      exact .inr ⟨hne, _, _, _, ⟨_, optionally_iff.2 ⟨o, ho, rfl, rfl⟩⟩,
        ⟨_, optionally_iff.2 ⟨b, hb, rfl, rfl⟩⟩, rfl⟩
    · rintro (⟨hnil, -⟩ | ⟨-, _, _, _, ⟨_, hoptions⟩, ⟨_, hbody⟩, rfl⟩)
      · exact absurd hnil hne
      · obtain ⟨o, ho, rfl, rfl⟩ := optionally_iff.1 hoptions
        obtain ⟨b, hb, rfl, rfl⟩ := optionally_iff.1 hbody
        exact ⟨o, ho, b, hb, _, rfl, rfl, rfl⟩

theorem expression_yields_iff {h : 4 * cur.rest.length + 2 < bound + 1} {start : Nat}
    {f : Fragment} :
    Yields (expression sw (bound + 1) nested start cur h) f next ↔
      (∃ (phrase : List Char) (after : Cursor) (c : Command),
        cur.Passes phrase after ∧ Lexeme.IsIdentifier phrase ∧
        (∀ c ∈ after.rest.head?, Charset.isIdContinue c = false) ∧
        (∃ h, Yields (call sw bound nested start phrase .unfenced after h) c next) ∧
        f = .command c) ∨
      (∃ (fence : Fence) (inner mid after : Cursor) (phrase : List Char) (c : Command),
        fence.delimiter = .bar ∧ fence.Encloses cur inner phrase mid after ∧
        (∃ h, Yields (call sw bound nested start phrase fence.enclosing after h) c next) ∧
        f = .command c) ∨
      (∃ body, (∃ h, Finds (body? sw bound nested cur h) body next) ∧ f = body.toFragment) ∨
      ∃ c, cur.Passes [c] next ∧ Charset.isIdStart c = false ∧ Charset.isSymbol c = true ∧
        (∀ d, ¬Opens d cur.rest) ∧
        f = .command ⟨⟨start, next.offset⟩, String.ofList [c], .unfenced, none, none⟩ := by
  rw [expression]
  constructor
  · intro hy
    split at hy
    · next cut hcut =>
      obtain ⟨hid, hnext⟩ := Lexeme.identifier?_piece hcut
      simp only [yields_bind_iff] at hy
      obtain ⟨command, hcommand, step, hstep, rfl, rfl⟩ := hy
      obtain rfl := Except.ok.inj hstep
      exact .inl ⟨cut.piece, cur.past cut, command.value, cur.passes_past cut, hid, hnext,
        ⟨_, command, hcommand, rfl, rfl⟩, rfl⟩
    · next hid =>
      rw [Lexeme.identifier?_eq_none_iff] at hid
      apply Or.inr
      split at hy
      · next fence cut hcut =>
        obtain ⟨hd, hleft⟩ := Fence.cut?_passes hcut
        simp only [yields_bind_iff] at hy
        obtain ⟨phrase, hphrase, command, hcommand, step, hstep, rfl, rfl⟩ := hy
        obtain rfl := Except.ok.inj hstep
        obtain ⟨mid, hencloses, -⟩ := verbatim_ok hleft hphrase
        exact .inl ⟨fence, cur.past cut, mid, phrase.next, phrase.value.1, command.value, hd,
          hencloses, ⟨_, command, hcommand, rfl, rfl⟩, rfl⟩
      · next hbar =>
        rw [Fence.cut?_eq_none_iff] at hbar
        apply Or.inr
        rw [yields_bind_iff] at hy
        obtain ⟨o, ho, hy⟩ := hy
        cases o with
        | some body =>
          obtain ⟨step, hstep, rfl, rfl⟩ := hy
          obtain rfl := Except.ok.inj hstep
          exact .inl ⟨body.value, ⟨_, body, ho, rfl, rfl⟩, rfl⟩
        | none =>
          obtain ⟨hbrace, hquote⟩ := body?_eq_none_iff.1 ho
          dsimp only at hy
          split at hy
          · next cut hcut =>
            obtain ⟨c, hpiece, hc⟩ := Cut.one?_piece hcut
            obtain ⟨rfl, rfl⟩ := yields_ok_iff.1 hy
            refine .inr ⟨c, hpiece ▸ cur.passes_past cut, ?_, hc, ?_, by rw [← hpiece]⟩
            · apply hid c
              rw [← cut.whole, hpiece]
              rfl
            · intro d
              cases d with
              | brace => exact hbrace
              | quote => exact hquote
              | bar => exact hbar
          · obtain ⟨step, hstep, -⟩ := hy
            simp [throw, throwThe, MonadExceptOf.throw] at hstep
  · rintro (⟨phrase, after, c, hphrase, hid, hafter, ⟨_, command, hcommand, rfl, rfl⟩, rfl⟩ |
      ⟨fence, inner, mid, after, phrase, c, hd, hencloses, ⟨_, command, hcommand, rfl, rfl⟩, rfl⟩ |
      ⟨_, ⟨_, body, hbody, rfl, rfl⟩, rfl⟩ | ⟨c, hc, hid, hsymbol, hopens, rfl⟩)
    · obtain ⟨cut, hcut, rfl⟩ := Lexeme.identifier?_of_append hphrase.rest_eq hid hafter
      obtain rfl := Cursor.past_eq_of_passes hphrase
      rw [hcut]
      exact yields_bind_iff.2 ⟨command, hcommand, _, rfl, rfl, rfl⟩
    · have hid := Lexeme.identifier?_eq_none_iff.2 hencloses.left.opens.isIdStart_head
      obtain ⟨cut, hcut, rfl⟩ := Fence.cut?_of_passes hencloses.left
      obtain ⟨step, hstep, hvalue, rfl⟩ := verbatim_of_encloses hencloses cur.offset
      rw [hid, ← hd, hcut]
      refine yields_bind_iff.2 ⟨step, hstep, ?_⟩
      rw [hvalue]
      exact yields_bind_iff.2 ⟨command, hcommand, _, rfl, rfl, rfl⟩
    · obtain ⟨d, hd, hopens⟩ := Finds.opens ⟨body, hbody, rfl, rfl⟩
      have hid := Lexeme.identifier?_eq_none_iff.2 hopens.isIdStart_head
      have hbar : Fence.cut? .bar cur.rest = none :=
        Fence.cut?_eq_none_iff.2 fun hbar => hd (hopens.delimiter_unique hbar)
      rw [hid, hbar]
      exact yields_bind_iff.2 ⟨some body, hbody, _, rfl, rfl, rfl⟩
    -- a symbol is tried last, so the rule has to exclude all that is tried before it
    · have hidentifier : Lexeme.identifier? cur.rest = none := by
        rw [Lexeme.identifier?_eq_none_iff, hc.rest_eq]
        rintro _ ⟨⟩
        exact hid
      obtain ⟨cut, hcut, hpiece⟩ := Cut.one?_of_head hc.rest_eq hsymbol
      obtain rfl := Cursor.past_eq_of_passes (hpiece ▸ hc)
      rw [hidentifier, Fence.cut?_eq_none_iff.2 (hopens .bar)]
      refine yields_bind_iff.2 ⟨none, ?_, ?_⟩
      · exact body?_eq_none_iff.2 ⟨hopens .brace, hopens .quote⟩
      · simp only [Lexeme.symbol?, hcut, hpiece]
        exact ⟨_, rfl, rfl, rfl⟩

/-- What is read after a switch starts with a character that is not a digit. -/
theorem head_of_expression {h : 4 * cur.rest.length + 2 < bound} {start : Nat}
    {f : Fragment} (hy : Yields (expression sw bound nested start cur h) f next) :
    ∃ c rest, cur.rest = c :: rest ∧ c.isDigit = false := by
  obtain ⟨bound, rfl⟩ := Nat.exists_eq_add_of_lt h
  have hopened : ∀ {d : Delimiter}, Opens d cur.rest →
      ∃ c rest, cur.rest = c :: rest ∧ c.isDigit = false := by
    intro d hopens
    obtain ⟨c, rest, hrest, -⟩ := hopens.head
    exact ⟨c, rest, hrest, hopens.isDigit_head c (by rw [hrest]; rfl)⟩
  rcases expression_yields_iff.1 hy with ⟨phrase, after, c, hphrase, hid, -⟩ |
    ⟨fence, inner, mid, after, phrase, c, -, hencloses, -⟩ | ⟨body, ⟨_, hbody⟩, -⟩ |
    ⟨c, hc, -, hsymbol, -⟩
  · obtain ⟨c, cs, rfl, hc, -⟩ := hid
    refine ⟨c, cs ++ after.rest, hphrase.rest_eq, ?_⟩
    rw [Bool.eq_false_iff]
    intro hdigit
    rw [Charset.isIdStart_eq_false_of_isDigit hdigit] at hc
    exact Bool.false_ne_true hc
  · exact hopened hencloses.left.opens
  · obtain ⟨d, -, hopens⟩ := hbody.opens
    exact hopened hopens
  · refine ⟨c, next.rest, hc.rest_eq, ?_⟩
    rw [Bool.eq_false_iff]
    intro hdigit
    rw [Charset.isSymbol_eq_false_of_isDigit hdigit] at hsymbol
    exact Bool.false_ne_true hsymbol

/-! ## Groups -/

theorem group?_finds_iff {h : 4 * cur.rest.length + 1 < bound + 1} {g : Group} :
    Finds (group? sw (bound + 1) nested cur h) g next ↔
      ∃ start ts stop, cur.Passes ['['] start ∧
        (∃ h, Yields (tokens sw bound nested cur.offset start h) (ts, stop) next) ∧
        g = ⟨⟨start.offset, stop⟩, ts⟩ := by
  rw [group?]
  constructor
  · intro hf
    split at hf
    · next cut hcut =>
      simp only [finds_bind_iff] at hf
      obtain ⟨inner, hinner, step, hstep, rfl, rfl⟩ := hf
      obtain rfl := Option.some.inj (Except.ok.inj hstep)
      exact ⟨cur.past cut, inner.value.1, inner.value.2, Lexeme.char?_passes hcut,
        ⟨_, inner, hinner, rfl, rfl⟩, rfl⟩
    · obtain ⟨step, hstep, -⟩ := hf
      simp at hstep
  · rintro ⟨start, ts, stop, hpass, ⟨_, inner, hinner, hvalue, rfl⟩, rfl⟩
    obtain ⟨cut, hcut, rfl⟩ := Lexeme.char?_of_passes hpass
    rw [hcut]
    refine finds_bind_iff.2 ⟨inner, hinner, _, rfl, ?_, rfl⟩
    simp only [Step.map, Step.weaken, hvalue]

theorem group?_eq_none_iff {h : 4 * cur.rest.length + 1 < bound} :
    group? sw bound nested cur h = .ok none ↔ cur.rest.head? ≠ some '[' := by
  obtain ⟨bound, rfl⟩ := Nat.exists_eq_add_of_lt h
  rw [group?, ← Lexeme.char?_eq_none_iff]
  split
  · next cut hcut => simp [bind_eq_ok_iff, pure, Except.pure, hcut]
  · next hnone => simp [hnone]

theorem Finds.bracket {h : 4 * cur.rest.length + 1 < bound} {g : Group}
    (hf : Finds (group? sw bound nested cur h) g next) : cur.rest.head? = some '[' := by
  obtain ⟨step, hstep, -⟩ := hf
  refine Classical.not_not.1 fun hno => ?_
  rw [group?_eq_none_iff.2 hno] at hstep
  simp at hstep

/-! ## Identifiers, operators and numbers -/

/-- The token, an identifier, an operator or a number, stands between the cursors. -/
inductive IsAtom (sw : Switch) (cur : Cursor) : Token → Cursor → Prop
  | identifier {text : List Char} {next : Cursor} (pass : cur.Passes text next)
      (kind : Lexeme.IsIdentifier text)
      (maximal : ∀ c ∈ next.rest.head?, Charset.isIdContinue c = false) :
      IsAtom sw cur (.identifier ⟨cur.offset, next.offset⟩ (String.ofList text)) next
  | operator {text : List Char} {next : Cursor} (pass : cur.Passes text next)
      (kind : Lexeme.IsOperator sw text next.rest) :
      IsAtom sw cur (.operator ⟨cur.offset, next.offset⟩ (String.ofList text)) next
  | number {numeral : Numeral} {value : Number} {next : Cursor}
      (pass : cur.Passes numeral.chars next) (longest : numeral.IsLongest cur.rest)
      (head : ∀ c ∈ cur.rest.head?, Lexeme.startsOperator sw c = false)
      (represents : Number.ofNumeral numeral = .ok value) :
      IsAtom sw cur (.number ⟨cur.offset, next.offset⟩ value) next

theorem numberOf_eq_ok_iff {numeral : Numeral} {offset : Nat} {value : Number} :
    numberOf numeral offset = .ok value ↔ Number.ofNumeral numeral = .ok value := by
  unfold numberOf
  split
  · next number h => simp [h]
  · next column h => simp [h]

theorem atom?_eq_some {token : Token} {cut : Cut cur.rest}
    (h : atom? sw cur = .ok (some (token, cut))) : IsAtom sw cur token (cur.past cut) := by
  unfold atom? at h
  split at h
  · next cut' hcut =>
    obtain ⟨rfl, rfl⟩ := Prod.mk.inj (Option.some.inj (Except.ok.inj h))
    obtain ⟨hkind, hmaximal⟩ := Lexeme.identifier?_piece hcut
    exact .identifier (cur.passes_past cut') hkind hmaximal
  · split at h
    · next cut' hcut =>
      obtain ⟨rfl, rfl⟩ := Prod.mk.inj (Option.some.inj (Except.ok.inj h))
      exact .operator (cur.passes_past cut') (Lexeme.operator?_piece hcut)
    · next hop =>
      split at h
      · next numeral cut' hcut =>
        obtain ⟨number, hnumber, h⟩ := bind_eq_ok_iff.1 h
        obtain ⟨rfl, rfl⟩ := Prod.mk.inj (Option.some.inj (Except.ok.inj h))
        obtain ⟨hpiece, hlongest⟩ := Numeral.cut?_piece hcut
        exact .number (hpiece ▸ cur.passes_past cut') hlongest (Lexeme.operator?_eq_none_iff.1 hop)
          (numberOf_eq_ok_iff.1 hnumber)
      · simp at h

theorem IsAtom.atom?_eq {token : Token} (h : IsAtom sw cur token next) :
    ∃ cut, atom? sw cur = .ok (some (token, cut)) ∧ cur.past cut = next := by
  cases h with
  | identifier pass kind maximal =>
    obtain ⟨cut, hcut, rfl⟩ := Lexeme.identifier?_of_append pass.rest_eq kind maximal
    obtain rfl := Cursor.past_eq_of_passes pass
    exact ⟨cut, by simp only [atom?, hcut, lexemeSpan, Cursor.past], rfl⟩
  | operator pass kind =>
    obtain ⟨cut, hcut, rfl⟩ := Lexeme.operator?_of_append pass.rest_eq kind
    obtain rfl := Cursor.past_eq_of_passes pass
    have hid : Lexeme.identifier? cur.rest = none := by
      obtain ⟨c, cs, hpiece, hc, -⟩ := kind.head
      rw [Lexeme.identifier?_eq_none_iff, pass.rest_eq, hpiece]
      rintro _ ⟨⟩
      exact hc
    exact ⟨cut, by simp only [atom?, hid, hcut, lexemeSpan, Cursor.past], rfl⟩
  | number pass longest head represents =>
    obtain ⟨cut, hcut, hpiece⟩ := Numeral.cut?_of_isLongest longest
    obtain rfl := Cursor.past_eq_of_passes (hpiece ▸ pass)
    have hid : Lexeme.identifier? cur.rest = none := by
      rw [Lexeme.identifier?_eq_none_iff, pass.rest_eq]
      exact longest.1.isIdStart_head _
    refine ⟨cut, ?_, rfl⟩
    simp only [atom?, hid, Lexeme.operator?_eq_none_iff.2 head, hcut]
    exact bind_eq_ok_iff.2 ⟨_, numberOf_eq_ok_iff.2 represents, rfl⟩

theorem atom?_eq_none_iff : atom? sw cur = .ok none ↔ NoAtom sw cur.rest := by
  unfold atom? NoAtom
  rw [← Lexeme.identifier?_eq_none_iff, ← Lexeme.operator?_eq_none_iff, ← Numeral.cut?_eq_none_iff]
  split
  · next hcut => simp [hcut]
  · next hid =>
    split
    · next hcut => simp [hcut]
    · next hop =>
      split
      · next hcut => simp [hcut, bind_eq_ok_iff, pure, Except.pure]
      · next hnumeral => simp [hid, hop, hnumeral]

/-- Only a number that is out of range is refused. -/
theorem atom?_eq_error {flaw : Flaw} (h : atom? sw cur = .error flaw) :
    ∃ (numeral : Numeral) (column : Nat), numeral.IsLongest cur.rest ∧
      (∀ c ∈ cur.rest.head?, Lexeme.startsOperator sw c = false) ∧
      Number.ofNumeral numeral = .error column ∧
      flaw = ⟨.numberOutOfRange (String.ofList numeral.chars) column, cur.offset⟩ := by
  unfold atom? at h
  split at h
  · simp at h
  · split at h
    · simp at h
    · next hop =>
      split at h
      · next numeral cut hcut =>
        rcases bind_eq_error_iff.1 h with h | ⟨number, -, h⟩
        · unfold numberOf at h
          split at h
          · simp at h
          · next column hcolumn =>
            exact ⟨numeral, column, (Numeral.cut?_piece hcut).2,
              Lexeme.operator?_eq_none_iff.1 hop, hcolumn, (Except.error.inj h).symm⟩
        · simp [pure, Except.pure] at h
      · simp at h

/-! ## Tokens -/

/-- No token stands at the head of the text. -/
def NoToken (sw : Switch) (cs : List Char) : Prop :=
  NoAtom sw cs ∧ ¬Opens .brace cs ∧ ¬Opens .quote cs ∧ cs.head? ≠ some sw.char ∧
    cs.head? ≠ some '['

theorem token?_finds_iff {h : 4 * cur.rest.length + 2 < bound + 1} {t : Token} :
    Finds (token? sw (bound + 1) nested cur h) t next ↔
      IsAtom sw cur t next ∨
      (∃ body, (∃ h, Finds (body? sw bound nested cur h) body next) ∧ t = body.toToken) ∨
      (∃ start f, cur.Passes [sw.char] start ∧
        (∃ h, Yields (expression sw bound nested cur.offset start h) f next) ∧ t = f.toToken) ∨
      ∃ g, (∃ h, Finds (group? sw bound nested cur h) g next) ∧ t = .group g := by
  rw [token?, finds_bind_iff]
  constructor
  · rintro ⟨a, ha, hf⟩
    cases a with
    | some a =>
      obtain ⟨step, hstep, rfl, rfl⟩ := hf
      obtain rfl := Option.some.inj (Except.ok.inj hstep)
      exact .inl (atom?_eq_some ha)
    | none =>
      apply Or.inr
      obtain ⟨b, hb, hf⟩ := finds_bind_iff.1 hf
      cases b with
      | some body =>
        obtain ⟨step, hstep, rfl, rfl⟩ := hf
        obtain rfl := Option.some.inj (Except.ok.inj hstep)
        exact .inl ⟨body.value, ⟨_, body, hb, rfl, rfl⟩, rfl⟩
      | none =>
        apply Or.inr
        dsimp only at hf
        split at hf
        · next cut hcut =>
          obtain ⟨node, hnode, step, hstep, rfl, rfl⟩ := finds_bind_iff.1 hf
          obtain rfl := Option.some.inj (Except.ok.inj hstep)
          exact .inl ⟨cur.past cut, node.value, Lexeme.char?_passes hcut,
            ⟨_, node, hnode, rfl, rfl⟩, rfl⟩
        · obtain ⟨g, hg, hf⟩ := finds_bind_iff.1 hf
          cases g with
          | some group =>
            obtain ⟨step, hstep, rfl, rfl⟩ := hf
            obtain rfl := Option.some.inj (Except.ok.inj hstep)
            exact .inr ⟨group.value, ⟨_, group, hg, rfl, rfl⟩, rfl⟩
          | none =>
            obtain ⟨step, hstep, -⟩ := hf
            simp [pure, Except.pure] at hstep
  · rintro (hatom | ⟨_, ⟨_, body, hbody, rfl, rfl⟩, rfl⟩ |
      ⟨start, _, hpass, ⟨_, node, hnode, rfl, rfl⟩, rfl⟩ | ⟨_, ⟨_, group, hgroup, rfl, rfl⟩, rfl⟩)
    · obtain ⟨cut, hcut, rfl⟩ := hatom.atom?_eq
      exact ⟨_, hcut, _, rfl, rfl, rfl⟩
    · obtain ⟨d, hd, hopens⟩ := Finds.opens ⟨body, hbody, rfl, rfl⟩
      refine ⟨none, atom?_eq_none_iff.2 (hopens.noAtom hd), ?_⟩
      exact finds_bind_iff.2 ⟨some body, hbody, _, rfl, rfl, rfl⟩
    -- the switch may be a minus, which starts a number only where a digit follows
    · have hdigit : ∀ c ∈ start.rest.head?, c.isDigit = false := by
        obtain ⟨d, rest, hrest, hd⟩ := head_of_expression ⟨node, hnode, rfl, rfl⟩
        rw [hrest]
        rintro _ ⟨⟩
        exact hd
      obtain ⟨cut, hcut, rfl⟩ := Lexeme.char?_of_passes hpass
      have hno : NoAtom sw cur.rest := by
        rw [hpass.rest_eq]
        exact noAtom_switch hdigit
      have hopens : ∀ d, ¬Opens d cur.rest := by
        rw [hpass.rest_eq]
        exact not_opens_switch
      refine ⟨none, atom?_eq_none_iff.2 hno, finds_bind_iff.2 ⟨none, ?_, ?_⟩⟩
      · exact body?_eq_none_iff.2 ⟨hopens .brace, hopens .quote⟩
      · simp only [hcut]
        exact finds_bind_iff.2 ⟨node, hnode, _, rfl, rfl, rfl⟩
    · have hopen := Finds.bracket ⟨group, hgroup, rfl, rfl⟩
      obtain ⟨rest, hrest⟩ := List.head?_eq_some_iff.1 hopen
      have hno : NoAtom sw cur.rest := by
        rw [hrest]
        exact noAtom_mark (by decide)
      have hopens : ∀ d, ¬Opens d cur.rest := by
        rw [hrest]
        exact not_opens_bracket (.inl rfl)
      have hswitch : Lexeme.char? sw.char cur.rest = none := by
        rw [Lexeme.char?_eq_none_iff, hopen]
        simpa using (sw.char_ne_of_mem_reserved (by decide)).symm
      refine ⟨none, atom?_eq_none_iff.2 hno, finds_bind_iff.2 ⟨none, ?_, ?_⟩⟩
      · exact body?_eq_none_iff.2 ⟨hopens .brace, hopens .quote⟩
      · simp only [hswitch]
        exact finds_bind_iff.2 ⟨some group, hgroup, _, rfl, rfl, rfl⟩

theorem token?_eq_none_iff {h : 4 * cur.rest.length + 2 < bound} :
    token? sw bound nested cur h = .ok none ↔ NoToken sw cur.rest := by
  obtain ⟨bound, rfl⟩ := Nat.exists_eq_add_of_lt h
  rw [token?, bind_eq_ok_iff]
  constructor
  · rintro ⟨a, ha, hn⟩
    cases a with
    | some a => simp [pure, Except.pure] at hn
    | none =>
      obtain ⟨b, hb, hn⟩ := bind_eq_ok_iff.1 hn
      cases b with
      | some b => simp [pure, Except.pure] at hn
      | none =>
        dsimp only at hn
        split at hn
        · simp [bind_eq_ok_iff, pure, Except.pure] at hn
        · next hswitch =>
          obtain ⟨g, hg, hn⟩ := bind_eq_ok_iff.1 hn
          cases g with
          | some g => simp [pure, Except.pure] at hn
          | none =>
            obtain ⟨hbrace, hquote⟩ := body?_eq_none_iff.1 hb
            exact ⟨atom?_eq_none_iff.1 ha, hbrace, hquote, Lexeme.char?_eq_none_iff.1 hswitch,
              group?_eq_none_iff.1 hg⟩
  · rintro ⟨hatom, hbrace, hquote, hswitch, hbracket⟩
    refine ⟨none, atom?_eq_none_iff.2 hatom, bind_eq_ok_iff.2 ⟨none, ?_, ?_⟩⟩
    · exact body?_eq_none_iff.2 ⟨hbrace, hquote⟩
    · simp only [Lexeme.char?_eq_none_iff.2 hswitch]
      exact bind_eq_ok_iff.2 ⟨none, group?_eq_none_iff.2 hbracket, rfl⟩

theorem noToken_closing {rest : List Char} : NoToken sw (']' :: rest) := by
  have hopens : ∀ d, ¬Opens d (']' :: rest) := not_opens_bracket (.inr rfl)
  refine ⟨noAtom_mark (by decide), hopens .brace, hopens .quote, ?_, by simp⟩
  simpa using (sw.char_ne_of_mem_reserved (by decide)).symm

/-- Tokens do not start with blanks. -/
theorem isBlank_head_of_token {h : 4 * cur.rest.length + 2 < bound} {t : Token}
    (hf : Finds (token? sw bound nested cur h) t next) :
    ∀ c ∈ cur.rest.head?, Charset.isBlank c = false := by
  obtain ⟨bound, rfl⟩ := Nat.exists_eq_add_of_lt h
  rcases token?_finds_iff.1 hf with hatom | ⟨body, ⟨_, hbody⟩, -⟩ | ⟨start, f, hpass, -⟩ |
    ⟨g, ⟨_, hg⟩, -⟩
  · cases hatom with
    | identifier pass kind maximal =>
      obtain ⟨c, cs, rfl, hc, -⟩ := kind
      rw [pass.rest_eq]
      rintro _ ⟨⟩
      exact Charset.isBlank_eq_false_of_isIdStart hc
    | operator pass kind =>
      obtain ⟨c, cs, rfl, -, hc⟩ := kind.head
      rw [pass.rest_eq]
      rintro _ ⟨⟩
      exact hc
    | number pass longest head represents =>
      rw [pass.rest_eq]
      exact longest.1.isBlank_head _
  · obtain ⟨d, -, hopens⟩ := hbody.opens
    exact hopens.isBlank_head
  · rw [hpass.rest_eq]
    rintro _ ⟨⟩
    exact sw.isBlank_char
  · obtain ⟨rest, hrest⟩ := List.head?_eq_some_iff.1 hg.bracket
    rw [hrest]
    rintro _ ⟨⟩
    decide

theorem tokens_yields_iff {start : Cursor} {h : 4 * start.rest.length + 3 < bound + 1}
    {opener : Nat} {ts : List Token} {stop : Nat} :
    Yields (tokens sw (bound + 1) nested opener start h) (ts, stop) next ↔
      ∃ blanks cur, start.Passes blanks cur ∧ (∀ c ∈ blanks, Charset.isBlank c = true) ∧
        (cur.Passes [']'] next ∧ ts = [] ∧ stop = cur.offset ∨
          ∃ t after tail, (∃ h, Finds (token? sw bound nested cur h) t after) ∧
            (∃ h, Yields (tokens sw bound nested opener after h) (tail, stop) next) ∧
            ts = t :: tail) := by
  rw [tokens]
  constructor
  · intro hy
    refine ⟨_, start.skip Charset.isBlank, start.passes_skip _, forall_mem_takeWhile _ _, ?_⟩
    obtain ⟨o, ho, hy⟩ := yields_bind_iff.1 hy
    cases o with
    | some first =>
      obtain ⟨tail, htail, step, hstep, hvalue, rfl⟩ := yields_bind_iff.1 hy
      obtain rfl := Except.ok.inj hstep
      obtain ⟨rfl, rfl⟩ := Prod.mk.inj hvalue
      exact .inr ⟨first.value, first.next, tail.value.1, ⟨_, first, ho, rfl, rfl⟩,
        ⟨_, tail, htail, rfl, rfl⟩, rfl⟩
    | none =>
      dsimp only at hy
      split at hy
      · next cut hcut =>
        obtain ⟨hvalue, rfl⟩ := yields_ok_iff.1 hy
        obtain ⟨rfl, rfl⟩ := Prod.mk.inj hvalue
        exact .inl ⟨Lexeme.char?_passes hcut, rfl, rfl⟩
      · obtain ⟨step, hstep, -⟩ := hy
        simp [throw, throwThe, MonadExceptOf.throw] at hstep
  · rintro ⟨blanks, cur, hpass, hblanks, ⟨hclose, rfl, rfl⟩ |
      ⟨_, _, tail, ⟨_, first, hfirst, rfl, rfl⟩, ⟨_, rest, hrest, hvalue, rfl⟩, rfl⟩⟩
    · have hhead : ∀ c ∈ cur.rest.head?, Charset.isBlank c = false := by
        rw [hclose.rest_eq]
        rintro _ ⟨⟩
        decide
      obtain rfl := Cursor.skip_eq_of_passes hpass hblanks hhead
      obtain ⟨cut, hcut, rfl⟩ := Lexeme.char?_of_passes hclose
      refine yields_bind_iff.2 ⟨none, token?_eq_none_iff.2 ?_, ?_⟩
      · rw [hclose.rest_eq]
        exact noToken_closing
      · simp only [hcut]
        exact yields_ok_iff.2 ⟨rfl, rfl⟩
    · obtain rfl := Cursor.skip_eq_of_passes hpass hblanks
        (isBlank_head_of_token ⟨first, hfirst, rfl, rfl⟩)
      refine yields_bind_iff.2 ⟨some first, hfirst, ?_⟩
      refine yields_bind_iff.2 ⟨rest, hrest, _, rfl, ?_, rfl⟩
      simp only [Step.map, Step.weaken, hvalue]

end Parser

/-! ## Documents -/

open Prosemark.Parser

variable {sw : Switch} {source : String}

theorem parse_eq_ok_iff {tree : Block} :
    parse sw source = .ok tree ↔
      ∃ fs stop next h, Yields (fragments sw (4 * source.toList.length + 1) .document
        (Cursor.start source) h) (fs, stop) next ∧ tree = ⟨⟨0, stop⟩, fs, .unfenced⟩ := by
  have hmap : parse sw source = .ok tree ↔ document sw source = .ok tree := by
    unfold parse
    cases document sw source with
    | error flaw => constructor <;> intro h <;> cases h
    | ok other =>
      constructor
      · intro h
        cases h
        rfl
      · intro h
        cases h
        rfl
  rw [hmap, document, bind_eq_ok_iff]
  constructor
  · rintro ⟨inner, hinner, htree⟩
    obtain rfl := Except.ok.inj htree
    exact ⟨inner.value.1, inner.value.2, inner.next, _, ⟨inner, hinner, rfl, rfl⟩, rfl⟩
  · rintro ⟨fs, stop, next, _, ⟨inner, hinner, hvalue, rfl⟩, rfl⟩
    exact ⟨inner, hinner, by rw [hvalue]; rfl⟩

theorem parse_eq_error_iff {e : Error} :
    parse sw source = .error e ↔
      ∃ flaw h, fragments sw (4 * source.toList.length + 1) .document (Cursor.start source) h =
        .error flaw ∧ e = flaw.toError source := by
  have hdocument : ∀ flaw, document sw source = .error flaw ↔
      ∃ h, fragments sw (4 * source.toList.length + 1) .document (Cursor.start source) h =
        .error flaw := by
    intro flaw
    simp [document, bind_eq_error_iff, pure, Except.pure, Cursor.start]
  unfold parse
  cases hd : document sw source with
  | ok tree =>
    change Except.ok tree = .error e ↔ _
    simp only [reduceCtorEq, false_iff]
    rintro ⟨flaw, h, he, -⟩
    simp [(hdocument flaw).2 ⟨h, he⟩] at hd
  | error flaw =>
    change Except.error (flaw.toError source) = .error e ↔ _
    rw [Except.error.injEq]
    constructor
    · rintro rfl
      obtain ⟨h, he⟩ := (hdocument flaw).1 hd
      exact ⟨flaw, h, he, rfl⟩
    · rintro ⟨found, h, he, rfl⟩
      rw [(hdocument found).2 ⟨h, he⟩] at hd
      rw [Except.error.inj hd]

end Prosemark
