import Prosemark.Proofs.Soundness

/-!
# Hashes after right fences

A right fence with padding may run into a further `#` within braces only. That `#` is then prose of
the block around, unless the fence ends in options: there it is the padding of the next token
(`parse_closing_hashes`).

Every node with a fence is listed with the innermost block and the innermost group around it. What
takes a `#` after a node is seen where the node ends: in a block the next fragment starts there or
the right fence of the block stands there, in a group the next token or the closing bracket. A node
at the end of another one ends where that one does.
-/

namespace Prosemark

/-! ## Nodes with fences -/

/-- What a node stands in. -/
structure Setting where
  /-- The innermost block in braces around the node. -/
  block : Option Block
  /-- The innermost group around the node, unless that block is in the group. -/
  group : Option Group

namespace Setting

def document : Setting :=
  ⟨none, none⟩

def ofBlock (b : Block) : Setting :=
  ⟨some b, none⟩

def inGroup (g : Group) (setting : Setting) : Setting :=
  ⟨setting.block, some g⟩

end Setting

/-- A block in braces or a quoted text, and what it stands in. -/
structure Fenced where
  setting : Setting
  /-- Where the right fence starts. -/
  stop : Nat
  enclosing : Enclosing

namespace Fenced

/-- The offset right after the right fence. -/
def after (n : Fenced) : Nat :=
  n.stop + n.enclosing.right.utf8ByteSize

/-- The fence is padded, and a further `#` follows its right text. -/
def RunsOn (source : String) (n : Fenced) : Prop :=
  0 < n.enclosing.hashes ∧ (restAt source n.after).head? = some '#'

instance (source : String) (n : Fenced) : Decidable (n.RunsOn source) :=
  inferInstanceAs (Decidable (_ ∧ _))

end Fenced

/-- The text, if it is quoted; prose has no fence. -/
def Text.fenced (setting : Setting) (t : Text) : List Fenced :=
  if t.isProse then [] else [⟨setting, t.span.stop, t.enclosing⟩]

mutual

def Fragment.fenced (setting : Setting) : Fragment → List Fenced
  | .text t => t.fenced setting
  | .command c => c.fenced setting
  | .block b => b.fenced setting

/-- The nodes with fences in some fragments. -/
def Fragment.fencedAll (setting : Setting) : List Fragment → List Fenced
  | [] => []
  | f :: fs => f.fenced setting ++ Fragment.fencedAll setting fs

def Block.fenced (setting : Setting) : Block → List Fenced
  | ⟨span, children, enclosing⟩ =>
    ⟨setting, span.stop, enclosing⟩ ::
      Fragment.fencedAll (.ofBlock ⟨span, children, enclosing⟩) children

def Command.fenced (setting : Setting) : Command → List Fenced
  | ⟨_, _, _, options, body⟩ =>
    Group.fencedOption setting options ++ Body.fencedOption setting body

/-- The nodes with fences in the options of a command, none without options. -/
def Group.fencedOption (setting : Setting) : Option Group → List Fenced
  | none => []
  | some g => g.fenced setting

/-- The nodes with fences in the body of a command, none without a body. -/
def Body.fencedOption (setting : Setting) : Option Body → List Fenced
  | none => []
  | some body => body.fenced setting

def Body.fenced (setting : Setting) : Body → List Fenced
  | .block b => b.fenced setting
  | .text t => t.fenced setting

def Group.fenced (setting : Setting) : Group → List Fenced
  | ⟨span, children⟩ => Token.fencedAll (setting.inGroup ⟨span, children⟩) children

/-- The nodes with fences in some tokens. -/
def Token.fencedAll (setting : Setting) : List Token → List Fenced
  | [] => []
  | t :: ts => t.fenced setting ++ Token.fencedAll setting ts

def Token.fenced (setting : Setting) : Token → List Fenced
  | .identifier _ _ | .operator _ _ | .number _ _ => []
  | .group g => g.fenced setting
  | .block b => b.fenced setting
  | .text t => t.fenced setting
  | .command c => c.fenced setting

end

/-! ## What takes a hash -/

/-- The token is a block or a quoted text whose padded left fence stands at the offset. -/
def Token.OpensPadded (offset : Nat) : Token → Prop
  | .block b => 0 < b.enclosing.hashes ∧ b.span.start = offset + b.enclosing.left.utf8ByteSize
  | .text t => 0 < t.enclosing.hashes ∧ t.span.start = offset + t.enclosing.left.utf8ByteSize
  | _ => False

/-- The `#` at the offset is the first character of prose. -/
def Fragment.StartsWithHash (offset : Nat) (f : Fragment) : Prop :=
  ∃ t, f = .text t ∧ t.isProse = true ∧ t.span.start = offset ∧ t.inner.toList.head? = some '#'

/-- What takes a `#` at an offset: in options the left fence of a token, and elsewhere in a block
prose of that block. -/
inductive Setting.TakesHash (offset : Nat) : Setting → Prop
  | prose {b : Block} {f : Fragment} (mem : f ∈ b.children) (starts : f.StartsWithHash offset) :
      TakesHash offset (.ofBlock b)
  | padding {b : Block} {g : Group} {t : Token} (mem : t ∈ g.children)
      (opens : t.OpensPadded offset) : TakesHash offset ((ofBlock b).inGroup g)

/-! ## Where a hash can stand -/

section Heads

variable {sw : Switch} {source : String} {a b : Nat} {text : String}

theorem Covers.head_restAt (h : Covers source a b text) (hne : text.toList ≠ []) :
    (restAt source a).head? = text.toList.head? := by
  obtain ⟨cur, next, hin, hp, rfl, rfl⟩ := covers_iff.1 h
  rw [hin.restAt_eq, hp.rest_eq, List.head?_append,
    List.head?_eq_some_head hne, Option.some_or]

theorem Covers.switch_ne_hash (h : Covers source a b sw.text) :
    (restAt source a).head? ≠ some '#' := by
  rw [h.head_restAt (by simp [Switch.text])]
  simpa [Switch.text] using sw.char_ne_hash

theorem Blank.eq_of_head {c : Char} (h : Blank source a b)
    (hhead : (restAt source a).head? = some c) (hc : Charset.isBlank c = false) : a = b := by
  obtain ⟨text, hcovers, hblank⟩ := h
  by_cases hne : text.toList = []
  · rw [hcovers.stop_eq, hne]
    rfl
  · rw [hcovers.head_restAt hne] at hhead
    have hmem := hblank c (List.mem_of_mem_head? hhead)
    exact absurd (hc.symm.trans hmem) Bool.false_ne_true

theorem Fence.hashes_enclosing (fence : Fence) : fence.enclosing.hashes = fence.hashes := by
  have hopening : [fence.delimiter.opening].count '#' = 0 := by
    cases fence.delimiter <;> decide
  simp [Enclosing.hashes, Fence.enclosing, Fence.left, hopening]

theorem Fence.hashes_pos_of_head {fence : Fence} (h : Covers source a b fence.enclosing.left)
    (hhead : (restAt source a).head? = some '#') : 0 < fence.enclosing.hashes := by
  rw [h.head_restAt (by simp [enclosing, left])] at hhead
  rw [fence.hashes_enclosing, Nat.pos_iff_ne_zero]
  intro hzero
  simp [enclosing, left, hzero, opening_ne_hash] at hhead

theorem Fence.head_right_restAt {fence : Fence} (h : Covers source a b fence.enclosing.right) :
    (restAt source a).head? ≠ some '#' := by
  rw [h.head_restAt (by simp [enclosing, right])]
  simpa [enclosing, right] using closing_ne_hash fence.delimiter

theorem Lexeme.IsOperator.head_ne_hash {cs rest : List Char} (h : IsOperator sw cs rest) :
    cs.head? ≠ some '#' := by
  intro hhead
  have hno : startsOperator sw '#' = false :=
    startsOperator_eq_false (.inr (.inl (by decide))) (by decide)
  rw [startsOperator, Bool.or_eq_false_iff] at hno
  rcases h with ⟨c, rfl, hc⟩ | ⟨-, hall, -⟩
  · obtain rfl := Option.some.inj hhead
    exact Bool.false_ne_true (hno.2.symm.trans hc)
  · exact Bool.false_ne_true (hno.1.symm.trans (hall '#' (List.mem_of_mem_head? hhead)))

/-- Of the fragments in normal form, prose alone starts with a `#`. -/
theorem Fragment.startsWithHash {closing : Option Fence} : ∀ {f : Fragment},
    f.Fills sw source a b → f.Normal sw source closing → (restAt source a).head? = some '#' →
    f.StartsWithHash a
  | .text t, h, hn, hhead => by
    rw [Fragment.Fills] at h
    rw [Fragment.Normal] at hn
    cases hprose : t.isProse with
    | true =>
      rw [hprose, if_pos rfl] at h hn
      have hinner : t.inner.toList ≠ [] := by simpa using hn.2.1
      exact ⟨t, rfl, hprose, by rw [h.1], by rwa [← h.2.head_restAt hinner]⟩
    | false =>
      rw [hprose, if_neg Bool.false_ne_true] at h
      obtain ⟨i, hswitch, -⟩ := h
      exact absurd hhead hswitch.switch_ne_hash
  | .command ⟨_, _, _, _, _⟩, ⟨_, _, _, _, _, hswitch, _⟩, _, hhead =>
    absurd hhead hswitch.switch_ne_hash
  | .block _, ⟨_, hswitch, _⟩, _, hhead => absurd hhead hswitch.switch_ne_hash

/-- Of the tokens in normal form, those with padded left fences alone start with a `#`. -/
theorem Token.opensPadded {nested : Bool} : ∀ {t : Token}, t.Fills sw source a b →
    t.Normal sw source nested → (restAt source a).head? = some '#' → t.OpensPadded a
  | .identifier span name, ⟨_, hcovers⟩, ⟨hid, _⟩, hhead => by
    obtain ⟨c, cs, hname, hc, -⟩ := hid
    rw [hcovers.head_restAt (by simp [hname]), hname] at hhead
    obtain rfl := Option.some.inj hhead
    exact absurd hc (by decide)
  | .operator span symbols, ⟨_, hcovers⟩, hop, hhead => by
    obtain ⟨c, cs, hsymbols, -, -⟩ := hop.head
    rw [hcovers.head_restAt (by simp [hsymbols])] at hhead
    exact absurd hhead hop.head_ne_hash
  | .number span value, ⟨_, numeral, hvalid, hcovers, _⟩, _, hhead => by
    obtain ⟨c, cs, hchars, hc⟩ := hvalid.head
    rw [hcovers.head_restAt (by simp [hchars]), String.toList_ofList, hchars] at hhead
    obtain rfl := Option.some.inj hhead
    simp at hc
  | .group ⟨_, _⟩, ⟨hopen, _⟩, _, hhead => by
    rw [hopen.head_restAt (by decide)] at hhead
    exact absurd hhead (by decide)
  | .block ⟨span, children, enclosing⟩, ⟨i, hi, ⟨hleft, _⟩, _⟩, ⟨fence, _, he, _⟩, hhead => by
    subst he
    obtain rfl := hi.resolve_right fun hswitch => hswitch.switch_ne_hash hhead
    exact ⟨Fence.hashes_pos_of_head hleft hhead, by simpa [width_toList] using hleft.stop_eq⟩
  | .text ⟨span, inner, enclosing⟩, ⟨i, hi, ⟨hleft, _⟩, _⟩, ⟨fence, _, he, _⟩, hhead => by
    subst he
    obtain rfl := hi.resolve_right fun hswitch => hswitch.switch_ne_hash hhead
    exact ⟨Fence.hashes_pos_of_head hleft hhead, by simpa [width_toList] using hleft.stop_eq⟩
  | .command ⟨_, _, _, _, _⟩, ⟨_, _, _, _, _, hswitch, _⟩, _, hhead =>
    absurd hhead hswitch.switch_ne_hash

/-- A `#` at the head of tokens before a closing bracket is at the head of the first of them. -/
theorem Token.Spread.exists_opensPadded {nested : Bool} : ∀ {ts : List Token},
    Token.Spread sw source ts a b → Token.NormalAll sw source nested ts →
    (restAt source b).head? ≠ some '#' → (restAt source a).head? = some '#' →
    ∃ t ∈ ts, t.OpensPadded a
  | [], hblank, _, hend, hhead => by
    obtain rfl := Blank.eq_of_head hblank hhead (by decide)
    exact absurd hhead hend
  | t :: ts, ⟨i, _, hblank, hfills, _⟩, ⟨hn, _⟩, _, hhead => by
    obtain rfl := hblank.eq_of_head hhead (by decide)
    exact ⟨t, List.mem_cons_self, Token.opensPadded hfills hn hhead⟩

/-- A `#` at the head of fragments is at the head of the first of them, which is prose. -/
theorem Fragment.Tile.exists_startsWithHash {closing : Option Fence} : ∀ {fs : List Fragment},
    Fragment.Tile sw source fs a b → Fragment.NormalAll sw source closing fs →
    (restAt source b).head? ≠ some '#' → (restAt source a).head? = some '#' →
    ∃ f ∈ fs, f.StartsWithHash a
  | [], htile, _, hend, hhead => by
    obtain rfl : a = b := htile
    exact absurd hhead hend
  | f :: fs, ⟨_, hfills, _⟩, ⟨hn, _⟩, _, hhead =>
    ⟨f, List.mem_cons_self, Fragment.startsWithHash hfills hn hhead⟩

end Heads

/-! ## From the end of a node to its parts -/

/-- In braces, a `#` at the offset is taken. -/
def Setting.Settles (source : String) (offset : Nat) (setting : Setting) : Prop :=
  setting.block.isSome = true → (restAt source offset).head? = some '#' →
    setting.TakesHash offset

theorem Setting.TakesHash.of_opensPadded {setting : Setting} {g : Group} {t : Token} {offset : Nat}
    (hblock : setting.block.isSome = true) (ht : t ∈ g.children) (h : t.OpensPadded offset) :
    (setting.inGroup g).TakesHash offset := by
  obtain ⟨b, hb⟩ := Option.isSome_iff_exists.1 hblock
  rw [Setting.inGroup, hb]
  exact .padding ht h

/-- A `#` after any of the nodes is taken. -/
def Fenced.AllTaken (source : String) (ns : List Fenced) : Prop :=
  ∀ n ∈ ns, n.RunsOn source → n.setting.TakesHash n.after

section Taken

variable {sw : Switch} {source : String} {setting : Setting} {a b : Nat} {ms ns : List Fenced}

theorem Fenced.allTaken_nil : AllTaken source [] :=
  nofun

theorem Fenced.AllTaken.append (hm : AllTaken source ms) (hn : AllTaken source ns) :
    AllTaken source (ms ++ ns) :=
  fun n h => (List.mem_append.1 h).elim (hm n) (hn n)

/-- Outside all braces no padded fence runs on. -/
theorem Setting.Settles.takesHash {fence : Fence} {stop : Nat} (h : setting.Settles source b)
    (hright : Covers source stop b fence.enclosing.right)
    (hbalanced : fence.Balanced setting.block.isSome (restAt source (stop + width fence.right))) :
    Fenced.AllTaken source [⟨setting, stop, fence.enclosing⟩] := by
  rintro _ (_ | ⟨_, ⟨⟩⟩) ⟨hpos, hhead⟩
  have hafter : stop + fence.enclosing.right.utf8ByteSize = b := by
    rw [hright.stop_eq, width_toList]
  rw [Fenced.after, hafter] at hhead ⊢
  cases hblock : setting.block.isSome with
  | true => exact h hblock hhead
  | false =>
    rw [← utf8ByteSize_ofList] at hbalanced
    rw [fence.hashes_enclosing] at hpos
    exact absurd (hafter ▸ hhead) (hbalanced hblock hpos)

theorem Text.fenced_taken {t : Text} (h : setting.Settles source b) (hfills : t.Fills source a b)
    (hn : t.IsQuoted source setting.block.isSome) :
    Fenced.AllTaken source (t.fenced setting) := by
  obtain ⟨span, inner, enclosing⟩ := t
  obtain ⟨⟨-, hright⟩, -⟩ := hfills
  obtain ⟨fence, -, rfl, -, hbalanced⟩ := hn
  rw [Text.fenced]
  split
  · exact Fenced.allTaken_nil
  · exact h.takesHash hright hbalanced

mutual

theorem Fragment.fenced_taken {closing : Option Fence} :
    ∀ {f : Fragment} {setting : Setting} {a b : Nat}, setting.Settles source b →
      f.Fills sw source a b → f.Normal sw source closing →
      closing.isSome = setting.block.isSome → Fenced.AllTaken source (f.fenced setting)
  | .text t, setting, a, b, h, hfills, hn, hclosing => by
    rw [Fragment.Fills] at hfills
    rw [Fragment.Normal] at hn
    cases hprose : t.isProse with
    | true =>
      rw [Fragment.fenced, Text.fenced, if_pos hprose]
      exact Fenced.allTaken_nil
    | false =>
      rw [hprose, if_neg Bool.false_ne_true] at hfills hn
      obtain ⟨i, -, hfills⟩ := hfills
      exact Text.fenced_taken h hfills (hclosing ▸ hn)
  | .command _, _, _, _, h, hfills, hn, hclosing =>
    Command.fenced_taken h hfills (hclosing ▸ hn)
  | .block _, _, _, _, h, ⟨_, _, hfills⟩, hn, hclosing =>
    Block.fenced_taken h hfills (hclosing ▸ hn)

/-- After each fragment stands the next one, or what ends the scope. -/
theorem Fragment.fencedAll_taken {closing : Option Fence} :
    ∀ {fs : List Fragment} {setting : Setting} {a b : Nat},
      (setting.block.isSome = true → ∀ f ∈ fs, ∀ offset, f.StartsWithHash offset →
        setting.TakesHash offset) →
      Fragment.Tile sw source fs a b → Fragment.NormalAll sw source closing fs →
      closing.isSome = setting.block.isSome →
      (setting.block.isSome = true → (restAt source b).head? ≠ some '#') →
      Fenced.AllTaken source (Fragment.fencedAll setting fs)
  | [], _, _, _, _, _, _, _, _ => Fenced.allTaken_nil
  | f :: fs, setting, a, b, hmem, ⟨i, hfills, htile⟩, ⟨hn, _, hns⟩, hclosing, hend => by
    have hmem' : setting.block.isSome = true → ∀ f ∈ fs, ∀ offset, f.StartsWithHash offset →
        setting.TakesHash offset := fun hblock f hf => hmem hblock f (List.mem_cons_of_mem _ hf)
    have hafter : setting.Settles source i := by
      intro hblock hhead
      obtain ⟨g, hg, hstarts⟩ := htile.exists_startsWithHash hns (hend hblock) hhead
      exact hmem' hblock g hg i hstarts
    exact (Fragment.fenced_taken hafter hfills hn hclosing).append
      (Fragment.fencedAll_taken hmem' htile hns hclosing hend)

theorem Block.fenced_taken : ∀ {block : Block} {setting : Setting} {a b : Nat},
    setting.Settles source b → block.Fills sw source a b →
    block.Normal sw source setting.block.isSome → Fenced.AllTaken source (block.fenced setting)
  | ⟨span, children, enclosing⟩, setting, a, b, h, hfills, hn => by
    obtain ⟨⟨-, hright⟩, htile⟩ := hfills
    obtain ⟨fence, -, rfl, hbalanced, hnormal⟩ := hn
    refine (h.takesHash hright hbalanced).append ?_
    exact Fragment.fencedAll_taken (fun _ f hf offset => .prose hf) htile hnormal rfl
      fun _ => Fence.head_right_restAt hright

theorem Command.fenced_taken : ∀ {c : Command} {setting : Setting} {a b : Nat},
    setting.Settles source b → c.Fills sw source a b →
    c.Normal sw source setting.block.isSome → Fenced.AllTaken source (c.fenced setting)
  | ⟨_, _, _, _, _⟩, _, _, _, h, ⟨_, _, _, _, _, _, _, hoptions, hbody⟩, ⟨_, hn, hn'⟩ =>
    (Group.fencedOption_taken hoptions hn).append (Body.fencedOption_taken h hbody hn')

theorem Group.fencedOption_taken : ∀ {options : Option Group} {setting : Setting} {a b : Nat},
    Group.FillsOption sw source options a b →
    Group.NormalOption sw source setting.block.isSome options →
    Fenced.AllTaken source (Group.fencedOption setting options)
  | none, _, _, _, _, _ => Fenced.allTaken_nil
  | some _, _, _, _, hfills, hn => Group.fenced_taken hfills hn

theorem Body.fencedOption_taken : ∀ {body : Option Body} {setting : Setting} {a b : Nat},
    setting.Settles source b → Body.FillsOption sw source body a b →
    Body.NormalOption sw source setting.block.isSome body →
    Fenced.AllTaken source (Body.fencedOption setting body)
  | none, _, _, _, _, _, _ => Fenced.allTaken_nil
  | some _, _, _, _, h, hfills, hn => Body.fenced_taken h hfills hn

theorem Body.fenced_taken : ∀ {body : Body} {setting : Setting} {a b : Nat},
    setting.Settles source b → body.Fills sw source a b →
    body.Normal sw source setting.block.isSome → Fenced.AllTaken source (body.fenced setting)
  | .block _, _, _, _, h, hfills, hn => Block.fenced_taken h hfills hn
  | .text _, _, _, _, h, hfills, hn => Text.fenced_taken h hfills hn

theorem Group.fenced_taken : ∀ {g : Group} {setting : Setting} {a b : Nat},
    g.Fills sw source a b → g.Normal sw source setting.block.isSome →
    Fenced.AllTaken source (g.fenced setting)
  | ⟨span, children⟩, setting, a, b, ⟨_, hspread, hclose⟩, hn => by
    have hend : (restAt source span.stop).head? ≠ some '#' := by
      rw [hclose.head_restAt (by decide)]
      decide
    exact Token.fencedAll_taken (fun hblock t ht offset => .of_opensPadded hblock ht) hspread hn
      hend

/-- After each token stands the next one, or the closing bracket. -/
theorem Token.fencedAll_taken : ∀ {ts : List Token} {setting : Setting} {a b : Nat},
    (setting.block.isSome = true → ∀ t ∈ ts, ∀ offset, t.OpensPadded offset →
      setting.TakesHash offset) →
    Token.Spread sw source ts a b → Token.NormalAll sw source setting.block.isSome ts →
    (restAt source b).head? ≠ some '#' → Fenced.AllTaken source (Token.fencedAll setting ts)
  | [], _, _, _, _, _, _, _ => Fenced.allTaken_nil
  | t :: ts, setting, a, b, hmem, ⟨i, j, _, hfills, hspread⟩, ⟨hn, hns⟩, hend => by
    have hmem' : setting.block.isSome = true → ∀ t ∈ ts, ∀ offset, t.OpensPadded offset →
        setting.TakesHash offset := fun hblock t ht => hmem hblock t (List.mem_cons_of_mem _ ht)
    have hafter : setting.Settles source j := by
      intro hblock hhead
      obtain ⟨g, hg, hopens⟩ := hspread.exists_opensPadded hns hend hhead
      exact hmem' hblock g hg j hopens
    exact (Token.fenced_taken hafter hfills hn).append
      (Token.fencedAll_taken hmem' hspread hns hend)

theorem Token.fenced_taken : ∀ {t : Token} {setting : Setting} {a b : Nat},
    setting.Settles source b → t.Fills sw source a b →
    t.Normal sw source setting.block.isSome → Fenced.AllTaken source (t.fenced setting)
  | .identifier _ _, _, _, _, _, _, _ | .operator _ _, _, _, _, _, _, _
  | .number _ _, _, _, _, _, _, _ => Fenced.allTaken_nil
  | .group _, _, _, _, _, hfills, hn => Group.fenced_taken hfills hn
  | .block _, _, _, _, h, ⟨_, _, hfills⟩, hn => Block.fenced_taken h hfills hn
  | .text _, _, _, _, h, ⟨_, _, hfills⟩, hn => Text.fenced_taken h hfills hn
  | .command _, _, _, _, h, hfills, hn => Command.fenced_taken h hfills hn

end

end Taken

/-- The nodes with fences in a document. -/
def Block.fencedNodes (tree : Block) : List Fenced :=
  Fragment.fencedAll .document tree.children

/-- In a source that is parsed, a `#` right after a padded right fence is in braces. Where these
braces are closer to the node than any options, it is the first character of prose in them; in
options that are closer, it is the first character of the next token, which is padded. -/
theorem parse_closing_hashes {sw : Switch} {source : String} {tree : Block}
    (h : parse sw source = .ok tree) :
    ∀ n ∈ tree.fencedNodes, n.RunsOn source → n.setting.TakesHash n.after := by
  obtain ⟨-, -, htile, hnormal⟩ := standAll_of_parse h
  exact Fragment.fencedAll_taken nofun htile hnormal rfl nofun

theorem parse_closing_hashes_nested :
    ∃ tree, parse .standard "@a##\x7b@b#\x7bx\x7d##@c[#\x7by\x7d##\"z\"#]\x7d##" = .ok tree ∧
      ((tree.fencedNodes.filter fun n =>
          n.RunsOn "@a##\x7b@b#\x7bx\x7d##@c[#\x7by\x7d##\"z\"#]\x7d##").map fun n =>
        (n.after, n.setting.group.isSome)) = [(12, false), (21, true)] ∧
      ∀ n ∈ tree.fencedNodes.filter fun n =>
          n.RunsOn "@a##\x7b@b#\x7bx\x7d##@c[#\x7by\x7d##\"z\"#]\x7d##",
        n.setting.TakesHash n.after := by
  have hsome : (parse .standard
      "@a##\x7b@b#\x7bx\x7d##@c[#\x7by\x7d##\"z\"#]\x7d##").toOption.any (fun tree => decide
        (((tree.fencedNodes.filter fun n =>
          n.RunsOn "@a##\x7b@b#\x7bx\x7d##@c[#\x7by\x7d##\"z\"#]\x7d##").map fun n =>
            (n.after, n.setting.group.isSome)) = [(12, false), (21, true)])) = true := by
    decide +kernel
  obtain ⟨tree, htree, hnodes⟩ := exists_tree_of hsome
  refine ⟨tree, htree, hnodes, fun n hn => ?_⟩
  obtain ⟨hmem, hruns⟩ := List.mem_filter.1 hn
  exact parse_closing_hashes htree n hmem (of_decide_eq_true hruns)

/-- The `#` after a padded fence is not always prose of the block around. -/
theorem parse_closing_hashes_options :
    ∃ tree n b, parse .standard "@a\x7b@b[#\x7bx\x7d##\x7by\x7d#]\x7d" = .ok tree ∧
      n ∈ tree.fencedNodes ∧ n.RunsOn "@a\x7b@b[#\x7bx\x7d##\x7by\x7d#]\x7d" ∧
      n.setting.block = some b ∧ ∀ f ∈ b.children, ¬f.StartsWithHash n.after := by
  have hsome : (parse .standard "@a\x7b@b[#\x7bx\x7d##\x7by\x7d#]\x7d").toOption.any (fun tree =>
      decide ((tree.fencedNodes.any fun n =>
        decide (n.RunsOn "@a\x7b@b[#\x7bx\x7d##\x7by\x7d#]\x7d") &&
          n.setting.block.any fun b => b.children.all fun f => !f.isProse) = true)) = true := by
    decide +kernel
  obtain ⟨tree, htree, hany⟩ := exists_tree_of hsome
  obtain ⟨n, hmem, hn⟩ := List.any_eq_true.1 hany
  obtain ⟨hruns, hblock⟩ := Bool.and_eq_true_iff.1 hn
  obtain ⟨b, hb, hall⟩ := (Option.any_eq_true _ _).1 hblock
  refine ⟨tree, n, b, htree, hmem, of_decide_eq_true hruns, hb, ?_⟩
  rintro f hf ⟨t, rfl, hprose, -⟩
  have hno := List.all_eq_true.1 hall _ hf
  rw [Fragment.isProse, hprose] at hno
  exact Bool.noConfusion hno

end Prosemark
