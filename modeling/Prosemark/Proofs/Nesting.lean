import Prosemark.Proofs.Rules
import Prosemark.Proofs.SpanCheck

/-!
# Spans of checked trees are nested

A node is found by the path that leads to it from the root: the numbers of the children to go down
to. One step of the check makes sure that a node covers its content within its parent
(`Token.fits_of_checkSpans`), that its children are in order unless it is a command, and that its
children pass the check in their turn (`Token.children_of_checkSpans`). Going down a path, all nodes
of a checked tree cover their content and lie within the nodes above them, and where two paths part,
the nodes that they lead to lie apart.

A command is the exception: its options and its body are checked within its span, but not compared
with each other, and they can overlap (`Block.checkSpans_overlapping`).
-/

namespace Prosemark

variable {source : String}

/-! ## Nodes -/

namespace Token

/-- The nodes right below a node. A command has its options, as one node, and its body. -/
def children : Token → List Token
  | .group g => g.children
  | .block b => b.children.map Fragment.toToken
  | .command c => (c.options.map Token.group).toList ++ (c.body.map Body.toToken).toList
  | _ => []

/-- What a node of a source has to cover, if it is a text, an identifier or an operator. -/
def content? : Token → Option String
  | .text t => some t.inner
  | .identifier _ name => some name
  | .operator _ symbols => some symbols
  | _ => none

/-- The node that a path leads to. -/
def at? : List Nat → Token → Option Token
  | [], t => some t
  | i :: path, t => t.children[i]?.bind (at? path)

theorem at?_cons_eq_some_iff {i : Nat} {path : List Nat} {t node : Token} :
    t.at? (i :: path) = some node ↔
      ∃ child, t.children[i]? = some child ∧ child.at? path = some node :=
  Option.bind_eq_some_iff

end Token

namespace Command

/-- Two of the nodes right below a command are its options and its body. -/
theorem children_of_ne {c : Command} {i j : Nat} {s t : Token} (hij : i ≠ j)
    (hs : (Token.command c).children[i]? = some s) (ht : (Token.command c).children[j]? = some t) :
    c.options.isSome = true ∧ c.body.isSome = true ∧ (i = 0 ∧ j = 1 ∨ j = 0 ∧ i = 1) := by
  have hi := (List.getElem?_eq_some_iff.1 hs).1
  have hj := (List.getElem?_eq_some_iff.1 ht).1
  obtain ⟨span, phrase, e, options, body⟩ := c
  cases options with
  | none =>
    cases body with
    | none => simp [Token.children] at hi
    | some body =>
      simp [Token.children] at hi hj
      omega
  | some g =>
    cases body with
    | none =>
      simp [Token.children] at hi hj
      omega
    | some body =>
      simp [Token.children] at hi hj
      simp
      omega

end Command

/-! ## One step of the check -/

/-- One check after another passes if both do. -/
theorem bind_check_eq_ok_iff {first second : Except SpanFault Unit} :
    (first >>= fun _ => second) = .ok () ↔ first = .ok () ∧ second = .ok () := by
  cases first with
  | error fault => simp [bind, Except.bind]
  | ok u => simp [bind, Except.bind]

namespace Span

variable {kind : Outline.Kind} {span parent : Span} {text : String}

theorem start_le_stop_of_slice? (h : span.slice? source = some text) : span.start ≤ span.stop :=
  Covers.le h

theorem checked_eq_ok_iff :
    span.checked source kind parent = .ok text ↔
      span.slice? source = some text ∧ parent.contains span = true := by
  constructor
  · intro h
    unfold checked at h
    split at h
    · split at h
      · simp at h
      · next covered hslice =>
        split at h
        · next hin =>
          obtain rfl : covered = text := Except.ok.inj h
          exact ⟨hslice, hin⟩
        · simp at h
    · simp at h
  · rintro ⟨hslice, hin⟩
    have hcovers : Covers source span.start span.stop text := hslice
    rw [checked, if_pos ⟨hcovers.le, hcovers.stop_le⟩, hslice]
    exact if_pos hin

theorem check_eq_ok_iff :
    span.check source kind parent = .ok () ↔
      (∃ text, span.slice? source = some text) ∧ parent.contains span = true := by
  constructor
  · intro h
    cases hc : span.checked source kind parent with
    | error fault =>
      rw [check, hc] at h
      cases h
    | ok text =>
      have hc := checked_eq_ok_iff.1 hc
      exact ⟨⟨text, hc.1⟩, hc.2⟩
  · rintro ⟨⟨text, hslice⟩, hin⟩
    rw [check, checked_eq_ok_iff.2 ⟨hslice, hin⟩]
    rfl

theorem checkContent_eq_ok_iff :
    span.checkContent source kind parent text = .ok () ↔
      span.slice? source = some text ∧ parent.contains span = true := by
  rw [checkContent, Parser.bind_eq_ok_iff]
  constructor
  · rintro ⟨covered, hchecked, h⟩
    split at h
    · next heq => exact checked_eq_ok_iff.1 (heq ▸ hchecked)
    · simp [throw, throwThe, MonadExceptOf.throw] at h
  · intro h
    exact ⟨text, checked_eq_ok_iff.2 h, if_pos rfl⟩

/-- Of each two spans, the first stops before the second starts. -/
def InOrder (spans : List Span) : Prop :=
  spans.Pairwise fun a b => a.stop ≤ b.start

/-- Neighbours are compared, and as each span stops after its start, so are all. -/
theorem inOrder_of_checkOrder {overlap : Span → SpanFault} {reached : Nat} {spans : List Span}
    (h : checkOrder overlap reached spans = .ok ()) (hspans : ∀ s ∈ spans, s.start ≤ s.stop) :
    (∀ s ∈ spans, reached ≤ s.start) ∧ InOrder spans := by
  induction spans generalizing reached with
  | nil => exact ⟨by simp, .nil⟩
  | cons s rest ih =>
    rw [checkOrder] at h
    split at h
    · next hreached =>
      obtain ⟨hstart, horder⟩ := ih h fun r hr => hspans r (List.mem_cons_of_mem _ hr)
      have hs := hspans s List.mem_cons_self
      refine ⟨?_, List.pairwise_cons.2 ⟨hstart, horder⟩⟩
      intro r hr
      rcases List.mem_cons.1 hr with rfl | hr
      · exact hreached
      · have := hstart r hr
        omega
    · simp at h

end Span

theorem Fragment.checkSpans_toToken (parent : Span) (f : Fragment) :
    f.toToken.checkSpans source parent = f.checkSpans source parent := by
  cases f <;> rfl

theorem Fragment.span_toToken (f : Fragment) : f.toToken.span = f.span := by
  cases f <;> rfl

theorem Fragment.checkSpansOfAll_eq_ok_iff {parent : Span} {fs : List Fragment} :
    Fragment.checkSpansOfAll source parent fs = .ok () ↔
      ∀ t ∈ fs.map Fragment.toToken, t.checkSpans source parent = .ok () := by
  induction fs with
  | nil => simp [checkSpansOfAll]
  | cons f fs ih =>
    rw [checkSpansOfAll, bind_check_eq_ok_iff, ← Fragment.checkSpans_toToken, ih, List.map_cons,
      List.forall_mem_cons]

theorem Token.checkSpansOfAll_eq_ok_iff {parent : Span} {ts : List Token} :
    Token.checkSpansOfAll source parent ts = .ok () ↔
      ∀ t ∈ ts, t.checkSpans source parent = .ok () := by
  induction ts with
  | nil => simp [checkSpansOfAll]
  | cons t ts ih =>
    rw [checkSpansOfAll, bind_check_eq_ok_iff, ih, List.forall_mem_cons]

theorem Command.checkSpans_eq_ok_iff {parent : Span} {c : Command} :
    c.checkSpans source parent = .ok () ↔
      c.span.check source .command parent = .ok () ∧
        ∀ t ∈ (Token.command c).children, t.checkSpans source c.span = .ok () := by
  obtain ⟨span, phrase, e, options, body⟩ := c
  have hoptions : Group.checkSpansOfOption source span options = .ok () ↔
      ∀ t ∈ (options.map Token.group).toList, t.checkSpans source span = .ok () := by
    cases options with
    | none => simp [Group.checkSpansOfOption]
    | some g => simp [Group.checkSpansOfOption, Token.checkSpans]
  have hbody : Body.checkSpansOfOption source span body = .ok () ↔
      ∀ t ∈ (body.map Body.toToken).toList, t.checkSpans source span = .ok () := by
    rcases body with _ | _ | _
    · simp [Body.checkSpansOfOption]
    · simp [Body.checkSpansOfOption, Body.toToken, Token.checkSpans]
    · simp [Body.checkSpansOfOption, Body.toToken, Token.checkSpans]
  rw [checkSpans, bind_check_eq_ok_iff, bind_check_eq_ok_iff, hoptions, hbody, Token.children,
    List.forall_mem_append]

theorem Group.checkSpans_eq_ok_iff {parent : Span} {g : Group} :
    g.checkSpans source parent = .ok () ↔
      g.span.check source .group parent = .ok () ∧
        Span.checkOrder .tokensOverlap 0 ((Token.group g).children.map Token.span) = .ok () ∧
        ∀ t ∈ (Token.group g).children, t.checkSpans source g.span = .ok () := by
  obtain ⟨span, children⟩ := g
  rw [checkSpans, bind_check_eq_ok_iff, bind_check_eq_ok_iff, Token.checkSpansOfAll_eq_ok_iff]
  rfl

theorem Block.checkSpansIn_eq_ok_iff {parent : Span} {b : Block} :
    b.checkSpansIn source parent = .ok () ↔
      b.span.check source .block parent = .ok () ∧
        Span.checkOrder .fragmentsOverlap 0 ((Token.block b).children.map Token.span) = .ok () ∧
        ∀ t ∈ (Token.block b).children, t.checkSpans source b.span = .ok () := by
  obtain ⟨span, children, e⟩ := b
  have hspans : (children.map Fragment.toToken).map Token.span = children.map Fragment.span := by
    simp [Fragment.span_toToken]
  rw [checkSpansIn, bind_check_eq_ok_iff, bind_check_eq_ok_iff,
    Fragment.checkSpansOfAll_eq_ok_iff, Token.children, hspans]

namespace Token

/-- What a node covers, and where. -/
structure Fits (source : String) (parent : Span) (t : Token) : Prop where
  covers : ∃ text, t.span.slice? source = some text ∧ ∀ content ∈ t.content?, content = text
  within : parent.contains t.span = true

variable {parent : Span} {t : Token}

theorem Fits.start_le_stop (h : t.Fits source parent) : t.span.start ≤ t.span.stop := by
  obtain ⟨text, hslice, -⟩ := h.covers
  exact Span.start_le_stop_of_slice? hslice

theorem fits_of_check {kind : Outline.Kind} (hcontent : t.content? = none)
    (h : t.span.check source kind parent = .ok ()) : t.Fits source parent := by
  obtain ⟨⟨text, hslice⟩, hin⟩ := Span.check_eq_ok_iff.1 h
  exact ⟨⟨text, hslice, by simp [hcontent]⟩, hin⟩

theorem fits_of_checkContent {kind : Outline.Kind} {content : String}
    (hcontent : t.content? = some content)
    (h : t.span.checkContent source kind parent content = .ok ()) : t.Fits source parent := by
  obtain ⟨hslice, hin⟩ := Span.checkContent_eq_ok_iff.1 h
  exact ⟨⟨content, hslice, by simp [hcontent]⟩, hin⟩

theorem fits_of_checkSpans (h : t.checkSpans source parent = .ok ()) : t.Fits source parent := by
  cases t with
  | identifier span name => exact fits_of_checkContent rfl h
  | operator span symbols => exact fits_of_checkContent rfl h
  | number span value => exact fits_of_check rfl h
  | text t => exact fits_of_checkContent rfl h
  | group g => exact fits_of_check rfl (Group.checkSpans_eq_ok_iff.1 h).1
  | block b => exact fits_of_check rfl (Block.checkSpansIn_eq_ok_iff.1 h).1
  | command c => exact fits_of_check rfl (Command.checkSpans_eq_ok_iff.1 h).1

theorem inOrder_of_checkSpans {overlap : Span → SpanFault} {ts : List Token}
    (horder : Span.checkOrder overlap 0 (ts.map span) = .ok ())
    (h : ∀ t ∈ ts, t.checkSpans source parent = .ok ()) : Span.InOrder (ts.map span) := by
  refine (Span.inOrder_of_checkOrder horder ?_).2
  intro s hs
  obtain ⟨t, ht, rfl⟩ := List.mem_map.1 hs
  exact (fits_of_checkSpans (h t ht)).start_le_stop

/-- Below a node that passes the check, the children pass it in their turn, and they are in order
unless the node is a command. -/
theorem children_of_checkSpans (h : t.checkSpans source parent = .ok ()) :
    (∀ child ∈ t.children, child.checkSpans source t.span = .ok ()) ∧
      ((∀ c, t ≠ .command c) → Span.InOrder (t.children.map span)) := by
  cases t with
  | identifier => exact ⟨by simp [children], fun _ => .nil⟩
  | operator => exact ⟨by simp [children], fun _ => .nil⟩
  | number => exact ⟨by simp [children], fun _ => .nil⟩
  | text => exact ⟨by simp [children], fun _ => .nil⟩
  | group g =>
    obtain ⟨-, horder, hchildren⟩ := Group.checkSpans_eq_ok_iff.1 h
    exact ⟨hchildren, fun _ => inOrder_of_checkSpans horder hchildren⟩
  | block b =>
    obtain ⟨-, horder, hchildren⟩ := Block.checkSpansIn_eq_ok_iff.1 h
    exact ⟨hchildren, fun _ => inOrder_of_checkSpans horder hchildren⟩
  | command c => exact ⟨(Command.checkSpans_eq_ok_iff.1 h).2, fun hne => absurd rfl (hne c)⟩

/-! ## Going down a path -/

/-- Every node of a checked tree passes the check. -/
theorem checkSpans_at? {path : List Nat} {node : Token} (h : t.checkSpans source parent = .ok ())
    (hnode : t.at? path = some node) : ∃ above, node.checkSpans source above = .ok () := by
  induction path generalizing t parent with
  | nil =>
    obtain rfl : t = node := Option.some.inj hnode
    exact ⟨parent, h⟩
  | cons i path ih =>
    obtain ⟨child, hchild, hnode⟩ := at?_cons_eq_some_iff.1 hnode
    exact ih ((children_of_checkSpans h).1 child (List.mem_of_getElem? hchild)) hnode

/-- A node of a checked tree lies within those above it. -/
theorem span_at?_bounds {path : List Nat} {node : Token}
    (h : t.checkSpans source parent = .ok ()) (hnode : t.at? path = some node) :
    t.span.start ≤ node.span.start ∧ node.span.stop ≤ t.span.stop := by
  induction path generalizing t parent with
  | nil =>
    obtain rfl : t = node := Option.some.inj hnode
    exact ⟨Nat.le_refl _, Nat.le_refl _⟩
  | cons i path ih =>
    obtain ⟨child, hchild, hnode⟩ := at?_cons_eq_some_iff.1 hnode
    have hcheck := (children_of_checkSpans h).1 child (List.mem_of_getElem? hchild)
    have hwithin := Span.contains_iff.1 (fits_of_checkSpans hcheck).within
    have hbounds := ih hcheck hnode
    omega

/-- One path leads into the options of a command, and the other into its body. -/
def Splits (t : Token) (p q : List Nat) : Prop :=
  ∃ r c, t.at? r = some (.command c) ∧ c.options.isSome = true ∧ c.body.isSome = true ∧
    r ++ [0] <+: p ∧ r ++ [1] <+: q

theorem Splits.cons {i : Nat} {p q : List Nat} {child : Token}
    (hchild : t.children[i]? = some child) (h : child.Splits p q) : t.Splits (i :: p) (i :: q) := by
  obtain ⟨r, c, hr, hoptions, hbody, hp, hq⟩ := h
  refine ⟨i :: r, c, at?_cons_eq_some_iff.2 ⟨child, hchild, hr⟩, hoptions, hbody, ?_, ?_⟩
  · exact List.cons_prefix_cons.2 ⟨rfl, hp⟩
  · exact List.cons_prefix_cons.2 ⟨rfl, hq⟩

end Token

/-- One of the spans stops before the other starts. -/
def Span.Apart (a b : Span) : Prop :=
  a.stop ≤ b.start ∨ b.stop ≤ a.start

theorem Span.InOrder.apart {spans : List Span} (h : InOrder spans) {i j : Nat} {a b : Span}
    (hij : i ≠ j) (ha : spans[i]? = some a) (hb : spans[j]? = some b) : a.Apart b := by
  obtain ⟨hi, rfl⟩ := List.getElem?_eq_some_iff.1 ha
  obtain ⟨hj, rfl⟩ := List.getElem?_eq_some_iff.1 hb
  rcases Nat.lt_or_gt_of_ne hij with hlt | hlt
  · exact .inl (List.pairwise_iff_getElem.1 h i j hi hj hlt)
  · exact .inr (List.pairwise_iff_getElem.1 h j i hj hi hlt)

namespace Token

variable {parent : Span} {t : Token}

/-- Where two paths part, they go on into different children. -/
theorem apart_of_ne {i j : Nat} {s u : Token} (h : t.checkSpans source parent = .ok ())
    (hij : i ≠ j) (hs : t.children[i]? = some s) (hu : t.children[j]? = some u) :
    s.span.Apart u.span ∨
      ∃ c, t = .command c ∧ c.options.isSome = true ∧ c.body.isSome = true ∧
        (i = 0 ∧ j = 1 ∨ j = 0 ∧ i = 1) := by
  by_cases hc : ∃ c, t = .command c
  · obtain ⟨c, rfl⟩ := hc
    exact .inr ⟨c, rfl, Command.children_of_ne hij hs hu⟩
  · have horder := (children_of_checkSpans h).2 fun c hcommand => hc ⟨c, hcommand⟩
    refine .inl (horder.apart hij ?_ ?_)
    · rw [List.getElem?_map, hs]
      rfl
    · rw [List.getElem?_map, hu]
      rfl

/-- Two nodes of a checked tree, neither of which is above the other, lie apart, unless a command
has one in its options and the other in its body. -/
theorem apart_of_checkSpans {p q : List Nat} {a b : Token}
    (h : t.checkSpans source parent = .ok ()) (ha : t.at? p = some a) (hb : t.at? q = some b)
    (hpq : ¬p <+: q) (hqp : ¬q <+: p) :
    a.span.Apart b.span ∨ t.Splits p q ∨ t.Splits q p := by
  induction p generalizing q t parent with
  | nil => exact absurd (List.nil_prefix) hpq
  | cons i p ih =>
    cases q with
    | nil => exact absurd (List.nil_prefix) hqp
    | cons j q =>
      obtain ⟨s, hs, ha⟩ := at?_cons_eq_some_iff.1 ha
      obtain ⟨u, hu, hb⟩ := at?_cons_eq_some_iff.1 hb
      have hchildren := (children_of_checkSpans h).1
      have hcheck := hchildren s (List.mem_of_getElem? hs)
      by_cases hij : i = j
      · subst hij
        obtain rfl : s = u := Option.some.inj (hs.symm.trans hu)
        rw [List.cons_prefix_cons, not_and] at hpq hqp
        exact (ih hcheck ha hb (hpq rfl) (hqp rfl)).imp_right
          (Or.imp (Splits.cons hs) (Splits.cons hs))
      · have hbounds := span_at?_bounds hcheck ha
        have hbounds' := span_at?_bounds (hchildren u (List.mem_of_getElem? hu)) hb
        rcases apart_of_ne h hij hs hu with hlt | ⟨c, rfl, hoptions, hbody, hplaces⟩
        · unfold Span.Apart at hlt ⊢
          omega
        · right
          rcases hplaces with ⟨rfl, rfl⟩ | ⟨rfl, rfl⟩
          · exact .inl ⟨[], c, rfl, hoptions, hbody, by simp, by simp⟩
          · exact .inr ⟨[], c, rfl, hoptions, hbody, by simp, by simp⟩

end Token

/-! ## Checked trees -/

/-- In a tree that passes the check, each node covers its content between characters of the source
and lies within the node above it, and nodes of which neither is above the other lie apart, unless
one stands in the options of a command and the other in its body. -/
theorem Block.checkSpans_nested {tree : Block} (h : tree.checkSpans source = .ok ()) :
    (∀ path node, (Token.block tree).at? path = some node →
      ∃ text, node.span.slice? source = some text ∧ ∀ content ∈ node.content?, content = text) ∧
    (∀ path parent, (Token.block tree).at? path = some parent →
      ∀ node ∈ parent.children, parent.span.contains node.span = true) ∧
    ∀ p q a b, (Token.block tree).at? p = some a → (Token.block tree).at? q = some b →
      ¬p <+: q → ¬q <+: p →
        a.span.Apart b.span ∨ (Token.block tree).Splits p q ∨ (Token.block tree).Splits q p := by
  have hroot : (Token.block tree).checkSpans source ⟨0, source.utf8ByteSize⟩ = .ok () := h
  refine ⟨?_, ?_, ?_⟩
  · intro path node hnode
    obtain ⟨above, hcheck⟩ := Token.checkSpans_at? hroot hnode
    exact (Token.fits_of_checkSpans hcheck).covers
  · intro path parent hparent node hnode
    obtain ⟨above, hcheck⟩ := Token.checkSpans_at? hroot hparent
    exact (Token.fits_of_checkSpans ((Token.children_of_checkSpans hcheck).1 node hnode)).within
  · intro p q a b ha hb hpq hqp
    exact Token.apart_of_checkSpans hroot ha hb hpq hqp

/-- The tree of a source with a command, whose body is said to be at the given place. -/
def Block.callTree (place : Span) : Block :=
  ⟨⟨0, 10⟩,
    [.text ⟨⟨0, 2⟩, "é", .unfenced⟩,
      .command ⟨⟨2, 10⟩, "f", .unfenced, some ⟨⟨5, 6⟩, [.identifier ⟨5, 6⟩ "x"]⟩,
        some (.text ⟨place, "x", ⟨"\"", "\""⟩⟩)⟩],
    .unfenced⟩

theorem Block.checkSpans_nested_callTree :
    (callTree ⟨8, 9⟩).checkSpans "é@f[x]\"x\"" = .ok () ∧
      (∃ text, Span.slice? ⟨0, 2⟩ "é@f[x]\"x\"" = some text ∧ "é" = text) ∧
      (Span.contains ⟨2, 10⟩ ⟨5, 6⟩ = true) ∧ Span.Apart ⟨0, 2⟩ ⟨5, 6⟩ := by
  have hcheck : (callTree ⟨8, 9⟩).checkSpans "é@f[x]\"x\"" = .ok () := rfl
  obtain ⟨hcovers, hwithin, hapart⟩ := Block.checkSpans_nested hcheck
  refine ⟨hcheck, ?_, ?_, ?_⟩
  · obtain ⟨text, hslice, hcontent⟩ := hcovers [0] _ rfl
    exact ⟨text, hslice, hcontent _ rfl⟩
  · exact hwithin [1] _ rfl _ List.mem_cons_self
  · -- paths that part at the document do not part at a command
    rcases hapart [0] [1, 0, 0] _ _ rfl rfl (by decide) (by decide) with
      h | ⟨r, c, hr, -, -, hp, -⟩ | ⟨r, c, hr, -, -, -, hp⟩
    · exact h
    all_goals
      obtain rfl : r = [] := by
        rw [← List.length_eq_zero_iff]
        simpa using hp.length_le
      cases hr

/-- The options and the body of a command are not compared with each other. -/
theorem Block.checkSpans_overlapping :
    (callTree ⟨5, 6⟩).checkSpans "é@f[x]\"x\"" = .ok () ∧
      ∃ a b, (Token.block (callTree ⟨5, 6⟩)).at? [1, 0] = some a ∧
        (Token.block (callTree ⟨5, 6⟩)).at? [1, 1] = some b ∧
        ¬[1, 0] <+: [1, 1] ∧ ¬[1, 1] <+: [1, 0] ∧
        a.span = ⟨5, 6⟩ ∧ b.span = ⟨5, 6⟩ ∧ ¬a.span.Apart b.span := by
  refine ⟨rfl, _, _, rfl, rfl, by decide, by decide, rfl, rfl, ?_⟩
  show ¬(6 ≤ 5 ∨ 6 ≤ 5)
  omega

end Prosemark
