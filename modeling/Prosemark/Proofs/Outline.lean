import Mathlib.Data.List.Basic
import Prosemark.Outline
import Prosemark.Proofs.Account
import Prosemark.Proofs.Soundness

/-!
# Outlines show whole trees

The outlines of two parsed trees differ in nothing but their spans exactly where the trees agree
(`parse_outline_agrees`). The kinds of the children of a command tell its options from its body, and
both texts of a fence are told by the attribute, since no fence contains the ellipsis between them
(`Enclosing.attribute_inj`). The outlines below the one of a tree are those of its nodes, in
source order (`Block.preorder_outline`).
-/

namespace Prosemark

/-! ## Outlines apart from spans -/

namespace Outline

mutual

/-- The outlines differ in nothing but their spans. -/
def Same : Outline → Outline → Prop
  | .node kind label attributes _ children, .node kind' label' attributes' _ children' =>
    kind = kind' ∧ label = label' ∧ attributes = attributes' ∧ SameAll children children'

/-- The outlines differ one by one in nothing but their spans. -/
def SameAll : List Outline → List Outline → Prop
  | [], [] => True
  | a :: as, b :: bs => Same a b ∧ SameAll as bs
  | _, _ => False

end

theorem Same.kind_eq : ∀ {a b : Outline}, a.Same b → a.kind = b.kind
  | .node _ _ _ _ _, .node _ _ _ _ _, h => h.1

mutual

/-- The outline and those below it, each before what is below itself. -/
def preorder : Outline → List Outline
  | .node kind label attributes span children =>
    .node kind label attributes span children :: preorderAll children

/-- The outlines and those below them, one after the other. -/
def preorderAll : List Outline → List Outline
  | [] => []
  | o :: os => o.preorder ++ preorderAll os

end

theorem preorderAll_append (as bs : List Outline) :
    preorderAll (as ++ bs) = preorderAll as ++ preorderAll bs := by
  induction as with
  | nil => rfl
  | cons a as ih => simp [preorderAll, ih]

end Outline

/-! ## Trees that agree -/

def Text.Agrees (a b : Text) : Prop :=
  a.inner = b.inner ∧ a.enclosing = b.enclosing

/-- The numbers are shown in the same way. -/
def Number.Agrees (a b : Number) : Prop :=
  a.text .shown = b.text .shown

mutual

/-- The fragments agree in everything but their spans, numbers in how they are shown. -/
def Fragment.Agrees : Fragment → Fragment → Prop
  | .text a, .text b => a.Agrees b
  | .command a, .command b => a.Agrees b
  | .block a, .block b => a.Agrees b
  | _, _ => False
termination_by structural a => a

def Block.Agrees : Block → Block → Prop
  | ⟨_, children, enclosing⟩, b =>
    enclosing = b.enclosing ∧ Fragment.AgreeAll children b.children
termination_by structural a => a

/-- The fragments agree one by one. -/
def Fragment.AgreeAll : List Fragment → List Fragment → Prop
  | [], [] => True
  | a :: as, b :: bs => a.Agrees b ∧ Fragment.AgreeAll as bs
  | _, _ => False
termination_by structural a => a

def Command.Agrees : Command → Command → Prop
  | ⟨_, phrase, phraseEnclosing, options, body⟩, c =>
    phrase = c.phrase ∧ phraseEnclosing = c.phraseEnclosing ∧
      Group.AgreesOption options c.options ∧ Body.AgreesOption body c.body
termination_by structural a => a

/-- The options of two commands are both absent or agree. -/
def Group.AgreesOption : Option Group → Option Group → Prop
  | none, none => True
  | some a, some b => a.Agrees b
  | _, _ => False
termination_by structural a => a

/-- The bodies of two commands are both absent or agree. -/
def Body.AgreesOption : Option Body → Option Body → Prop
  | none, none => True
  | some a, some b => a.Agrees b
  | _, _ => False
termination_by structural a => a

def Body.Agrees : Body → Body → Prop
  | .block a, .block b => a.Agrees b
  | .text a, .text b => a.Agrees b
  | _, _ => False
termination_by structural a => a

def Group.Agrees : Group → Group → Prop
  | ⟨_, children⟩, g => Token.AgreeAll children g.children
termination_by structural a => a

/-- The tokens agree one by one. -/
def Token.AgreeAll : List Token → List Token → Prop
  | [], [] => True
  | a :: as, b :: bs => a.Agrees b ∧ Token.AgreeAll as bs
  | _, _ => False
termination_by structural a => a

def Token.Agrees : Token → Token → Prop
  | .identifier _ a, .identifier _ b => a = b
  | .operator _ a, .operator _ b => a = b
  | .number _ a, .number _ b => a.Agrees b
  | .group a, .group b => a.Agrees b
  | .block a, .block b => a.Agrees b
  | .text a, .text b => a.Agrees b
  | .command a, .command b => a.Agrees b
  | _, _ => False
termination_by structural a => a

end

theorem Token.AgreeAll.length_eq : ∀ {as bs : List Token}, Token.AgreeAll as bs →
    as.length = bs.length
  | [], [], _ => rfl
  | _ :: _, _ :: _, h => congrArg (· + 1) (length_eq h.2)

/-! ## Enclosings in outlines -/

namespace Enclosing

/-- Nothing on either side, or the two sides of a fence. -/
def WellFormed (e : Enclosing) : Prop :=
  e = .unfenced ∨ ∃ fence : Fence, e = fence.enclosing

theorem attribute_unfenced (name : String) : Enclosing.unfenced.attribute name = [] :=
  rfl

theorem attribute_fence (name : String) (fence : Fence) :
    fence.enclosing.attribute name =
      [(name, String.ofList fence.left ++ "…" ++ String.ofList fence.right)] := by
  rw [Enclosing.attribute, fence.isUnfenced_enclosing]
  rfl

theorem ellipsis_notMem_left (fence : Fence) : '…' ∉ fence.left := by
  rw [Fence.left, List.mem_append, List.mem_singleton]
  rintro (h | h)
  · exact absurd (List.eq_of_mem_replicate h) (by decide)
  · cases hd : fence.delimiter <;> simp [hd, Delimiter.opening] at h

theorem ellipsis_notMem_right (fence : Fence) : '…' ∉ fence.right := by
  rw [Fence.right, List.mem_cons]
  rintro (h | h)
  · cases hd : fence.delimiter <;> simp [hd, Delimiter.closing] at h
  · exact absurd (List.eq_of_mem_replicate h) (by decide)

/-- The attribute of an enclosing tells both of its sides. -/
theorem attribute_inj {name : String} {e e' : Enclosing} (he : e.WellFormed)
    (he' : e'.WellFormed) : e.attribute name = e'.attribute name ↔ e = e' := by
  refine ⟨fun h => ?_, congrArg (Enclosing.attribute name)⟩
  rcases he with rfl | ⟨fence, rfl⟩ <;> rcases he' with rfl | ⟨fence', rfl⟩
  · rfl
  · rw [attribute_unfenced, attribute_fence] at h
    exact absurd h.symm (List.cons_ne_nil _ _)
  · rw [attribute_unfenced, attribute_fence] at h
    exact absurd h (List.cons_ne_nil _ _)
  · rw [attribute_fence, attribute_fence, List.singleton_inj, Prod.mk.injEq] at h
    have hchars : fence.left ++ '…' :: fence.right = fence'.left ++ '…' :: fence'.right := by
      simpa using congrArg String.toList h.2
    obtain ⟨hleft, -, hright⟩ := (List.append_cons_inj_of_notMem (ellipsis_notMem_left fence)
      (ellipsis_notMem_right fence)).1 hchars
    rw [Fence.enclosing, Fence.enclosing, hleft, hright]

end Enclosing

/-! ## Enclosings of nodes in normal form -/

theorem Text.IsQuoted.enclosing_wellFormed {source : String} {nested : Bool} {t : Text}
    (h : t.IsQuoted source nested) : t.enclosing.WellFormed := by
  obtain ⟨fence, -, he, -⟩ := h
  exact .inr ⟨fence, he⟩

theorem Text.enclosing_wellFormed_of_normal {sw : Switch} {source : String} {closing : Option Fence}
    {t : Text} (h : (Fragment.text t).Normal sw source closing) : t.enclosing.WellFormed := by
  rw [Fragment.Normal] at h
  split at h
  · exact .inl h.1
  · exact h.enclosing_wellFormed

theorem Command.Formed.enclosing_wellFormed {sw : Switch} {source : String} {c : Command}
    (h : c.Formed sw source) : c.phraseEnclosing.WellFormed := by
  cases h with
  | identifier unfenced => exact .inl unfenced
  | bars fence _ fenced => exact .inr ⟨fence, fenced⟩
  | symbol _ unfenced => exact .inl unfenced

/-! ## Outlines that are the same -/

namespace Outline

theorem same_iff_false {a b : Outline} (h : a.kind ≠ b.kind) : a.Same b ↔ False :=
  ⟨fun hs => h hs.kind_eq, False.elim⟩

@[simp]
theorem kind_leaf (kind : Kind) (label : String) (span : Span) :
    (leaf kind label span).kind = kind :=
  rfl

theorem same_leaf_iff {kind : Kind} {label label' : String} {span span' : Span} :
    (leaf kind label span).Same (leaf kind label' span') ↔ label = label' :=
  ⟨fun h => h.2.1, fun h => ⟨rfl, h, rfl, trivial⟩⟩

end Outline

@[simp]
theorem Text.kind_outline (t : Text) : t.outline.kind = .text :=
  rfl

@[simp]
theorem Block.kind_outline (b : Block) : b.outline.kind = .block := by
  cases b
  rfl

@[simp]
theorem Command.kind_outline (c : Command) : c.outline.kind = .command := by
  cases c
  rfl

@[simp]
theorem Group.kind_outline (g : Group) : g.outline.kind = .group := by
  cases g
  rfl

theorem Body.outlines_some (body : Body) :
    Body.outlines (some body) = [body.toFragment.outline] := by
  cases body <;> rfl

theorem Body.kind_outline_ne (body : Body) : body.toFragment.outline.kind ≠ .group := by
  cases body <;> simp [toFragment, Fragment.outline]

/-- The kinds of the children of a command tell its options from its body. -/
theorem Command.sameAll_children_iff {options options' : Option Group} {body body' : Option Body} :
    Outline.SameAll (Group.outlines options ++ Body.outlines body)
        (Group.outlines options' ++ Body.outlines body') ↔
      Outline.SameAll (Group.outlines options) (Group.outlines options') ∧
        Outline.SameAll (Body.outlines body) (Body.outlines body') := by
  cases options with
  | none =>
    cases options' with
    | none => exact (and_iff_right trivial).symm
    | some g' =>
      -- the first child on the left is a body, if there is one, and on the right it is a group
      refine iff_of_false (fun h => ?_) (fun h => h.1)
      cases body with
      | none => exact h
      | some body =>
        rw [body.outlines_some] at h
        exact body.kind_outline_ne (h.1.kind_eq.trans g'.kind_outline)
  | some g =>
    cases options' with
    | none =>
      refine iff_of_false (fun h => ?_) (fun h => h.1)
      cases body' with
      | none => exact h
      | some body' =>
        rw [body'.outlines_some] at h
        exact body'.kind_outline_ne (h.1.kind_eq.symm.trans g.kind_outline)
    | some g' => exact ⟨fun h => ⟨⟨h.1, trivial⟩, h.2⟩, fun h => ⟨h.1.1, h.2⟩⟩

theorem Text.same_iff {a b : Text} (ha : a.enclosing.WellFormed) (hb : b.enclosing.WellFormed) :
    a.outline.Same b.outline ↔ a.Agrees b := by
  rw [Text.outline, Text.outline, Outline.Same, Enclosing.attribute_inj ha hb, Text.Agrees]
  exact ⟨fun h => ⟨h.2.1, h.2.2.1⟩, fun h => ⟨rfl, h.1, h.2, trivial⟩⟩

/-- The outlines of two blocks are the same where the blocks have the same fence and the outlines of
their children are the same. -/
theorem Block.same_iff {a b : Block} (ha : a.enclosing.WellFormed) (hb : b.enclosing.WellFormed)
    (h : Outline.SameAll (Fragment.outlines a.children) (Fragment.outlines b.children) ↔
      Fragment.AgreeAll a.children b.children) :
    a.outline.Same b.outline ↔ a.Agrees b := by
  obtain ⟨span, children, e⟩ := a
  obtain ⟨span', children', e'⟩ := b
  rw [Block.outline, Block.outline, Outline.Same, Enclosing.attribute_inj ha hb, h]
  constructor
  · rintro ⟨-, -, rfl, h⟩
    exact ⟨rfl, h⟩
  · rintro ⟨rfl, h⟩
    exact ⟨rfl, rfl, rfl, h⟩

section Normal

variable {sw sw' : Switch} {source source' : String}

mutual

/-- Fragments of different kinds neither agree nor have the same outline. -/
theorem Fragment.same_iff {closing closing' : Option Fence} : ∀ {f g : Fragment},
    f.Normal sw source closing → g.Normal sw' source' closing' →
      (f.outline.Same g.outline ↔ f.Agrees g)
  | .text a, g, ha, hg => by
    cases g with
    | text b =>
      exact Text.same_iff (Text.enclosing_wellFormed_of_normal ha)
        (Text.enclosing_wellFormed_of_normal hg)
    | _ => exact Outline.same_iff_false (by simp [Fragment.outline])
  | .command a, g, ha, hg => by
    cases g with
    | command b => exact Command.same_iff ha hg
    | _ => exact Outline.same_iff_false (by simp [Fragment.outline])
  | .block a, g, ha, hg => by
    cases g with
    | block b => exact Block.same_iff_of_normal ha hg
    | _ => exact Outline.same_iff_false (by simp [Fragment.outline])

theorem Fragment.sameAll_iff {closing closing' : Option Fence} : ∀ {fs gs : List Fragment},
    Fragment.NormalAll sw source closing fs → Fragment.NormalAll sw' source' closing' gs →
      (Outline.SameAll (Fragment.outlines fs) (Fragment.outlines gs) ↔ Fragment.AgreeAll fs gs)
  | [], [], _, _ => Iff.rfl
  | [], _ :: _, _, _ => Iff.rfl
  | _ :: _, [], _, _ => Iff.rfl
  | _ :: _, _ :: _, ha, hb =>
    and_congr (Fragment.same_iff ha.1 hb.1) (Fragment.sameAll_iff ha.2.2 hb.2.2)

theorem Block.same_iff_of_normal {nested nested' : Bool} : ∀ {a b : Block},
    a.Normal sw source nested → b.Normal sw' source' nested' →
      (a.outline.Same b.outline ↔ a.Agrees b)
  | ⟨_, _, _⟩, ⟨_, _, _⟩, ⟨fence, _, he, _, hc⟩, ⟨fence', _, he', _, hc'⟩ =>
    Block.same_iff (.inr ⟨fence, he⟩) (.inr ⟨fence', he'⟩) (Fragment.sameAll_iff hc hc')

theorem Command.same_iff {nested nested' : Bool} : ∀ {a b : Command},
    a.Normal sw source nested → b.Normal sw' source' nested' →
      (a.outline.Same b.outline ↔ a.Agrees b)
  | ⟨_, _, _, _, _⟩, ⟨_, _, _, _, _⟩, ⟨hformed, hoptions, hbody⟩,
      ⟨hformed', hoptions', hbody'⟩ => by
    rw [Command.outline, Command.outline, Outline.Same, Command.sameAll_children_iff,
      Enclosing.attribute_inj hformed.enclosing_wellFormed hformed'.enclosing_wellFormed,
      Group.sameAll_iff hoptions hoptions', Body.sameAll_iff hbody hbody']
    exact and_iff_right rfl

theorem Group.sameAll_iff {nested nested' : Bool} : ∀ {options options' : Option Group},
    Group.NormalOption sw source nested options →
      Group.NormalOption sw' source' nested' options' →
        (Outline.SameAll (Group.outlines options) (Group.outlines options') ↔
          Group.AgreesOption options options')
  | none, none, _, _ => Iff.rfl
  | none, some _, _, _ => Iff.rfl
  | some _, none, _, _ => Iff.rfl
  | some _, some _, h, h' => (and_iff_left trivial).trans (Group.same_iff h h')

theorem Body.sameAll_iff {nested nested' : Bool} : ∀ {body body' : Option Body},
    Body.NormalOption sw source nested body → Body.NormalOption sw' source' nested' body' →
      (Outline.SameAll (Body.outlines body) (Body.outlines body') ↔
        Body.AgreesOption body body')
  | none, none, _, _ => Iff.rfl
  | none, some body', _, _ => by rw [body'.outlines_some]; exact Iff.rfl
  | some body, none, _, _ => by rw [body.outlines_some]; exact Iff.rfl
  | some (.block a), some (.block b), h, h' =>
    (and_iff_left trivial).trans (Block.same_iff_of_normal h h')
  | some (.block a), some (.text b), _, _ =>
    (and_iff_left trivial).trans (Outline.same_iff_false (by simp))
  | some (.text a), some (.block b), _, _ =>
    (and_iff_left trivial).trans (Outline.same_iff_false (by simp))
  | some (.text a), some (.text b), h, h' =>
    (and_iff_left trivial).trans (Text.same_iff h.enclosing_wellFormed h'.enclosing_wellFormed)

theorem Group.same_iff {nested nested' : Bool} : ∀ {a b : Group},
    a.Normal sw source nested → b.Normal sw' source' nested' →
      (a.outline.Same b.outline ↔ a.Agrees b)
  | ⟨_, _⟩, ⟨_, _⟩, h, h' => by
    rw [Group.outline, Group.outline, Outline.Same, Token.sameAll_iff h h']
    exact ⟨fun h => h.2.2.2, fun h => ⟨rfl, by rw [h.length_eq], rfl, h⟩⟩

theorem Token.sameAll_iff {nested nested' : Bool} : ∀ {ts us : List Token},
    Token.NormalAll sw source nested ts → Token.NormalAll sw' source' nested' us →
      (Outline.SameAll (Token.outlines ts) (Token.outlines us) ↔ Token.AgreeAll ts us)
  | [], [], _, _ => Iff.rfl
  | [], _ :: _, _, _ => Iff.rfl
  | _ :: _, [], _, _ => Iff.rfl
  | _ :: _, _ :: _, h, h' => and_congr (Token.same_iff h.1 h'.1) (Token.sameAll_iff h.2 h'.2)

theorem Token.same_iff {nested nested' : Bool} : ∀ {t u : Token},
    t.Normal sw source nested → u.Normal sw' source' nested' →
      (t.outline.Same u.outline ↔ t.Agrees u)
  | .identifier _ a, u, _, _ => by
    cases u with
    | identifier _ b => exact Outline.same_leaf_iff
    | _ => exact Outline.same_iff_false (by simp [Token.outline])
  | .operator _ a, u, _, _ => by
    cases u with
    | operator _ b => exact Outline.same_leaf_iff
    | _ => exact Outline.same_iff_false (by simp [Token.outline])
  | .number _ a, u, _, _ => by
    cases u with
    | number _ b => exact Outline.same_leaf_iff
    | _ => exact Outline.same_iff_false (by simp [Token.outline])
  | .group a, u, h, h' => by
    cases u with
    | group b => exact Group.same_iff h h'
    | _ => exact Outline.same_iff_false (by simp [Token.outline])
  | .block a, u, h, h' => by
    cases u with
    | block b => exact Block.same_iff_of_normal h h'
    | _ => exact Outline.same_iff_false (by simp [Token.outline])
  | .text a, u, h, h' => by
    cases u with
    | text b => exact Text.same_iff h.enclosing_wellFormed h'.enclosing_wellFormed
    | _ => exact Outline.same_iff_false (by simp [Token.outline])
  | .command a, u, h, h' => by
    cases u with
    | command b => exact Command.same_iff h h'
    | _ => exact Outline.same_iff_false (by simp [Token.outline])

end

end Normal

/-! ## The nodes of an outline -/

mutual

theorem Fragment.preorder_outline : ∀ f : Fragment,
    f.outline.preorder = f.nodes.map Token.outline
  | .text _ => rfl
  | .command c => c.preorder_outline
  | .block b => b.preorder_outline

theorem Fragment.preorderAll_outlines : ∀ fs : List Fragment,
    Outline.preorderAll (Fragment.outlines fs) = (Fragment.allNodes fs).map Token.outline
  | [] => rfl
  | f :: fs => by
    rw [Fragment.outlines, Outline.preorderAll, Fragment.allNodes, List.map_append,
      f.preorder_outline, Fragment.preorderAll_outlines fs]

theorem Block.preorder_outline : ∀ b : Block, b.outline.preorder = b.nodes.map Token.outline
  | ⟨span, children, enclosing⟩ => by
    rw [Block.nodes, List.map_cons, ← Fragment.preorderAll_outlines children]
    rfl

theorem Command.preorder_outline : ∀ c : Command,
    c.outline.preorder = c.nodes.map Token.outline
  | ⟨span, phrase, phraseEnclosing, options, body⟩ => by
    rw [Command.nodes, List.map_cons, List.map_append, ← Group.preorderAll_outlines options,
      ← Body.preorderAll_outlines body, ← Outline.preorderAll_append]
    rfl

theorem Group.preorderAll_outlines : ∀ options : Option Group,
    Outline.preorderAll (Group.outlines options) = (Group.optionNodes options).map Token.outline
  | none => rfl
  | some g => (List.append_nil _).trans g.preorder_outline

theorem Body.preorderAll_outlines : ∀ body : Option Body,
    Outline.preorderAll (Body.outlines body) = (Body.optionNodes body).map Token.outline
  | none => rfl
  | some (.block b) => (List.append_nil _).trans b.preorder_outline
  | some (.text _) => rfl

theorem Group.preorder_outline : ∀ g : Group, g.outline.preorder = g.nodes.map Token.outline
  | ⟨span, children⟩ => by
    rw [Group.nodes, List.map_cons, ← Token.preorderAll_outlines children]
    rfl

theorem Token.preorderAll_outlines : ∀ ts : List Token,
    Outline.preorderAll (Token.outlines ts) = (Token.allNodes ts).map Token.outline
  | [] => rfl
  | t :: ts => by
    rw [Token.outlines, Outline.preorderAll, Token.allNodes, List.map_append,
      t.preorder_outline, Token.preorderAll_outlines ts]

theorem Token.preorder_outline : ∀ t : Token, t.outline.preorder = t.nodes.map Token.outline
  | .identifier _ _ | .operator _ _ | .number _ _ | .text _ => rfl
  | .group g => g.preorder_outline
  | .block b => b.preorder_outline
  | .command c => c.preorder_outline

end

theorem Token.span_outline : ∀ t : Token, t.outline.span = t.span
  | .identifier _ _ | .operator _ _ | .number _ _ | .group ⟨_, _⟩ | .block ⟨_, _, _⟩
  | .text ⟨_, _, _⟩ | .command ⟨_, _, _, _, _⟩ => rfl

/-- The spans of an outline are those of the nodes of the tree, in source order. -/
theorem Block.spans_outline (b : Block) :
    b.outline.preorder.map Outline.span = b.nodes.map Token.span := by
  rw [b.preorder_outline, List.map_map]
  exact List.map_congr_left fun t _ => t.span_outline

/-! ## Outlines of parsed trees -/

/-- The outlines of two parsed trees differ in nothing but their spans exactly where the trees
agree, and the spans of an outline are those of the nodes of the tree, in source order. -/
theorem parse_outline_agrees {sw sw' : Switch} {source source' : String} {a b : Block}
    (ha : parse sw source = .ok a) (hb : parse sw' source' = .ok b) :
    (a.outline.Same b.outline ↔ a.Agrees b) ∧
      a.outline.preorder.map Outline.span = a.nodes.map Token.span := by
  obtain ⟨-, he, -, hnormal⟩ := standAll_of_parse ha
  obtain ⟨-, he', -, hnormal'⟩ := standAll_of_parse hb
  exact ⟨Block.same_iff (.inl he) (.inl he') (Fragment.sameAll_iff hnormal hnormal'),
    a.spans_outline⟩

theorem parse_outline_agrees_empty_arguments :
    ∃ a b, parse .standard "@a @b[]@c\x7b\x7d[1.5 @d\"\"#]" = .ok a ∧
      parse .standard "@a @b\x7b\x7d@c[][1.5@d\"\"#]" = .ok b ∧
      (a.outline.Same b.outline ↔ a.Agrees b) ∧
      a.outline.preorder.map Outline.span = a.nodes.map Token.span := by
  have hsome : (parse .standard
      "@a @b[]@c\x7b\x7d[1.5 @d\"\"#]").toOption.isSome = true := by
    decide +kernel
  have hsome' : (parse .standard
      "@a @b\x7b\x7d@c[][1.5@d\"\"#]").toOption.isSome = true := by
    decide +kernel
  obtain ⟨a, ha⟩ := exists_tree hsome
  obtain ⟨b, hb⟩ := exists_tree hsome'
  exact ⟨a, b, ha, hb, parse_outline_agrees ha hb⟩

end Prosemark
