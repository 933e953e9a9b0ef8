import Mathlib.Data.List.Forall2
import Prosemark.Outline.Drawing
import Prosemark.Proofs.Outline

/-!
# Drawings show the shape of trees

Whatever its labels contain, the drawing of a parsed tree has one line a node, in source order, and
it tells the shape of the tree: the kinds and the drawn labels of all nodes and which node is below
which (`parse_drawn_faithful`). A line is told from the next by its newline, as no line contains
one. The lines of a child are told from those of its next sibling by their first character, which
comes from the branch: below the caption of the child it is a stem, and where the sibling begins it
is a connector (`Outline.branches_injective`).
-/

namespace Prosemark

/-! ## Sketches -/

/-- A tree of kinds and of labels as they are drawn. -/
inductive Sketch where
  | node (kind : Outline.Kind) (label : List Char) (children : List Sketch)

namespace Outline

mutual

/-- What a drawing shows of an outline. -/
def sketch : Outline → Sketch
  | node kind label _ _ children => .node kind (drawnLabel label) (sketches children)

def sketches : List Outline → List Sketch
  | [] => []
  | o :: os => o.sketch :: sketches os

end

/-! ## Captions -/

theorem Kind.icon_injective : Function.Injective Kind.icon := by
  intro kind kind' h
  cases kind <;> cases kind' <;> first | rfl | exact absurd h (by decide)

theorem newline_notMem_drawnLabel (label : String) : '\n' ∉ drawnLabel label := by
  have hshown : '\n' ∉ label.toList.map fun c => if c = '\n' then '↵' else c := by
    rw [List.mem_map]
    rintro ⟨c, -, hc⟩
    split at hc
    · exact absurd hc (by decide)
    · exact absurd hc ‹_›
  intro h
  rw [drawnLabel] at h
  split at h
  · rcases List.mem_append.1 h with h | h
    · exact hshown (List.mem_of_mem_take h)
    · exact absurd h (by decide)
  · exact hshown h

theorem newline_notMem_caption {kind : Kind} {label : List Char} (h : '\n' ∉ label) :
    '\n' ∉ caption kind label := by
  rw [caption, List.mem_cons, List.mem_cons]
  rintro (hc | hc | hc)
  · cases kind <;> exact absurd hc (by decide)
  · exact absurd hc (by decide)
  · exact h hc

theorem caption_inj {kind kind' : Kind} {label label' : List Char}
    (h : caption kind label = caption kind' label') : kind = kind' ∧ label = label' := by
  obtain ⟨hicon, h⟩ := List.cons.inj h
  exact ⟨Kind.icon_injective hicon, (List.cons.inj h).2⟩

/-! ## One line a node -/

/-- The characters that branches are drawn with. -/
def branchChars : List Char :=
  ['├', '└', '│', '─', ' ']

/-- The line has the caption of the node at its end, and nothing but branches in front of it. -/
def IsLineOf (line : List Char) (o : Outline) : Prop :=
  ∃ branch ⊆ branchChars, line = branch ++ caption o.kind (drawnLabel o.label)

theorem IsLineOf.newline_notMem {line : List Char} {o : Outline} (h : IsLineOf line o) :
    '\n' ∉ line := by
  obtain ⟨branch, hbranch, rfl⟩ := h
  rw [List.mem_append]
  rintro (h | h)
  · exact absurd (hbranch h) (by decide)
  · exact newline_notMem_caption (newline_notMem_drawnLabel _) h

theorem IsLineOf.hung {line first : List Char} {o : Outline} (h : IsLineOf line o)
    (hfirst : first ⊆ branchChars) : IsLineOf (first ++ line) o := by
  obtain ⟨branch, hbranch, rfl⟩ := h
  exact ⟨first ++ branch, List.append_subset.2 ⟨hfirst, hbranch⟩, (List.append_assoc ..).symm⟩

theorem forall₂_hang {first later : List Char} {lines : List (List Char)} {os : List Outline}
    (h : List.Forall₂ IsLineOf lines os) (hfirst : first ⊆ branchChars)
    (hlater : later ⊆ branchChars) : List.Forall₂ IsLineOf (hang first later lines) os := by
  cases h with
  | nil => exact .nil
  | cons hline hlines =>
    exact .cons (hline.hung hfirst)
      (List.forall₂_map_left_iff.2 (hlines.imp fun _ _ h => h.hung hlater))

theorem newline_notMem_of_forall₂ {lines : List (List Char)} {os : List Outline}
    (h : List.Forall₂ IsLineOf lines os) : ∀ line ∈ lines, '\n' ∉ line := by
  induction h with
  | nil => exact List.forall_mem_nil _
  | cons hline _ ih => exact List.forall_mem_cons.2 ⟨hline.newline_notMem, ih⟩

mutual

theorem forall₂_lines : ∀ o : Outline, List.Forall₂ IsLineOf o.lines o.preorder
  | node _ _ _ _ children =>
    .cons ⟨[], List.nil_subset _, rfl⟩ (forall₂_branches children)

/-- The lines of some nodes are those of the nodes and of all below them, in source order. -/
theorem forall₂_branches : ∀ os : List Outline, List.Forall₂ IsLineOf (branches os) (preorderAll os)
  | [] => .nil
  | [last] => by
    rw [branches, preorderAll, preorderAll, List.append_nil]
    exact forall₂_hang (forall₂_lines last) (by decide) (by decide)
  | child :: next :: rest => by
    rw [branches, preorderAll]
    exact List.rel_append (forall₂_hang (forall₂_lines child) (by decide) (by decide))
      (forall₂_branches (next :: rest))

end

/-! ## Reading lines back -/

/-- Lines that contain no newline are told by the text that has one after each of them. -/
theorem flatMap_newline_inj {ls ls' : List (List Char)} (hls : ∀ l ∈ ls, '\n' ∉ l)
    (hls' : ∀ l ∈ ls', '\n' ∉ l)
    (h : ls.flatMap (· ++ ['\n']) = ls'.flatMap (· ++ ['\n'])) : ls = ls' := by
  induction ls generalizing ls' with
  | nil =>
    cases ls' with
    | nil => rfl
    | cons l' ls' => simp at h
  | cons l ls ih =>
    cases ls' with
    | nil => simp at h
    | cons l' ls' =>
      rw [List.forall_mem_cons] at hls hls'
      have inner {m : List Char} (hm : '\n' ∉ m) : ∀ c ∈ m, (c != '\n') = true :=
        fun c hc => bne_iff_ne.2 fun he => hm (he ▸ hc)
      rw [List.flatMap_cons, List.flatMap_cons, List.append_assoc, List.append_assoc] at h
      obtain ⟨rfl, hrest⟩ :=
        append_inj_of_head (inner hls.1) (by simp) (inner hls'.1) (by simp) h
      rw [ih hls.2 hls'.2 (List.append_cancel_left hrest)]

theorem hang_inj {first later : List Char} {ls ls' : List (List Char)}
    (h : hang first later ls = hang first later ls') : ls = ls' := by
  cases ls with
  | nil =>
    cases ls' with
    | nil => rfl
    | cons l' ls' => exact absurd h (by simp [hang])
  | cons l ls =>
    cases ls' with
    | nil => exact absurd h (by simp [hang])
    | cons l' ls' =>
      obtain ⟨hline, hlines⟩ := List.cons.inj h
      rw [List.append_cancel_left hline,
        List.map_injective_iff.2 (List.append_right_injective later) hlines]

theorem hang_lines (first later : List Char) : ∀ o : Outline,
    hang first later o.lines =
      (first ++ caption o.kind (drawnLabel o.label)) :: (branches o.children).map (later ++ ·)
  | node _ _ _ _ _ => rfl

/-- The lines of a node end where a line begins with another character than the later lines of the
node. -/
theorem hang_append_inj {c : Char} {first later : List Char} {a a' : Outline}
    {ls ls' : List (List Char)} (hls : ∀ l ∈ ls.head?, (l.head? == some c) = false)
    (hls' : ∀ l ∈ ls'.head?, (l.head? == some c) = false)
    (h : hang first (c :: later) a.lines ++ ls = hang first (c :: later) a'.lines ++ ls') :
    a.lines = a'.lines ∧ ls = ls' := by
  have stem (ms : List (List Char)) :
      ∀ m ∈ ms.map (c :: later ++ ·), (m.head? == some c) = true := by
    simp
  rw [hang_lines, hang_lines, List.cons_append, List.cons_append, List.cons.injEq] at h
  obtain ⟨hlines, hrest⟩ := append_inj_of_head (stem _) hls (stem _) hls' h.2
  have hhang : hang first (c :: later) a.lines = hang first (c :: later) a'.lines := by
    rw [hang_lines, hang_lines, h.1, hlines]
  exact ⟨hang_inj hhang, hrest⟩

/-- Where some nodes begin there is a connector and no stem. -/
theorem head_branches_cons (o : Outline) (os : List Outline) :
    ∀ line ∈ (branches (o :: os)).head?, (line.head? == some '│') = false := by
  cases os <;> simp [branches, hang_lines]

mutual

/-- The lines of an outline tell its sketch. -/
theorem lines_injective : ∀ {a b : Outline}, a.lines = b.lines → a.sketch = b.sketch
  | node _ _ _ _ _, node _ _ _ _ _, h => by
    obtain ⟨hcaption, hbranches⟩ := List.cons.inj h
    obtain ⟨rfl, hlabel⟩ := caption_inj hcaption
    rw [sketch, sketch, hlabel, branches_injective hbranches]

/-- The lines of some nodes tell their sketches: a last child is told by its connector, and any
other ends where the next begins. -/
theorem branches_injective : ∀ {as bs : List Outline},
    branches as = branches bs → sketches as = sketches bs
  | [], [], _ => rfl
  | [_], [_], h => congrArg ([·]) (lines_injective (hang_inj h))
  | _ :: o :: os, _ :: o' :: os', h => by
    obtain ⟨hlines, hrest⟩ :=
      hang_append_inj (head_branches_cons o os) (head_branches_cons o' os') h
    exact congrArg₂ (· :: ·) (lines_injective hlines) (branches_injective hrest)
  -- no child, a last child and a child before another one begin in different ways
  | [], [_], h => absurd h (by simp [branches, hang_lines])
  | [], _ :: _ :: _, h => absurd h (by simp [branches, hang_lines])
  | [_], [], h => absurd h (by simp [branches, hang_lines])
  | _ :: _ :: _, [], h => absurd h (by simp [branches, hang_lines])
  | [_], _ :: _ :: _, h => absurd h (by simp [branches, hang_lines])
  | _ :: _ :: _, [_], h => absurd h (by simp [branches, hang_lines])

end

/-! ## Drawings of documents -/

/-- The line of a document. -/
def documentLine : List Char :=
  caption .block "document".toList

theorem newline_notMem_documentLine : '\n' ∉ documentLine :=
  newline_notMem_caption (by decide)

/-- The lines of a drawing after the one of the document. -/
theorem forall₂_branches_outlines (fs : List Fragment) :
    List.Forall₂ (fun line t => IsLineOf line t.outline) (branches (Fragment.outlines fs))
      (Fragment.allNodes fs) := by
  rw [← List.forall₂_map_right_iff, ← Fragment.preorderAll_outlines]
  exact forall₂_branches _

end Outline

open Outline

theorem Block.drawing_outline {b : Block} (h : b.enclosing = .unfenced) :
    b.outline.drawing = documentLine :: branches (Fragment.outlines b.children) := by
  obtain ⟨span, children, _⟩ := b
  subst h
  rfl

theorem Block.sketch_outline {b : Block} (h : b.enclosing = .unfenced) :
    b.outline.sketch = .node .block [] (sketches (Fragment.outlines b.children)) := by
  obtain ⟨span, children, _⟩ := b
  subst h
  rfl

/-- The drawing of a parsed tree is the line of the document and then one line for each node below
it, in source order, each ended by the only newline in it. The drawings of two parsed trees are the
same only where the trees have the same shape. -/
theorem parse_drawn_faithful {sw sw' : Switch} {source source' : String} {a b : Block}
    (ha : parse sw source = .ok a) (hb : parse sw' source' = .ok b) :
    (∃ lines : List (List Char),
      a.outline.drawn = String.ofList ((documentLine :: lines).flatMap (· ++ ['\n'])) ∧
        (∀ line ∈ documentLine :: lines, '\n' ∉ line) ∧
        List.Forall₂ (fun line t => IsLineOf line t.outline) lines
          (Fragment.allNodes a.children)) ∧
      (a.outline.drawn = b.outline.drawn → a.outline.sketch = b.outline.sketch) := by
  obtain ⟨-, he, -⟩ := standAll_of_parse ha
  obtain ⟨-, he', -⟩ := standAll_of_parse hb
  have newline (c : Block) : ∀ line ∈ documentLine :: branches (Fragment.outlines c.children),
      '\n' ∉ line :=
    List.forall_mem_cons.2
      ⟨newline_notMem_documentLine, newline_notMem_of_forall₂ (forall₂_branches _)⟩
  constructor
  · refine ⟨branches (Fragment.outlines a.children), ?_, newline a, forall₂_branches_outlines _⟩
    rw [drawn, a.drawing_outline he]
  · intro h
    rw [drawn, drawn, a.drawing_outline he, b.drawing_outline he'] at h
    have hlines := flatMap_newline_inj (newline a) (newline b) (String.ofList_injective h)
    rw [a.sketch_outline he, b.sketch_outline he', branches_injective (List.cons.inj hlines).2]

theorem parse_drawn_faithful_connectors :
    ∃ a b, parse .standard "@a\x7b@b\x7d\n└─ ◦ x" = .ok a ∧
      parse .standard "@a\x7b@b\x7d↵└─ ◦ x" = .ok b ∧
      a.outline.drawn = b.outline.drawn ∧
      (∃ lines : List (List Char),
        a.outline.drawn = String.ofList ((documentLine :: lines).flatMap (· ++ ['\n'])) ∧
          (∀ line ∈ documentLine :: lines, '\n' ∉ line) ∧
          List.Forall₂ (fun line t => IsLineOf line t.outline) lines
            (Fragment.allNodes a.children)) ∧
      a.outline.sketch = b.outline.sketch := by
  have hsome : (parse .standard "@a\x7b@b\x7d\n└─ ◦ x").toOption.any (fun tree =>
      decide (tree.outline.drawn =
        "⧉ document\n├─ ƒ a\n│ └─ ⧉ \x7b\n│   └─ ƒ b\n└─ ◦ ↵└─ ◦ x\n")) = true := by
    decide +kernel
  have hsome' : (parse .standard "@a\x7b@b\x7d↵└─ ◦ x").toOption.any (fun tree =>
      decide (tree.outline.drawn =
        "⧉ document\n├─ ƒ a\n│ └─ ⧉ \x7b\n│   └─ ƒ b\n└─ ◦ ↵└─ ◦ x\n")) = true := by
    decide +kernel
  obtain ⟨a, ha, hdrawn⟩ := exists_tree_of hsome
  obtain ⟨b, hb, hdrawn'⟩ := exists_tree_of hsome'
  obtain ⟨hlines, hsketch⟩ := parse_drawn_faithful ha hb
  have hsame : a.outline.drawn = b.outline.drawn := hdrawn.trans hdrawn'.symm
  exact ⟨a, b, ha, hb, hsame, hlines, hsketch hsame⟩

end Prosemark
