import Mathlib.Data.List.Lex
import Prosemark.Value

/-!
# Fragment lists as texts and as lists of leaves

A value in nested fragment lists has a place, the positions to go through from the outermost list
on. Depth first and from left to right is the lexicographic order of places, so that `flatten` is
told by the values at places in ascending order (`Value.Enumerates`). A fragment list shows as the
texts of its items, one after the other, and its leaves give the same text.
-/

namespace Prosemark

namespace Value

def isFragments : Value → Bool
  | .fragments _ => true
  | _ => false

/-! ## Values at places -/

/-- The value at a place within fragment lists, a value being at the empty place of itself. -/
def at? : (place : List Nat) → Value → Option Value
  | [], v => some v
  | i :: place, .fragments items => items[i]?.bind (at? place)
  | _ :: _, _ => none

/-- The value at a place, unless it is a fragment list. -/
def leaf? (v : Value) (place : List Nat) : Option Value :=
  (v.at? place).filter fun w => !w.isFragments

/-- The leaf at a place of a fragment list, unless it is a nothing among the items of the list
itself. -/
def keptLeaf? (items : List Value) (place : List Nat) : Option Value :=
  ((fragments items).at? place).filter fun w =>
    !w.isFragments && !(place.length == 1 && w.isNothing)

/-- The values are those that are selected, in the ascending order of their places. -/
def Enumerates (select : List Nat → Option Value) (vs : List Value) : Prop :=
  ∃ places : List (List Nat), places.Pairwise (· < ·) ∧
    (∀ place, place ∈ places ↔ (select place).isSome = true) ∧ places.map select = vs.map some

section Enumerates

variable {select rest : List Nat → Option Value} {vs ws : List Value}

theorem enumerates_nil (h : ∀ place, select place = none) : Enumerates select [] :=
  ⟨[], .nil, by simp [h], rfl⟩

theorem enumerates_singleton {v : Value} (hnil : select [] = some v)
    (hcons : ∀ i place, select (i :: place) = none) : Enumerates select [v] := by
  refine ⟨[[]], List.pairwise_singleton _ _, fun place => ?_, by simp [hnil]⟩
  cases place with
  | nil => simp [hnil]
  | cons i place => simp [hcons]

theorem Enumerates.exists_of_mem {v : Value} (h : Enumerates select vs) (hv : v ∈ vs) :
    ∃ place, select place = some v := by
  obtain ⟨places, -, -, hmap⟩ := h
  have hsome : some v ∈ places.map select := hmap ▸ List.mem_map_of_mem hv
  obtain ⟨place, -, hplace⟩ := List.mem_map.1 hsome
  exact ⟨place, hplace⟩

/-- The place of an item that has become the next one. -/
def bump : List Nat → List Nat
  | [] => []
  | i :: place => (i + 1) :: place

/-- Values in the first item come before those in the others. -/
theorem Enumerates.cons {whole : List Nat → Option Value} (h : Enumerates select vs)
    (hrest : Enumerates rest ws) (hnil : whole [] = none) (hrestnil : rest [] = none)
    (hfirst : ∀ place, whole (0 :: place) = select place)
    (hlater : ∀ i place, whole ((i + 1) :: place) = rest (i :: place)) :
    Enumerates whole (vs ++ ws) := by
  obtain ⟨places, hsorted, hmem, hmap⟩ := h
  obtain ⟨later, hsorted', hmem', hmap'⟩ := hrest
  have hne : ∀ place ∈ later, ∃ i tail, place = i :: tail := by
    intro place hplace
    cases place with
    | nil => simp [hmem', hrestnil] at hplace
    | cons i tail => exact ⟨i, tail, rfl⟩
  refine ⟨places.map (0 :: ·) ++ later.map bump, ?_, ?_, ?_⟩
  · refine List.pairwise_append.2 ⟨?_, ?_, ?_⟩
    · exact List.pairwise_map.2 (hsorted.imp fun hlt => List.cons_lt_cons_iff.2 (.inr ⟨rfl, hlt⟩))
    · refine List.pairwise_map.2 (hsorted'.imp_of_mem ?_)
      intro a b ha hb hlt
      obtain ⟨i, a, rfl⟩ := hne a ha
      obtain ⟨j, b, rfl⟩ := hne b hb
      rw [List.cons_lt_cons_iff] at hlt
      exact List.cons_lt_cons_iff.2 (hlt.imp Nat.succ_lt_succ (.imp_left (congrArg (· + 1))))
    · intro a ha b hb
      obtain ⟨a, -, rfl⟩ := List.mem_map.1 ha
      obtain ⟨b, hlater', rfl⟩ := List.mem_map.1 hb
      obtain ⟨j, b, rfl⟩ := hne b hlater'
      exact List.cons_lt_cons_iff.2 (.inl (Nat.succ_pos j))
  · intro place
    rw [List.mem_append, List.mem_map, List.mem_map]
    constructor
    · rintro (⟨tail, htail, rfl⟩ | ⟨tail, htail, rfl⟩)
      · rw [hfirst]
        exact (hmem tail).1 htail
      · obtain ⟨i, tail, rfl⟩ := hne tail htail
        rw [bump, hlater]
        exact (hmem' _).1 htail
    · intro hsome
      match place with
      | [] => simp [hnil] at hsome
      | 0 :: tail => exact .inl ⟨tail, (hmem tail).2 (by rwa [← hfirst]), rfl⟩
      | (i + 1) :: tail => exact .inr ⟨i :: tail, (hmem' _).2 (by rwa [← hlater]), rfl⟩
  · have hbump : ∀ place ∈ later, whole (bump place) = rest place := by
      intro place hplace
      obtain ⟨i, tail, rfl⟩ := hne place hplace
      exact hlater i tail
    rw [List.map_append, List.map_append, List.map_map, List.map_map, ← hmap, ← hmap']
    congr 1
    · exact List.map_congr_left fun place _ => hfirst place
    · exact List.map_congr_left hbump

end Enumerates

/-! ## Leaves -/

mutual

theorem leaves_enumerates : ∀ v : Value, Enumerates v.leaf? v.leaves
  | .fragments items => leavesOfItems_enumerate items
  | .nothing | .bool _ | .int _ | .float _ | .string _ | .list _ | .map _ | .function _
  | .wrapper _ | .evaluator _ => enumerates_singleton rfl fun _ _ => rfl

theorem leavesOfItems_enumerate : ∀ items : List Value,
    Enumerates (fragments items).leaf? (leavesOfItems items)
  | [] => by
    apply enumerates_nil
    rintro (_ | ⟨i, place⟩) <;> simp [leaf?, at?, isFragments]
  | v :: vs => by
    refine (leaves_enumerates v).cons (leavesOfItems_enumerate vs) rfl rfl ?_ ?_
    · simp [leaf?, at?]
    · simp [leaf?, at?]

end

theorem keptLeaf?_cons_zero (v : Value) (vs : List Value) (place : List Nat) :
    keptLeaf? (v :: vs) (0 :: place) = if v.isNothing then none else v.leaf? place := by
  cases place with
  | nil => cases v <;> rfl
  | cons i place => cases v <;> simp [keptLeaf?, leaf?, at?, isNothing]

theorem flatten_enumerates (items : List Value) : Enumerates (keptLeaf? items) (flatten items) := by
  induction items with
  | nil =>
    apply enumerates_nil
    rintro (_ | ⟨i, place⟩) <;> simp [keptLeaf?, at?, isFragments]
  | cons v vs ih =>
    have hlater : ∀ i place,
        keptLeaf? (v :: vs) ((i + 1) :: place) = keptLeaf? vs (i :: place) := by
      simp [keptLeaf?, at?]
    cases hv : v.isNothing with
    | true =>
      have hfirst : ∀ place, keptLeaf? (v :: vs) (0 :: place) = none := by
        simp [keptLeaf?_cons_zero, hv]
      simpa [flatten, hv] using (enumerates_nil fun _ => rfl).cons ih rfl rfl hfirst hlater
    | false =>
      have hfirst : ∀ place, keptLeaf? (v :: vs) (0 :: place) = v.leaf? place := by
        simp [keptLeaf?_cons_zero, hv]
      simpa [flatten, hv] using (leaves_enumerates v).cons ih rfl rfl hfirst hlater

example : flatten [.nothing, .fragments [.fragments [], .nothing, .int 1], .int 2] =
    [.nothing, .int 1, .int 2] :=
  rfl

theorem isFragments_of_mem_flatten {items : List Value} {v : Value} (h : v ∈ flatten items) :
    v.isFragments = false := by
  obtain ⟨place, hplace⟩ := (flatten_enumerates items).exists_of_mem h
  have hkept := (Option.filter_eq_some_iff.1 hplace).2
  rw [Bool.and_eq_true, Bool.not_eq_true'] at hkept
  exact hkept.1

theorem flatten_append (items more : List Value) :
    flatten (items ++ more) = flatten items ++ flatten more := by
  induction items with
  | nil => rfl
  | cons v vs ih =>
    rw [List.cons_append, flatten, flatten]
    split <;> simp [ih]

/-! ## Texts -/

theorem textOfItems_eq_join (items : List Value) :
    textOfItems "" items = String.join (items.map text) := by
  induction items with
  | nil => rfl
  | cons v vs ih =>
    cases vs with
    | nil => simp [textOfItems]
    | cons w rest => simpa [textOfItems] using congrArg (text v ++ ·) ih

mutual

theorem join_text_leaves : ∀ v : Value, String.join (v.leaves.map text) = v.text
  | .fragments items => (join_text_leavesOfItems items).trans (textOfItems_eq_join items).symm
  | .nothing | .bool _ | .int _ | .float _ | .string _ | .list _ | .map _ | .function _
  | .wrapper _ | .evaluator _ => by simp [leaves]

theorem join_text_leavesOfItems : ∀ items : List Value,
    String.join ((leavesOfItems items).map text) = String.join (items.map text)
  | [] => rfl
  | v :: vs => by
    simp [leavesOfItems, join_text_leaves v, join_text_leavesOfItems vs]

end

/-- The nothings that are left out have no text. -/
theorem render_eq_join (items : List Value) : render items = String.join (items.map text) := by
  rw [render]
  induction items with
  | nil => rfl
  | cons v vs ih =>
    cases hv : v.isNothing with
    | true =>
      have htext : text v = "" := by
        cases v <;> first | rfl | simp [isNothing] at hv
      simp [flatten, hv, htext, ih]
    | false => simp [flatten, hv, join_text_leaves, ih]

theorem render_append (items more : List Value) :
    render (items ++ more) = render items ++ render more := by
  simp [render_eq_join]

theorem text_fragments (items : List Value) : text (.fragments items) = render items :=
  (textOfItems_eq_join items).trans (render_eq_join items).symm

theorem render_flatten (items : List Value) : render (flatten items) = render items :=
  render_eq_join (flatten items)

/-- Flattening lists the leaves of a fragment list in the order of their places, but for the
nothings among its own items; rendering joins the texts of the items, which is the same text before
and after flattening; both go item by item. -/
theorem flatten_render_agree (items more : List Value) :
    Enumerates (keptLeaf? items) (flatten items) ∧
      (∀ v ∈ flatten items, v.isFragments = false) ∧
      render items = String.join (items.map text) ∧
      render items = render (flatten items) ∧
      text (.fragments items) = render items ∧
      flatten (items ++ more) = flatten items ++ flatten more ∧
      render (items ++ more) = render items ++ render more :=
  ⟨flatten_enumerates items, fun _ => isFragments_of_mem_flatten, render_eq_join items,
    (render_flatten items).symm, text_fragments items, flatten_append items more,
    render_append items more⟩

end Value

end Prosemark
