import Prosemark.Proofs.Callables
import Prosemark.Proofs.Refusal
import Prosemark.Proofs.VisitOrder

/-!
# Spans are for information

Two trees that differ in their spans only mean the same, whichever sources they are said to be read
from, and leave the same environment. Where one of them fails, so does the other, and for the same
reason: only the place of an error is told from spans (`interpret_span_independent`).

Both trees are compared with what is left of them without spans, which each of them mirrors.
-/

namespace Prosemark

/-- The tree with all its spans empty, at the start of the source. -/
def Block.withoutSpans (tree : Block) : Block :=
  tree.carry (fun _ => 0) id

/-- The error without its place: what is left is its kind and what is wrong. -/
def Error.unplaced : Error → Error
  | switch char fault => switch char fault
  | grammar fault _ => grammar fault (.ofOffset 0)
  | render fault _ => render fault (.ofOffset 0)

theorem Error.unplaced_locate (source : String) (e : Error) :
    (e.locate source).unplaced = e.unplaced := by
  unfold locate
  split
  · rfl
  · cases e <;> rfl

theorem Carried.unplaced_eq {place : Nat → Nat} {α : Type} {r r' : Except Error α}
    (h : Carried place r r') : r.mapError Error.unplaced = r'.mapError Error.unplaced := by
  cases h <;> rfl

/-- What a tree means, but for the places of errors, is what the tree without spans means. -/
theorem Block.meaning_withoutSpans {host : Host} (hhost : host.Functional) {tree : Block}
    {s s' : State} (h : tree.EntersControlOnly host s) (henv : s.env = s'.env) :
    ((tree.meaning host).run.run s).1.mapError Error.unplaced =
        ((tree.withoutSpans.meaning host).run.run s').1.mapError Error.unplaced ∧
      ((tree.meaning host).run.run s).2.env =
        ((tree.withoutSpans.meaning host).run.run s').2.env := by
  obtain ⟨hresult, hafter⟩ := h.mirrored hhost henv fun _ => 0
  exact ⟨hresult.unplaced_eq, hafter⟩

/-- Errors get their places from the source, and nothing else depends on it. -/
theorem interpret_unplaced (host : Host) (source : String) (tree : Block) (s : State) :
    (interpret host source tree s).1.mapError Error.unplaced =
      ((tree.meaning host).run.run s).1.mapError Error.unplaced := by
  unfold interpret
  cases ((tree.meaning host).run.run s) with
  | mk result after =>
    cases result with
    | ok values => rfl
    | error e => exact congrArg Except.error (e.unplaced_locate source)

/-- Trees that are the same but for their spans, interpreted in the same environment by a host whose
functions are functions of their arguments, give the same fragment list or fail with errors that are
the same but for their places, and leave the same environment. -/
theorem interpret_span_independent {host : Host} (hhost : host.Functional) {t₁ t₂ : Block}
    (h : t₁.withoutSpans = t₂.withoutSpans) {s₁ s₂ : State} (henv : s₁.env = s₂.env)
    (h₁ : t₁.EntersControlOnly host s₁) (h₂ : t₂.EntersControlOnly host s₂)
    (source₁ source₂ : String) :
    (interpret host source₁ t₁ s₁).1.mapError Error.unplaced =
        (interpret host source₂ t₂ s₂).1.mapError Error.unplaced ∧
      (interpret host source₁ t₁ s₁).2.env = (interpret host source₂ t₂ s₂).2.env := by
  obtain ⟨hresult₁, hafter₁⟩ := t₁.meaning_withoutSpans hhost h₁ henv
  obtain ⟨hresult₂, hafter₂⟩ := t₂.meaning_withoutSpans hhost h₂ (rfl : s₂.env = s₂.env)
  rw [h] at hresult₁ hafter₁
  rw [interpret_unplaced, interpret_unplaced]
  exact ⟨hresult₁.trans hresult₂.symm, hafter₁.trans hafter₂.symm⟩

theorem Host.memory_functional : Host.memory.Functional where
  apply _ _ _ _ := rfl
  applyInEnv _ _ _ _ _ := rfl
  evaluate _ _ _ _ _ := rfl

/-- The tree of a loop over two letters, which fails at its second command in the first round; it
stands from an offset on. -/
def Block.failingLoop (start : Nat) : Block :=
  ⟨⟨start, start + 27⟩,
    [.command ⟨⟨start, start + 27⟩, "for", .unfenced,
      some ⟨⟨start + 5, start + 14⟩, [.identifier ⟨start + 5, start + 6⟩ "i",
        .identifier ⟨start + 7, start + 9⟩ "in",
        .text ⟨⟨start + 11, start + 13⟩, "ab", ⟨"\"", "\""⟩⟩]⟩,
      some (.block ⟨⟨start + 16, start + 26⟩,
        [.command ⟨⟨start + 16, start + 21⟩, "f", .unfenced,
          some ⟨⟨start + 18, start + 20⟩,
            [.command ⟨⟨start + 18, start + 20⟩, "i", .unfenced, none, none⟩]⟩, none⟩,
          .command ⟨⟨start + 21, start + 26⟩, "i", .unfenced,
            some ⟨⟨start + 24, start + 24⟩, []⟩, none⟩], ⟨"\x7b", "\x7d"⟩⟩)⟩],
    .unfenced⟩

theorem interpret_failingLoop :
    (interpret .memory "" (.failingLoop 0) .memory).1 =
      .error (.render (.notCallable "i" "string") ⟨21, some ⟨1, 1⟩⟩) :=
  eq_error_of_match (by decide +kernel)

/-- The name of the loop keeps the value of the round in which the run failed. -/
theorem get?_failingLoop :
    ((interpret .memory "" (.failingLoop 0) .memory).2.env.get? "i").bind Value.string? =
      some "a" := by
  decide +kernel

/-- An error for callables to stop runs with that end otherwise. -/
def Error.stopped : Error :=
  .render .groupNotExpected (.ofOffset 0)

/-- Only the place of the error tells the two trees apart. -/
theorem interpret_span_independent_failingLoop :
    (Block.failingLoop 0).withoutSpans = (Block.failingLoop 9).withoutSpans ∧
      (Block.failingLoop 0).EntersControlOnly .memory .memory ∧
      (Block.failingLoop 9).EntersControlOnly .memory .memory ∧
      (interpret .memory "" (.failingLoop 0) .memory).1 =
        .error (.render (.notCallable "i" "string") ⟨21, some ⟨1, 1⟩⟩) ∧
      (interpret .memory "" (.failingLoop 9) .memory).1.mapError Error.unplaced =
        .error (.render (.notCallable "i" "string") (.ofOffset 0)) ∧
      ((interpret .memory "" (.failingLoop 9) .memory).2.env.get? "i").bind Value.string? =
        some "a" := by
  have hrun₁ : (((Block.failingLoop 0).meaning (Host.memory.stopDirect .stopped)).run.run
      .memory).1 = .error (.render (.notCallable "i" "string") (.ofOffset 21)) :=
    eq_error_of_match (by decide +kernel)
  have h₁ : (Block.failingLoop 0).EntersControlOnly .memory .memory :=
    Block.entersControlOnly_iff.2 ⟨.stopped, by rw [hrun₁]; simp [Error.stopped]⟩
  have hrun₂ : (((Block.failingLoop 9).meaning (Host.memory.stopDirect .stopped)).run.run
      .memory).1 = .error (.render (.notCallable "i" "string") (.ofOffset 30)) :=
    eq_error_of_match (by decide +kernel)
  have h₂ : (Block.failingLoop 9).EntersControlOnly .memory .memory :=
    Block.entersControlOnly_iff.2 ⟨.stopped, by rw [hrun₂]; simp [Error.stopped]⟩
  have hspans : (Block.failingLoop 0).withoutSpans = (Block.failingLoop 9).withoutSpans := rfl
  obtain ⟨hsame, hafter⟩ :=
    interpret_span_independent Host.memory_functional hspans rfl h₁ h₂ "" ""
  refine ⟨hspans, h₁, h₂, interpret_failingLoop, ?_, ?_⟩
  · rw [← hsame, interpret_failingLoop]
    rfl
  · rw [← hafter]
    exact get?_failingLoop

end Prosemark
