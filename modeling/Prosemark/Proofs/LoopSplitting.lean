import Prosemark.Proofs.Account
import Prosemark.Proofs.Flattening

/-!
# Loops over parts of a value

A loop goes through the value that its operand has before the first round. When that value is one
part followed by another, the loop is the loop over the first part and then, in the state which this
leaves, the loop over the second (`Control.loop_splits`). This holds whatever the body does: it may
bind the name of the loop or that of the value, and it may fail in any round.
-/

namespace Prosemark

namespace Value

/-- The value is one part, followed by another. -/
inductive Splits : (whole first second : Value) → Prop
  | list (xs ys : List Value) : Splits (.list (xs ++ ys)) (.list xs) (.list ys)
  | fragments (xs ys : List Value) : Splits (.fragments (xs ++ ys)) (.fragments xs) (.fragments ys)
  | string (a b : String) : Splits (.string (a ++ b)) (.string a) (.string b)

/-- How many items, entries or characters the value has. -/
def count? : Value → Option Nat
  | .list items => some items.length
  | .fragments items => some items.length
  | .map entries => some entries.length
  | .string s => some s.length
  | _ => none

end Value

namespace Run

/-- How a run ends that does what one run does and then what another does: it fails if one of them
fails, and gives the fragments of both if neither does. -/
inductive EndsAsBoth (x y : Run Value) (s : State) : Except Error Value × State → Prop
  | failsFirst {e s'} : x.run.run s = (.error e, s') → EndsAsBoth x y s (.error e, s')
  | failsSecond {xs s' e s''} : x.run.run s = (.ok (.fragments xs), s') →
      y.run.run s' = (.error e, s'') → EndsAsBoth x y s (.error e, s'')
  | succeeds {xs s' ys s''} : x.run.run s = (.ok (.fragments xs), s') →
      y.run.run s' = (.ok (.fragments ys), s'') →
      EndsAsBoth x y s (.ok (.fragments (xs ++ ys)), s'')

theorem run_bind_eq_ok_iff {α β : Type} {x : Run α} {f : α → Run β} {s s'' : State} {b : β} :
    (x >>= f).run.run s = (.ok b, s'') ↔
      ∃ a s', x.run.run s = (.ok a, s') ∧ (f a).run.run s' = (.ok b, s'') := by
  rw [run_bind]
  obtain ⟨result, s'⟩ := x.run.run s
  cases result with
  | error e =>
    constructor
    · exact fun h => nomatch h
    · rintro ⟨_, _, h, -⟩
      cases h
  | ok a =>
    constructor
    · exact fun h => ⟨a, s', rfl, h⟩
    · rintro ⟨_, _, ⟨⟩, h⟩
      exact h

end Run

namespace Call

/-- The call with a value for every operand, which takes no evaluation. -/
def overValue (call : Call) (v : Value) : Call where
  command := call.command
  operands := call.operands.map fun item => ⟨item.token, pure v⟩
  body := call.body
  evaluate _ _ := pure v

/-- In the state, the call is a loop with the name and the body over the value. To evaluate the
operand leaves the environment as it is, and the log as given. -/
structure LoopsOver (call : Call) (name : String) (body : Run Value) (v : Value) (s : State)
    (log : Array Event) : Prop where
  options : call.command.options.isSome = true
  body : call.body = some body
  header : ∃ iterable, Control.header? call.operands = some (name, iterable) ∧
    (call.operandValue iterable).run.run s = (.ok v, { s with log := log })

end Call

namespace Control

open Run

/-! ## Rounds -/

section Rounds

variable (name : String) (body : Run Value)

theorem iterate_append (xs ys : List Value) :
    iterate name body (xs ++ ys) = do
      let vs ← iterate name body xs
      let ws ← iterate name body ys
      return vs ++ ws := by
  induction xs with
  | nil => simp [iterate]
  | cons x xs ih => simp [iterate, ih]

theorem length_of_iterate {items vs : List Value} {s s' : State}
    (h : (iterate name body items).run.run s = (.ok vs, s')) : vs.length = items.length := by
  induction items generalizing vs s s' with
  | nil =>
    cases h
    rfl
  | cons item rest ih =>
    obtain ⟨_, _, -, h⟩ := run_bind_eq_ok_iff.1 h
    obtain ⟨v, _, -, h⟩ := run_bind_eq_ok_iff.1 h
    obtain ⟨ws, _, hrest, h⟩ := run_bind_eq_ok_iff.1 h
    cases h
    exact congrArg (· + 1) (ih hrest)

/-- The rounds of a loop, whose results are a fragment list. -/
def rounds (items : List Value) : Run Value := do
  return .fragments (← iterate name body items)

theorem rounds_nil (s : State) :
    (rounds name body []).run.run s = (.ok (.fragments []), s) :=
  rfl

theorem length_of_rounds {items : List Value} {v : Value} {s s' : State}
    (h : (rounds name body items).run.run s = (.ok v, s')) :
    ∃ vs, v = .fragments vs ∧ vs.length = items.length := by
  obtain ⟨vs, _, hvs, h⟩ := run_bind_eq_ok_iff.1 h
  cases h
  exact ⟨vs, rfl, length_of_iterate name body hvs⟩

theorem rounds_append (xs ys : List Value) (s : State) :
    EndsAsBoth (rounds name body xs) (rounds name body ys) s
      ((rounds name body (xs ++ ys)).run.run s) := by
  have hwhole : rounds name body (xs ++ ys) = do
      let vs ← iterate name body xs
      let ws ← iterate name body ys
      return .fragments (vs ++ ws) := by
    simp only [rounds, iterate_append, bind_assoc, pure_bind]
  rw [hwhole, run_bind]
  cases hx : (iterate name body xs).run.run s with
  | mk first s' =>
    cases first with
    | error e => exact .failsFirst (by rw [rounds, run_bind, hx])
    | ok vs =>
      have hfirst : (rounds name body xs).run.run s = (.ok (.fragments vs), s') := by
        rw [rounds, run_bind, hx]
        rfl
      simp only [run_bind]
      cases hy : (iterate name body ys).run.run s' with
      | mk second s'' =>
        cases second with
        | error e => exact .failsSecond hfirst (by rw [rounds, run_bind, hy])
        | ok ws => exact .succeeds hfirst (by rw [rounds, run_bind, hy]; rfl)

end Rounds

/-! ## Loops -/

theorem header?_map (v : Value) (operands : List Operand) :
    header? (operands.map fun item => ⟨item.token, pure v⟩) =
      (header? operands).map fun found => (found.1, ⟨found.2.token, pure v⟩) := by
  match operands with
  | [] | [_] | [_, _] | _ :: _ :: _ :: _ :: _ => rfl
  | [name, keyword, iterable] =>
    simp only [List.map, header?]
    split
    · rw [Option.map_map]
      rfl
    · rfl

end Control

section Loops

open Control Run

variable {call : Call} {name : String} {body : Run Value} {v : Value} {s : State}
  {log : Array Event}

theorem Call.LoopsOver.overValue (h : call.LoopsOver name body v s log) (w : Value) (s' : State) :
    (call.overValue w).LoopsOver name body w s' s'.log := by
  obtain ⟨iterable, hheader, -⟩ := h.header
  refine ⟨h.options, h.body, ⟨iterable.token, pure w⟩, ?_, ?_⟩
  · rw [Call.overValue, header?_map, hheader]
    rfl
  · rw [operandValue]
    split <;> rfl

/-- A loop evaluates its operand and then goes through the rounds, if there are any. -/
theorem Call.LoopsOver.loop_eq (h : call.LoopsOver name body v s log) :
    ∃ offset, (loop call).run.run s =
      (match items? v with
        | none => Run.fail (.notIterable v.typeName) offset
        | some items => rounds name body items).run.run { s with log := log } := by
  obtain ⟨g, hg⟩ := Option.isSome_iff_exists.1 h.options
  obtain ⟨iterable, hheader, hvalue⟩ := h.header
  have hparts : call.parts "for" .loopUsage = pure (g.span.start, body) := by
    rw [parts, hg, h.body]
  refine ⟨iterable.token.span.start, ?_⟩
  rw [loop, hparts, pure_bind]
  simp only [hheader]
  rw [Run.run_bind, hvalue]
  rfl

theorem Call.LoopsOver.run_loop (h : call.LoopsOver name body v s log) {items : List Value}
    (hitems : items? v = some items) :
    (loop call).run.run s = (rounds name body items).run.run { s with log := log } := by
  obtain ⟨offset, hloop⟩ := h.loop_eq
  rw [hloop, hitems]

/-- Only what has items is looped over. -/
theorem Call.LoopsOver.exists_items? (h : call.LoopsOver name body v s log) {w : Value}
    {s' : State} (hok : (loop call).run.run s = (.ok w, s')) : ∃ items, items? v = some items := by
  obtain ⟨offset, hloop⟩ := h.loop_eq
  cases hitems : items? v with
  | none =>
    rw [hloop, hitems] at hok
    cases hok
  | some items => exact ⟨items, rfl⟩

theorem Call.LoopsOver.rounds_eq_loop (h : call.LoopsOver name body v s log) {w : Value}
    {items : List Value} (hitems : items? w = some items) :
    rounds name body items = loop (call.overValue w) := by
  funext s'
  exact ((h.overValue w s').run_loop hitems).symm

theorem Value.Splits.items? {v first second : Value} (h : v.Splits first second) :
    ∃ xs ys, Control.items? first = some xs ∧ Control.items? second = some ys ∧
      Control.items? v = some (xs ++ ys) := by
  cases h with
  | list xs ys => exact ⟨xs, ys, rfl, rfl, rfl⟩
  | fragments xs ys => exact ⟨xs, ys, rfl, rfl, rfl⟩
  | string a b => exact ⟨_, _, rfl, rfl, by simp [Control.items?]⟩

theorem length_of_items? {items : List Value} (h : items? v = some items) :
    v.count? = some items.length := by
  cases v <;> cases h <;> simp [Value.count?, sortedKeys, String.length_toList]

theorem items?_of_count?_zero (h : v.count? = some 0) : items? v = some [] := by
  cases v with
  | list items => simpa [Value.count?, items?] using h
  | fragments items => simpa [Value.count?, items?] using h
  | map entries =>
    obtain rfl := List.eq_nil_of_length_eq_zero (Option.some.inj h)
    simp [items?, sortedKeys]
  | string s => simpa [Value.count?, items?] using h
  | _ => cases h

theorem sortedKeys_perm (entries : List (String × Value)) :
    (sortedKeys entries).Perm (entries.map (·.1)) :=
  List.mergeSort_perm _ _

theorem sortedKeys_pairwise (entries : List (String × Value)) :
    (sortedKeys entries).Pairwise (· ≤ ·) := by
  have htrans (a b c : String) (hab : decide (a ≤ b) = true) (hbc : decide (b ≤ c) = true) :
      decide (a ≤ c) = true :=
    decide_eq_true (String.le_trans (of_decide_eq_true hab) (of_decide_eq_true hbc))
  have htotal (a b : String) : (decide (a ≤ b) || decide (b ≤ a)) = true := by
    simpa using String.le_total a b
  exact (List.pairwise_mergeSort htrans htotal _).imp of_decide_eq_true

/-- A loop over a value that is one part followed by another does what the loop over the first part
does and then, in the state which that leaves, what the loop over the second does. One over nothing
gives no fragments and changes nothing, one over a map is the loop over the list of its keys in
ascending order, and every loop that succeeds gives one fragment for each item that the value has
before the first round. -/
theorem Control.loop_splits (h : call.LoopsOver name body v s log) :
    (∀ first second, v.Splits first second →
      EndsAsBoth (loop (call.overValue first)) (loop (call.overValue second)) { s with log := log }
        ((loop call).run.run s)) ∧
    (v.count? = some 0 → (loop call).run.run s = (.ok (.fragments []), { s with log := log })) ∧
    (∀ entries, v = .map entries →
      ∃ keys : List String, keys.Perm (entries.map (·.1)) ∧ keys.Pairwise (· ≤ ·) ∧
        (loop call).run.run s =
          (loop (call.overValue (.list (keys.map .string)))).run.run { s with log := log }) ∧
    ∀ w s', (loop call).run.run s = (.ok w, s') →
      ∃ results, w = .fragments results ∧ v.count? = some results.length := by
  refine ⟨?_, ?_, ?_, ?_⟩
  · intro first second hsplits
    obtain ⟨xs, ys, hxs, hys, hv⟩ := hsplits.items?
    rw [h.run_loop hv]
    have hends := rounds_append name body xs ys { s with log := log }
    rwa [h.rounds_eq_loop hxs, h.rounds_eq_loop hys] at hends
  · intro hcount
    rw [h.run_loop (items?_of_count?_zero hcount), rounds_nil]
  · rintro entries rfl
    refine ⟨sortedKeys entries, sortedKeys_perm entries, sortedKeys_pairwise entries, ?_⟩
    rw [h.run_loop rfl, (h.overValue _ _).run_loop rfl]
  · intro w s' hloop
    obtain ⟨items, hitems⟩ := h.exists_items? hloop
    rw [h.run_loop hitems] at hloop
    obtain ⟨results, rfl, hlength⟩ := length_of_rounds name body hloop
    exact ⟨results, rfl, by rw [length_of_items? hitems, hlength]⟩

/-- The command of a loop whose body shows the item and binds both the name of the loop and that of
the value anew. -/
def Command.rebindingLoop : Command :=
  ⟨⟨0, 50⟩, "for", .unfenced,
    some ⟨⟨4, 12⟩, [.identifier ⟨5, 6⟩ "x", .identifier ⟨7, 9⟩ "in", .identifier ⟨10, 12⟩ "xs"]⟩,
    some (.block ⟨⟨14, 49⟩,
      [.command ⟨⟨14, 16⟩, "x", .unfenced, none, none⟩, rebinding 16 "xs", rebinding 33 "x"],
      ⟨"\x7b", "\x7d"⟩⟩)⟩
where
  /-- A loop with nothing in its body, which binds a name to a letter. -/
  rebinding (start : Nat) (name : String) : Fragment :=
    .command ⟨⟨start, start + 16⟩, "for", .unfenced,
      some ⟨⟨start + 4, start + 13⟩,
        [.identifier ⟨start + 5, start + 6⟩ name, .identifier ⟨start + 7, start + 9⟩ "in",
          .text ⟨⟨start + 11, start + 12⟩, "z", ⟨"\"", "\""⟩⟩]⟩,
      some (.block ⟨⟨start + 15, start + 15⟩, [], ⟨"\x7b", "\x7d"⟩⟩)⟩

def State.pqr : State :=
  .ofEnv (Environment.standard.insert "xs" (.string "pqr"))

/-- The loop gives three fragments for the three characters that the name was bound to first. -/
theorem Control.loop_splits_rebinding :
    ∃ body results after,
      (Command.rebindingLoop.call .none).LoopsOver "x" body (.string "pqr") .pqr
        #[.evaluated "xs" 10] ∧
      (Value.string "pqr").Splits (.string "p") (.string "qr") ∧
      EndsAsBoth (loop ((Command.rebindingLoop.call .none).overValue (.string "p")))
        (loop ((Command.rebindingLoop.call .none).overValue (.string "qr")))
        { State.pqr with log := #[.evaluated "xs" 10] } (.ok (.fragments results), after) ∧
      results.length = 3 ∧ Value.render results = "pqr" ∧
      (after.env.get? "xs").bind Value.string? = some "z" ∧
      (after.env.get? "x").bind Value.string? = some "z" := by
  have hloops : (Command.rebindingLoop.call .none).LoopsOver "x"
      ((Body.optionMeaning .none Command.rebindingLoop.body).get rfl) (.string "pqr") .pqr
      #[.evaluated "xs" 10] := ⟨rfl, rfl, _, rfl, rfl⟩
  have hsplits : (Value.string "pqr").Splits (.string "p") (.string "qr") := .string "p" "qr"
  obtain ⟨hboth, -, -, hcount⟩ := loop_splits hloops
  have htext : (((loop (Command.rebindingLoop.call .none)).run.run .pqr).1.map
      Value.text).toOption = some "pqr" := by decide +kernel
  have hvalue : (((loop (Command.rebindingLoop.call .none)).run.run .pqr).2.env.get?
      "xs").bind Value.string? = some "z" := by decide +kernel
  have hname : (((loop (Command.rebindingLoop.call .none)).run.run .pqr).2.env.get?
      "x").bind Value.string? = some "z" := by decide +kernel
  have hends := hboth _ _ hsplits
  generalize hrun : (loop (Command.rebindingLoop.call .none)).run.run .pqr = ends at *
  obtain ⟨result, after⟩ := ends
  cases result with
  | error e => cases htext
  | ok w =>
    obtain ⟨results, rfl, hlength⟩ := hcount w after rfl
    refine ⟨_, results, after, hloops, hsplits, hends, (Option.some.inj hlength).symm, ?_,
      hvalue, hname⟩
    rw [← Value.text_fragments]
    exact Option.some.inj htext

end Loops

end Prosemark
