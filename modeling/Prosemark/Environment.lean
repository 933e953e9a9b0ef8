import Prosemark.Value

/-!
# Environments

An environment binds names to values. Three names have a meaning of their own: `_phrase_eval_` is
bound to the evaluator of phrases, and the standard evaluator looks at `_extras_` and `_symbols_`.
-/

namespace Prosemark

/-- Names bound to values, each at most once. -/
structure Environment where
  bindings : List (String × Value)

namespace Environment

def evaluatorKey : String :=
  "_phrase_eval_"

def extrasKey : String :=
  "_extras_"

def symbolsKey : String :=
  "_symbols_"

def empty : Environment :=
  ⟨[]⟩

/-- The value to which a name is bound. -/
def get? (name : String) (env : Environment) : Option Value :=
  env.bindings.lookup name

def contains (name : String) (env : Environment) : Bool :=
  (env.get? name).isSome

/-- Takes away the binding of a name. -/
def erase (name : String) (env : Environment) : Environment :=
  ⟨env.bindings.filter fun binding => binding.1 != name⟩

/-- Binds a name, in place of what it was bound to. -/
def insert (name : String) (v : Value) (env : Environment) : Environment :=
  ⟨(name, v) :: (env.erase name).bindings⟩

/-- The environment that binds some names, the last binding of a name counting. -/
def ofList (bindings : List (String × Value)) : Environment :=
  bindings.foldl (fun env binding => env.insert binding.1 binding.2) empty

def size (env : Environment) : Nat :=
  env.bindings.length

/-- The names that are bound, in ascending order. -/
def names (env : Environment) : List String :=
  (env.bindings.map (·.1)).mergeSort fun a b => decide (a ≤ b)

/-- The evaluator of phrases, if the name for it is bound to one. -/
def evaluator? (env : Environment) : Option (Handle EvaluatorCode) :=
  match env.get? evaluatorKey with
  | some (.evaluator callable) => some callable
  | _ => none

theorem get?_insert (name key : String) (v : Value) (env : Environment) :
    (env.insert name v).get? key = if key = name then some v else env.get? key := by
  by_cases h : key = name
  · simp [get?, insert, h]
  · have hb : (key == name) = false := beq_false_of_ne h
    simp only [get?, insert, erase, List.lookup_cons, hb, if_neg h]
    induction env.bindings with
    | nil => rfl
    | cons b rest ih =>
      obtain ⟨k, w⟩ := b
      by_cases hn : k = name
      · subst hn
        simp only [List.filter_cons, bne_self_eq_false, Bool.false_eq_true, if_false,
          List.lookup_cons, hb, ih]
      · simp only [List.filter_cons, bne_iff_ne, ne_eq, hn, not_false_eq_true, if_true,
          List.lookup_cons, ih]

end Environment

end Prosemark
