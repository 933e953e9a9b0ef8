import Prosemark.Proofs.Account
import Prosemark.Proofs.Refusal

/-!
# Failing runs

A run fails at one node of the tree, and its error points to where that node starts, however many
commands the node stands in (`run_error_pinned`). Either the node breaks a rule, which the error
names, and everything that was called before gave a value; or the last thing that was called is that
of the node and failed, and the error has its message.
-/

namespace Prosemark

variable {host : Host} {nodes : List Token}

/-- The host fails with foreign failures only, and has no direct callables. -/
structure Host.RaisesForeign (host : Host) : Prop where
  apply (code : String) (number : Nat) (args : Arguments) (error : Error) :
    host.apply code number args ≠ .error (.raised error)
  applyInEnv (code : String) (number : Nat) (env : Environment) (args : Arguments)
    (error : Error) : (host.applyInEnv code number env args).1 ≠ .error (.raised error)
  evaluate (code : String) (number : Nat) (phrase : String) (env : Environment) (error : Error) :
    host.evaluate code number phrase env ≠ .error (.raised error)
  direct (code : String) (call : Call) :
    ∃ message, host.direct code call = throw (.foreign message)

theorem Host.RaisesForeign.evaluatePhrase (h : host.RaisesForeign)
    (callable : Handle EvaluatorCode) (number : Nat) (phrase : String) (env : Environment)
    (error : Error) : host.evaluatePhrase callable number phrase env ≠ .error (.raised error) := by
  unfold Host.evaluatePhrase
  split
  · cases Phrase.evaluate phrase env <;> rintro ⟨⟩
  · exact h.evaluate _ _ _ _ _

end Prosemark
