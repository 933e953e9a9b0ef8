import Prosemark.Interpreter
import Prosemark.Tree.Parser

/-!
# Documents

A source is parsed and its tree interpreted in one go. Errors are located in the source. The
standard environment has the standard evaluator of phrases and the control commands.
-/

namespace Prosemark

/-- The environment in which phrases have their standard values, with `if` and `for`. -/
def Environment.standard : Environment :=
  Environment.ofList
    [(evaluatorKey, .evaluator ⟨.standard, .standard⟩),
      ("if", .wrapper (.direct ⟨.conditional, .standard⟩)),
      ("for", .wrapper (.direct ⟨.loop, .standard⟩))]

/-- A state in which nothing was done yet. -/
def State.ofEnv (env : Environment) : State :=
  ⟨env, #[]⟩

/-- A host without code of its own, which no value refers to. -/
def Host.none : Host where
  apply code _ _ := .error (.foreign ("no code for " ++ code))
  applyInEnv code _ env _ := (.error (.foreign ("no code for " ++ code)), env)
  direct code _ := throw (.foreign ("no code for " ++ code))
  evaluate code _ _ _ := .error (.foreign ("no code for " ++ code))

/-- The fragment list that a tree read from `source` means, and the state afterwards. -/
def interpret (host : Host) (source : String) (tree : Block) (state : State) :
    Except Error (List Value) × State :=
  let (result, after) := (tree.meaning host).run.run state
  (result.mapError (·.locate source), after)

/-- Parses and interprets a source. A source that does not parse leaves the state as it was. -/
def run (host : Host) (sw : Switch) (source : String) (state : State) :
    Except Error (List Value) × State :=
  match parse sw source with
  | .error e => (.error e, state)
  | .ok tree => interpret host source tree state

/-- The text that a source renders to in the standard environment. -/
def render (source : String) : Except Error String :=
  (run .none .standard source (.ofEnv .standard)).1.map Value.render

end Prosemark
