import Prosemark.Escape
import Prosemark.Value

/-!
# Structure of values

`Value.debug` shows the structure of a value: its kind, and its content with strings quoted. Code is
not shown.
-/

namespace Prosemark

/-- The kind of a wrapper, as part of the structure of a value. -/
def Wrapper.debug (w : Wrapper) : String :=
  "CallWrapper::" ++ w.kind

namespace Value

mutual

/-- The structure of a value. -/
def debug : Value → String
  | .nothing => "None"
  | .bool b => "Bool(" ++ (if b then "true" else "false") ++ ")"
  | .int n => "Int(" ++ toString n ++ ")"
  | .float x => "Float(" ++ NumberLayout.shown.text x ++ ")"
  | .string s => "Str(" ++ quotedString s ++ ")"
  | .list items => "List([" ++ debugItems items ++ "])"
  | .map entries => "Map(\x7b" ++ debugEntries entries ++ "\x7d)"
  | .fragments items => "Fragments(FragmentList([" ++ debugItems items ++ "]))"
  | .function _ => "Function(..)"
  | .wrapper w => "Wrapper(" ++ w.debug ++ ")"
  | .evaluator _ => "PhraseEvaluator(..)"

def debugItems : List Value → String
  | [] => ""
  | [v] => debug v
  | v :: w :: rest => debug v ++ ", " ++ debugItems (w :: rest)

def debugEntries : List (String × Value) → String
  | [] => ""
  | [(key, v)] => quotedString key ++ ": " ++ debug v
  | (key, v) :: w :: rest => quotedString key ++ ": " ++ debug v ++ ", " ++ debugEntries (w :: rest)

end

end Value

end Prosemark
