import Prosemark.CommandLine.Program

/-!
The command line program, run on files and the standard streams.
-/

open Prosemark.CommandLine

/-- What the system says about a failure, with the number it has for it. -/
def failureText : IO.Error → String
  | .noFileOrDirectory _ code text | .inappropriateType _ code text
  | .permissionDenied _ code text | .resourceExhausted _ code text
  | .invalidArgument _ code text | .noSuchThing _ code text | .alreadyExists _ code text
  | .interrupted _ code text | .resourceBusy code text | .resourceVanished code text
  | .hardwareFault code text | .unsatisfiedConstraints code text | .illegalOperation code text
  | .unsupportedOperation code text | .protocolError code text | .timeExpired code text
  | .otherError code text => text ++ " (os error " ++ toString code ++ ")"
  | .unexpectedEof => "unexpected end of file"
  | .userError text => text

/-- The answer of an action that may fail. -/
def attempt {α : Type} (action : IO α) : IO (Except String α) := do
  try
    return .ok (← action)
  catch e =>
    return .error (failureText e)

/-- The files and streams of the process. -/
def processSystem : System IO where
  load name := attempt do
    (← IO.FS.Handle.mk name .read).readBinToEnd
  input := attempt do
    (← IO.getStdin).readBinToEnd
  save name text := attempt (IO.FS.writeFile name text)

def main (args : List String) : IO UInt32 := do
  let outcome ← run processSystem args
  (← IO.getStdout).putStr outcome.output
  (← IO.getStderr).putStr outcome.diagnostics
  return outcome.code
