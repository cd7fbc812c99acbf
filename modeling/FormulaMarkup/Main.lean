import FormulaMarkup.CommandLine.Run
import FormulaMarkup.Report.Place

/-!
The command line program.
-/
namespace FormulaMarkup.CommandLine

/-- The files and the standard input of the process. -/
def processWorld : World IO where
  file name := do
    try
      return some (← IO.FS.readBinFile name)
    catch _ => return none
  input := do (← IO.getStdin).readBinToEnd

/-- What is said about a run that does not end well. -/
def complaint : Outcome → Option String
  | .output _ => none
  | .formulaError source e =>
    let place := (Place.ofByte source e.span.start).written
    some ("Error: " ++ e.cause.message ++ "\n  at " ++ place ++ ": " ++ e.cause.label)
  | .settingsError e => some ("Config error: " ++ e.message)
  | .unreadable => some "IO Error"
  | .usage => some usageText

end FormulaMarkup.CommandLine

open FormulaMarkup.CommandLine

/-- Runs the command line and ends with its exit code. -/
def main (arguments : List String) : IO UInt32 := do
  let outcome ← run processWorld arguments
  match outcome with
  | .output text => IO.print text
  | _ => pure ()
  match complaint outcome with
  | some text => IO.eprintln text
  | none => pure ()
  return outcome.exitCode.toUInt32
