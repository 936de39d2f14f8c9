import Journey.CommandLine

/-!
# The Program

Reads the files named on the command line and writes the outcome.
-/

/-- The text of a file, if there is such a file. -/
def readFile? (path : String) : IO (Option String) :=
  try return some (← IO.FS.readFile path) catch _ => return none

/-- Plan the journey of a query file over a timetable file. -/
def main (arguments : List String) : IO UInt32 := do
  let files ← arguments.mapM readFile?
  let outcome := Journey.CommandLine.run files
  IO.print outcome.output
  IO.eprint outcome.complaint
  return outcome.exitCode.toUInt32
