import SchemaGate.CommandLine.Run

/-!
# The program

Reads the files that the arguments name, runs the command and prints its outcome.
-/

namespace SchemaGate.CommandLine

/-- The content of a file, if it can be read as text. -/
def readFile? (path : String) : IO (Option String) := do
  try
    return some (← IO.FS.readFile path)
  catch _ =>
    return none

/-- How the program is used. -/
def usage : String :=
  "Usage: schemagate compile -g FILE -t ID [--max-depth N]\n" ++
  "       schemagate interface -g FILE -p FILE\n" ++
  "       schemagate check -s FILE -v FILE"

end SchemaGate.CommandLine

open SchemaGate.CommandLine in
/-- Run the command that the arguments spell. -/
def main (arguments : List String) : IO UInt32 := do
  let paths := ((command? arguments).map Command.paths).getD []
  let contents ← paths.mapM fun path => return (path, ← readFile? path)
  let files : Files := fun path => (contents.lookup path).join
  let outcome := run files arguments
  match outcome with
  | .misuse => IO.eprintln usage
  | .success output => IO.print output
  | .failure failure => IO.eprintln failure.report
  return outcome.code.toUInt32
