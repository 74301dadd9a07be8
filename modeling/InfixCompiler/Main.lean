import InfixCompiler.CommandLine

/-!
# The program

Reads the file, prints the outcome and exits with its code.
-/

namespace InfixCompiler

/-- The source in a file. -/
def Source.readFile (path : String) : IO (Except ReadFault Source) := do
  try
    return ofBytes path (← IO.FS.readBinFile path)
  catch _ =>
    return .error .unreadable

end InfixCompiler

/-- Runs the program. -/
def main (args : List String) : IO UInt32 := do
  let outcome ← InfixCompiler.CommandLine.run InfixCompiler.Source.readFile args
  IO.print outcome.output
  IO.eprint outcome.errors
  return outcome.code
