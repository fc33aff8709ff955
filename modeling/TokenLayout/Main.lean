/-
# TokenLayout.Main -- the program

The only part that touches the outside: it reads the files that are asked for and
prints the outcome.
-/
import TokenLayout.CommandLine

namespace TokenLayout

set_option autoImplicit false

/-- The contents of a file, if it can be read. -/
def readContents (path : String) : IO (Option ByteArray) := do
  try
    return some (← IO.FS.readBinFile path)
  catch _ =>
    return none

end TokenLayout

/-- Print the outcome of the arguments and return its exit code. -/
def main (args : List String) : IO UInt32 := do
  let outcome ← TokenLayout.CommandLine.run TokenLayout.readContents args
  (← IO.getStdout).putStr outcome.output
  (← IO.getStderr).putStr outcome.errors
  return outcome.exitCode.toUInt32
