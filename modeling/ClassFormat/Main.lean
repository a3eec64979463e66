import ClassFormat.CommandLine

/-!
# The program

Reads the named files, and prints what the command line answers for them.
-/
open ClassFormat

/-- The content of a file that can be read. -/
def readSource (path : String) : IO (String × Option Source) := do
  try
    let bytes ← IO.FS.readBinFile path
    return (path, some ⟨bytes⟩)
  catch _ => return (path, none)

def main (arguments : List String) : IO UInt32 := do
  let files := (CommandLine.Arguments.parse arguments).map CommandLine.Arguments.files
  let contents ← (files.getD []).mapM readSource
  let outcome := CommandLine.run arguments fun path => (contents.lookup path).join
  outcome.messages.forM IO.eprintln
  let output ← IO.getStdout
  output.putStr outcome.output
  output.flush
  return outcome.exitCode.toUInt32
