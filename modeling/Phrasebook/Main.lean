import Phrasebook.Command.Run

/-!
# The program

Reads the files that a command line needs, runs it, and writes its outcome.
-/

open Phrasebook

namespace Phrasebook

/-- Reads a file, if it is there. -/
def readFile (path : String) : IO (String × Option ByteArray) := do
  try
    return (path, some (← IO.FS.readBinFile path))
  catch _ =>
    return (path, none)

/-- The environment variable that tells the locale. -/
def localeVariable : String := "PHRASEBOOK_LOCALE"

/-- Runs a command line. -/
def runProgram (arguments : List String) : IO UInt32 := do
  let environment ← IO.getEnv localeVariable
  let paths :=
    match Command.read environment arguments with
    | .ok command => command.paths
    | .error _ => []
  let contents ← paths.mapM readFile
  let outcome := Command.run (fun path => (contents.lookup path).join) environment arguments
  IO.print outcome.output
  IO.eprint outcome.errors
  return UInt32.ofNat outcome.status.code

end Phrasebook

/-- The command line. -/
def main (arguments : List String) : IO UInt32 :=
  Phrasebook.runProgram arguments
