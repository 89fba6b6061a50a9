import SynthPatch.Command.Run
import SynthPatch.Noise
/-!
# The program

The outermost layer: it takes the command line and the files of the computer, and prints what comes
of the command.
-/

namespace SynthPatch

/-- The text of a file of the computer. -/
def readComputer (path : String) : IO (Option String) := do
  try return some (← IO.FS.readFile path)
  catch _ => return none

/-- Write a file of the computer. -/
def writeComputer (path text : String) : IO Bool := do
  try
    IO.FS.writeFile path text
    return true
  catch _ => return false

/-- The files of the computer. -/
def computer : Files IO where
  read := readComputer
  write := writeComputer
  usual := do
    match ← IO.getEnv "HOME" with
    | some home => readComputer (home ++ "/.patchlang/config.yaml")
    | none => return none

/-- How the program is used. -/
def usage : String :=
  "usage: " ++ programName ++ " [--config FILE] [--wavetables FILE] check|ir|play FILE [options]\n"

end SynthPatch

open SynthPatch in
/-- Take the command line and print what comes of it. -/
def main (words : List String) : IO UInt32 := do
  match Invocation.read? words with
  | none =>
    (← IO.getStderr).putStr usage
    return UInt32.ofNat Outcome.misuseCode
  | some .version =>
    (← IO.getStdout).putStr Outcome.version.printed
    return 0
  | some (.run command) =>
    let seed ← IO.monoNanosNow
    let outcome ← command.run computer fun tweak => Noise.draw (UInt64.ofNat (seed + tweak))
    (← IO.getStdout).putStr outcome.printed
    (← IO.getStderr).putStr outcome.errors
    return UInt32.ofNat outcome.code
