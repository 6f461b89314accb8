import FrontEnd.Command

/-!
# The program

Reads the file that the command needs, and prints what the command gives.
-/

namespace FrontEnd.Command

/-- Prints an outcome and ends with its code. -/
def Outcome.finish (outcome : Outcome) : IO UInt32 := do
  IO.print outcome.stdout
  IO.eprint outcome.stderr
  return outcome.code.toUInt32

/-- What reading a file gives. -/
def Content.read (file : String) : IO Content := do
  try
    return .bytes (← IO.FS.readBinFile file)
  catch
    | .noFileOrDirectory .. => return .missing
    | e => return .unreadable (toString e)

end FrontEnd.Command

open FrontEnd.Command in
def main (args : List String) : IO UInt32 := do
  match Invocation.ofArguments args with
  | .error e => e.outcome.finish
  | .ok .version => versionOutcome.finish
  | .ok (.scan options file) => (run options file (← Content.read file)).finish
