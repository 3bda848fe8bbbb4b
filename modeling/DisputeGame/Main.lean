import DisputeGame.Inspect.Run

/-!
The program: an inspection of what its arguments name. Lines go to the standard
output, the log and errors to the standard error. Only this module touches files
and the environment.
-/

namespace DisputeGame.Inspect

/-- The text of a file, if it is there and is text. -/
def readText? (path : String) : IO (Option String) := do
  try return some (← IO.FS.readFile path) catch _ => return none

def usage : String :=
  "usage: fault-inspect [-v]... (position GINDEX | claims PATH) -d MAX_DEPTH\n" ++
  "       fault-inspect [-v]... relative GINDEX ANCESTOR_DEPTH"

end DisputeGame.Inspect

open DisputeGame.Inspect

def main (args : List String) : IO UInt32 := do
  let env : Environment :=
    { depth? := ← IO.getEnv depthVariable, verbosity? := ← IO.getEnv verbosityVariable }
  let content? ← match requestedPath? env args with
    | some path => readText? path
    | none => pure none
  let outcome := run env (fun _ => content?) args
  for line in outcome.log do IO.eprintln line
  for line in outcome.output do IO.println line
  if let some text := outcome.error? then IO.eprintln text
  if outcome = .wrongUsage then IO.eprintln usage
  return outcome.exitCode.toUInt32
