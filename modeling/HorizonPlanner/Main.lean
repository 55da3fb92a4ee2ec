import HorizonPlanner.CommandLine.Session
import HorizonPlanner.StandIn.Learning
import HorizonPlanner.SystemFault

/-!
# The program

The planner as a program: its host is the machine it runs on, with a solver of its own as the
library of the embedded solver. Other programs cannot be started from here, so that only the
embedded solver answers.
-/

namespace HorizonPlanner.CommandLine

/-- The explanation of an error of the machine. -/
def explainError : IO.Error → String
  | .noFileOrDirectory .. => SystemFault.missing.message
  | .permissionDenied .. => SystemFault.forbidden.message
  | .inappropriateType .. => SystemFault.isDirectory.message
  | .resourceExhausted .. => SystemFault.full.message
  | e => e.toString

/-- Does something, and explains the error if there is one. -/
def attempted {α : Type} (act : IO α) : IO (Except String α) := do
  try
    return .ok (← act)
  catch e =>
    return .error (explainError e)

/-- Reads a file. What fails after it was opened belongs to its content. -/
def loadFile (path : String) : IO (Except String FileContent) :=
  attempted do
    let handle ← IO.FS.Handle.mk path .read
    match ← attempted handle.readBinToEnd with
    | .ok bytes => return ⟨bytes.toList, none⟩
    | .error why => return ⟨[], some why⟩

/-- The machine as a host. -/
def machine : Host IO where
  locate path := attempted do
    return (← IO.FS.realPath path).toString
  load := loadFile
  store path text := attempted (IO.FS.writeFile path (String.ofList text))
  launch _ _ _ _ := return .refused SystemFault.forbidden.message
  library := StandIn.Learning.library
  now := IO.monoNanosNow
  write output := do
    let out ← IO.getStdout
    out.putStr (output.text TimeStyle.exact)
    out.flush

end HorizonPlanner.CommandLine

open HorizonPlanner.CommandLine in
/-- Runs the planner. -/
def main (words : List String) : IO UInt32 := do
  let ending ← run machine words
  match ending with
  | .breakdown violation => IO.eprintln violation.message
  | _ => pure ()
  return ending.status.toUInt32
