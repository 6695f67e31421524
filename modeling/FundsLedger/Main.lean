import FundsLedger.Program

/-!
The program as it is run from a command line. Everything that it decides is in `Surroundings.run`;
here the file, the variable and the clock that it needs are read, and what it shows is written.
There is no client for a database server here, so no address leads to one.
-/

namespace FundsLedger

/-- The time now: that at which a new file is written. -/
def currentTime : IO Timestamp := do
  let (_, path) ← IO.FS.createTempFile
  let written := (← path.metadata).modified
  IO.FS.removeFile path
  return (Timestamp.ofUnix? written.sec written.nsec.toNat).getD Timestamp.epoch

/-- The text of the file, if it can be read. -/
def readText (path : String) : IO (Option String) := do
  try return some (← IO.FS.readFile path)
  catch _ => return none

/-- Makes the log file of the configuration. -/
def makeLogFile (c : Configuration) (now : Timestamp) : IO Unit := do
  IO.FS.createDirAll c.logDir
  let name := c.logRotation.fileName c.logFile now
  let _ ← IO.FS.Handle.mk (c.logDir ++ "/" ++ name) IO.FS.Mode.append
  return ()

end FundsLedger

open FundsLedger in
/-- Runs the program. -/
def main (args : List String) : IO UInt32 := do
  let now ← currentTime
  let databaseUrl ← IO.getEnv "DATABASE_URL"
  let text ← match Invocation.ofArguments args with
    | .ok i => readText i.configurationPath
    | .error _ => pure none
  let surroundings : Surroundings Unit := ⟨fun _ => text, databaseUrl, fun _ => none, now⟩
  let finished := surroundings.run args
  if let some c := finished.logging then makeLogFile c now
  IO.print finished.outcome.output
  if let .failed e := finished.outcome then IO.eprint e.report
  return UInt32.ofNat finished.outcome.exitCode
