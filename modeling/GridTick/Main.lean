import GridTick.Runner.Run

/-!
# GridTick.Main — the command line

Reads the variables and the configuration file, drives a made-up world, and writes the log to standard output.  Ticks
start no faster than the target rate.
-/

namespace GridTick.Runner

def printLine (level message : String) (fields : Fields) : IO Unit :=
  IO.println (fields.foldl (fun line field => s!"{line} {field.1}={field.2}") s!"{level} {message}")

def printNotices (notices : List Notice) : IO Unit :=
  notices.forM fun n =>
    match n.line with
    | ⟨.warning, message, fields⟩ => printLine "WARN" message fields
    | ⟨.error, message, fields⟩ => printLine "ERROR" message fields

def printTick (t : TickCount) : IO Unit := do
  if 0 < t.summary.failedRegions then printLine "WARN" "Regions failed this tick" t.failureFields
  if t.isReported then printLine "INFO" "Tick" (t.fields ++ t.entityFields)

/-- Sleep until a tick that began at `start` has taken `period` nanoseconds. -/
def pace (period start : Nat) : IO Unit := do
  let elapsed := (← IO.monoNanosNow) - start
  IO.sleep (UInt32.ofNat (min ((period - elapsed) / tenTo 6) (twoTo 32 - 1)))

/-- Run ticks one after another. -/
def drive (period : Nat) : Nat → Simulation → IO (Except Fault Simulation)
  | 0, s => return .ok s
  | n + 1, s => do
    let start ← IO.monoNanosNow
    match s.step with
    | (.error fault, _) => return .error fault
    | (.ok t, s) =>
      printTick t
      pace period start
      drive period n s

/-- Read the configuration file that the environment names. -/
def readConfigFile : IO ConfigFile := do
  match ← IO.getEnv configVariable with
  | none => return .absent
  | some path =>
    try return .text path (← IO.FS.readFile path)
    catch _ => return .unreadable path

/-- Say how a run failed, if it did, and give its exit code. -/
def leave (code : UInt32) (failure : List String) : IO UInt32 := do
  failure.forM fun line => IO.eprintln line
  return code

/-- Run a world under a configuration. -/
def simulate (o : Options) (config : Config) : IO UInt32 := do
  printLine "INFO" "Starting region tick runner" (startFields o config)
  let (ticker, notices) := Ticker.start config
  printNotices notices
  match Simulation.start o ticker with
  | .error fault => leave faultCode (faultLines fault)
  | .ok (spawned, s) =>
    printLine "INFO" "World populated" (populatedFields spawned s.state.chunks.size)
    match ← drive o.period o.ticks s with
    | .error fault => leave faultCode (faultLines fault)
    | .ok s =>
      printLine "INFO" "Run complete" (s.doneFields o.ticks ++ s.doneEntityFields)
      let clock : Clock := { now := ← IO.monoNanosNow }
      let (code, failure) := closing ticker clock (Executor.exits ticker.executor.threads)
      leave code failure

end GridTick.Runner

open GridTick Runner in
/-- Run the world that the environment describes. -/
def main : IO UInt32 := do
  let values ← variableNames.mapM fun name => return (name, ← IO.getEnv name)
  let lookup (name : String) := (values.lookup name).join
  match loadConfig (← readConfigFile) with
  | .error failure => leave errorCode [failure.message]
  | .ok config => simulate (Options.ofVariables lookup) config
