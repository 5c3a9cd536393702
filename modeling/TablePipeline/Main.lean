import TablePipeline.Service.Document
import TablePipeline.Service.Startup

/-!
# Command line

Without an argument the service is started with the variables of its environment; with `openapi` the
document of its interface is printed.
-/

set_option autoImplicit false

namespace TablePipeline.CommandLine

def variableNames : List String :=
  [Sampling.source, "VANTAGE_API_ADDR", "VANTAGE_STATE_DSN", "VANTAGE_WAREHOUSE_DSN",
    "VANTAGE_SINGLE_WRITER_LOCK", "VANTAGE_ENCRYPTION_KEY", "VANTAGE_BATCH_SIZE",
    "VANTAGE_CONNECT_TIMEOUT_SECS", "VANTAGE_STALE_AFTER_SECS", "VANTAGE_RECONCILE_INTERVAL_SECS"]

def readVariables : IO (List (String × String)) :=
  variableNames.filterMapM fun name => do return (← IO.getEnv name).map (name, ·)

/-- Whether a path leads to a directory: only there is it also the path of its own entry. -/
def isDirectory (path : String) : IO Bool :=
  try
    let _ ← IO.FS.realPath (path ++ "/.")
    return true
  catch _ => return false

/-- The directory that the store of runs needs, if it needs one. -/
def neededDirectories (vars : List (String × String)) : List String :=
  let location := (vars.lookup "VANTAGE_STATE_DSN").getD Settings.standardStore
  match StoreLocation.read location with
  | .ok (.file path) => [StoreLocation.directory path]
  | _ => []

def start : IO UInt32 := do
  let vars ← readVariables
  let directories ← (neededDirectories vars).filterM isDirectory
  let (log, outcome) := Startup.run {
    environment := fun name => vars.lookup name
    hasDirectory := directories.contains
    connect := Startup.offline
    bind := fun _ => .ok () }
  for line in log do
    IO.println (line.level.name ++ " " ++ line.text)
  match outcome with
  | .ok _ => return 0
  | .error f =>
    IO.eprint f.report
    return UInt32.ofNat Startup.failureCode

end TablePipeline.CommandLine

open TablePipeline in
def main : List String → IO UInt32
  | ["openapi"] => do
    IO.println Document.service.yaml
    return 0
  | _ => CommandLine.start
