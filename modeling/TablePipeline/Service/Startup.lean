import TablePipeline.Connection.Client
import TablePipeline.Service.Location
import TablePipeline.Service.Sampling
import TablePipeline.Service.Settings

/-!
# Starting the service

The service reads its settings, opens the store of runs, connects to the warehouse and listens, in
this order. What goes wrong ends it; what it logs until then stays. A failure is told with its
causes.
-/

set_option autoImplicit false

namespace TablePipeline

inductive LogLevel
  | warn
  | info
  deriving DecidableEq, Repr

def LogLevel.name : LogLevel → String
  | warn => "WARN"
  | info => "INFO"

structure LogLine where
  level : LogLevel
  text : String
  deriving DecidableEq, Repr

/-- What the service finds around it. -/
structure Surroundings where
  environment : Settings.Variables
  hasDirectory : String → Bool
  connect : WarehouseSettings → Except ClientError Unit
  /-- Binding an address fails with a text. -/
  bind : SocketAddress → Except String Unit

/-- Why the service does not start: what it was about, and the causes from the outermost on. -/
structure StartFailure where
  headline : String
  causes : List String
  deriving DecidableEq, Repr

namespace StartFailure

def ofMessages : List String → StartFailure
  | [] => ⟨"", []⟩
  | m :: ms => ⟨m, ms⟩

/-- A text with its further lines set in. -/
private def setIn (blanks text : String) : String :=
  String.intercalate ("\n" ++ blanks)
    ((Text.splitChars '\n' text.toList).map String.ofList)

/-- Causes with numbers, from `n` on. -/
private def numbered (n : Nat) : List String → List String
  | [] => []
  | c :: cs =>
    let number := Digits.text n
    (String.ofList (List.replicate (5 - number.length) ' ') ++ number ++ ": " ++ setIn "       " c)
      :: numbered (n + 1) cs

/-- The report of a failure: its headline, then its causes, numbered if there are several. -/
def report (f : StartFailure) : String :=
  let causes := match f.causes with
    | [] => ""
    | [c] => "\n\nCaused by:\n    " ++ setIn "    " c
    | cs => "\n\nCaused by:\n" ++ String.intercalate "\n" (numbered 0 cs)
  "Error: " ++ f.headline ++ causes ++ "\n"

end StartFailure

namespace Startup

def failureCode : Nat := 1

def telemetryLog (vars : Settings.Variables) : List LogLine :=
  let (rate, warning) := Sampling.read (vars Sampling.source)
  (warning.toList.map fun w => ⟨.warn, w.message⟩) ++
    [⟨.info, "telemetry configured sampling_rate=" ++ rate.text .log⟩]

/-- Opens the store of runs; a file needs its directory. -/
def openStore (hasDirectory : String → Bool) (location : String) : Except StartFailure Unit :=
  let fail (e : ClientError) : Except StartFailure Unit :=
    .error ⟨"failed to open run store", e.messages⟩
  match StoreLocation.read location with
  | .error e => fail (.configuration e.message)
  | .ok .memory => .ok ()
  | .ok (.file path) =>
    if hasDirectory (StoreLocation.directory path) then .ok ()
    else fail (.database "(code: 14) unable to open database file" none none)

/-- Without a network no warehouse is reached; a location that is none is told first. -/
def offline (w : WarehouseSettings) : Except ClientError Unit :=
  match ServerLocation.check w.location with
  | .error e => .error (.configuration e.message)
  | .ok () => .error .noRoute

def sweepLog (sweepEvery : Option Nat) : List LogLine :=
  sweepEvery.toList.map fun secs =>
    ⟨.info, "stale-run sweep enabled interval_secs=" ++ Digits.text secs⟩

/-- Everything until the service listens: what was logged, and why it ended or where it listens. -/
def run (s : Surroundings) : List LogLine × Except StartFailure Settings :=
  let log := telemetryLog s.environment
  match Settings.ofVariables s.environment with
  | .error e => (log, .error (.ofMessages e.messages))
  | .ok settings =>
    match openStore s.hasDirectory settings.storeLocation with
    | .error f => (log, .error f)
    | .ok () =>
      match s.connect settings.warehouse with
      | .error e => (log, .error ⟨"failed to connect to the warehouse", e.messages⟩)
      | .ok () =>
        let log := log ++ sweepLog settings.sweepEvery
        match s.bind settings.listen with
        | .error text => (log, .error ⟨"failed to bind listen socket", [text]⟩)
        | .ok () =>
          (log ++ [⟨.info, "vantage-daemon listening addr=" ++ settings.listen.text⟩], .ok settings)

end Startup

end TablePipeline
