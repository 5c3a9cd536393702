import TablePipeline.Execution.Engine
import TablePipeline.Run.Sweep
import TablePipeline.Service.Address

/-!
# Settings of the service

Settings are read from named variables in a fixed order, and the first fault counts. A variable with
a blank text counts as not set.
-/

set_option autoImplicit false

namespace TablePipeline

structure WarehouseSettings where
  location : String
  maxConnections : Nat
  acquireTimeoutSecs : Nat
  /-- Whether a writer holds its table against other writers. -/
  singleWriter : Bool
  deriving DecidableEq, Repr

structure Settings where
  listen : SocketAddress
  storeLocation : String
  warehouse : WarehouseSettings
  key : Option String
  engine : EngineConfig
  reconciler : Reconciler
  /-- Seconds between sweeps over abandoned runs; there are none without it. -/
  sweepEvery : Option Nat
  deriving DecidableEq, Repr

inductive VariableFault
  | address
  | notBoolean (text : String)
  | number (error : Integer.ReadError)
  deriving DecidableEq, Repr

def VariableFault.message : VariableFault → String
  | address => "invalid socket address syntax"
  | notBoolean text => "'" ++ text ++ "' is not a boolean"
  | number error => error.message

inductive SettingsFault
  | noWarehouse
  | noBatch
  | invalid (name : String) (fault : VariableFault)
  deriving DecidableEq, Repr

/-- The texts of a fault, from the outermost to the cause. -/
def SettingsFault.messages : SettingsFault → List String
  | noWarehouse => ["VANTAGE_WAREHOUSE_DSN must be configured"]
  | noBatch => ["VANTAGE_BATCH_SIZE must be positive"]
  | invalid name fault => ["invalid " ++ name, fault.message]

namespace Settings

/-- The texts of variables; none for one that is not set. -/
abbrev Variables := String → Option String

def trueWords : List String := ["1", "true", "yes", "on"]

def falseWords : List String := ["0", "false", "no", "off"]

def readBoolean (text : String) : Except VariableFault Bool :=
  let word := Text.lowerAscii (Text.trim text)
  if word ∈ trueWords then .ok true
  else if word ∈ falseWords then .ok false
  else .error (.notBoolean word)

def readNumber (text : String) : Except VariableFault Nat :=
  (Integer.readUnsigned Integer.maxUnsigned64 (Text.trim text)).mapError .number

def readAddress (text : String) : Except VariableFault SocketAddress :=
  match SocketAddress.read? text with
  | some a => .ok a
  | none => .error .address

def value? {α : Type} (vars : Variables) (name : String)
    (read : String → Except VariableFault α) : Except SettingsFault (Option α) :=
  match (vars name).filter (!Text.isBlankText ·) with
  | none => .ok none
  | some text => ((read text).mapError (.invalid name)).map some

def standardAddress : SocketAddress := .bytes [127, 0, 0, 1] 8080

def standardStore : String := "sqlite://vantage-state.db"

def ofVariables (vars : Variables) : Except SettingsFault Settings := do
  let listen ← value? vars "VANTAGE_API_ADDR" readAddress
  let storeLocation ← value? vars "VANTAGE_STATE_DSN" .ok
  let location ← match ← value? vars "VANTAGE_WAREHOUSE_DSN" .ok with
    | some location => pure location
    | none => throw .noWarehouse
  let singleWriter ← value? vars "VANTAGE_SINGLE_WRITER_LOCK" readBoolean
  let key ← value? vars "VANTAGE_ENCRYPTION_KEY" .ok
  let batchSize ← value? vars "VANTAGE_BATCH_SIZE" readNumber
  if batchSize = some 0 then throw .noBatch
  let timeout ← value? vars "VANTAGE_CONNECT_TIMEOUT_SECS" readNumber
  let staleAfter ← value? vars "VANTAGE_STALE_AFTER_SECS" readNumber
  let interval ← value? vars "VANTAGE_RECONCILE_INTERVAL_SECS" readNumber
  let standard := EngineConfig.standard
  return {
    listen := listen.getD standardAddress
    storeLocation := storeLocation.getD standardStore
    warehouse := ⟨location, 8, 30, singleWriter.getD false⟩
    key
    engine := { standard with
      batchSize := batchSize.getD standard.batchSize
      connectTimeoutMillis := (timeout.map (1000 * ·)).getD standard.connectTimeoutMillis }
    reconciler := (staleAfter.map Reconciler.ofSeconds).getD .standard
    sweepEvery := interval.filter (0 < ·) }

end Settings

end TablePipeline
