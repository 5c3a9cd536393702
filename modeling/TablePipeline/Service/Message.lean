import TablePipeline.Execution.Engine
import TablePipeline.Json.Reading
import TablePipeline.Run.Id

/-!
# Requests and responses

A request that carries something carries JSON of a shape of its own; a response carries JSON or
nothing. Members that have no value are left out of a response.
-/

set_option autoImplicit false

namespace TablePipeline.Service

structure Request where
  method : String
  path : String
  /-- Whether the body is declared to be JSON. -/
  isJson : Bool
  body : String
  deriving DecidableEq, Repr

structure Response where
  status : Nat
  body : Option Json

namespace Response

def plain (status : Nat) : Response := ⟨status, none⟩

def json (status : Nat) (members : List (String × Json)) : Response :=
  ⟨status, some (.ofMembers members)⟩

def fault (status : Nat) (message : String) : Response := json status [("error", .text message)]

def head (r : Response) : Response := { r with body := none }

end Response

open Json (Reader Shape readText readList readOption)

/-- The value in the body of a request. A body that is not declared JSON is not looked at; one that
is no JSON, or stops being the JSON that is asked for at a character, is malformed. -/
def Request.read {α : Type} (r : Request) (reader : Reader α) : Except Response α :=
  if !r.isJson then .error (.plain 415)
  else match Json.read? r.body with
    | none => .error (.plain 400)
    | some j =>
      match reader j with
      | .ok a => .ok a
      | .error e => .error (.plain (if e.stopsReading then 400 else 422))

def readTested : Reader Connection :=
  let shape : Shape Connection := {
    name := "TestConnectionBody", closed := false
    fields := [.of "connection" .required Connection.ofJson fun _ v => v] }
  shape.read default

def readPlaintext : Reader String :=
  let shape : Shape String := {
    name := "EncryptBody", closed := false
    fields := [.of "plaintext" .required readText fun _ v => v] }
  shape.read ""

structure NewRun where
  pipelineId : Option String
  table : Option String
  deriving DecidableEq, Repr, Inhabited

def NewRun.ofJson : Reader NewRun :=
  let shape : Shape NewRun := {
    name := "CreateRunBody", closed := false
    fields := [
      .of "pipelineId" .defaulted (readOption readText) fun r v => { r with pipelineId := v },
      .of "tableName" .defaulted (readOption readText) fun r v => { r with table := v }] }
  shape.read default

/-- What is asked to be executed; the id of the pipeline counts for a run that is made for it. -/
structure Order where
  pipelineId : Option String
  pipeline : Pipeline
  connections : List Connection
  deriving Inhabited

namespace Order

private def pipelineField : Json.Field Order :=
  .of "pipeline" .required Pipeline.ofJson fun o v => { o with pipeline := v }

private def connectionsField : Json.Field Order :=
  .of "connections" .defaulted (readList Connection.ofJson) fun o v => { o with connections := v }

/-- An order for a run that is there. -/
def ofExecuteJson : Reader Order :=
  let shape : Shape Order :=
    { name := "ExecuteRunBody", closed := false, fields := [pipelineField, connectionsField] }
  shape.read default

/-- An order for a run of its own. -/
def ofJson : Reader Order :=
  let shape : Shape Order := {
    name := "RunPipelineBody", closed := false
    fields := [
      .of "pipelineId" .defaulted (readOption readText) fun o v => { o with pipelineId := v },
      pipelineField, connectionsField] }
  shape.read default

def job (o : Order) (run : String) : Job := ⟨run, o.pipeline, o.connections⟩

end Order

private def present (name : String) : Option String → List (String × Json)
  | some s => [(name, .text s)]
  | none => []

def runMembers (r : RunRecord) : List (String × Json) :=
  [("id", .text r.id), ("status", .text r.status.name), ("rowsWritten", .int r.rowsWritten),
    ("createdAt", .text r.createdAt.rfc3339), ("updatedAt", .text r.updatedAt.rfc3339)] ++
    present "pipelineId" r.pipelineId ++ present "tableName" r.table ++
    present "errorKind" r.errorKind ++ present "errorMessage" r.errorMessage

def resultMembers (run : String) (result : RunResult) : List (String × Json) :=
  ("runId", .text run) :: match result with
    | .ok s => [("ok", .bool true), ("rowsWritten", .int s.rowsWritten),
        ("tableName", .text s.table), ("warnings", .list (s.warnings.map .text)),
        ("warningCount", .int s.warningCount)]
    | .error f => [("ok", .bool false), ("errorKind", .text f.kind.name),
        ("message", .text f.report)]

def testMembers : Except Failure Unit → List (String × Json)
  | .ok () => [("ok", .bool true)]
  | .error f => [("ok", .bool false), ("errorKind", .text f.kind.name),
      ("message", .text f.message)]

end TablePipeline.Service
