import TablePipeline.Json
import TablePipeline.Text.Yaml

/-!
# The document of the interface

What the service answers, for those who call it: each operation with its body and its responses, and
the shapes of the bodies. The document is written as OpenAPI in YAML.
-/

set_option autoImplicit false

namespace TablePipeline

inductive FieldType
  | text
  | identifier
  | time
  | count
  | boolean
  | object
  | texts
  | objects
  | body (name : String)
  deriving DecidableEq, Repr

structure BodyField where
  name : String
  type : FieldType
  required : Bool
  deriving DecidableEq, Repr

/-- The shape of a body; its fields are in the order of their names. -/
structure BodyShape where
  name : String
  fields : List BodyField
  deriving DecidableEq, Repr

/-- A response: its status, what it means, and the shape of its body. -/
structure ResponseNote where
  status : Nat
  meaning : String
  body : Option String
  deriving DecidableEq, Repr

structure Operation where
  method : String
  path : String
  id : String
  body : Option String
  responses : List ResponseNote
  /-- The names in the path that stand for parts of it. -/
  parameters : List String
  deriving DecidableEq, Repr

structure Document where
  title : String
  version : String
  operations : List Operation
  shapes : List BodyShape
  deriving DecidableEq, Repr

namespace Document

private def must (name : String) (type : FieldType) : BodyField := ⟨name, type, true⟩

private def may (name : String) (type : FieldType) : BodyField := ⟨name, type, false⟩

private def notFound : ResponseNote := ⟨404, "Run not found", some "ErrorBody"⟩

def serviceOperations : List Operation := [
  ⟨"get", "/healthz", "healthz", none, [⟨200, "Service is healthy", none⟩], []⟩,
  ⟨"post", "/api/v1/connections/test", "test_connection", some "TestConnectionBody",
    [⟨200, "Outcome of the connection probe", some "ConnectionTestResponse"⟩], []⟩,
  ⟨"post", "/api/v1/secrets/encrypt", "encrypt_secret", some "EncryptBody",
    [⟨200, "Encrypted blob", some "EncryptResponse"⟩,
      ⟨503, "No encryption key configured", some "ErrorBody"⟩], []⟩,
  ⟨"post", "/api/v1/runs", "create_run", some "CreateRunBody",
    [⟨201, "Run created", some "RunResponse"⟩], []⟩,
  ⟨"get", "/api/v1/runs/\x7bid\x7d", "get_run", none,
    [⟨200, "Run record", some "RunResponse"⟩, notFound], ["id"]⟩,
  ⟨"post", "/api/v1/runs/\x7bid\x7d/execute", "execute_run", some "ExecuteRunBody",
    [⟨200, "Execution result", some "ExecutionResponse"⟩, notFound], ["id"]⟩,
  ⟨"post", "/api/v1/pipelines/run", "run_pipeline", some "RunPipelineBody",
    [⟨200, "Execution result of a fresh run", some "ExecutionResponse"⟩], []⟩,
  ⟨"post", "/api/v1/runs/\x7bid\x7d/reconcile", "reconcile_run", none,
    [⟨200, "Reconciled run", some "ReconcileResponse"⟩, notFound], ["id"]⟩]

def serviceShapes : List BodyShape := [
  ⟨"ConnectionTestResponse", [may "errorKind" .text, may "message" .text, must "ok" .boolean]⟩,
  ⟨"CreateRunBody", [may "pipelineId" .text, may "tableName" .text]⟩,
  ⟨"EncryptBody", [must "plaintext" .text]⟩,
  ⟨"EncryptResponse", [must "ciphertext" .text]⟩,
  ⟨"ErrorBody", [must "error" .text]⟩,
  ⟨"ExecuteRunBody", [may "connections" .objects, must "pipeline" .object]⟩,
  ⟨"ExecutionResponse", [may "errorKind" .text, may "message" .text, must "ok" .boolean,
    may "rowsWritten" .count, must "runId" .identifier, may "tableName" .text,
    may "warningCount" .count, may "warnings" .texts]⟩,
  ⟨"ReconcileResponse", [must "changed" .boolean, must "run" (.body "RunResponse")]⟩,
  ⟨"RunPipelineBody", [may "connections" .objects, must "pipeline" .object,
    may "pipelineId" .text]⟩,
  ⟨"RunResponse", [must "createdAt" .time, may "errorKind" .text, may "errorMessage" .text,
    must "id" .identifier, may "pipelineId" .text, must "rowsWritten" .count,
    must "status" .text, may "tableName" .text, must "updatedAt" .time]⟩,
  ⟨"TestConnectionBody", [must "connection" .object]⟩]

def service : Document := ⟨"Vantage ETL API", "0.1.0", serviceOperations, serviceShapes⟩

private def orNull : Option String → Json
  | some s => .text s
  | none => .null

private def operationOutline (o : Operation) : String × Json :=
  (o.method ++ " " ++ o.path, .ofMembers [
    ("id", .text o.id), ("body", orNull o.body),
    ("parameters", .list (o.parameters.map .text)),
    ("responses", .ofMembers (o.responses.map fun r =>
      (Digits.text r.status, .list [.text r.meaning, orNull r.body])))])

private def shapeOutline (s : BodyShape) : String × Json :=
  (s.name, .ofMembers [
    ("properties", .list (s.fields.map (.text ·.name))),
    ("required", .list ((s.fields.filter (·.required)).map (.text ·.name)))])

/-- The operations and bodies in short. -/
def outline (d : Document) : List (String × Json) :=
  [("paths", .ofMembers (d.operations.map operationOutline)),
    ("schemas", .ofMembers (d.shapes.map shapeOutline))]

private def reference (name : String) : Yaml :=
  .map [("$ref", .text ("#/components/schemas/" ++ name))]

private def typed (type : String) : Yaml := .map [("type", .text type)]

private def formatted (type format : String) : Yaml :=
  .map [("type", .text type), ("format", .text format)]

def fieldYaml : FieldType → Yaml
  | .text => typed "string"
  | .identifier => formatted "string" "uuid"
  | .time => formatted "string" "date-time"
  | .count => .map [("type", .text "integer"), ("format", .text "int64"), ("minimum", .whole 0)]
  | .boolean => typed "boolean"
  | .object => typed "object"
  | .texts => .map [("type", .text "array"), ("items", typed "string")]
  | .objects => .map [("type", .text "array"), ("items", typed "object")]
  | .body name => reference name

private def content (body : Option String) : List (String × Yaml) :=
  match body with
  | some name =>
    [("content", .map [("application/json", .map [("schema", reference name)])])]
  | none => []

private def responseYaml (r : ResponseNote) : String × Yaml :=
  (Digits.text r.status, .map (("description", .text r.meaning) :: content r.body))

private def parameterYaml (name : String) : Yaml :=
  .map [("name", .text name), ("in", .text "path"), ("required", .boolean true),
    ("schema", formatted "string" "uuid")]

private def operationYaml (o : Operation) : String × Yaml :=
  let parameters := match o.parameters with
    | [] => []
    | names => [("parameters", Yaml.list (names.map parameterYaml))]
  let body := match o.body with
    | some _ => [("requestBody", Yaml.map (content o.body ++ [("required", .boolean true)]))]
    | none => []
  (o.path, .map [(o.method, .map ([("operationId", .text o.id)] ++ parameters ++ body ++
    [("responses", .map (o.responses.map responseYaml))]))])

private def shapeYaml (s : BodyShape) : String × Yaml :=
  let required := match s.fields.filter (·.required) with
    | [] => []
    | fields => [("required", Yaml.list (fields.map (.text ·.name)))]
  (s.name, .map ([("type", .text "object")] ++ required ++
    [("properties", .map (s.fields.map fun f => (f.name, fieldYaml f.type)))]))

def yaml (d : Document) : String :=
  Yaml.write (.map [
    ("openapi", .text "3.0.3"),
    ("info", .map [("title", .text d.title), ("version", .text d.version)]),
    ("paths", .map (d.operations.map operationYaml)),
    ("components", .map [("schemas", .map (d.shapes.map shapeYaml))])])

end Document

end TablePipeline
