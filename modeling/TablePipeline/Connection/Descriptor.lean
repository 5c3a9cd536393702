import TablePipeline.Json.Shape
import TablePipeline.Sql.Dialect

/-!
# Connections

What is known of a data source: its kind and where it is. A password is only ever held sealed.
Spreadsheets live in the warehouse and are read through it.
-/

set_option autoImplicit false

namespace TablePipeline

inductive SourceKind
  | postgres
  | mysql
  | firebird
  | excel
  deriving DecidableEq, Repr, Inhabited

namespace SourceKind

def name : SourceKind → String
  | postgres => "postgres"
  | mysql => "mysql"
  | firebird => "firebird"
  | excel => "excel"

def all : List SourceKind := [postgres, mysql, firebird, excel]

/-- The dialect of the queries that are sent to a source. -/
def dialect : SourceKind → Sql.Dialect
  | postgres | excel => .postgres
  | mysql => .mysql
  | firebird => .firebird

/-- Whether a source evaluates queries; spreadsheets are read whole. -/
def pushesDown : SourceKind → Bool
  | excel => false
  | _ => true

/-- The query that shows whether a source answers. -/
def probe? : SourceKind → Option String
  | postgres | mysql => some "SELECT 1"
  | firebird => some "SELECT 1 FROM RDB$DATABASE"
  | excel => none

def defaultPort : SourceKind → Nat
  | postgres | excel => 5432
  | mysql => 3306
  | firebird => 3050

end SourceKind

structure Connection where
  id : String
  kind : SourceKind
  host : String
  port : Option Nat
  database : String
  user : String
  sealedPassword : Option String
  tenantId : Option String
  ownerId : Option String
  deriving DecidableEq, Repr, Inhabited

namespace Connection

open Json in
def shape : Shape Connection where
  name := "ConnectionDescriptor"
  closed := false
  fields := [
    .of "id" .required readText fun c v => { c with id := v },
    .of "dialect" .required (readVariant (SourceKind.all.map fun k => (k.name, k)))
      fun c v => { c with kind := v },
    .of "host" .defaulted readText fun c v => { c with host := v },
    .of "port" .defaulted (readOption (readNat "u16" 65535)) fun c v => { c with port := v },
    .of "database" .defaulted readText fun c v => { c with database := v },
    .of "user" .defaulted readText fun c v => { c with user := v },
    .of "encryptedPassword" .defaulted (readOption readText)
      fun c v => { c with sealedPassword := v },
    .of "tenantId" .defaulted (readOption readText) fun c v => { c with tenantId := v },
    .of "ownerId" .defaulted (readOption readText) fun c v => { c with ownerId := v }]

def ofJson : Json.Reader Connection :=
  shape.read ⟨"", .postgres, "", none, "", "", none, none, none⟩

private def optionalText : Option String → Json
  | some s => .text s
  | none => .null

/-- The connection as JSON; owners that are not set are left out. -/
def toJson (c : Connection) : Json :=
  let owner (name : String) : Option String → List (String × Json)
    | some s => [(name, .text s)]
    | none => []
  .ofMembers ([("id", .text c.id), ("dialect", .text c.kind.name), ("host", .text c.host),
    ("port", match c.port with | some p => .int p | none => .null),
    ("database", .text c.database), ("user", .text c.user),
    ("encryptedPassword", optionalText c.sealedPassword)] ++
    owner "tenantId" c.tenantId ++ owner "ownerId" c.ownerId)

/-- The connection of an id; of several the last counts. -/
def find? (connections : List Connection) (id : String) : Option Connection :=
  connections.reverse.find? (·.id == id)

end Connection

end TablePipeline
