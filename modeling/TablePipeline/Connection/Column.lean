import TablePipeline.Connection.Client
import TablePipeline.Scalar
import TablePipeline.Text.Utf8

/-!
# Columns of database servers

A server sends cells of its own types. What arrives is turned into cells of this library: numbers of
32 bits are widened, whole numbers beyond 64 bits become decimals, bytes are read as text. A column
of a type with no such reading is refused, whatever its cells are.
-/

set_option autoImplicit false

namespace TablePipeline

/-- A cell as a server sends it. -/
inductive ServerValue
  | null
  | boolean (value : Bool)
  | integer (value : Int64)
  | unsigned (value : UInt64)
  | float (value : Binary64)
  | decimal (value : Decimal)
  | notANumber
  | text (value : String)
  | date (value : Date)
  | timestamp (value : Timestamp)
  | bytes (value : List UInt8)
  deriving DecidableEq, Repr

inductive PostgresType
  | boolean
  | integer
  /-- A number of 32 bits. -/
  | single
  | double
  | numeric
  | date
  | timestamp
  /-- A unique identifier, sent as its text, or any text. -/
  | text
  | unsupported (name : String)
  deriving DecidableEq, Repr

inductive MysqlType
  | null
  | boolean
  | integer
  | unsigned
  | single
  | double
  | decimal
  | date
  | timestamp
  | bytes
  | text
  deriving DecidableEq, Repr

/-- A column of a result; `τ` are the types of the server. -/
structure ServerColumn (τ : Type) where
  name : String
  type : τ
  deriving DecidableEq, Repr

structure ServerRows (τ : Type) where
  columns : List (ServerColumn τ)
  rows : List (List ServerValue)
  deriving DecidableEq, Repr

namespace ServerValue

/-- An unsigned number as a cell; beyond signed 64 bits it becomes a decimal. -/
def ofUnsigned (n : UInt64) : Scalar :=
  match Integer.fit? n.toNat with
  | some k => .integer k
  | none => .decimal (.ofUInt64 n)

/-- The cell that a value stands for in column `index` of its own type. -/
def toScalar (index : Nat) : ServerValue → Except ClientError Scalar
  | null => .ok .null
  | boolean b => .ok (.boolean b)
  | integer n => .ok (.integer n)
  | unsigned n => .ok (ofUnsigned n)
  | float x => .ok (.float x)
  | decimal d => .ok (.decimal d)
  | notANumber => .error (.decodeColumn index "Decimal does not support NaN values")
  | text s => .ok (.text s)
  | date d => .ok (.date d)
  | timestamp t => .ok (.timestamp t)
  | bytes bs => .ok (.text (Utf8.decodeLossy bs))

def ofPostgres (index : Nat) (c : ServerColumn PostgresType) (v : ServerValue) :
    Except ClientError Scalar :=
  match c.type, v with
  | .unsupported name, _ =>
    .error (.decode ("column '" ++ c.name ++ "' has unsupported type " ++ name ++
      "; cast it to text in the source"))
  | .single, .float x => .ok (.float x.toSingle)
  | _, v => v.toScalar index

def ofMysql (index : Nat) (c : ServerColumn MysqlType) (v : ServerValue) :
    Except ClientError Scalar :=
  match c.type, v with
  | .null, _ => .ok .null
  | .boolean, .integer n => .ok (.boolean (n != 0))
  | .single, .float x => .ok (.float x.toSingle)
  | .timestamp, .date d => .ok (.timestamp (.midnight d))
  | _, v => v.toScalar index

end ServerValue

namespace ServerRows

variable {τ : Type}

private def decodeRow (decode : Nat → ServerColumn τ → ServerValue → Except ClientError Scalar) :
    Nat → List (ServerColumn τ) → List ServerValue → Except ClientError Row
  | index, c :: cs, v :: vs => do
    return (← decode index c v) :: (← decodeRow decode (index + 1) cs vs)
  | _, _, _ => .ok []

/-- A result as a row set; one without rows names no columns. -/
def decode (read : Nat → ServerColumn τ → ServerValue → Except ClientError Scalar)
    (r : ServerRows τ) : Except ClientError RowSet := do
  if r.rows.isEmpty then return .empty
  return ⟨r.columns.map (·.name), ← r.rows.mapM (decodeRow read 0 r.columns)⟩

def ofPostgres (r : ServerRows PostgresType) : Except ClientError RowSet :=
  r.decode ServerValue.ofPostgres

def ofMysql (r : ServerRows MysqlType) : Except ClientError RowSet := r.decode ServerValue.ofMysql

end ServerRows

end TablePipeline
