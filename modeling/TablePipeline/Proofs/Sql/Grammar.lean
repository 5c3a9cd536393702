import TablePipeline.Proofs.Sql.Paths
import TablePipeline.Proofs.Sql.Symbols

/-!
# A reader of statements

The grammar of what is written, as a reader of symbols from left to right. Where a text may go on in
two ways the next few symbols tell which one it is; nothing that was read is given back.
-/

set_option autoImplicit false

namespace TablePipeline.Sql

/-- Reads something from the front of some symbols. -/
abbrev Reader (α : Type) := StateT (List Symbol) Option α

namespace Reader

variable {α β : Type}

def skipChars : List Char → List Symbol → Option (List Symbol)
  | [], xs => some xs
  | c :: cs, .char c' :: xs => if c = c' then skipChars cs xs else none
  | _ :: _, _ => none

def skip (s : String) : Reader Unit := fun xs => (skipChars s.toList xs).map ((), ·)

def name : Reader String
  | .name n :: xs => some (n, xs)
  | _ => none

def value : Reader Scalar
  | .value v :: xs => some (v, xs)
  | _ => none

/-- The first of some things whose text stands in front. -/
def oneOf (text : α → String) : List α → Reader α
  | [] => failure
  | a :: as => (do skip (text a); return a) <|> oneOf text as

/-- At most `n` things with the same text between, but at least one. -/
def separated (between : String) (p : Reader α) : (n : Nat) → Reader (List α)
  | 0 => failure
  | n + 1 => do
    let a ← p
    (do
      skip between
      let as ← separated between p n
      return a :: as) <|> return [a]

def many (p : Reader α) : (n : Nat) → Reader (List α)
  | 0 => return []
  | n + 1 =>
    (do
      let a ← p
      let as ← many p n
      return a :: as) <|> return []

/-! ### Expressions -/

def castTypes (d : Dialect) : List (ColumnType × String) :=
  [.integer, .decimal, .float, .text, .date, .timestamp, .boolean].filterMap fun t =>
    (d.castType? t).map (t, ·)

def castEnd (d : Dialect) : Reader ColumnType := do
  let (t, _) ← oneOf (fun (_, type) => " AS " ++ type ++ ")") (castTypes d)
  return t

def literal (d : Dialect) : Reader Scalar :=
  (do skip "NULL"; return .null) <|>
    match d with
    | .firebird => do
      skip "CAST("
      let v ← value
      let _ ← castEnd d
      return v
    | _ => value

def column : Reader Expr := do
  let n ← name
  (do
    skip "."
    let m ← name
    return .column (some n) m) <|> return .column none n

/-- What the cast of a numerator was put around. -/
def numerator (d : Dialect) (e : Expr) : Reader Expr :=
  match d.divisionType?, e with
  | none, e => return e
  | some _, .cast inner _ => return inner
  | some _, _ => failure

/-- What is on the left of an operator; of a division it is a numerator. -/
def leftOperand (d : Dialect) (op : ArithmeticOp) (e : Expr) : Reader Expr :=
  if op = .divide then numerator d e else return e

section
variable (d : Dialect) (expr : Reader Expr)

def cast : Reader Expr := do
  skip "CAST("
  let inner ← expr
  return .cast inner (← castEnd d)

def binary : Reader Expr := do
  skip "("
  let left ← expr
  let op ← oneOf (fun op : ArithmeticOp => " " ++ op.text ++ " ")
    [.add, .subtract, .multiply, .divide]
  let right ← expr
  skip ")"
  return .binary op (← leftOperand d op left) right

def comparison (n : Nat) (left : Expr) : Reader Predicate :=
  (do skip " IS NULL"; return .mk left .isNull .none) <|>
  (do skip " IS NOT NULL"; return .mk left .isNotNull .none) <|>
  (do
    skip " IN ("
    let values ← separated ", " (literal d) n
    skip ")"
    return .mk left .isIn (.list values)) <|>
  (do
    let op ← oneOf (fun op : CompareOp => " " ++ op.text ++ " ")
      [.eq, .notEq, .gt, .lt, .gtEq, .ltEq, .like]
    return .mk left op (.expr (← expr)))

def predicate (n : Nat) : Reader Predicate := do
  let left ← expr
  comparison d expr n left

/-- The rest of a division behind the test of its denominator. -/
def division (denominator : Expr) : Reader Expr := do
  skip " = 0 THEN "
  let sentinel ← literal d
  skip " ELSE ("
  let n ← expr
  skip " / "
  let _ ← expr
  skip ") END"
  return .safeDivide (← numerator d n) denominator sentinel

/-- A division or a choice by a predicate; `first` is the first expression in it. -/
def branches (n : Nat) (first : Expr) : Reader Expr :=
  (do
    skip " IS NULL OR "
    let _ ← expr
    skip " IS NULL THEN NULL WHEN "
    let denominator ← expr
    division d expr denominator) <|>
  (do
    skip " IS NULL THEN NULL WHEN "
    let denominator ← expr
    division d expr denominator) <|>
  division d expr first <|>
  (do
    let test ← comparison d expr n first
    skip " THEN "
    let yes ← expr
    skip " ELSE "
    let no ← expr
    skip " END"
    return .choose test yes no)

def caseOf (n : Nat) : Reader Expr := do
  skip "CASE WHEN "
  let first ← expr
  branches d expr n first

end

/-- An expression nested less than `n` deep. -/
def expr (d : Dialect) : (n : Nat) → Reader Expr
  | 0 => failure
  | n + 1 =>
    column <|> (do return .literal (← literal d)) <|> binary d (expr d n) <|> cast d (expr d n) <|>
      caseOf d (expr d n) n

/-! ### Queries -/

section
variable (d : Dialect) (n : Nat)

def conjunction : Reader (List Predicate) := separated " AND " (predicate d (expr d n) n) n

def item : Reader SelectItem :=
  (do
    let table ← name
    skip ".*"
    return .wildcard table) <|>
  (do
    let e ← expr d n
    skip " AS "
    return .expr e (← name))

def projection : Reader (List SelectItem) :=
  (do skip "*"; return []) <|> separated ", " (item d n) n

def path : Reader (List String) := do
  let first ← name
  (do
    skip "."
    let second ← name
    return [first, second]) <|> return [first]

def source (query : Reader Query) : Reader FromItem :=
  (do
    skip "("
    let q ← query
    skip ") "
    return .derived q (← name)) <|>
  (do
    let segments ← path
    skip " "
    return .table (quotedPath .postgres segments) (← name))

def join (query : Reader Query) : Reader Join := do
  let kind ← oneOf (fun kind : JoinKind => " " ++ kind.text ++ " ") [.inner, .left]
  let item ← source query
  skip " ON "
  return .mk kind item (← conjunction d n <|> return [])

def filters : Reader (List Predicate) :=
  (do skip " WHERE "; conjunction d n) <|> return []

end

def query (d : Dialect) : (n : Nat) → Reader Query
  | 0 => failure
  | n + 1 => do
    skip "SELECT "
    let items ← projection d n
    skip " FROM "
    let item ← source (query d n)
    let joins ← many (join d n (query d n)) n
    return .mk items item joins (← filters d n)

end Reader

end TablePipeline.Sql
