import TablePipeline.Exchange.Scalar
import TablePipeline.Sql.Clause
import TablePipeline.Sql.Piece

/-!
# SQL in JSON

Reads expressions, predicates and queries. An operator that is not known is a fault of its own;
every other fault is one of form. Reading goes down at most as many levels as are allowed.
-/

set_option autoImplicit false

namespace TablePipeline.Exchange

mutual

/-- Reads an expression of at most so many levels. -/
def readExpr : (levels : Nat) → Json → Read Sql.Expr
  | 0, _ => form "expression"
  | n + 1, j =>
    match j with
    | .object [("col", .text c)] => .ok (.column none c)
    | .object [("col", .text c), ("table", .text t)] => .ok (.column (some t) c)
    | .object [("col", .text c), ("table", .null)] => .ok (.column none c)
    | .object [("lit", v)] => do return .literal (← readScalar v)
    | .object [("cast", e), ("to", t)] => do return .cast (← readExpr n e) (← readType t)
    | .object [("bin", .text op), ("l", l), ("r", r)] => do
      let op ← ofSql (Sql.ArithmeticOp.read op)
      return .binary op (← readExpr n l) (← readExpr n r)
    | .object [("div", d)] => do
      return .safeDivide (← readExpr n (member d "n")) (← readExpr n (member d "d"))
        (← readScalar (member d "sentinel"))
    | .object [("case", c)] => do
      return .choose (← readPredicate n (member c "when")) (← readExpr n (member c "then"))
        (← readExpr n (member c "else"))
    | _ => form "expression"

def readPredicate : (levels : Nat) → Json → Read Sql.Predicate
  | 0, _ => form "predicate"
  | n + 1, j => do
    let left ← readExpr n (member j "left")
    let op ← ofSql (Sql.CompareOp.read (← memberText j "op"))
    match member j "right" with
    | .null => return .mk left op .none
    | .object [("expr", e)] => return .mk left op (.expr (← readExpr n e))
    | .object [("list", .list vs)] => return .mk left op (.list (← vs.mapM readScalar))
    | _ => form "operand"

end

def readSelectItem (levels : Nat) (j : Json) : Read Sql.SelectItem := do
  match j.member? "wildcard" with
  | some t => return .wildcard (← readText t)
  | none => return .expr (← readExpr levels (member j "expr")) (← memberText j "alias")

mutual

def readQuery : (levels : Nat) → Json → Read Sql.Query
  | 0, _ => form "query"
  | n + 1, j => do
    let projection ← (← memberList j "projection").mapM (readSelectItem n)
    let source ← readFromItem n (member j "from")
    let joins ← (← memberList j "joins").mapM fun item => do
      let kind ← ofSql (Sql.JoinKind.read (← memberText item "kind"))
      return Sql.Join.mk kind (← readFromItem n (member item "item"))
        (← (← memberList item "on").mapM (readPredicate n))
    let filters ← (← memberList j "filters").mapM (readPredicate n)
    return .mk projection source joins filters

def readFromItem : (levels : Nat) → Json → Read Sql.FromItem
  | 0, _ => form "source"
  | n + 1, j => do
    let aliasName ← memberText j "alias"
    match j.member? "table" with
    | some t => return .table (← readText t) aliasName
    | none => return .derived (← readQuery n (member j "derived")) aliasName

end

/-- Enough levels for any value that can be read. -/
def maxLevels : Nat := 10000

def readPart (part : Json) : Read Sql.Part :=
  match part with
  | .object [("query", q)] => return .query (← readQuery maxLevels q)
  | .object [("expr", e)] => return .expr (← readExpr maxLevels e)
  | .object [("predicate", p)] => return .predicate (← readPredicate maxLevels p)
  | .object [("where", .list ps)] => return .filters (← ps.mapM (readPredicate maxLevels))
  | .object [("param", v)] => return .param (← readScalar v)
  | .object [("ident", n)] => return .name (← readText n)
  | .object [("qualified", p)] => return .path (← readText p)
  | _ => form "part"

/-- Reads a part of a statement, or text that stands between parts, and writes it. -/
def readPieces (d : Sql.Dialect) (part : Json) : Read (List Sql.Piece) := do
  match part with
  | .object [("text", t)] => return [.text (← readText t)]
  | _ => ofSql ((← readPart part).pieces d)

def readStatement (d : Sql.Dialect) (parts : List Json) : Read Sql.Fragment := do
  return Sql.Piece.fragment d (← parts.mapM (readPieces d)).flatten

end TablePipeline.Exchange
