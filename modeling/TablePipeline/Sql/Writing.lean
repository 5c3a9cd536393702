import TablePipeline.Sql.Piece
import TablePipeline.Sql.Syntax

/-!
# Writing expressions and queries

Each construct becomes a list of pieces; the first fault from left to right is the error.
-/

set_option autoImplicit false

namespace TablePipeline.Sql

/-- A numerator inside the cast that makes its division exact. -/
def numeratorPieces (d : Dialect) (ps : List Piece) : List Piece :=
  match d.divisionType? with
  | some type => .text "CAST(" :: ps ++ [.text (" AS " ++ type ++ ")")]
  | none => ps

/-- The branch of a division that gives null if one of some operands is; nothing for none. -/
def nullGuard (operands : List (List Piece)) : List Piece :=
  if operands.isEmpty then []
  else .text "WHEN " :: Piece.joined " OR " (operands.map (· ++ [.text " IS NULL"])) ++
    [.text " THEN NULL "]

mutual

def Expr.pieces (d : Dialect) : Expr → Except Error (List Piece)
  | .column table name => do
    let front ← match table with
      | some t => pure [← namePiece d t, .text "."]
      | none => pure []
    return front ++ [← namePiece d name]
  | .literal v => .ok [.literal v]
  | .cast inner target =>
    match d.castType? target with
    | none => .error (.unsupportedCast d target)
    | some type => do
      return .text "CAST(" :: (← inner.pieces d) ++ [.text (" AS " ++ type ++ ")")]
  | .binary op left right => do
    let l ← left.pieces d
    let l := if op = .divide then numeratorPieces d l else l
    return .text "(" :: l ++ .text (" " ++ op.text ++ " ") :: (← right.pieces d) ++ [.text ")"]
  | .safeDivide numerator denominator sentinel => do
    let n ← numerator.pieces d
    let m ← denominator.pieces d
    let guard := nullGuard ((if numerator.mayBeNull then [n] else []) ++
      (if denominator.mayBeNull then [m] else []))
    return .text "CASE " :: guard ++ .text "WHEN " :: m ++ .text " = 0 THEN " ::
      Piece.literal sentinel :: .text " ELSE (" :: numeratorPieces d n ++ .text " / " :: m ++
      [.text ") END"]
  | .choose test yes no => do
    let p ← test.pieces d
    let y ← yes.pieces d
    let n ← no.pieces d
    return .text "CASE WHEN " :: p ++ .text " THEN " :: y ++ .text " ELSE " :: n ++ [.text " END"]

def Predicate.pieces (d : Dialect) : Predicate → Except Error (List Piece)
  | .mk left op right => do
    let l ← left.pieces d
    let r ← right.pieces d op
    return l ++ r

/-- The operator and what stands on its right. -/
def Operand.pieces (d : Dialect) (op : CompareOp) : Operand → Except Error (List Piece)
  | .none =>
    match op with
    | .isNull | .isNotNull => .ok [.text (" " ++ op.text)]
    | .isIn => .error (.invalidOperand .scalarForList)
    | op => .error (.invalidOperand (.notSingle op))
  | .list values =>
    match op with
    | .isNull | .isNotNull => .ok [.text (" " ++ op.text)]
    | .isIn =>
      if values.isEmpty then .error (.invalidOperand .emptyList)
      else .ok (.text " IN (" ::
        Piece.joined ", " (values.map fun v => [Piece.literal v]) ++ [.text ")"])
    | op => .error (.invalidOperand (.notSingle op))
  | .expr e =>
    match op with
    | .isNull | .isNotNull => .ok [.text (" " ++ op.text)]
    | .isIn => .error (.invalidOperand .scalarForList)
    | op =>
      if e.isNull then .error (.invalidOperand (.neverMatches op))
      else do return .text (" " ++ op.text ++ " ") :: (← e.pieces d)

end

def conjunctionPieces (d : Dialect) (ps : List Predicate) : Except Error (List Piece) := do
  return Piece.joined " AND " (← ps.mapM (·.pieces d))

/-- A `WHERE` with all predicates; nothing for none. -/
def wherePieces (d : Dialect) (ps : List Predicate) : Except Error (List Piece) :=
  if ps.isEmpty then .ok [] else do return .text " WHERE " :: (← conjunctionPieces d ps)

def SelectItem.pieces (d : Dialect) : SelectItem → Except Error (List Piece)
  | .expr e aliasName => do
    let ps ← e.pieces d
    return ps ++ [.text " AS ", ← namePiece d aliasName]
  | .wildcard table => do return [← namePiece d table, .text ".*"]

mutual

def FromItem.pieces (d : Dialect) : FromItem → Except Error (List Piece)
  | .table path aliasName => do
    let ps ← pathPieces d path
    return ps ++ [.text " ", ← namePiece d aliasName]
  | .derived query aliasName => do
    let ps ← query.pieces d
    return .text "(" :: ps ++ [.text ") ", ← namePiece d aliasName]

def Join.pieces (d : Dialect) : Join → Except Error (List Piece)
  | .mk kind item on => do
    let i ← item.pieces d
    let o ← conjunctionPieces d on
    return .text (" " ++ kind.text ++ " ") :: i ++ .text " ON " :: o

def joinsPieces (d : Dialect) : List Join → Except Error (List Piece)
  | [] => .ok []
  | j :: js => do
    let p ← j.pieces d
    let ps ← joinsPieces d js
    return p ++ ps

def Query.pieces (d : Dialect) : Query → Except Error (List Piece)
  | .mk projection source joins filters => do
    let items ← projection.mapM (·.pieces d)
    let items := if items.isEmpty then [.text "*"] else Piece.joined ", " items
    let f ← source.pieces d
    let js ← joinsPieces d joins
    let w ← wherePieces d filters
    return .text "SELECT " :: items ++ .text " FROM " :: f ++ js ++ w

end

/-- A part of a statement; any number of them may be written one after the other. -/
inductive Part
  | query (q : Query)
  | expr (e : Expr)
  | predicate (p : Predicate)
  /-- Behind a `WHERE`. -/
  | filters (ps : List Predicate)
  | param (v : Scalar)
  | name (n : String)
  | path (p : String)

def Part.pieces (d : Dialect) : Part → Except Error (List Piece)
  | .query q => q.pieces d
  | .expr e => e.pieces d
  | .predicate p => p.pieces d
  | .filters ps => wherePieces d ps
  | .param v => .ok [.literal v]
  | .name n => do return [← namePiece d n]
  | .path p => pathPieces d p

def Query.write (d : Dialect) (q : Query) : Except Error Fragment :=
  (q.pieces d).map (Piece.fragment d)

end TablePipeline.Sql
