import TablePipeline.Sql.Piece
import TablePipeline.Warehouse.Table

/-!
# Statements of a warehouse

What a writer of tables sends to a Postgres server. A null that is inserted keeps the type of its
column; any other cell has its own. Names are quoted already.
-/

set_option autoImplicit false

namespace TablePipeline

/-- A cell as it is bound to a placeholder. -/
structure BoundCell where
  type : ColumnType
  value : Scalar
  deriving DecidableEq, Repr

namespace BoundCell

/-- Binds a cell of a column. -/
def ofCell (c : TableColumn) (v : Scalar) : BoundCell := ⟨v.type?.getD c.type, v⟩

def ofRow (columns : List TableColumn) (row : Row) : List BoundCell :=
  List.zipWith ofCell columns row

end BoundCell

inductive TableStatement
  | start
  | commit
  | rollback
  /-- The session takes the lock of a table if it is free. -/
  | tryLock (table : String)
  | unlock (table : String)
  | drop (table : String)
  | create (table definitions : String) (ifMissing : Bool)
  | truncate (table : String)
  | insert (table : String) (columns : List String) (rows : List (List BoundCell))
  | select (fragment : Sql.Fragment)
  deriving DecidableEq, Repr

namespace TableStatement

private def list (items : List String) : String := String.intercalate ", " items

/-- Placeholders for rows of some widths, counted from `n`. -/
def placeholders : (n : Nat) → List Nat → List String
  | _, [] => []
  | n, width :: widths =>
    ("(" ++ list ((List.range' n width).map fun i => "$" ++ Digits.text i) ++ ")") ::
      placeholders (n + width) widths

def text : TableStatement → String
  | start => "BEGIN"
  | commit => "COMMIT"
  | rollback => "ROLLBACK"
  | tryLock _ => "SELECT pg_try_advisory_lock(hashtext($1))"
  | unlock _ => "SELECT pg_advisory_unlock(hashtext($1))"
  | drop table => "DROP TABLE IF EXISTS " ++ table
  | create table definitions ifMissing =>
    "CREATE TABLE " ++ (if ifMissing then "IF NOT EXISTS " else "") ++ table ++ " (" ++
      definitions ++ ")"
  | truncate table => "TRUNCATE TABLE " ++ table
  | insert table columns rows =>
    "INSERT INTO " ++ table ++ " (" ++ list columns ++ ") VALUES " ++
      list (placeholders 1 (rows.map (·.length)))
  | select fragment => fragment.sql

theorem text_insert (table : String) (columns : List String) (rows : List (List BoundCell)) :
    (insert table columns rows).text =
      "INSERT INTO " ++ table ++ " (" ++ String.intercalate ", " columns ++ ") VALUES " ++
        String.intercalate ", " (placeholders 1 (rows.map (·.length))) := rfl

def params : TableStatement → List BoundCell
  | tryLock table | unlock table => [⟨.text, .text table⟩]
  | insert _ _ rows => rows.flatten
  | select fragment => fragment.params.map fun v => ⟨v.type?.getD .text, v⟩
  | _ => []

def inserted : TableStatement → List (List BoundCell)
  | insert _ _ rows => rows
  | _ => []

end TableStatement

end TablePipeline
