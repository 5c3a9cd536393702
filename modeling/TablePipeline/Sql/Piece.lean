import TablePipeline.Sql.Name

/-!
# Pieces of SQL

A statement is written as a list of pieces: fixed text, names still to be quoted, and values still
to be bound. Only `write` turns pieces into text, so quoting and the numbering of placeholders
happen in one place.
-/

set_option autoImplicit false

namespace TablePipeline.Sql

inductive Piece
  | text (s : String)
  | name (n : String)
  | param (v : Scalar)
  deriving DecidableEq, Repr

/-- A text with placeholders and the values for them, in order. -/
structure Fragment where
  sql : String
  params : List Scalar
  deriving DecidableEq, Repr

namespace Piece

/-- A literal: null is a word, any other value is bound. -/
def literal (v : Scalar) : Piece := if v.isNull then text "NULL" else param v

/-- The text of a bound value. Firebird cannot tell the type of a bare placeholder. -/
def placeholder (d : Dialect) (n : Nat) (v : Scalar) : String :=
  match d, v.type?.bind (d.castType? ·) with
  | .firebird, some type => "CAST(" ++ d.placeholder n ++ " AS " ++ type ++ ")"
  | _, _ => d.placeholder n

/-- The text of pieces; `n` values are bound before them. -/
def write (d : Dialect) : Nat → List Piece → String
  | _, [] => ""
  | n, text s :: ps => s ++ write d n ps
  | n, name s :: ps => quoteText d s ++ write d n ps
  | n, param v :: ps => placeholder d (n + 1) v ++ write d (n + 1) ps

def params : List Piece → List Scalar
  | [] => []
  | param v :: ps => v :: params ps
  | _ :: ps => params ps

def fragment (d : Dialect) (ps : List Piece) : Fragment := ⟨write d 0 ps, params ps⟩

/-- The pieces of lists with the same piece between. -/
def joined (between : String) : List (List Piece) → List Piece
  | [] => []
  | [ps] => ps
  | ps :: rest => ps ++ text between :: joined between rest

end Piece

def namePiece (d : Dialect) (name : String) : Except Error Piece := (checkName d name).map .name

/-- A path to a table as names with dots between. -/
def pathPieces (d : Dialect) (path : String) : Except Error (List Piece) :=
  (tablePath d path).map fun segments => Piece.joined "." (segments.map fun s => [.name s])

end TablePipeline.Sql
