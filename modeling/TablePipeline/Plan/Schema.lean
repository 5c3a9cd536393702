import TablePipeline.Plan.Basic
import TablePipeline.Sql.Syntax

/-!
# What is known of the columns of a stage

A schema lists columns and sources whose columns are not declared, which are open. In a stage of SQL
each column carries the expression that gives it; in memory it carries nothing.
-/

set_option autoImplicit false

namespace TablePipeline

structure SchemaColumn (ε : Type) where
  qualifier : Option String
  name : String
  type? : Option ColumnType
  carried : ε

inductive SchemaItem (ε : Type)
  | column (c : SchemaColumn ε)
  /-- All columns of a source; `table` is the alias under which they can be named. -/
  | openSource (qualifier table : String)

abbrev Schema (ε : Type) := List (SchemaItem ε)

inductive Resolved (ε : Type)
  | column (index : Nat) (c : SchemaColumn ε)
  /-- Some column of an open source. -/
  | inOpen (qualifier table name : String)

def Resolved.type? {ε : Type} : Resolved ε → Option ColumnType
  | column _ c => c.type?
  | inOpen .. => none

def Resolved.expr : Resolved Sql.Expr → Sql.Expr
  | column _ c => c.carried
  | inOpen _ table name => .column (some table) name

namespace Schema

variable {ε : Type}

def columns (s : Schema ε) : List (Nat × SchemaColumn ε) :=
  s.zipIdx.filterMap fun (item, i) => match item with
    | .column c => some (i, c)
    | .openSource .. => none

def opens (s : Schema ε) : List (String × String) :=
  s.filterMap fun
    | .column _ => none
    | .openSource q t => some (q, t)

/-- Columns come before open sources; a reference without qualifier may mean the only open one. -/
def resolve (s : Schema ε) (r : Reference) : Except ResolveFault (Resolved ε) :=
  match r.hits (·.2.qualifier) (·.2.name) s.columns with
  | [(i, c)] => .ok (.column i c)
  | [] =>
    match r.qualifier with
    | some q =>
      match s.opens.find? (·.1 == q) with
      | some (q, t) => .ok (.inOpen q t r.name)
      | none => .error .missing
    | none =>
      match s.opens with
      | [(q, t)] => .ok (.inOpen q t r.name)
      | [] => .error .missing
      | _ => .error .needsAlias
  | _ => .error (if r.qualifier.isSome then .ambiguous else .needsAlias)

/-- Adds a computed column in place of an earlier one of the same name. -/
def putComputed (s : Schema ε) (name : String) (type? : Option ColumnType) (carried : ε) :
    Schema ε :=
  let column := SchemaItem.column ⟨none, name, type?, carried⟩
  match s.columns.find? fun (_, c) => c.qualifier.isNone && c.name == name with
  | some (i, _) => s.set i column
  | none => s ++ [column]

def erased (s : Schema ε) : Schema Unit :=
  s.map fun
    | .column c => .column ⟨c.qualifier, c.name, c.type?, ()⟩
    | .openSource q t => .openSource q t

/-- Whether some column is more than a column of a table. -/
def hasComputed (s : Schema Sql.Expr) : Bool := s.columns.any fun (_, c) => !c.carried.isColumn

end Schema

end TablePipeline
