import TablePipeline.Plan.Basic

/-!
# Rows in memory

A frame is a list of columns and rows of cells under them. A result of a query becomes a frame by
its layout; a wildcard takes the columns that the fixed ones leave. An empty result whose columns
were not told leaves none, and a wildcard behind a fixed column is then out of its range: that is
the end of whatever asked for the rows.
-/

set_option autoImplicit false

namespace TablePipeline

structure Frame where
  columns : List PlanColumn
  rows : List Row
  deriving DecidableEq, Repr

/-- Every row is as wide as the list of columns. -/
def Frame.Rectangular (f : Frame) : Prop := ∀ r ∈ f.rows, r.length = f.columns.length

inductive LayoutFault
  | manyWildcards
  | width (found expected : Nat)
  | undeclared (qualifier name : String)
  /-- A wildcard's columns begin or end behind those that the result has. -/
  | outOfRange (start length : Nat)
  deriving DecidableEq, Repr

/-- All of these are reported but a range that the result does not have. -/
def LayoutFault.toHalt : LayoutFault → Halt
  | manyWildcards => .failure ⟨.invalidPipeline, "a query may expand at most one wildcard"⟩
  | width found expected =>
    .failure ⟨.queryError, "query returned " ++ Digits.text found ++ " columns, expected " ++
      Digits.text expected⟩
  | undeclared qualifier name =>
    .failure ⟨.unresolvedReference,
      "column '" ++ qualifier ++ "." ++ name ++ "' is not in the source"⟩
  | outOfRange .. => .crash

namespace Layout

def isWildcard : LayoutItem → Bool
  | .wildcard .. => true
  | .column _ => false

def fixedCount (layout : List LayoutItem) : Nat := (layout.filter (!isWildcard ·)).length

def wildcardCount (layout : List LayoutItem) : Nat := (layout.filter isWildcard).length

/-- How many columns of a result a wildcard takes. A result without columns and rows is an empty one
whose columns were not told. -/
def openWidth (layout : List LayoutItem) (result : RowSet) : Except LayoutFault Nat :=
  let fixed := fixedCount layout
  let width := result.columns.length
  if 1 < wildcardCount layout then .error .manyWildcards
  else if width = 0 ∧ result.rows.isEmpty then .ok 0
  else if fixed ≤ width ∧ (wildcardCount layout = 1 ∨ width = fixed) then .ok (width - fixed)
  else .error (.width width fixed)

/-- The names that a wildcard takes from a place on. -/
def namesFrom (result : RowSet) (openWidth position : Nat) : Except LayoutFault (List String) :=
  if position + openWidth ≤ result.columns.length then
    .ok ((result.columns.drop position).take openWidth)
  else .error (.outOfRange position result.columns.length)

/-- The declared columns of a wildcard over some names, with the place of each in the result. -/
def declaredColumns (qualifier : String) (names : List String) (nameless : Bool)
    (position : Nat) (declared : List DeclaredColumn) :
    Except LayoutFault (List (PlanColumn × Nat)) :=
  declared.mapM fun c =>
    match names.findIdx? (· == c.name) with
    | some offset => .ok (⟨some qualifier, c.name, c.type?⟩, position + offset)
    | none =>
      if nameless then .ok (⟨some qualifier, c.name, c.type?⟩, position)
      else .error (.undeclared qualifier c.name)

/-- The columns of a layout from a place of the result on, each with its place there. -/
def place (result : RowSet) (nameless : Bool) (openWidth : Nat) :
    Nat → List LayoutItem → Except LayoutFault (List (PlanColumn × Nat))
  | _, [] => .ok []
  | position, .column c :: items => do
    return (c, position) :: (← place result nameless openWidth (position + 1) items)
  | position, .wildcard qualifier declared :: items => do
    let names ← namesFrom result openWidth position
    let here ← match declared with
      | some columns => declaredColumns qualifier names nameless position columns
      | none =>
        pure (names.zipIdx.map fun (name, i) => (⟨some qualifier, name, none⟩, position + i))
    return here ++ (← place result nameless openWidth (position + openWidth) items)

end Layout

namespace Frame

def ofResult (layout : List LayoutItem) (result : RowSet) : Except LayoutFault Frame := do
  let openWidth ← Layout.openWidth layout result
  let nameless := result.columns.isEmpty && result.rows.isEmpty
  let placed ← Layout.place result nameless openWidth 0 layout
  let places := placed.map (·.2)
  let rows :=
    if places = List.range result.columns.length then result.rows
    else result.rows.map fun row => places.map fun i => row.getD i .null
  return ⟨placed.map (·.1), rows⟩

def resolve (f : Frame) (r : Reference) : Except Failure Nat :=
  match r.hits (·.1.qualifier) (·.1.name) f.columns.zipIdx with
  | [(_, i)] => .ok i
  | [] => .error (ResolveFault.missing.toFailure r)
  | _ => .error (ResolveFault.needsAlias.toFailure r)

end Frame

end TablePipeline
