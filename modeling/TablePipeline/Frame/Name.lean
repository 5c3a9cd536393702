import TablePipeline.Plan.Basic

/-!
# Names of the columns of a target table

A name that several columns share gets the alias of its source in front, and a name that is still
taken gets the first free number behind.
-/

set_option autoImplicit false

namespace TablePipeline.OutputName

/-- The name that a column would like. -/
def base (columns : List PlanColumn) (c : PlanColumn) : String :=
  match c.qualifier with
  | some q => if 1 < columns.countP (·.name == c.name) then q ++ "_" ++ c.name else c.name
  | none => c.name

def numbered (base : String) (n : Nat) : String := base ++ "_" ++ Digits.text (n + 2)

/-- A name that is not in use: among one more numbered forms than there are names in use, one is
free. -/
def fresh (used : List String) (base : String) : String :=
  if base ∈ used then
    (((List.range (used.length + 1)).map (numbered base)).find? (· ∉ used)).getD base
  else base

/-- Names for some wishes in turn; `used` holds the names before. -/
def assign : List String → List String → List String
  | _, [] => []
  | used, b :: bs =>
    let name := fresh used b
    name :: assign (name :: used) bs

def all (columns : List PlanColumn) : List String := assign [] (columns.map (base columns))

end TablePipeline.OutputName
