import Mathlib.Data.List.Forall2
import TablePipeline.Warehouse.Table

/-!
# Rows that pass the check of a table

The check passes just the rows that have one cell for each column, null or of its type.
-/

set_option autoImplicit false

namespace TablePipeline

def TableColumn.Takes (c : TableColumn) (v : Scalar) : Prop :=
  v.type? = none ∨ v.type? = some c.type

variable {columns : List TableColumn} {rows : List Row} {row : Row}

theorem misplacedCell?_eq_none_iff (n : Nat) (hlength : row.length = columns.length) :
    misplacedCell? n row columns = none ↔ List.Forall₂ TableColumn.Takes columns row := by
  induction row generalizing columns with
  | nil =>
    obtain rfl := List.length_eq_zero_iff.mp hlength.symm
    simp [misplacedCell?]
  | cons v vs ih =>
    cases columns with
    | nil => cases hlength
    | cons c cs =>
      have hlength : vs.length = cs.length := by simpa using hlength
      have htail := ih hlength
      rw [misplacedCell?, List.forall₂_cons]
      cases htype : v.type? with
      | none => simpa [TableColumn.Takes, htype] using htail
      | some t =>
        by_cases ht : t = c.type
        · simpa [TableColumn.Takes, htype, ht] using htail
        · simp [TableColumn.Takes, htype, ht]

theorem checkRowsFrom_eq_ok_iff (n : Nat) :
    checkRowsFrom columns n rows = .ok () ↔
      ∀ row ∈ rows, List.Forall₂ TableColumn.Takes columns row := by
  induction rows generalizing n with
  | nil => simp [checkRowsFrom]
  | cons row rows ih =>
    rw [checkRowsFrom, List.forall_mem_cons]
    split
    · rename_i hwidth
      constructor
      · intro h
        cases h
      · rintro ⟨h, _⟩
        exact (hwidth h.length_eq.symm).elim
    · rename_i hwidth
      have hcells := misplacedCell?_eq_none_iff n (not_not.mp hwidth)
      split
      · rename_i hfault
        rw [hfault] at hcells
        constructor
        · intro h
          cases h
        · rintro ⟨h, _⟩
          cases hcells.mpr h
      · rename_i hnone
        rw [ih]
        exact ⟨fun h => ⟨hcells.mp hnone, h⟩, fun h => h.2⟩

theorem checkRows_eq_ok_iff :
    checkRows columns rows = .ok () ↔ ∀ row ∈ rows, List.Forall₂ TableColumn.Takes columns row :=
  checkRowsFrom_eq_ok_iff 0

end TablePipeline
