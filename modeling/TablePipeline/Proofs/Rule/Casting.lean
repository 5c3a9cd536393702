import TablePipeline.Proofs.Outcome
import TablePipeline.Rule.Cast

/-!
# The types of cast cells

A cast gives a cell of its target type or null, and leaves a cell that has the type already as it
is. No cast fails to a type that accepts the type of the cell.
-/

set_option autoImplicit false

namespace TablePipeline.Scalar

variable {v w : Scalar} {t : ColumnType}

theorem isNull_eq_true_iff : v.isNull = true ↔ v = null := by
  cases v <;> simp [isNull]

theorem cast_self (h : v.type? = some t) : v.cast t = .ok v := by
  cases v with
  | null => cases h
  | _ =>
    obtain rfl := Option.some.inj h
    rfl

theorem type?_of_cast (h : v.cast t = .ok w) (hv : v.isNull = false) : w.type? = some t := by
  unfold cast at h
  rw [hv] at h
  cases t with
  | text =>
    obtain rfl := Except.ok.inj h
    rfl
  | _ =>
    obtain ⟨x, _, rfl⟩ := Outcome.map_eq_ok.mp h
    rfl

/-- Null or of a type, if that is known. -/
def Of (type? : Option ColumnType) (v : Scalar) : Prop := v = null ∨ v.type? = type?

theorem of_none (h : v.Of none) : v = null := h.elim id (type?_eq_none_iff v).mp

theorem of_keeps (h : (v.isNull || v.type? == some t) = true) : v.Of (some t) :=
  (Bool.or_eq_true_iff.mp h).imp isNull_eq_true_iff.mp beq_iff_eq.mp

theorem cast_of (h : v.Of (some t)) : v.cast t = .ok v := by
  rcases h with rfl | h
  · rfl
  · exact cast_self h

theorem accepts_cases {target : ColumnType} (h : target.accepts t = true) :
    target = t ∨ target = .text ∨ target = .decimal ∧ t = .integer ∨
      target = .float ∧ (t = .integer ∨ t = .decimal) ∨ target = .timestamp ∧ t = .date := by
  revert h
  cases target <;> cases t <;> decide

theorem cast_of_accepts (hv : v.Of (some t)) {target : ColumnType}
    (h : target.accepts t = true) : ∃ w, v.cast target = .ok w := by
  rcases hv with rfl | hv
  · exact ⟨null, rfl⟩
  · have hcast : v.cast .text = .ok (if v.isNull then .null else .text v.display) := by
      unfold cast
      split <;> rfl
    rcases accepts_cases h with rfl | rfl | ⟨rfl, rfl⟩ | ⟨rfl, rfl | rfl⟩ | ⟨rfl, rfl⟩
    · exact ⟨v, cast_self hv⟩
    · exact ⟨_, hcast⟩
    · cases v with
      | integer n => exact ⟨.decimal (.ofInt64 n), rfl⟩
      | _ => cases hv
    · cases v with
      | integer n => exact ⟨.float (.ofInt n.toInt), rfl⟩
      | _ => cases hv
    · cases v with
      | decimal d => exact ⟨.float (.ofDecimal d), rfl⟩
      | _ => cases hv
    · cases v with
      | date d => exact ⟨.timestamp (.midnight d), rfl⟩
      | _ => cases hv

end TablePipeline.Scalar
