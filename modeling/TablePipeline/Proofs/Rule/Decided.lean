import TablePipeline.Plan.Rule
import TablePipeline.Proofs.Number.Machine
import TablePipeline.Proofs.Rule.Casting
import TablePipeline.Proofs.Rule.Orientation

/-!
# Comparisons that are decided

A literal is compared with a column as it is where both are numbers, and otherwise as a cell of the
column's type. Either way it has an order with each cell of the column but NaN, so a condition
that compiles is not unknown for want of an order.
-/

set_option autoImplicit false

namespace TablePipeline

open Sql (CompareOp)
open Schema (coerceLiteral)

namespace Scalar

def isNaN : Scalar → Bool
  | float x => x.isNaN
  | _ => false

def IsNumber (v : Scalar) : Prop := ∃ t, v.type? = some t ∧ t.isNumeric = true

variable {v w c cell : Scalar} {t : ColumnType} {place : PlanPlace}

theorem isNumber_cases (h : v.IsNumber) :
    (∃ n, v = integer n) ∨ (∃ d, v = decimal d) ∨ ∃ x, v = float x := by
  obtain ⟨t, hv, ht⟩ := h
  cases v with
  | integer n => exact .inl ⟨n, rfl⟩
  | decimal d => exact .inr (.inl ⟨d, rfl⟩)
  | float x => exact .inr (.inr ⟨x, rfl⟩)
  | null => cases hv
  | _ =>
    obtain rfl := Option.some.inj hv
    cases ht

/-! ### Which cells have an order -/

/-- A number is also a float, and that is NaN only if the number is. -/
theorem toFloat?_of_isNumber (h : v.IsNumber) (hnan : v.isNaN = false) :
    ∃ x, v.toFloat? = some x ∧ x.isNaN = false := by
  rcases isNumber_cases h with ⟨n, rfl⟩ | ⟨d, rfl⟩ | ⟨x, rfl⟩
  · exact ⟨_, rfl, Binary64.isNaN_ofInt n.toInt⟩
  · exact ⟨_, rfl, Binary64.isNaN_ofDecimal d⟩
  · exact ⟨x, rfl, hnan⟩

theorem compareNumbers?_isSome (hv : v.IsNumber) (hw : w.IsNumber) (hvnan : v.isNaN = false)
    (hwnan : w.isNaN = false) : (compareNumbers? v w).isSome = true := by
  obtain ⟨x, hx, hxnan⟩ := toFloat?_of_isNumber hv hvnan
  obtain ⟨y, hy, hynan⟩ := toFloat?_of_isNumber hw hwnan
  have hfloats : (v.toFloat?.bind fun x => w.toFloat?.bind (x.compare? ·)).isSome = true := by
    rw [hx, hy]
    show (x.compare? y).isSome = true
    unfold Binary64.compare?
    rw [hxnan, hynan]
    rfl
  unfold compareNumbers?
  split
  · rfl
  · exact hfloats

theorem compare?_isSome_of_isNumber (hv : v.IsNumber) (hw : w.IsNumber) (hvnan : v.isNaN = false)
    (hwnan : w.isNaN = false) : (v.compare? w).isSome = true := by
  have hnumbers : v.compare? w = compareNumbers? v w := by
    rcases isNumber_cases hv with ⟨_, rfl⟩ | ⟨_, rfl⟩ | ⟨_, rfl⟩ <;>
      rcases isNumber_cases hw with ⟨_, rfl⟩ | ⟨_, rfl⟩ | ⟨_, rfl⟩ <;> rfl
  rw [hnumbers]
  exact compareNumbers?_isSome hv hw hvnan hwnan

theorem compare?_isSome_of_type? (hv : v.type? = some t) (hw : w.type? = some t)
    (hvnan : v.isNaN = false) (hwnan : w.isNaN = false) : (v.compare? w).isSome = true := by
  cases ht : t.isNumeric with
  | true => exact compare?_isSome_of_isNumber ⟨t, hv, ht⟩ ⟨t, hw, ht⟩ hvnan hwnan
  | false =>
    cases v with
    | null => cases hv
    | integer _ | decimal _ | float _ =>
      obtain rfl := Option.some.inj hv
      cases ht
    | boolean _ | text _ | date _ | timestamp _ =>
      obtain rfl := Option.some.inj hv
      cases w <;> cases hw
      rfl

/-! ### What a literal becomes -/

theorem isNaN_of_castToFloat {x : Binary64} (h : v.castToFloat = .ok x) (hnan : v.isNaN = false) :
    x.isNaN = false := by
  cases v with
  | float y =>
    obtain rfl := Except.ok.inj h
    exact hnan
  | integer n =>
    obtain rfl := Except.ok.inj h
    exact Binary64.isNaN_ofInt n.toInt
  | decimal d =>
    obtain rfl := Except.ok.inj h
    exact Binary64.isNaN_ofDecimal d
  | boolean b =>
    obtain rfl := Except.ok.inj h
    exact Binary64.isNaN_ofInt _
  | text s =>
    unfold castToFloat at h
    cases hread : (Binary64.read? (Text.trim s)).filter (·.isFinite) with
    | none =>
      simp only [hread] at h
      cases h
    | some y =>
      simp only [hread] at h
      obtain rfl := Except.ok.inj h
      exact Binary64.isNaN_of_isFinite (Option.filter_eq_some_iff.mp hread).2
  | _ => cases h

/-- A cast gives NaN only for NaN: texts are read as finite numbers. -/
theorem isNaN_of_cast (h : v.cast t = .ok c) (hnan : v.isNaN = false) : c.isNaN = false := by
  unfold cast at h
  split at h
  · obtain rfl := Except.ok.inj h
    rfl
  · cases t with
    | text =>
      obtain rfl := Except.ok.inj h
      rfl
    | float =>
      obtain ⟨x, hx, rfl⟩ := Outcome.map_eq_ok.mp h
      exact isNaN_of_castToFloat hx hnan
    | _ =>
      obtain ⟨x, -, rfl⟩ := Outcome.map_eq_ok.mp h
      rfl

/-- A literal keeps its number beside numbers and has the column's type otherwise. -/
theorem coerceLiteral_cases (h : coerceLiteral place (some t) v = .ok c) (hv : v ≠ null)
    (hnan : v.isNaN = false) :
    c.isNaN = false ∧ (c.type? = some t ∨ t.isNumeric = true ∧ c.IsNumber) := by
  obtain ⟨own, hown⟩ := Option.ne_none_iff_exists'.mp (mt (type?_eq_none_iff v).mp hv)
  unfold coerceLiteral at h
  rw [hown] at h
  dsimp only at h
  split at h
  · rename_i hkept
    obtain rfl := Except.ok.inj h
    refine ⟨hnan, hkept.imp ?_ fun ⟨ht, hnumeric⟩ => ⟨ht, own, hown, hnumeric⟩⟩
    rintro rfl
    exact hown
  · have hcast := Outcome.mapError_eq_ok.mp h
    have hnull : v.isNull = false := by rwa [← Bool.not_eq_true, isNull_eq_true_iff]
    exact ⟨isNaN_of_cast hcast hnan, .inl (type?_of_cast hcast hnull)⟩

/-- What a literal of a column becomes has an order with each cell of the column. -/
theorem compare?_coerced_isSome (hcell : cell.type? = some t) (hcellnan : cell.isNaN = false)
    (hv : v ≠ null) (hnan : v.isNaN = false) (h : coerceLiteral place (some t) v = .ok c) :
    (cell.compare? c).isSome = true := by
  obtain ⟨hcnan, hc | ⟨ht, hc⟩⟩ := coerceLiteral_cases h hv hnan
  · exact compare?_isSome_of_type? hcell hc hcellnan hcnan
  · exact compare?_isSome_of_isNumber ⟨t, hcell, ht⟩ hc hcellnan hcnan

theorem test?_coerced_isSome {op : CompareOp} (hop : op ∈ orderOps) (hcell : cell.type? = some t)
    (hcellnan : cell.isNaN = false) (hv : v ≠ null) (hnan : v.isNaN = false)
    (h : coerceLiteral place (some t) v = .ok c) : ∃ b, cell.test? op (.value c) = some b := by
  have hsome := compare?_coerced_isSome hcell hcellnan hv hnan h
  rw [← Option.isSome_iff_exists, ← Option.not_isNone, test?_order_isNone hop, Option.not_isNone]
  exact hsome

/-- In a list without null the test for a member is decided by equalities. -/
theorem test?_isIn_of_no_null {vs : List Scalar} (hv : v ≠ null) (hvs : ∀ w ∈ vs, w ≠ null) :
    v.test? .isIn (.list vs) = some (decide (∃ w ∈ vs, v.test? .eq (.value w) = some true)) := by
  have hnull : v.isNull = false := by rwa [← Bool.not_eq_true, isNull_eq_true_iff]
  have hnone : ¬vs.any isNull = true := by
    rw [List.any_eq_true]
    rintro ⟨w, hw, h⟩
    exact hvs w hw (isNull_eq_true_iff.mp h)
  have hmember : vs.any (fun w => v.compare? w == some .eq) =
      decide (∃ w ∈ vs, v.test? .eq (.value w) = some true) := by
    rw [Bool.eq_iff_iff, List.any_eq_true, decide_eq_true_iff]
    simp only [beq_iff_eq, test?_eq_iff]
  have htest : v.test? .isIn (.list vs) = v.isIn? vs := by
    simp only [test?, hnull, Bool.false_eq_true, if_false]
  rw [htest, isIn?, if_neg hnone, hmember]
  split
  · rename_i h
    rw [h]
  · rename_i h
    rw [Bool.not_eq_true] at h
    rw [h]

/-- A comparison of a column with a literal that compiles is decided for each cell of the column:
the operators of order are never unknown, and a list has the cell just where one of its literals
equals it. Only null and NaN are left out. -/
theorem coerced_comparison_decided (place : PlanPlace) (hcell : cell.type? = some t)
    (hcellnan : cell.isNaN = false) :
    (∀ op ∈ orderOps, ∀ v c, v ≠ null → v.isNaN = false →
      coerceLiteral place (some t) v = .ok c → ∃ b, cell.test? op (.value c) = some b) ∧
      ∀ vs cs : List Scalar, (∀ v ∈ vs, v ≠ null ∧ v.isNaN = false) →
        vs.mapM (coerceLiteral place (some t)) = .ok cs →
        cell.test? .isIn (.list cs) =
          some (decide (∃ c ∈ cs, cell.test? .eq (.value c) = some true)) := by
  refine ⟨fun op hop v c hv hnan h => test?_coerced_isSome hop hcell hcellnan hv hnan h,
    fun vs cs hvs h => test?_isIn_of_no_null ?_ fun c hc => ?_⟩
  · rintro rfl
    cases hcell
  · obtain ⟨v, hv, h⟩ := Outcome.exists_of_mem_right h hc
    obtain ⟨-, htype | ⟨-, u, hu, -⟩⟩ := coerceLiteral_cases h (hvs v hv).1 (hvs v hv).2
    all_goals
      rintro rfl
      contradiction

/-- A float beyond every decimal is still ordered with a decimal, and a text is read as one. -/
theorem coerced_comparison_decided_mixed :
    let cell := decimal ⟨false, 15, 1, by decide, by decide⟩
    let large := float ⟨0x7E37E43C8800759C⟩
    cell.type? = some .decimal ∧ cell.isNaN = false ∧ CompareOp.lt ∈ orderOps ∧
      (∀ v ∈ [text "1.50", large], v ≠ null ∧ v.isNaN = false) ∧
      coerceLiteral (.filter "prices") (some .decimal) large = .ok large ∧
      large.toDecimal? = none ∧
      (∃ b, cell.test? .lt (.value large) = some b) ∧
      ∃ c, [text "1.50", large].mapM (coerceLiteral (.filter "prices") (some .decimal)) =
          .ok [c, large] ∧
        cell.test? .isIn (.list [c, large]) =
          some (decide (∃ w ∈ [c, large], cell.test? .eq (.value w) = some true)) := by
  intro cell large
  have hlist : ∀ v ∈ [text "1.50", large], v ≠ null ∧ v.isNaN = false := by
    intro v hv
    fin_cases hv
    · exact ⟨Scalar.noConfusion, rfl⟩
    · exact ⟨Scalar.noConfusion, by decide +kernel⟩
  have hlarge : coerceLiteral (.filter "prices") (some .decimal) large = .ok large := rfl
  have hmixed : [text "1.50", large].mapM (coerceLiteral (.filter "prices") (some .decimal)) =
      .ok [decimal ⟨false, 150, 2, by decide, by decide⟩, large] := by cbv
  obtain ⟨horder, hmember⟩ :=
    coerced_comparison_decided (.filter "prices") (rfl : cell.type? = some .decimal) rfl
  exact ⟨rfl, rfl, by decide, hlist, hlarge, by decide +kernel,
    horder .lt (by decide) large large Scalar.noConfusion (by decide +kernel) hlarge,
    _, hmixed, hmember _ _ hlist hmixed⟩

end Scalar

end TablePipeline
