import Mathlib.Data.List.ProdSigma
import TablePipeline.Proofs.Rows.Partners

/-!
# Inner joins as filtered products

An inner join keeps those pairs of rows whose cells compare as equal, of the pairs whose cells are
alike: both texts or neither, and no float that is without a decimal value. Joining could not keep
all pairs that compare as equal, as these do not fall into classes: a text is equal to each number
that it can be read as, and two such texts need not be equal.
-/

set_option autoImplicit false

namespace TablePipeline

namespace Scalar

variable {v w : Scalar}

def isText : Scalar → Bool
  | text _ => true
  | _ => false

/-- Floats need a decimal value. -/
def hasValue : Scalar → Bool
  | float x => x.toDecimal?.isSome
  | _ => true

/-- Cells that are told apart by joining just as by comparing. -/
def Alike (v w : Scalar) : Prop := v.isText = w.isText ∧ v.hasValue = true ∧ w.hasValue = true
  deriving Decidable

/-- A number is alike only if it has a decimal value. -/
theorem exists_decimal {x : Binary64} (hv : v.hasValue = true) (hx : v.toFloat? = some x) :
    ∃ d, v.toDecimal? = some d := by
  cases v with
  | float y => exact Option.isSome_iff_exists.mp hv
  | integer n => exact ⟨_, rfl⟩
  | decimal d => exact ⟨d, rfl⟩
  | _ => cases hx

theorem compareNumbers?_of_decimals {c d : Decimal} (hv : v.toDecimal? = some c)
    (hw : w.toDecimal? = some d) : compareNumbers? v w = some (c.compareWith d) := by
  simp only [compareNumbers?, hv, hw]

theorem compareNumbers?_eq_some {o : Ordering} (hv : v.hasValue = true) (hw : w.hasValue = true)
    (h : compareNumbers? v w = some o) :
    ∃ c d, v.toDecimal? = some c ∧ w.toDecimal? = some d ∧ c.compareWith d = o := by
  unfold compareNumbers? at h
  split at h
  · rename_i c d hc hd
    exact ⟨c, d, hc, hd, Option.some.inj h⟩
  · rename_i hnone
    obtain ⟨x, hx, h⟩ := Option.bind_eq_some_iff.mp h
    obtain ⟨y, hy, _⟩ := Option.bind_eq_some_iff.mp h
    obtain ⟨c, hc⟩ := exists_decimal hv hx
    obtain ⟨d, hd⟩ := exists_decimal hw hy
    exact (hnone c d hc hd).elim

/-! ### Joining and comparing -/

theorem compare?_of_decimals {c d : Decimal} (hv : v.toDecimal? = some c)
    (hw : w.toDecimal? = some d) : v.compare? w = some (c.compareWith d) := by
  rw [← compareNumbers?_of_decimals hv hw]
  cases v with
  | integer _ | decimal _ | float _ =>
    cases w with
    | integer _ | decimal _ | float _ => rfl
    | _ => cases hw
  | _ => cases hv

theorem has_of_moment {t : Timestamp} (h : v.moment? = some t) :
    KeyKind.moment.has v = true := by
  cases v with
  | date _ | timestamp _ => rfl
  | _ => cases h

/-- Cells of one kind, floats apart, join just if they compare as equal. -/
theorem joins_iff_compare? {k : KeyKind} (hv : k.has v = true) (hw : k.has w = true) :
    v.Joins w ↔ v.compare? w = some .eq :=
  JoinKey.joins_iff.trans (compare?_eq_iff hv hw).symm

theorem Joins.compare?_eq (h : v.Joins w) : v.compare? w = some .eq := by
  cases h with
  | numbers hv hw =>
    obtain ⟨c, hc, hcx⟩ := Option.map_eq_some_iff.mp hv
    obtain ⟨d, hd, hdx⟩ := Option.map_eq_some_iff.mp hw
    rw [compare?_of_decimals hc hd, (Decimal.value_eq_iff c d).mp (hcx.trans hdx.symm)]
  | texts s => exact (joins_iff_compare? (k := .text) rfl rfl).mp (.texts s)
  | booleans b => exact (joins_iff_compare? (k := .boolean) rfl rfl).mp (.booleans b)
  | moments hv hw =>
    exact (joins_iff_compare? (has_of_moment hv) (has_of_moment hw)).mp (.moments hv hw)

theorem hasValue_of_decimal {d : Decimal} (h : v.toDecimal? = some d) :
    v.isText = false ∧ v.hasValue = true := by
  cases v with
  | float x => exact ⟨rfl, Option.isSome_iff_exists.mpr ⟨d, h⟩⟩
  | integer _ | decimal _ => exact ⟨rfl, rfl⟩
  | _ => cases h

theorem hasValue_of_moment {t : Timestamp} (h : v.moment? = some t) :
    v.isText = false ∧ v.hasValue = true := by
  cases v with
  | date _ | timestamp _ => exact ⟨rfl, rfl⟩
  | _ => cases h

theorem Joins.alike (h : v.Joins w) : v.Alike w := by
  cases h with
  | numbers hv hw =>
    obtain ⟨c, hc, _⟩ := Option.map_eq_some_iff.mp hv
    obtain ⟨d, hd, _⟩ := Option.map_eq_some_iff.mp hw
    obtain ⟨htext, hvalue⟩ := hasValue_of_decimal hc
    obtain ⟨htext', hvalue'⟩ := hasValue_of_decimal hd
    exact ⟨htext.trans htext'.symm, hvalue, hvalue'⟩
  | texts s => exact ⟨rfl, rfl, rfl⟩
  | booleans b => exact ⟨rfl, rfl, rfl⟩
  | moments hv hw =>
    obtain ⟨htext, hvalue⟩ := hasValue_of_moment hv
    obtain ⟨htext', hvalue'⟩ := hasValue_of_moment hw
    exact ⟨htext.trans htext'.symm, hvalue, hvalue'⟩

theorem exists_text (h : v.isText = true) : ∃ s, v = text s := by
  cases v with
  | text s => exact ⟨s, rfl⟩
  | _ => cases h

theorem Alike.joins (ha : v.Alike w) : v.compare? w = some .eq → v.Joins w := by
  obtain ⟨htext, hv, hw⟩ := ha
  fun_cases compare? v w with
  | case1 => exact fun h => by cases h
  | case2 => exact fun h => by cases h
  | case3 => exact fun h => (joins_iff_compare? (k := .text) rfl rfl).mpr h
  | case4 => exact fun h => (joins_iff_compare? (k := .boolean) rfl rfl).mpr h
  | case7 | case8 | case9 | case10 =>
    exact fun h => (joins_iff_compare? (k := .moment) rfl rfl).mpr h
  | case5 | case6 | case11 | case12 | case13 | case14 => cases htext
  | case15 s _ _ hnotText =>
    obtain ⟨t, ht⟩ := exists_text htext.symm
    exact (hnotText t ht).elim
  | case16 _ t _ hnotText =>
    obtain ⟨s, hs⟩ := exists_text htext
    exact (hnotText s hs).elim
  | case17 =>
    intro h
    obtain ⟨c, d, hc, hd, hcd⟩ := compareNumbers?_eq_some hv hw h
    exact .numbers (Option.map_eq_some_iff.mpr ⟨c, hc, rfl⟩)
      (Option.map_eq_some_iff.mpr ⟨d, hd, ((Decimal.value_eq_iff c d).mpr hcd).symm⟩)

/-- Cells join just if they are alike and compare as equal. -/
theorem joins_iff_test? : v.Joins w ↔ v.Alike w ∧ v.test? .eq (.value w) = some true := by
  rw [test?_eq_iff]
  exact ⟨fun h => ⟨h.alike, h.compare?_eq⟩, fun h => h.1.joins h.2⟩

/-- However keys are chosen, sharing one is not comparing as equal: `1` is equal to two texts that
differ. -/
theorem exists_compare?_ne_key {κ : Type} (key : Scalar → Option κ) :
    ¬∀ v w : Scalar, v.compare? w = some .eq ↔ ∃ k, key v = some k ∧ key w = some k := by
  intro h
  obtain ⟨k, hone, hshort⟩ := (h (integer 1) (text "1")).mp (by decide +kernel)
  obtain ⟨k', hone', hlong⟩ := (h (integer 1) (text "1.0")).mp (by decide +kernel)
  obtain rfl := Option.some.inj (hone.symm.trans hone')
  have heq := (h (text "1") (text "1.0")).mpr ⟨k, hshort, hlong⟩
  revert heq
  decide +kernel

end Scalar

namespace Rows

/-- The pairs of rows, in the order of the left and then of the right ones, of whose cells at two
positions something holds. A row that is too short has a null there. -/
def filteredProduct (holds : Scalar → Scalar → Bool) (left : List Row) (leftKey : Nat)
    (right : List Row) (rightKey : Nat) : List Row :=
  ((left ×ˢ right).filter fun p => holds (p.1.getD leftKey .null) (p.2.getD rightKey .null)).map
    fun p => p.1 ++ p.2

theorem filteredProduct_eq_flatMap (holds : Scalar → Scalar → Bool) (left : List Row)
    (leftKey : Nat) (right : List Row) (rightKey : Nat) :
    filteredProduct holds left leftKey right rightKey =
      left.flatMap fun row => (right.filter fun other =>
        holds (row.getD leftKey .null) (other.getD rightKey .null)).map (row ++ ·) := by
  unfold filteredProduct
  induction left with
  | nil => rfl
  | cons row left ih =>
    rw [List.product_cons, List.filter_append, List.map_append, ih, List.filter_map, List.map_map,
      List.flatMap_cons]
    rfl

theorem not_null_joins (w : Scalar) : ¬Scalar.null.Joins w := fun h => by
  cases h.compare?_eq

theorem not_joins_null (v : Scalar) : ¬v.Joins .null := fun h => by
  cases (Scalar.compare?_null_right v).symm.trans h.compare?_eq

theorem partners_iff_joins {leftKey rightKey : Nat} {row other : Row} :
    Partners leftKey rightKey row other ↔
      (row.getD leftKey .null).Joins (other.getD rightKey .null) := by
  unfold Partners
  rw [List.getD_eq_getElem?_getD, List.getD_eq_getElem?_getD]
  cases row[leftKey]? with
  | none => simpa using not_null_joins _
  | some v =>
    cases other[rightKey]? with
    | none => simpa using not_joins_null v
    | some w => simp

theorem joinRow_inner (width : Nat) (others : List Row) (row : Row) :
    joinRow .inner width others.toArray row = others.map (row ++ ·) := by
  rw [joinRow_toArray]

/-- An inner join keeps the pairs of rows whose cells are alike and compare as equal. -/
theorem join_inner_eq_filteredProduct (left right : List Row) (leftKey rightKey width : Nat) :
    join .inner left leftKey right rightKey width =
      filteredProduct (fun v w => decide (v.Alike w) && v.test? .eq (.value w) == some true) left
        leftKey right rightKey := by
  rw [join_eq_flatMap, filteredProduct_eq_flatMap]
  refine congrArg (left.flatMap ·) (funext fun row => ?_)
  rw [joinRow_inner]
  refine congrArg (List.map (row ++ ·)) (List.filter_congr fun other _ => ?_)
  rw [Bool.eq_iff_iff, matching_iff, partners_iff_joins, Scalar.joins_iff_test?, Bool.and_eq_true,
    decide_eq_true_iff, beq_iff_eq]

/-- Of a text and a number, and of two floats beyond the decimals, a join keeps no pair, though
they compare as equal. -/
theorem join_inner_not_alike :
    join .inner [[.text "1"], [.float ⟨0x46293e5939a08cea⟩]] 0
        [[.integer 1], [.float ⟨0x46293e5939a08cea⟩]] 0 1 = [] ∧
      filteredProduct (fun v w => v.test? .eq (.value w) == some true)
          [[.text "1"], [.float ⟨0x46293e5939a08cea⟩]] 0
          [[.integer 1], [.float ⟨0x46293e5939a08cea⟩]] 0 =
        [[.text "1", .integer 1],
          [.float ⟨0x46293e5939a08cea⟩, .float ⟨0x46293e5939a08cea⟩]] := by
  refine ⟨?_, ?_⟩
  · rw [join_eq_flatMap]
    decide +kernel
  · decide +kernel

end Rows

end TablePipeline
