import TablePipeline.Proofs.Number.Value
import TablePipeline.Proofs.Rows.KeyEquality
import TablePipeline.Proofs.Rows.NestedLoop

/-!
# Rows that join

Two cells join if they are numbers of one value, the same text, the same boolean or the same
moment. These are the cells that share a key, so joining by keys finds for each left row just the
right rows that a look at every pair of rows would find.
-/

set_option autoImplicit false

namespace TablePipeline

attribute [local instance (high)] instPowNat

namespace Scalar

/-- The moment of a timestamp, and of a date its midnight. -/
def moment? : Scalar → Option Timestamp
  | date d => some (.midnight d)
  | timestamp t => some t
  | _ => none

/-- The cells that join. Null is none of them. -/
inductive Joins : Scalar → Scalar → Prop
  | numbers {v w : Scalar} {x : ℚ} (hv : v.decimalValue? = some x)
      (hw : w.decimalValue? = some x) : Joins v w
  | texts (s : String) : Joins (text s) (text s)
  | booleans (b : Bool) : Joins (boolean b) (boolean b)
  | moments {v w : Scalar} {t : Timestamp} (hv : v.moment? = some t) (hw : w.moment? = some t) :
      Joins v w

end Scalar

namespace JoinKey

variable {v w : Scalar}

theorem ofScalar?_of_decimal {d : Decimal} (h : v.toDecimal? = some d) :
    ofScalar? v = some (ofDecimal d) := by
  cases v with
  | integer n =>
    obtain rfl := Option.some.inj h
    rfl
  | decimal c =>
    obtain rfl := Option.some.inj h
    rfl
  | float x => exact congrArg (Option.map ofDecimal) h
  | _ => cases h

theorem ofScalar?_of_moment {t : Timestamp} (h : v.moment? = some t) :
    ofScalar? v = some (ofTimestamp t) := by
  cases v with
  | date d =>
    obtain rfl := Option.some.inj h
    rfl
  | timestamp u =>
    obtain rfl := Option.some.inj h
    rfl
  | _ => cases h

theorem ofScalar?_cases {k : JoinKey} (h : ofScalar? v = some k) :
    match k with
    | number .. => ∃ d, v.toDecimal? = some d ∧ k = ofDecimal d
    | text s => v = .text s
    | boolean b => v = .boolean b
    | moment .. => ∃ t, v.moment? = some t ∧ k = ofTimestamp t := by
  cases v with
  | null => cases h
  | float x =>
    obtain ⟨d, hd, rfl⟩ := Option.map_eq_some_iff.mp h
    exact ⟨d, hd, rfl⟩
  | integer n =>
    obtain rfl := Option.some.inj h
    exact ⟨_, rfl, rfl⟩
  | decimal d =>
    obtain rfl := Option.some.inj h
    exact ⟨_, rfl, rfl⟩
  | date d =>
    obtain rfl := Option.some.inj h
    exact ⟨_, rfl, rfl⟩
  | timestamp t =>
    obtain rfl := Option.some.inj h
    exact ⟨_, rfl, rfl⟩
  | text s =>
    obtain rfl := Option.some.inj h
    rfl
  | boolean b =>
    obtain rfl := Option.some.inj h
    rfl

/-- Cells join just if they have a key in common, which tells of what kind they are. -/
theorem joins_iff_exists : v.Joins w ↔ ∃ k, ofScalar? v = some k ∧ ofScalar? w = some k := by
  constructor
  · rintro (⟨hv, hw⟩ | s | b | ⟨hv, hw⟩)
    · obtain ⟨c, hc, hcx⟩ := Option.map_eq_some_iff.mp hv
      obtain ⟨d, hd, hdx⟩ := Option.map_eq_some_iff.mp hw
      have hkey : ofDecimal d = ofDecimal c :=
        (ofDecimal_eq_iff d c).mpr ((Decimal.value_eq_iff d c).mp (hdx.trans hcx.symm))
      exact ⟨_, ofScalar?_of_decimal hc, hkey ▸ ofScalar?_of_decimal hd⟩
    · exact ⟨_, rfl, rfl⟩
    · exact ⟨_, rfl, rfl⟩
    · exact ⟨_, ofScalar?_of_moment hv, ofScalar?_of_moment hw⟩
  · rintro ⟨k, hv, hw⟩
    have hv := ofScalar?_cases hv
    have hw := ofScalar?_cases hw
    cases k with
    | number negative coefficient scale =>
      obtain ⟨c, hc, hck⟩ := hv
      obtain ⟨d, hd, hdk⟩ := hw
      have hvalue : d.value = c.value :=
        (Decimal.value_eq_iff d c).mpr ((ofDecimal_eq_iff d c).mp (hdk.symm.trans hck))
      exact .numbers (Option.map_eq_some_iff.mpr ⟨c, hc, rfl⟩)
        (Option.map_eq_some_iff.mpr ⟨d, hd, hvalue⟩)
    | text s =>
      rw [show v = .text s from hv, show w = .text s from hw]
      exact .texts s
    | boolean b =>
      rw [show v = .boolean b from hv, show w = .boolean b from hw]
      exact .booleans b
    | moment year month day second nano =>
      obtain ⟨t, ht, htk⟩ := hv
      obtain ⟨u, hu, huk⟩ := hw
      obtain rfl := (ofTimestamp_eq_iff t u).mp (htk.symm.trans huk)
      exact .moments ht hu

theorem isSome_and_eq_iff {α : Type} {x y : Option α} :
    x.isSome = true ∧ y = x ↔ ∃ a, x = some a ∧ y = some a := by
  cases x <;> simp

theorem joins_iff : v.Joins w ↔ (ofScalar? v).isSome = true ∧ ofScalar? w = ofScalar? v :=
  joins_iff_exists.trans isSome_and_eq_iff.symm

end JoinKey

namespace Rows

/-- Both rows have a cell at their position, and the two cells join. -/
def Partners (leftKey rightKey : Nat) (row other : Row) : Prop :=
  ∃ v w, row[leftKey]? = some v ∧ other[rightKey]? = some w ∧ v.Joins w

theorem matching_iff {leftKey rightKey : Nat} {row other : Row} :
    matching leftKey rightKey row other = true ↔ Partners leftKey rightKey row other := by
  unfold matching Partners
  rw [Bool.and_eq_true, beq_iff_eq, JoinKey.isSome_and_eq_iff]
  constructor
  · rintro ⟨k, hrow, hother⟩
    obtain ⟨v, hv, hvk⟩ := Option.bind_eq_some_iff.mp hrow
    obtain ⟨w, hw, hwk⟩ := Option.bind_eq_some_iff.mp hother
    exact ⟨v, w, hv, hw, JoinKey.joins_iff_exists.mpr ⟨k, hvk, hwk⟩⟩
  · rintro ⟨v, w, hv, hw, hjoins⟩
    obtain ⟨k, hvk, hwk⟩ := JoinKey.joins_iff_exists.mp hjoins
    exact ⟨k, Option.bind_eq_some_iff.mpr ⟨v, hv, hvk⟩, Option.bind_eq_some_iff.mpr ⟨w, hw, hwk⟩⟩

instance (leftKey rightKey : Nat) : DecidableRel (Partners leftKey rightKey) := fun _ _ =>
  decidable_of_iff _ matching_iff

/-- The join that looks at every pair of rows: each left row stands before its partners in their
order; without any, a left join pads it with nulls. -/
def nestedLoop (kind : Sql.JoinKind) (partners : Row → Row → Prop) [DecidableRel partners]
    (left right : List Row) (width : Nat) : List Row :=
  left.flatMap fun row =>
    match kind, right.filter (partners row ·) with
    | .left, [] => [row ++ List.replicate width .null]
    | _, others => others.map (row ++ ·)

theorem joinRow_toArray (kind : Sql.JoinKind) (width : Nat) (others : List Row) (row : Row) :
    joinRow kind width others.toArray row =
      match kind, others with
      | .left, [] => [row ++ List.replicate width .null]
      | _, others => others.map (row ++ ·) := by
  cases others with
  | nil => cases kind <;> rfl
  | cons other others => cases kind <;> rfl

/-- Joining through keys is joining by a look at every pair of rows. -/
theorem join_eq_nestedLoop (kind : Sql.JoinKind) (left right : List Row)
    (leftKey rightKey width : Nat) :
    join kind left leftKey right rightKey width =
      nestedLoop kind (Partners leftKey rightKey) left right width := by
  rw [join_eq_flatMap]
  refine congrArg (left.flatMap ·) (funext fun row => ?_)
  have hfilter : right.filter (matching leftKey rightKey row) =
      right.filter (Partners leftKey rightKey row ·) := by
    refine List.filter_congr fun other _ => ?_
    rw [Bool.eq_iff_iff, matching_iff, decide_eq_true_iff]
  rw [hfilter, joinRow_toArray]

end Rows

end TablePipeline
