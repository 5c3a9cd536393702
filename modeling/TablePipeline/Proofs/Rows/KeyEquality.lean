import Mathlib.Tactic.Ring
import TablePipeline.Rule.Comparison
import TablePipeline.Rule.Join

/-!
# Equal keys and equal cells

Within one kind of values two cells compare as equal exactly where they have the same key. Numbers
are the interesting kind: a comparison multiplies by powers of ten, a key takes zeros off the end.
-/

set_option autoImplicit false

namespace TablePipeline

attribute [local instance (high)] instPowNat

namespace Decimal

/-- No zero is left at the end that could be taken off. -/
def Stripped (c s : Nat) : Prop := s = 0 ∨ c % 10 ≠ 0

theorem stripZeros_stripped (c s : Nat) : Stripped (stripZeros c s).1 (stripZeros c s).2 := by
  induction s generalizing c with
  | zero => exact .inl rfl
  | succ s ih =>
    rw [stripZeros]
    split
    · exact ih (c / 10)
    · rename_i h
      exact .inr h

theorem scale_le_of_stripped {c d s t : Nat} (hd : Stripped d t)
    (h : c * 10 ^ t = d * 10 ^ s) : t ≤ s := by
  rcases hd with rfl | hd
  · exact Nat.zero_le s
  · refine Nat.le_of_not_lt fun hlt => hd ?_
    obtain ⟨k, rfl⟩ := Nat.exists_eq_add_of_lt hlt
    have hpow : c * 10 ^ (k + 1) = d := by
      apply Nat.eq_of_mul_eq_mul_right (Nat.pow_pos (n := s) (by decide : 0 < 10))
      rw [← h, Nat.mul_assoc, ← Nat.pow_add]
      congr 2
      omega
    rw [← hpow, Nat.pow_succ, ← Nat.mul_assoc]
    exact Nat.mul_mod_left _ 10

/-- A fraction has one form without zeros at the end. -/
theorem stripped_unique {c d s t : Nat} (hc : Stripped c s) (hd : Stripped d t)
    (h : c * 10 ^ t = d * 10 ^ s) : c = d ∧ s = t := by
  have hst : s = t :=
    Nat.le_antisymm (scale_le_of_stripped hc h.symm) (scale_le_of_stripped hd h)
  subst hst
  exact ⟨Nat.eq_of_mul_eq_mul_right (Nat.pow_pos (by decide)) h, rfl⟩

theorem stripZeros_eq_iff {a b s t : Nat} :
    stripZeros a s = stripZeros b t ↔ a * 10 ^ t = b * 10 ^ s := by
  have ha := stripZeros_value a s
  have hb := stripZeros_value b t
  constructor
  · intro h
    have hpos : 0 < 10 ^ (stripZeros b t).2 := Nat.pow_pos (by decide)
    apply Nat.eq_of_mul_eq_mul_right hpos
    rw [h] at ha
    calc
      a * 10 ^ t * 10 ^ (stripZeros b t).2
          = a * 10 ^ (stripZeros b t).2 * 10 ^ t := by ring
      _ = (stripZeros b t).1 * 10 ^ t * 10 ^ s := by rw [← ha]; ring
      _ = b * 10 ^ s * 10 ^ (stripZeros b t).2 := by rw [hb]; ring
  · intro h
    have hpos : 0 < 10 ^ s * 10 ^ t :=
      Nat.mul_pos (Nat.pow_pos (by decide)) (Nat.pow_pos (by decide))
    have heq : (stripZeros a s).1 * 10 ^ (stripZeros b t).2 =
        (stripZeros b t).1 * 10 ^ (stripZeros a s).2 := by
      apply Nat.eq_of_mul_eq_mul_right hpos
      calc
        (stripZeros a s).1 * 10 ^ (stripZeros b t).2 * (10 ^ s * 10 ^ t)
            = (stripZeros a s).1 * 10 ^ s * (10 ^ (stripZeros b t).2 * 10 ^ t) := by ring
        _ = a * 10 ^ t * (10 ^ (stripZeros b t).2 * 10 ^ (stripZeros a s).2) := by rw [ha]; ring
        _ = b * 10 ^ (stripZeros b t).2 * (10 ^ s * 10 ^ (stripZeros a s).2) := by rw [h]; ring
        _ = (stripZeros b t).1 * 10 ^ (stripZeros a s).2 * (10 ^ s * 10 ^ t) := by rw [← hb]; ring
    obtain ⟨h₁, h₂⟩ := stripped_unique (stripZeros_stripped a s) (stripZeros_stripped b t) heq
    exact Prod.ext h₁ h₂

theorem normalize_of_eq_zero {d : Decimal} (h : d.coefficient = 0) : d.normalize = zero :=
  if_pos h

theorem normalize_of_ne_zero {d : Decimal} (h : d.coefficient ≠ 0) : d.normalize = d.shortened :=
  if_neg h

theorem coefficient_normalize_eq_zero (d : Decimal) :
    d.normalize.coefficient = 0 ↔ d.coefficient = 0 := by
  constructor
  · intro h
    by_contra hne
    rw [normalize_of_ne_zero hne] at h
    have hv := stripZeros_value d.coefficient d.scale
    have hz : (stripZeros d.coefficient d.scale).1 = 0 := h
    rw [hz, Nat.zero_mul] at hv
    rcases Nat.mul_eq_zero.mp hv.symm with h₀ | h₀
    · exact hne h₀
    · exact absurd h₀ (Nat.pow_pos (by decide)).ne'
  · intro h
    rw [normalize_of_eq_zero h]
    rfl

theorem signed_mul_pow (d : Decimal) (n : Nat) :
    d.signed * (10 : Int) ^ n =
      if d.negative then -((d.coefficient * 10 ^ n : Nat) : Int)
      else ((d.coefficient * 10 ^ n : Nat) : Int) := by
  unfold signed
  split
  · push_cast
    exact Int.neg_mul _ _
  · push_cast
    rfl

/-- Apart from zero a whole number has one sign and one magnitude. -/
theorem signed_eq_iff {p q : Bool} {m n : Nat} (hm : m ≠ 0) :
    ((if p then -(m : Int) else m) = if q then -(n : Int) else n) ↔ p = q ∧ m = n := by
  cases p with
  | false =>
    cases q with
    | false => simp
    | true =>
      simp only [Bool.false_eq_true, if_false, if_true, false_and, iff_false]
      omega
  | true =>
    cases q with
    | false =>
      simp only [Bool.false_eq_true, if_false, if_true, false_and, iff_false, Bool.true_eq_false]
      omega
    | true => simp

/-- Two decimals compare as equal exactly where they have the same normal form. -/
theorem compareWith_eq_iff (a b : Decimal) :
    a.compareWith b = .eq ↔
      a.normalize.negative = b.normalize.negative ∧
        a.normalize.coefficient = b.normalize.coefficient ∧
        a.normalize.scale = b.normalize.scale := by
  unfold compareWith
  rw [compare_eq_iff_eq, signed_mul_pow, signed_mul_pow]
  have hpow (n : Nat) : 10 ^ n ≠ 0 := (Nat.pow_pos (by decide)).ne'
  by_cases ha : a.coefficient = 0
  · rw [normalize_of_eq_zero ha, ha, Nat.zero_mul]
    by_cases hb : b.coefficient = 0
    · simp [normalize_of_eq_zero hb, hb]
    · have hne : b.coefficient * 10 ^ a.scale ≠ 0 := Nat.mul_ne_zero hb (hpow _)
      have hnorm : b.normalize.coefficient ≠ 0 := fun h =>
        hb ((coefficient_normalize_eq_zero b).mp h)
      refine ⟨fun h => ?_, fun h => absurd h.2.1.symm hnorm⟩
      split at h <;> split at h <;> omega
  · have hne : a.coefficient * 10 ^ b.scale ≠ 0 := Nat.mul_ne_zero ha (hpow _)
    rw [signed_eq_iff hne]
    by_cases hb : b.coefficient = 0
    · have hnorm : a.normalize.coefficient ≠ 0 := fun h =>
        ha ((coefficient_normalize_eq_zero a).mp h)
      rw [normalize_of_eq_zero hb, hb, Nat.zero_mul]
      exact ⟨fun h => absurd h.2 hne, fun h => absurd h.2.1 hnorm⟩
    · rw [normalize_of_ne_zero ha, normalize_of_ne_zero hb, ← stripZeros_eq_iff, Prod.ext_iff]
      rfl

end Decimal

theorem Date.compare_eq_iff (d e : Date) : compare d e = .eq ↔ d = e := by
  show (compare d.year e.year).then ((compare d.month e.month).then (compare d.day e.day)) = .eq ↔ _
  rw [Ordering.then_eq_eq, Ordering.then_eq_eq, compare_eq_iff_eq, compare_eq_iff_eq,
    compare_eq_iff_eq]
  constructor
  · rintro ⟨hy, hm, hd⟩
    cases d
    cases e
    congr
  · rintro rfl
    exact ⟨rfl, rfl, rfl⟩

theorem Timestamp.compare_eq_iff (t u : Timestamp) : compare t u = .eq ↔ t = u := by
  show (compare t.date u.date).then ((compare t.second u.second).then (compare t.nano u.nano)) =
    .eq ↔ _
  rw [Ordering.then_eq_eq, Ordering.then_eq_eq, Date.compare_eq_iff, compare_eq_iff_eq,
    compare_eq_iff_eq]
  constructor
  · rintro ⟨hd, hs, hn⟩
    cases t
    cases u
    congr
  · rintro rfl
    exact ⟨rfl, rfl, rfl⟩

theorem Date.midnight_injective {d e : Date} : Timestamp.midnight d = .midnight e ↔ d = e :=
  ⟨fun h => congrArg Timestamp.date h, fun h => congrArg Timestamp.midnight h⟩

namespace JoinKey

theorem ofDecimal_eq_iff (a b : Decimal) : ofDecimal a = ofDecimal b ↔ a.compareWith b = .eq := by
  rw [Decimal.compareWith_eq_iff]
  unfold ofDecimal
  rw [number.injEq]

theorem ofTimestamp_eq_iff (t u : Timestamp) : ofTimestamp t = ofTimestamp u ↔ t = u := by
  unfold ofTimestamp
  rw [moment.injEq]
  constructor
  · rintro ⟨hy, hm, hd, hs, hn⟩
    obtain ⟨⟨_, _, _, _, _, _⟩, _, _, _, _⟩ := t
    obtain ⟨⟨_, _, _, _, _, _⟩, _, _, _, _⟩ := u
    dsimp only at hy hm hd hs hn
    subst hy hm hd hs hn
    rfl
  · rintro rfl
    exact ⟨rfl, rfl, rfl, rfl, rfl⟩

end JoinKey

/-- The kinds of values whose equality does not depend on how they are compared. -/
inductive KeyKind
  | number
  | text
  | boolean
  | moment
  deriving DecidableEq, Repr

/-- Whether a cell is null or of a kind; numbers are whole or decimal ones. -/
def KeyKind.has (k : KeyKind) : Scalar → Bool
  | .null => true
  | .integer _ | .decimal _ => k == number
  | .text _ => k == text
  | .boolean _ => k == boolean
  | .date _ | .timestamp _ => k == moment
  | .float _ => false

namespace Scalar

theorem compare?_iff_of_keys {v w : Scalar} {o : Ordering} {a b : JoinKey}
    (ha : JoinKey.ofScalar? v = some a) (hb : JoinKey.ofScalar? w = some b)
    (h : v.compare? w = some o) (ho : o = .eq ↔ a = b) :
    v.compare? w = some .eq ↔
      (JoinKey.ofScalar? v).isSome ∧ JoinKey.ofScalar? w = JoinKey.ofScalar? v := by
  rw [h, ha, hb, Option.some_inj, Option.some_inj, ho, eq_comm]
  simp

theorem compare?_null_left (v : Scalar) : null.compare? v = none := rfl

theorem compare?_null_right (v : Scalar) : v.compare? null = none := by
  cases v <;> rfl

theorem compare?_of_numbers {v w : Scalar} (hv : KeyKind.number.has v) (hw : KeyKind.number.has w)
    (hv0 : v ≠ null) (hw0 : w ≠ null) :
    ∃ c d, JoinKey.ofScalar? v = some (.ofDecimal c) ∧ JoinKey.ofScalar? w = some (.ofDecimal d) ∧
      v.compare? w = some (c.compareWith d) := by
  have hcell {v : Scalar} (hv : KeyKind.number.has v) (hv0 : v ≠ null) :
      (∃ n, v = integer n) ∨ ∃ d, v = decimal d := by
    cases v with
    | null => exact (hv0 rfl).elim
    | integer n => exact .inl ⟨n, rfl⟩
    | decimal d => exact .inr ⟨d, rfl⟩
    | _ => cases hv
  rcases hcell hv hv0 with ⟨m, rfl⟩ | ⟨c, rfl⟩ <;>
    rcases hcell hw hw0 with ⟨n, rfl⟩ | ⟨d, rfl⟩ <;>
    exact ⟨_, _, rfl, rfl, rfl⟩

/-- Two dates are compared as dates, all others as moments. -/
theorem compare?_of_moments {v w : Scalar} (hv : KeyKind.moment.has v) (hw : KeyKind.moment.has w)
    (hv0 : v ≠ null) (hw0 : w ≠ null) :
    ∃ t u o, JoinKey.ofScalar? v = some (.ofTimestamp t) ∧
      JoinKey.ofScalar? w = some (.ofTimestamp u) ∧ v.compare? w = some o ∧ (o = .eq ↔ t = u) := by
  have hcell {v : Scalar} (hv : KeyKind.moment.has v) (hv0 : v ≠ null) :
      (∃ d, v = date d) ∨ ∃ t, v = timestamp t := by
    cases v with
    | null => exact (hv0 rfl).elim
    | date d => exact .inl ⟨d, rfl⟩
    | timestamp t => exact .inr ⟨t, rfl⟩
    | _ => cases hv
  rcases hcell hv hv0 with ⟨d, rfl⟩ | ⟨t, rfl⟩ <;> rcases hcell hw hw0 with ⟨e, rfl⟩ | ⟨u, rfl⟩
  · refine ⟨_, _, _, rfl, rfl, rfl, ?_⟩
    rw [Date.compare_eq_iff, Date.midnight_injective]
  · exact ⟨_, _, _, rfl, rfl, rfl, Timestamp.compare_eq_iff _ _⟩
  · exact ⟨_, _, _, rfl, rfl, rfl, Timestamp.compare_eq_iff _ _⟩
  · exact ⟨_, _, _, rfl, rfl, rfl, Timestamp.compare_eq_iff _ _⟩

/-- Cells of one kind compare as equal exactly where both have a key and the keys are the same. -/
theorem compare?_eq_iff {k : KeyKind} {v w : Scalar} (hv : k.has v) (hw : k.has w) :
    v.compare? w = some .eq ↔
      (JoinKey.ofScalar? v).isSome ∧ JoinKey.ofScalar? w = JoinKey.ofScalar? v := by
  by_cases hv0 : v = null
  · rw [hv0]
    simp [compare?_null_left, JoinKey.ofScalar?]
  by_cases hw0 : w = null
  · rw [hw0, compare?_null_right]
    refine ⟨fun h => (by cases h), fun ⟨hsome, heq⟩ => ?_⟩
    rw [← heq] at hsome
    cases hsome
  cases k with
  | number =>
    obtain ⟨c, d, hc, hd, h⟩ := compare?_of_numbers hv hw hv0 hw0
    exact compare?_iff_of_keys hc hd h (JoinKey.ofDecimal_eq_iff c d).symm
  | moment =>
    obtain ⟨t, u, o, ht, hu, h, ho⟩ := compare?_of_moments hv hw hv0 hw0
    exact compare?_iff_of_keys ht hu h (ho.trans (JoinKey.ofTimestamp_eq_iff t u).symm)
  | text =>
    have hcell {v : Scalar} (hv : KeyKind.text.has v) (hv0 : v ≠ null) : ∃ s, v = text s := by
      cases v <;> simp_all [KeyKind.has]
    obtain ⟨s, rfl⟩ := hcell hv hv0
    obtain ⟨t, rfl⟩ := hcell hw hw0
    refine compare?_iff_of_keys rfl rfl rfl ?_
    rw [Std.LawfulEqCmp.compare_eq_iff_eq, JoinKey.text.injEq]
  | boolean =>
    have hcell {v : Scalar} (hv : KeyKind.boolean.has v) (hv0 : v ≠ null) :
        ∃ p, v = boolean p := by
      cases v <;> simp_all [KeyKind.has]
    obtain ⟨p, rfl⟩ := hcell hv hv0
    obtain ⟨q, rfl⟩ := hcell hw hw0
    refine compare?_iff_of_keys rfl rfl rfl ?_
    rw [compare_eq_iff_eq, JoinKey.boolean.injEq]

theorem test?_eq_iff (v w : Scalar) :
    v.test? .eq (.value w) = some true ↔ v.compare? w = some .eq := by
  cases hv : v.isNull with
  | true =>
    cases v with
    | null => simp [test?, compare?_null_left, hv]
    | _ => cases hv
  | false =>
    simp only [test?, hv, Bool.false_eq_true, if_false, Option.bind_eq_some_iff, answers?,
      Option.some_inj, beq_iff_eq, exists_eq_right]

end Scalar

end TablePipeline
