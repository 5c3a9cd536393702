import Mathlib.Data.List.Basic
import TablePipeline.Rule.Arithmetic

/-!
# Arithmetic on whole numbers

Sums, differences and products of whole numbers are exact, or they end at the first step whose
result has no room in 64 bits, even if later operands would lead back into the range. A quotient of
whole numbers is a decimal, which each further divisor makes no greater, so it always has room.
-/

set_option autoImplicit false

namespace TablePipeline

open Sql (ArithmeticOp)

attribute [local instance (high)] instPowNat

namespace Integer

def Fits (n : Int) : Prop := -2 ^ (63 : Nat) ≤ n ∧ n < 2 ^ (63 : Nat)

instance : DecidablePred Fits := fun _ => inferInstanceAs (Decidable (_ ∧ _))

theorem fits_toInt (n : Int64) : Fits n.toInt := ⟨n.le_toInt, n.toInt_lt⟩

theorem fits_of_fit? {n : Int} {k : Int64} (h : fit? n = some k) : Fits n :=
  toInt_of_fit? h ▸ fits_toInt k

theorem not_fits_of_fit? {n : Int} (h : fit? n = none) : ¬ Fits n := by
  rintro ⟨hlow, hhigh⟩
  rcases (fit?_eq_none_iff n).mp h with hbelow | habove
  · exact absurd hlow (Int.not_le.mpr hbelow)
  · exact absurd hhigh (Int.not_lt.mpr habove)

end Integer

namespace Arithmetic

open Integer (Fits fit?)

def wholeOp? : ArithmeticOp → Option (Int → Int → Int)
  | .add => some (· + ·)
  | .subtract => some (· - ·)
  | .multiply => some (· * ·)
  | .divide => none

/-- From `n` on with the operands `ms`, the first result without room is that of `a` and `b`. -/
def FirstExceeds (f : Int → Int → Int) (n : Int) (ms : List Int) (a b : Int) : Prop :=
  ∃ before after, ms = before ++ b :: after ∧ (∀ p ∈ before.scanl f n, Fits p) ∧
    before.foldl f n = a ∧ ¬ Fits (f a b)

section FirstExceeds
variable {f : Int → Int → Int} {n m a b : Int} {ms : List Int}

theorem start_mem_scanl : n ∈ ms.scanl f n := by
  cases ms <;> simp

theorem not_firstExceeds_nil : ¬ FirstExceeds f n [] a b := by
  rintro ⟨before, after, hms, _⟩
  exact List.append_ne_nil_of_right_ne_nil before (List.cons_ne_nil b after) hms.symm

theorem firstExceeds_cons_of_fits (hn : Fits n) (hm : Fits (f n m)) :
    FirstExceeds f n (m :: ms) a b ↔ FirstExceeds f (f n m) ms a b := by
  constructor
  · rintro ⟨_ | ⟨m', before⟩, after, hms, hfits, ha, hexceeds⟩
    · obtain ⟨rfl, -⟩ := List.cons.inj hms
      obtain rfl : n = a := ha
      exact absurd hm hexceeds
    · obtain ⟨rfl, rfl⟩ := List.cons.inj hms
      rw [List.scanl_cons] at hfits
      exact ⟨before, after, rfl, fun p hp => hfits p (List.mem_cons_of_mem _ hp), ha, hexceeds⟩
  · rintro ⟨before, after, rfl, hfits, ha, hexceeds⟩
    refine ⟨m :: before, after, rfl, ?_, ha, hexceeds⟩
    rw [List.scanl_cons]
    exact List.forall_mem_cons.mpr ⟨hn, hfits⟩

theorem firstExceeds_cons_of_not_fits (hn : Fits n) (hm : ¬ Fits (f n m)) :
    FirstExceeds f n (m :: ms) a b ↔ a = n ∧ b = m := by
  constructor
  · rintro ⟨_ | ⟨m', before⟩, after, hms, hfits, ha, hexceeds⟩
    · obtain ⟨rfl, -⟩ := List.cons.inj hms
      exact ⟨ha.symm, rfl⟩
    · obtain ⟨rfl, -⟩ := List.cons.inj hms
      rw [List.scanl_cons] at hfits
      exact absurd (hfits _ (List.mem_cons_of_mem _ start_mem_scanl)) hm
  · rintro ⟨rfl, rfl⟩
    refine ⟨[], ms, rfl, ?_, rfl, hm⟩
    rw [List.scanl_nil]
    exact List.forall_mem_singleton.mpr hn

end FirstExceeds

theorem fold_cons_integer (op : ArithmeticOp) (divideByZero : Scalar) (acc : Number) (m : Int64)
    (vs : List Scalar) :
    fold op divideByZero acc (.integer m :: vs) =
      match Number.step op acc (.integer m) with
      | .ok (some next) => fold op divideByZero next vs
      | .ok none => .ok divideByZero
      | .error fault => .error fault := by
  rw [fold]
  show (Number.step op acc (.integer m) >>= _) = _
  rcases Number.step op acc (.integer m) with fault | _ | next <;> rfl

/-! ### Sums, differences and products -/

section Exact
variable {op : ArithmeticOp} {f : Int → Int → Int} {divideByZero : Scalar} {a b c n : Int64}
  {vs : List Scalar}

theorem integerStep_of_whole (hf : wholeOp? op = some f) (a b : Int64) :
    Number.integerStep op a b = (fit? (f a.toInt b.toInt)).map .integer := by
  cases op with
  | divide => cases hf
  | _ =>
    cases hf
    rfl

theorem ne_divide_of_whole (hf : wholeOp? op = some f) : op ≠ .divide := by
  rintro rfl
  cases hf

theorem step_of_whole (hf : wholeOp? op = some f) (a b : Int64) :
    Number.step op (.integer a) (.integer b) =
      match fit? (f a.toInt b.toInt) with
      | some c => .ok (some (.integer c))
      | none => .error (.overflow (.integer a) op (.integer b)) := by
  have hcombine : Number.combine? op (.integer a) (.integer b) =
      (fit? (f a.toInt b.toInt)).map .integer := integerStep_of_whole hf a b
  rw [Number.step, if_neg fun h => ne_divide_of_whole hf h.1, hcombine]
  cases fit? (f a.toInt b.toInt) <;> rfl

theorem fold_of_fit (hf : wholeOp? op = some f) (hc : fit? (f a.toInt b.toInt) = some c) :
    fold op divideByZero (.integer a) (.integer b :: vs) =
      fold op divideByZero (.integer c) vs := by
  rw [fold_cons_integer, step_of_whole hf, hc]

theorem fold_of_no_fit (hf : wholeOp? op = some f) (hnone : fit? (f a.toInt b.toInt) = none) :
    fold op divideByZero (.integer a) (.integer b :: vs) =
      .error (.overflow (.integer a) op (.integer b)) := by
  rw [fold_cons_integer, step_of_whole hf, hnone]

/-- The value is exact, and there is one just where all results on the way have room. -/
theorem fold_eq_ok_iff_of_whole (hf : wholeOp? op = some f) (n : Int64) (ns : List Int64)
    (r : Scalar) :
    fold op divideByZero (.integer n) (ns.map .integer) = .ok r ↔
      (∀ p ∈ (ns.map Int64.toInt).scanl f n.toInt, Fits p) ∧
        ∃ k : Int64, r = .integer k ∧ k.toInt = (ns.map Int64.toInt).foldl f n.toInt := by
  induction ns generalizing n with
  | nil =>
    rw [List.map_nil, List.map_nil, List.scanl_nil, List.foldl_nil, fold]
    constructor
    · intro h
      exact ⟨List.forall_mem_singleton.mpr (Integer.fits_toInt n), n, (Except.ok.inj h).symm, rfl⟩
    · rintro ⟨_, k, rfl, hk⟩
      rw [Int64.toInt_inj.mp hk]
      rfl
  | cons b bs ih =>
    rw [List.map_cons, List.map_cons, List.scanl_cons, List.foldl_cons, List.forall_mem_cons]
    cases hfit : fit? (f n.toInt b.toInt) with
    | some c =>
      rw [fold_of_fit hf hfit, ih c, Integer.toInt_of_fit? hfit]
      exact and_congr_left fun _ => (and_iff_right (Integer.fits_toInt n)).symm
    | none =>
      rw [fold_of_no_fit hf hfit]
      constructor
      · intro h
        cases h
      · rintro ⟨⟨_, hrest⟩, _⟩
        exact absurd (hrest _ start_mem_scanl) (Integer.not_fits_of_fit? hfit)

theorem fold_eq_error_iff_of_whole (hf : wholeOp? op = some f) (n : Int64) (ns : List Int64)
    (fault : RowFault) :
    fold op divideByZero (.integer n) (ns.map .integer) = .error fault ↔
      ∃ a b : Int64, fault = .overflow (.integer a) op (.integer b) ∧
        FirstExceeds f n.toInt (ns.map Int64.toInt) a.toInt b.toInt := by
  induction ns generalizing n with
  | nil =>
    constructor
    · intro h
      cases h
    · rintro ⟨_, _, _, hexceeds⟩
      exact (not_firstExceeds_nil hexceeds).elim
  | cons m ms ih =>
    rw [List.map_cons, List.map_cons]
    cases hfit : fit? (f n.toInt m.toInt) with
    | some c =>
      rw [fold_of_fit hf hfit, ih c, Integer.toInt_of_fit? hfit]
      refine exists_congr fun a => exists_congr fun b => and_congr_right fun _ => ?_
      exact (firstExceeds_cons_of_fits (Integer.fits_toInt n) (Integer.fits_of_fit? hfit)).symm
    | none =>
      rw [fold_of_no_fit hf hfit]
      have hfirst (a b : Int64) : FirstExceeds f n.toInt (m.toInt :: ms.map Int64.toInt)
          a.toInt b.toInt ↔ a = n ∧ b = m := by
        rw [firstExceeds_cons_of_not_fits (Integer.fits_toInt n) (Integer.not_fits_of_fit? hfit),
          Int64.toInt_inj, Int64.toInt_inj]
      constructor
      · intro h
        exact ⟨n, m, (Except.error.inj h).symm, (hfirst n m).mpr ⟨rfl, rfl⟩⟩
      · rintro ⟨a, b, rfl, hexceeds⟩
        obtain ⟨rfl, rfl⟩ := (hfirst a b).mp hexceeds
        rfl

end Exact

end Arithmetic

/-! ### Quotients -/

namespace Decimal

/-- A quotient by a whole number is no greater than the dividend. It has room at scale 0, and so at
some scale. -/
theorem div?_ofInt64 (d : Decimal) {m : Int64} (hm : m ≠ 0) : ∃ q, d.div? (ofInt64 m) = some q := by
  have hzero : ¬ (ofInt64 m).isZero = true := by
    rw [isZero_ofInt64, beq_iff_eq]
    exact hm
  have hcoefficient : 0 < (ofInt64 m).coefficient := by
    rw [isZero, beq_iff_eq] at hzero
    exact Nat.pos_of_ne_zero hzero
  unfold div?
  dsimp only
  rw [if_neg hzero]
  split
  · exact ⟨zero, rfl⟩
  · split
    · have hquotient : d.coefficient / (ofInt64 m).coefficient < 2 ^ (96 : Nat) :=
        Nat.lt_of_le_of_lt (Nat.div_le_self _ _) d.coefficient_lt
      have hscale : d.scale - (ofInt64 m).scale ≤ 28 :=
        Nat.le_trans (Nat.sub_le _ _) d.scale_le
      have hwhole : (ofInt64 m).scale ≤ d.scale := Nat.zero_le d.scale
      rw [if_pos hwhole, ofParts?, dif_pos ⟨hquotient, hscale⟩]
      exact ⟨_, rfl⟩
    · have hdivisor : 0 < (ofInt64 m).coefficient * 10 ^ d.scale :=
        Nat.mul_pos hcoefficient (Nat.pow_pos (by decide))
      have hfit : roundDiv .toEven (d.coefficient * 10 ^ (ofInt64 m).scale * 10 ^ 0)
          ((ofInt64 m).coefficient * 10 ^ d.scale) < 2 ^ (96 : Nat) := by
        refine Nat.lt_of_le_of_lt (roundDiv_le hdivisor ?_) d.coefficient_lt
        show d.coefficient * 10 ^ 0 * 10 ^ 0 ≤ _
        rw [Nat.pow_zero, Nat.mul_one, Nat.mul_one]
        exact Nat.le_mul_of_pos_right _ hdivisor
      obtain ⟨q, hq, _⟩ := fitFrom_eq (d.negative != (ofInt64 m).negative) _ _ (Nat.le_refl 28)
        (Nat.zero_le 28) hfit
      exact ⟨q.shortened, by rw [hq]; rfl⟩

end Decimal

namespace Arithmetic

variable {divideByZero : Scalar} {d q : Decimal} {acc : Number} {m : Int64} {ms : List Int64}
  {vs : List Scalar}

def quotient? (d : Decimal) (ms : List Int64) : Option Decimal :=
  ms.foldlM (fun d m => d.div? (.ofInt64 m)) d

theorem combine?_divide (hacc : acc.toDecimal? = some d) (hfloat : acc.isFloat = false)
    (m : Int64) :
    Number.combine? .divide acc (.integer m) = (d.div? (.ofInt64 m)).map .decimal := by
  cases acc with
  | float x => cases hfloat
  | _ =>
    cases hacc
    rfl

theorem fold_of_zero : fold .divide divideByZero acc (.integer 0 :: vs) = .ok divideByZero := rfl

theorem fold_of_quotient (hacc : acc.toDecimal? = some d) (hfloat : acc.isFloat = false)
    (hm : m ≠ 0) (hq : d.div? (.ofInt64 m) = some q) :
    fold .divide divideByZero acc (.integer m :: vs) =
      fold .divide divideByZero (.decimal q) vs := by
  have hzero : ¬ ((.divide : ArithmeticOp) = .divide ∧ (Number.integer m).isZero = true) := by
    rintro ⟨_, h⟩
    exact hm (beq_iff_eq.mp h)
  have hstep : Number.step .divide acc (.integer m) = .ok (some (.decimal q)) := by
    rw [Number.step, if_neg hzero, combine?_divide hacc hfloat, hq]
    rfl
  rw [fold_cons_integer, hstep]

/-- Where no operand is zero, no quotient on the way fails. -/
theorem fold_divide (d : Decimal) (divideByZero : Scalar) (hms : 0 ∉ ms) :
    ∃ q, quotient? d ms = some q ∧
      fold .divide divideByZero (.decimal d) (ms.map .integer) = .ok (.decimal q) := by
  induction ms generalizing d with
  | nil => exact ⟨d, rfl, rfl⟩
  | cons m ms ih =>
    obtain ⟨hm, hms⟩ := not_or.mp (mt List.mem_cons.mpr hms)
    obtain ⟨next, hnext⟩ := d.div?_ofInt64 (Ne.symm hm)
    obtain ⟨q, hq, hfold⟩ := ih next hms
    refine ⟨q, ?_, ?_⟩
    · rw [quotient?, List.foldlM_cons, hnext]
      exact hq
    · rw [List.map_cons, fold_of_quotient rfl rfl (Ne.symm hm) hnext]
      exact hfold

theorem fold_divide_of_zero (hacc : acc.toDecimal? = some d) (hfloat : acc.isFloat = false)
    (hms : 0 ∈ ms) :
    fold .divide divideByZero acc (ms.map .integer) = .ok divideByZero := by
  induction ms generalizing acc d with
  | nil => cases hms
  | cons m ms ih =>
    rw [List.map_cons]
    by_cases hm : m = 0
    · subst hm
      exact fold_of_zero
    · obtain ⟨next, hnext⟩ := d.div?_ofInt64 hm
      rw [fold_of_quotient hacc hfloat hm hnext]
      exact ih rfl rfl (List.mem_of_ne_of_mem (Ne.symm hm) hms)

/-! ### Operations on whole numbers -/

theorem evaluate_map_integer (op : ArithmeticOp) (n : Int64) (ns : List Int64)
    (divideByZero : Scalar) :
    evaluate op ((n :: ns).map .integer) divideByZero =
      fold op divideByZero (.integer n) (ns.map .integer) := by
  have hnull : ((n :: ns).map Scalar.integer).any Scalar.isNull = false := by
    rw [List.any_map, List.any_eq_false]
    intro m _
    exact Bool.false_ne_true
  unfold evaluate
  rw [hnull]
  rfl

/-- An operation on whole numbers other than division gives the exact result if each result on the
way has room, and otherwise the fault of the first step without room. A division gives the chosen
value if a divisor is zero, and otherwise a decimal: none of its steps fails. -/
theorem evaluate_integers (op : ArithmeticOp) (n : Int64) (ns : List Int64)
    (divideByZero : Scalar) :
    (∀ f, wholeOp? op = some f →
      (∀ r, evaluate op ((n :: ns).map .integer) divideByZero = .ok r ↔
        (∀ p ∈ (ns.map Int64.toInt).scanl f n.toInt, Integer.Fits p) ∧
          ∃ k : Int64, r = .integer k ∧ k.toInt = (ns.map Int64.toInt).foldl f n.toInt) ∧
      ∀ fault, evaluate op ((n :: ns).map .integer) divideByZero = .error fault ↔
        ∃ a b : Int64, fault = .overflow (.integer a) op (.integer b) ∧
          FirstExceeds f n.toInt (ns.map Int64.toInt) a.toInt b.toInt) ∧
    (op = .divide → ns ≠ [] →
      if 0 ∈ ns then evaluate op ((n :: ns).map .integer) divideByZero = .ok divideByZero
      else ∃ q, quotient? (.ofInt64 n) ns = some q ∧
        evaluate op ((n :: ns).map .integer) divideByZero = .ok (.decimal q)) := by
  rw [evaluate_map_integer]
  constructor
  · intro f hf
    exact ⟨fold_eq_ok_iff_of_whole hf n ns, fold_eq_error_iff_of_whole hf n ns⟩
  · rintro rfl hns
    split
    · rename_i hzero
      exact fold_divide_of_zero rfl rfl hzero
    · rename_i hnonzero
      obtain ⟨m, ms, rfl⟩ := List.exists_cons_of_ne_nil hns
      obtain ⟨hm, hms⟩ := not_or.mp (mt List.mem_cons.mpr hnonzero)
      obtain ⟨d, hd⟩ := (Decimal.ofInt64 n).div?_ofInt64 (Ne.symm hm)
      obtain ⟨q, hq, hfold⟩ := fold_divide d divideByZero hms
      refine ⟨q, ?_, ?_⟩
      · rw [quotient?, List.foldlM_cons, hd]
        exact hq
      · rw [List.map_cons, fold_of_quotient rfl rfl (Ne.symm hm) hd]
        exact hfold

/-- A product that leaves the range on the way fails though it is 0 in the end, and a quotient by 0
is the chosen value. -/
theorem evaluate_integers_overshoot :
    evaluate .multiply ([3037000500, 3037000500, 0].map .integer) .null =
        .error (.overflow (.integer 3037000500) .multiply (.integer 3037000500)) ∧
      evaluate .divide ([6, 4, 0].map .integer) (.integer (-1)) = .ok (.integer (-1)) := by
  constructor
  · refine ((evaluate_integers .multiply 3037000500 [3037000500, 0] .null).1 _ rfl).2 _ |>.mpr
      ⟨3037000500, 3037000500, rfl, [], [0], rfl, ?_, rfl, ?_⟩
    all_goals decide
  · have hquotient := (evaluate_integers .divide 6 [4, 0] (.integer (-1))).2 rfl (by decide)
    rwa [if_pos (by decide)] at hquotient

end Arithmetic

end TablePipeline
