/-!
# Quotients rounded to the nearest whole number

Main statement: the rounded quotient is at most half a unit away. It keeps to whole bounds on either
side, and at an even one a half is rounded up to it.
-/

set_option autoImplicit false

namespace TablePipeline

/-- Where a quotient goes that lies in the middle of two whole numbers. -/
inductive Tie
  | toEven
  | away
  deriving DecidableEq

def roundDiv (tie : Tie) (n d : Nat) : Nat :=
  let q := n / d
  let twice := 2 * (n % d)
  if twice < d then q
  else if d < twice then q + 1
  else match tie with
    | .toEven => if q % 2 = 0 then q else q + 1
    | .away => q + 1

theorem roundDiv_eq_or (tie : Tie) (n d : Nat) :
    roundDiv tie n d = n / d ∨ roundDiv tie n d = n / d + 1 := by
  unfold roundDiv
  cases tie <;> simp only <;> (repeat' split) <;> simp

theorem two_mul_roundDiv_le (tie : Tie) (n d : Nat) : 2 * (roundDiv tie n d * d) ≤ 2 * n + d := by
  have h := Nat.div_add_mod n d
  have hc : n / d * d = d * (n / d) := Nat.mul_comm _ _
  have hs : (n / d + 1) * d = n / d * d + d := Nat.succ_mul _ _
  unfold roundDiv
  cases tie <;> simp only <;> (repeat' split) <;> grind

theorem le_two_mul_roundDiv (tie : Tie) (n d : Nat) (h : 0 < d) :
    2 * n ≤ 2 * (roundDiv tie n d * d) + d := by
  have hn := Nat.div_add_mod n d
  have hm := Nat.mod_lt n h
  have hc : n / d * d = d * (n / d) := Nat.mul_comm _ _
  have hs : (n / d + 1) * d = n / d * d + d := Nat.succ_mul _ _
  unfold roundDiv
  cases tie <;> simp only <;> (repeat' split) <;> grind

variable {tie : Tie} {n d k : Nat}

theorem roundDiv_away_lt (n : Nat) (hd : 0 < d) : 2 * n < 2 * (roundDiv .away n d * d) + d := by
  have hdiv := Nat.div_add_mod n d
  have hmod := Nat.mod_lt n hd
  have hcomm : n / d * d = d * (n / d) := Nat.mul_comm _ _
  have hsucc : (n / d + 1) * d = n / d * d + d := Nat.succ_mul _ _
  unfold roundDiv
  dsimp only
  split
  · omega
  · split <;> omega

theorem roundDiv_le (hd : 0 < d) (h : n ≤ k * d) : roundDiv tie n d ≤ k := by
  have hround := two_mul_roundDiv_le tie n d
  refine Nat.le_of_not_lt fun hlt => ?_
  have hmul : (k + 1) * d ≤ roundDiv tie n d * d := Nat.mul_le_mul_right d (by omega)
  rw [Nat.succ_mul] at hmul
  omega

theorem le_roundDiv (hd : 0 < d) (h : k * d ≤ n) : k ≤ roundDiv tie n d := by
  have hround := le_two_mul_roundDiv tie n d hd
  refine Nat.le_of_not_lt fun hlt => ?_
  have hmul : (roundDiv tie n d + 1) * d ≤ k * d := Nat.mul_le_mul_right d (by omega)
  rw [Nat.succ_mul] at hmul
  omega

theorem roundDiv_mul (hd : 0 < d) : roundDiv tie (k * d) d = k :=
  Nat.le_antisymm (roundDiv_le hd (Nat.le_refl _)) (le_roundDiv hd (Nat.le_refl _))

theorem roundDiv_one (tie : Tie) (n : Nat) : roundDiv tie n 1 = n := by
  have h : roundDiv tie (n * 1) 1 = n := roundDiv_mul Nat.one_pos
  rwa [Nat.mul_one] at h

/-- An even number is reached from half a unit below it on: the quotient there is odd, so it is not
kept. -/
theorem even_le_roundDiv_iff (hd : 0 < d) (hk : 0 < k) (heven : k % 2 = 0) :
    k ≤ roundDiv .toEven n d ↔ (2 * k - 1) * d ≤ 2 * n := by
  have hdiv := Nat.div_add_mod n d
  have hmod := Nat.mod_lt n hd
  have hcomm : n / d * d = d * (n / d) := Nat.mul_comm _ _
  have hsides : (2 * k - 1) * d + d = 2 * (k * d) := by
    rw [← Nat.succ_mul, ← Nat.mul_assoc]
    congr 1
    omega
  have hround := two_mul_roundDiv_le .toEven n d
  constructor
  · intro h
    have hmul : k * d ≤ roundDiv .toEven n d * d := Nat.mul_le_mul_right d h
    omega
  · intro h
    refine Nat.le_of_not_lt fun hlt => ?_
    have hsucc : (n / d + 1) * d = n / d * d + d := Nat.succ_mul _ _
    have hquotient : n / d + 1 = k := by
      refine Decidable.byContradiction fun hne => ?_
      have hmul : (n / d + 1 + 1) * d ≤ k * d := by
        apply Nat.mul_le_mul_right
        rcases roundDiv_eq_or .toEven n d with hdown | hup <;> omega
      rw [Nat.succ_mul] at hmul
      omega
    subst hquotient
    apply Nat.not_le.mpr hlt
    unfold roundDiv
    dsimp only
    rw [if_neg (by omega)]
    split
    · exact Nat.le_refl _
    · exact Nat.le_of_eq (if_neg (by omega)).symm

end TablePipeline
