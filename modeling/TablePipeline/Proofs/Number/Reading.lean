import Mathlib.Tactic.Common
import TablePipeline.Number.Decimal.Reading
import TablePipeline.Proofs.Outcome

/-!
# Written numbers are read back

Digits are read one at a time, each behind the number of those in front. As long as that number
fits, a whole number and a decimal with all its places are read as they were written, and a whole
number is the same number when it is read as a decimal.
-/

set_option autoImplicit false

namespace TablePipeline

attribute [local instance (high)] instPowNat

namespace Digits

def extend (n : Nat) (cs : List Char) : Nat := cs.foldl (fun n c => 10 * n + ofChar c) n

theorem extend_cons (n : Nat) (c : Char) (cs : List Char) :
    extend n (c :: cs) = extend (10 * n + ofChar c) cs := by
  rw [extend, List.foldl_cons, extend]

theorem le_extend (n : Nat) (cs : List Char) : n ≤ extend n cs := by
  induction cs generalizing n with
  | nil => exact Nat.le_refl n
  | cons c cs ih =>
    have hrest := ih (10 * n + ofChar c)
    rw [extend_cons]
    omega

theorem extend_eq (n : Nat) (cs : List Char) : extend n cs = n * 10 ^ cs.length + value cs := by
  induction cs generalizing n with
  | nil => simp [extend, value]
  | cons c cs ih =>
    have hvalue : value (c :: cs) = extend (10 * 0 + ofChar c) cs := rfl
    rw [hvalue, extend_cons, ih, ih, List.length_cons, Nat.pow_succ, Nat.add_mul, Nat.add_mul,
      Nat.mul_zero, Nat.zero_mul, Nat.mul_comm 10 n, Nat.mul_assoc, Nat.mul_comm 10]
    omega

theorem ne_of_isDigit {c d : Char} (hc : c.isDigit = true) (hd : d.isDigit = false) : c ≠ d := by
  rintro rfl
  rw [hc] at hd
  cases hd

theorem write_cons (n : Nat) : ∃ c cs, write n = c :: cs ∧ c.isDigit = true := by
  have hmem : ∀ c ∈ write n, c.isDigit = true := fun _ hc => isDigit_of_mem_write hc
  cases hn : write n with
  | nil => exact absurd hn (write_ne_nil n)
  | cons c cs =>
    rw [hn] at hmem
    exact ⟨c, cs, rfl, hmem c List.mem_cons_self⟩

end Digits

/-! ### Whole numbers -/

namespace Integer

theorem readDigits_of_digits {most : Nat} (overflow : ReadError) {n : Nat} {cs : List Char}
    (hcs : ∀ c ∈ cs, c.isDigit = true) (hmost : Digits.extend n cs ≤ most) :
    readDigits most overflow n cs = .ok (Digits.extend n cs) := by
  induction cs generalizing n with
  | nil => rfl
  | cons c cs ih =>
    rw [Digits.extend_cons] at hmost ⊢
    have hle := Digits.le_extend (10 * n + Digits.ofChar c) cs
    rw [readDigits, hcs c List.mem_cons_self, Bool.not_true, if_neg Bool.false_ne_true,
      if_neg (by omega), ih (fun d hd => hcs d (List.mem_cons_of_mem c hd)) hmost]

theorem digits_of_readDigits {most : Nat} {overflow : ReadError} {n m : Nat} {cs : List Char}
    (h : readDigits most overflow n cs = .ok m) (hn : n ≤ most) :
    (∀ c ∈ cs, c.isDigit = true) ∧ m = Digits.extend n cs ∧ m ≤ most := by
  induction cs generalizing n with
  | nil =>
    obtain rfl := Except.ok.inj h
    exact ⟨by simp, rfl, hn⟩
  | cons c cs ih =>
    rw [readDigits] at h
    split at h
    · cases h
    · rename_i hdigit
      split at h
      · cases h
      · rename_i hmost
        obtain ⟨hcs, hm, hle⟩ := ih h (by omega)
        refine ⟨?_, hm, hle⟩
        intro d hd
        rcases List.mem_cons.mp hd with rfl | hd
        · simpa using hdigit
        · exact hcs d hd

theorem readSigned_of_digit {c : Char} (hc : c.isDigit = true) (cs : List Char) :
    readSigned (String.ofList (c :: cs)) =
      (readDigits (2 ^ (63 : Nat) - 1) .tooLarge 0 (c :: cs)).map Int64.ofNat := by
  unfold readSigned
  rw [String.toList_ofList]
  split
  · rename_i h
    cases h
  · rename_i h
    exact absurd (List.cons.inj h).1 (Digits.ne_of_isDigit hc (by decide))
  · rename_i h
    exact absurd (List.cons.inj h).1 (Digits.ne_of_isDigit hc (by decide))
  · rename_i h
    exact absurd (List.cons.inj h).1 (Digits.ne_of_isDigit hc (by decide))
  · rename_i h
    exact absurd (List.cons.inj h).1 (Digits.ne_of_isDigit hc (by decide))
  · rfl

theorem readSigned_minus {cs : List Char} (hcs : cs ≠ []) :
    readSigned (String.ofList ('-' :: cs)) =
      (readDigits (2 ^ (63 : Nat)) .tooSmall 0 cs).map fun n => Int64.ofInt (-n) := by
  cases cs with
  | nil => exact absurd rfl hcs
  | cons c cs =>
    unfold readSigned
    rw [String.toList_ofList]
    rfl

theorem readDigits_write {most : Nat} (overflow : ReadError) {n : Nat} (h : n ≤ most) :
    readDigits most overflow 0 (Digits.write n) = .ok n := by
  have hvalue : Digits.extend 0 (Digits.write n) = n := Digits.value_write n
  rw [readDigits_of_digits overflow (fun _ hc => Digits.isDigit_of_mem_write hc) (by omega),
    hvalue]

/-- A whole number is read back as it is displayed. -/
theorem readSigned_signedText (n : Int64) : readSigned (Digits.signedText n.toInt) = .ok n := by
  have hlow := n.le_toInt
  have hhigh := n.toInt_lt
  unfold Digits.signedText
  cases hn : n.toInt with
  | ofNat k =>
    have hk : (k : Int) = n.toInt := hn.symm
    obtain ⟨c, cs, hwrite, hc⟩ := Digits.write_cons k
    rw [Digits.signed, hwrite, readSigned_of_digit hc, ← hwrite,
      readDigits_write .tooLarge (by omega)]
    show Except.ok (Int64.ofNat k) = _
    rw [← Int64.ofInt_eq_ofNat, hk, Int64.ofInt_toInt]
  | negSucc k =>
    have hk : -((k + 1 : Nat) : Int) = n.toInt := hn.symm
    rw [Digits.signed, readSigned_minus (Digits.write_ne_nil _),
      readDigits_write .tooSmall (by omega)]
    show Except.ok (Int64.ofInt (-((k + 1 : Nat) : Int))) = _
    rw [hk, Int64.ofInt_toInt]

end Integer

/-! ### Decimals -/

namespace Decimal

/-- Digits that fit are all taken, and each one behind the point is a place. -/
theorem foldlM_step_digits {n s : Nat} {pointSeen digitSeen : Bool} {cs : List Char}
    (hcs : ∀ c ∈ cs, c.isDigit = true) (hn : Digits.extend n cs < 2 ^ (96 : Nat))
    (hs : pointSeen = true → s + cs.length ≤ 28) :
    cs.foldlM Reading.step ⟨n, s, pointSeen, digitSeen, none⟩ =
      some ⟨Digits.extend n cs, if pointSeen then s + cs.length else s, pointSeen,
        digitSeen || !cs.isEmpty, none⟩ := by
  induction cs generalizing n s digitSeen with
  | nil => simp [Digits.extend]
  | cons c cs ih =>
    have hle := Digits.le_extend (10 * n + Digits.ofChar c) cs
    rw [Digits.extend_cons] at hn ⊢
    have hstep : Reading.step ⟨n, s, pointSeen, digitSeen, none⟩ c =
        some ⟨10 * n + Digits.ofChar c, if pointSeen then s + 1 else s, pointSeen, true, none⟩ := by
      have hscale : pointSeen = true → s < 28 := by
        intro hpoint
        have hlength := hs hpoint
        rw [List.length_cons] at hlength
        omega
      rw [Reading.step, if_pos (hcs c List.mem_cons_self), Option.isSome_none,
        if_neg Bool.false_ne_true]
      exact if_pos ⟨Nat.lt_of_le_of_lt hle hn, hscale⟩
    rw [List.foldlM_cons, hstep, Option.bind_eq_bind, Option.bind_some,
      ih (fun d hd => hcs d (List.mem_cons_of_mem c hd)) hn]
    · cases pointSeen with
      | true =>
        simp
        omega
      | false => simp
    · intro hpoint
      have hlength := hs hpoint
      rw [List.length_cons] at hlength
      rw [if_pos hpoint]
      omega

theorem readPlain?_of_digit {c : Char} (hc : c.isDigit = true) (cs : List Char) :
    readPlain? (String.ofList (c :: cs)) = readDigits false (c :: cs) := by
  unfold readPlain?
  rw [String.toList_ofList]
  split
  · rename_i h
    exact absurd (List.cons.inj h).1 (Digits.ne_of_isDigit hc (by decide))
  · rename_i h
    exact absurd (List.cons.inj h).1 (Digits.ne_of_isDigit hc (by decide))
  · rfl

theorem readPlain?_minus (cs : List Char) :
    readPlain? (String.ofList ('-' :: cs)) = readDigits true cs := by
  unfold readPlain?
  rw [String.toList_ofList]
  rfl

/-- What was read without a digit too many. A sign of zero is not kept. -/
theorem Reading.finish_eq (negative : Bool) {c s : Nat} (pointSeen : Bool)
    (hc : c < 2 ^ (96 : Nat)) (hs : s ≤ 28) :
    Reading.finish negative ⟨c, s, pointSeen, true, none⟩ =
      some ⟨negative && c != 0, c, s, hc, hs⟩ := by
  simp [finish, ofParts?, hc, hs]

theorem readDigits_whole (negative : Bool) {cs : List Char} (hcs : ∀ c ∈ cs, c.isDigit = true)
    (hne : cs ≠ []) (h : Digits.value cs < 2 ^ (96 : Nat)) :
    readDigits negative cs =
      some ⟨negative && Digits.value cs != 0, Digits.value cs, 0, h, Nat.zero_le 28⟩ := by
  have hsteps : cs.foldlM Reading.step ⟨0, 0, false, false, none⟩ =
      some ⟨Digits.value cs, 0, false, true, none⟩ := by
    rw [foldlM_step_digits hcs h (by simp)]
    cases cs with
    | nil => exact absurd rfl hne
    | cons c cs => rfl
  rw [readDigits, hsteps]
  exact Reading.finish_eq negative false h _

/-- The digits around a point are read as they were written, with all places. -/
theorem readDigits_digits (negative : Bool) {c s : Nat} (hc : c < 2 ^ (96 : Nat)) (hs : s ≤ 28) :
    readDigits negative (digits c s) = some ⟨negative && c != 0, c, s, hc, hs⟩ := by
  have hwrite {n : Nat} : ∀ c ∈ Digits.write n, c.isDigit = true :=
    fun _ h => Digits.isDigit_of_mem_write h
  unfold digits
  split
  · rename_i hzero
    subst hzero
    have hvalue := Digits.value_write c
    rw [readDigits_whole negative hwrite (Digits.write_ne_nil c) (by rwa [hvalue])]
    simp only [hvalue]
  · have hpow : 0 < 10 ^ s := Nat.pow_pos (by decide)
    have hrest : c % 10 ^ s < 10 ^ s := Nat.mod_lt c hpow
    have hlength : (Digits.pad s (c % 10 ^ s)).length = s := Digits.length_pad (by omega) hrest
    have hfront : Digits.extend 0 (Digits.write (c / 10 ^ s)) = c / 10 ^ s := Digits.value_write _
    have hback : Digits.extend (c / 10 ^ s) (Digits.pad s (c % 10 ^ s)) = c := by
      rw [Digits.extend_eq, Digits.value_pad, hlength, Nat.mul_comm]
      exact Nat.div_add_mod c (10 ^ s)
    have hwhole : (Digits.write (c / 10 ^ s)).foldlM Reading.step ⟨0, 0, false, false, none⟩ =
        some ⟨c / 10 ^ s, 0, false, true, none⟩ := by
      have hle := Nat.div_le_self c (10 ^ s)
      obtain ⟨d, ds, hd, _⟩ := Digits.write_cons (c / 10 ^ s)
      rw [foldlM_step_digits hwrite (by omega) (by simp), hfront, hd]
      rfl
    have hplaces : (Digits.pad s (c % 10 ^ s)).foldlM Reading.step
        ⟨c / 10 ^ s, 0, true, true, none⟩ = some ⟨c, s, true, true, none⟩ := by
      rw [foldlM_step_digits (fun _ h => Digits.isDigit_of_mem_pad h) (by rwa [hback])
        (by omega), hback, hlength, if_pos rfl, Nat.zero_add, Bool.true_or]
    have hpoint : Reading.step ⟨c / 10 ^ s, 0, false, true, none⟩ '.' =
        some ⟨c / 10 ^ s, 0, true, true, none⟩ := rfl
    have hsteps : (Digits.write (c / 10 ^ s) ++ '.' :: Digits.pad s (c % 10 ^ s)).foldlM
        Reading.step ⟨0, 0, false, false, none⟩ = some ⟨c, s, true, true, none⟩ := by
      rw [List.foldlM_append, hwhole, Option.bind_eq_bind, Option.bind_some, List.foldlM_cons,
        hpoint]
      exact hplaces
    rw [readDigits, hsteps]
    exact Reading.finish_eq negative true hc hs

/-- A decimal is read back as it is written, unless it is zero with a sign. -/
theorem readPlain?_text (d : Decimal) (h : d.negative = true → d.coefficient ≠ 0) :
    readPlain? d.text = some d := by
  have hread := readDigits_digits d.negative d.coefficient_lt d.scale_le
  have hsign : (d.negative && d.coefficient != 0) = d.negative := by
    cases hn : d.negative with
    | true => simpa using h hn
    | false => rfl
  rw [hsign] at hread
  unfold text
  split
  · rename_i hn
    rw [List.singleton_append, readPlain?_minus, ← hread, hn]
  · rename_i hn
    have hdigit : ∃ c cs, digits d.coefficient d.scale = c :: cs ∧ c.isDigit = true := by
      unfold digits
      split
      · exact Digits.write_cons _
      · obtain ⟨c, cs, hwrite, hc⟩ := Digits.write_cons (d.coefficient / 10 ^ d.scale)
        rw [hwrite]
        exact ⟨c, _, rfl, hc⟩
    obtain ⟨c, cs, hcs, hc⟩ := hdigit
    rw [List.nil_append, hcs, readPlain?_of_digit hc, ← hcs, ← hread, Bool.eq_false_iff.mpr hn]

/-- Digits of a whole number, read as such and as a decimal. -/
theorem readDigits_of_integer {most : Nat} {overflow : Integer.ReadError} {cs : List Char} {n : Nat}
    (h : Integer.readDigits most overflow 0 cs = .ok n) (hne : cs ≠ [])
    (hmost : most ≤ 2 ^ (63 : Nat)) (negative : Bool) :
    n ≤ most ∧ ∃ d, readDigits negative cs = some d ∧ d.negative = (negative && n != 0) ∧
      d.coefficient = n ∧ d.scale = 0 := by
  obtain ⟨hcs, hn, hle⟩ := Integer.digits_of_readDigits h (Nat.zero_le most)
  have hvalue : n = Digits.value cs := hn
  subst hvalue
  exact ⟨hle, _, readDigits_whole negative hcs hne (by omega), rfl, rfl, rfl⟩

theorem eq_ofInt64 {d : Decimal} {n : Int64} (hscale : d.scale = 0)
    (hcoefficient : d.coefficient = n.toInt.natAbs)
    (hnegative : d.negative = decide (n.toInt < 0)) : d = ofInt64 n :=
  Decimal.ext hnegative hcoefficient hscale

theorem readDigits_plus {cs : List Char} (hne : cs ≠ []) {overflow : Integer.ReadError} {m : Nat}
    (h : Integer.readDigits (2 ^ (63 : Nat) - 1) overflow 0 cs = .ok m) :
    readDigits false cs = some (.ofInt64 (Int64.ofNat m)) := by
  obtain ⟨hle, d, hd, hnegative, hcoefficient, hscale⟩ :=
    readDigits_of_integer h hne (by decide) false
  have hint : (Int64.ofNat m).toInt = m := by
    rw [← Int64.ofInt_eq_ofNat, Int64.toInt_ofInt_of_le (by omega) (by omega)]
  rw [hd, eq_ofInt64 (n := Int64.ofNat m) hscale]
  · rw [hint]
    omega
  · rw [hint, hnegative]
    simp

theorem readDigits_minus {cs : List Char} (hne : cs ≠ []) {overflow : Integer.ReadError} {m : Nat}
    (h : Integer.readDigits (2 ^ (63 : Nat)) overflow 0 cs = .ok m) :
    readDigits true cs = some (.ofInt64 (Int64.ofInt (-m))) := by
  obtain ⟨hle, d, hd, hnegative, hcoefficient, hscale⟩ :=
    readDigits_of_integer h hne (Nat.le_refl _) true
  have hint : (Int64.ofInt (-m)).toInt = -m := Int64.toInt_ofInt_of_le (by omega) (by omega)
  rw [hd, eq_ofInt64 (n := Int64.ofInt (-m)) hscale]
  · rw [hint]
    omega
  · rw [hint, hnegative, Bool.eq_iff_iff]
    simp only [Bool.true_and, bne_iff_ne, decide_eq_true_eq]
    omega

/-- What is read as a whole number is the same number as a decimal. -/
theorem readPlain?_of_readSigned {s : String} {n : Int64} (h : Integer.readSigned s = .ok n) :
    readPlain? s = some (.ofInt64 n) := by
  unfold Integer.readSigned at h
  unfold readPlain?
  split at h
  · cases h
  · cases h
  · cases h
  · rename_i cs hne hs
    obtain ⟨k, hk, rfl⟩ := Outcome.map_eq_ok.mp h
    obtain ⟨m, hm, hmk⟩ := Outcome.bind_eq_ok.mp hk
    obtain rfl := Except.ok.inj hmk
    rw [hs]
    exact readDigits_minus hne hm
  · rename_i cs hne hs
    obtain ⟨m, hm, rfl⟩ := Outcome.map_eq_ok.mp h
    rw [hs]
    exact readDigits_plus hne hm
  · rename_i hnil _ _ hminus hplus
    obtain ⟨m, hm, rfl⟩ := Outcome.map_eq_ok.mp h
    split
    · rename_i hs
      exact (hminus _ hs).elim
    · rename_i hs
      exact (hplus _ hs).elim
    · exact readDigits_plus hnil hm

end Decimal

end TablePipeline
