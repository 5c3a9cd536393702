import TablePipeline.Proofs.Calendar.Dates
import TablePipeline.Proofs.Rule.Casting
import TablePipeline.Proofs.Rule.Rounding

/-!
# Casts that lose nothing

A cell that is cast to a type that accepts its own comes back as it was. For texts this says that
every kind of cell is read as it is displayed; only a decimal may have another form of its number.
-/

set_option autoImplicit false

namespace TablePipeline

attribute [local instance (high)] instPowNat

/-! ### Numbers -/

theorem Digits.isBlank_of_mem_signed {n : Int} {c : Char} (h : c ∈ signed n) :
    Text.isBlank c = false := by
  cases n with
  | ofNat n => exact Text.isBlank_of_isDigit (isDigit_of_mem_write h)
  | negSucc n =>
    exact Text.isBlank_of_mem_cons (by decide) (fun c hc => isDigit_of_mem_write hc) h

theorem readInteger?_signedText (n : Int64) :
    readInteger? (Digits.signedText n.toInt) = some n := by
  have htrim : Text.trim (Digits.signedText n.toInt) = Digits.signedText n.toInt :=
    Text.trim_of_nonblank fun _ => Digits.isBlank_of_mem_signed
  rw [readInteger?, htrim, Integer.readSigned_signedText]

namespace Decimal

theorem isBlank_of_mem_digits {coefficient scale : Nat} {c : Char}
    (h : c ∈ digits coefficient scale) : Text.isBlank c = false := by
  unfold digits at h
  split at h
  · exact Text.isBlank_of_isDigit (Digits.isDigit_of_mem_write h)
  · rcases List.mem_append.mp h with h | h
    · exact Text.isBlank_of_isDigit (Digits.isDigit_of_mem_write h)
    · exact Text.isBlank_of_mem_cons (by decide) (fun c hc => Digits.isDigit_of_mem_pad hc) h

theorem trim_text (d : Decimal) : Text.trim d.text = d.text := by
  apply Text.trim_of_nonblank
  intro c hc
  rcases List.mem_append.mp hc with hc | hc
  · split at hc
    · obtain rfl := List.mem_singleton.mp hc
      decide
    · cases hc
  · exact isBlank_of_mem_digits hc

theorem normalize_negative {d : Decimal} (h : d.normalize.negative = true) :
    d.normalize.coefficient ≠ 0 := by
  unfold normalize at h ⊢
  split at h
  · cases h
  · rename_i hne
    rw [if_neg hne]
    intro hzero
    have hvalue := stripZeros_value d.coefficient d.scale
    rw [show (stripZeros d.coefficient d.scale).1 = 0 from hzero, Nat.zero_mul] at hvalue
    have hpow : 0 < 10 ^ (stripZeros d.coefficient d.scale).2 := Nat.pow_pos (by decide)
    rcases Nat.mul_eq_zero.mp hvalue.symm with h | h
    · exact hne h
    · omega

theorem readDecimal?_normalize (d : Decimal) :
    readDecimal? d.normalize.text = some d.normalize := by
  rw [readDecimal?, trim_text, read?, readPlain?_text _ normalize_negative]
  rfl

end Decimal

namespace Scalar

variable {v : Scalar} {t target : ColumnType}

/-- The same cell, or another form of the same decimal. -/
inductive SameUpToForm : Scalar → Scalar → Prop
  | refl (v : Scalar) : SameUpToForm v v
  | decimals {c d : Decimal} (h : c.value = d.value) : SameUpToForm (decimal c) (decimal d)

theorem cast_text_date (s : String) :
    (text s).cast .date = (orFault (text s) .date (Calendar.readDate? s)).map date :=
  rfl

theorem cast_text_timestamp (s : String) : (text s).cast .timestamp =
    (orFault (text s) .timestamp (Calendar.readTimestamp? (Text.trim s) <|>
      (Calendar.readDate? (Text.trim s)).map .midnight)).map timestamp :=
  rfl

theorem cast_text (hv : v.type? = some t) : v.cast .text = .ok (text v.display) := by
  cases v with
  | null => cases hv
  | _ => rfl

/-- What a cell is displayed as is read as that cell. -/
theorem cast_display (hv : v.type? = some t) (ht : t ≠ .float) :
    ∃ u, (text v.display).cast t = .ok u ∧ SameUpToForm v u := by
  cases v with
  | null => cases hv
  | boolean b =>
    obtain rfl := Option.some.inj hv
    refine ⟨boolean b, ?_, .refl _⟩
    cases b <;> decide +kernel
  | integer n =>
    obtain rfl := Option.some.inj hv
    refine ⟨integer n, ?_, .refl _⟩
    rw [cast_text_integer, display, readInteger?_signedText]
  | float x =>
    obtain rfl := Option.some.inj hv
    exact absurd rfl ht
  | decimal d =>
    obtain rfl := Option.some.inj hv
    refine ⟨decimal d.normalize, ?_, .decimals d.value_normalize.symm⟩
    rw [cast_text_decimal, display, Decimal.readDecimal?_normalize]
  | text s =>
    obtain rfl := Option.some.inj hv
    exact ⟨text s, rfl, .refl _⟩
  | date d =>
    obtain rfl := Option.some.inj hv
    refine ⟨date d, ?_, .refl _⟩
    rw [cast_text_date, display, Calendar.readDate?_text]
    rfl
  | timestamp u =>
    obtain rfl := Option.some.inj hv
    have hread : Calendar.readTimestamp? (Text.trim u.text) = some u := by
      rw [Timestamp.text, Calendar.trim_charsWith, Calendar.readTimestamp?_charsWith u (.inr rfl)]
    refine ⟨timestamp u, ?_, .refl _⟩
    rw [cast_text_timestamp, display, hread]
    rfl

/-- A cell goes into a type that accepts its own and comes back, through its displayed text too. -/
theorem cast_widens (hv : v.type? = some t) (ht : t ≠ .float) (htarget : target ≠ .float)
    (h : target.accepts t = true) :
    ∃ w, v.cast target = .ok w ∧ w.type? = some target ∧ (target = .text → w = text v.display) ∧
      ∃ u, w.cast t = .ok u ∧ SameUpToForm v u := by
  rcases accepts_cases h with rfl | rfl | ⟨rfl, rfl⟩ | ⟨rfl, _⟩ | ⟨rfl, rfl⟩
  · have hself := cast_self hv
    refine ⟨v, hself, hv, ?_, v, hself, .refl v⟩
    rintro rfl
    cases v with
    | text s => rfl
    | _ => cases hv
  · exact ⟨_, cast_text hv, rfl, fun _ => rfl, cast_display hv ht⟩
  · cases v with
    | integer n =>
      refine ⟨decimal (.ofInt64 n), rfl, rfl, nofun, integer n, ?_, .refl _⟩
      rw [cast_decimal_integer, roundToInteger_ofInt64]
      rfl
    | _ => cases hv
  · exact absurd rfl htarget
  · cases v with
    | date d => exact ⟨timestamp (.midnight d), rfl, rfl, nofun, date d, rfl, .refl _⟩
    | _ => cases hv

theorem cast_widens_decimal :
    ColumnType.text.accepts .decimal = true ∧
      (decimal ⟨true, 250, 2, by decide, by decide⟩).cast .text = .ok (text "-2.5") ∧
      ∃ u, (text "-2.5").cast .decimal = .ok u ∧
        SameUpToForm (decimal ⟨true, 250, 2, by decide, by decide⟩) u := by
  have haccepts : ColumnType.text.accepts .decimal = true := by decide
  have hdisplay : (decimal ⟨true, 250, 2, by decide, by decide⟩).display = "-2.5" := by
    decide +kernel
  obtain ⟨w, hw, _, htext, hback⟩ := cast_widens (v := decimal ⟨true, 250, 2, by decide, by decide⟩)
    (t := .decimal) rfl (by decide) (by decide) haccepts
  obtain rfl := htext rfl
  rw [hdisplay] at hw hback
  exact ⟨haccepts, hw, hback⟩

end Scalar

end TablePipeline
