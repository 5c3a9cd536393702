import TablePipeline.Proofs.Calendar.Layouts
import TablePipeline.Proofs.Calendar.Rfc3339
import TablePipeline.Proofs.Outcome
import TablePipeline.Run.Store

/-!
# Times as the store keeps them

The text of a time has parts of fixed width behind its year, so it can be read in one way only:
equal texts are written for the same microsecond and for no other time. A time of a year of four
digits that is written with microseconds and in universal time is read as it was written.
-/

set_option autoImplicit false

namespace TablePipeline

namespace Date

variable {y z : Int} {d e : Date}

theorem pad_ne_cons {width n : Nat} {c : Char} {cs : List Char} (hc : c.isDigit = false) :
    Digits.pad width n ≠ c :: cs := by
  intro h
  have hmem : c ∈ Digits.pad width n := by simp [h]
  rw [Digits.isDigit_of_mem_pad hmem] at hc
  cases hc

/-- The first character tells a plain year from one with either sign. -/
theorem yearChars_injective (h : yearChars y = yearChars z) : y = z := by
  rcases yearChars_cases y with ⟨hy, _, hyc⟩ | ⟨hy, hyc⟩ | ⟨hy, hyc⟩ <;>
    rcases yearChars_cases z with ⟨hz, _, hzc⟩ | ⟨hz, hzc⟩ | ⟨hz, hzc⟩ <;>
    rw [hyc, hzc] at h
  · have := Digits.pad_injective h
    omega
  · exact (pad_ne_cons (by decide) h).elim
  · exact (pad_ne_cons (by decide) h).elim
  · exact (pad_ne_cons (by decide) h.symm).elim
  · have := Digits.pad_injective (List.cons.inj h).2
    omega
  · cases (List.cons.inj h).1
  · exact (pad_ne_cons (by decide) h.symm).elim
  · cases (List.cons.inj h).1
  · have := Digits.pad_injective (List.cons.inj h).2
    omega

theorem chars_injective (h : d.chars = e.chars) : d = e := by
  have hmonth (d : Date) : (Digits.pad 2 d.month).length = 2 := by
    have := d.month_range
    exact Digits.length_pad (by decide) (by omega)
  have hday (d : Date) : (Digits.pad 2 d.day).length = 2 := by
    have := d.day_le
    exact Digits.length_pad (by decide) (by omega)
  unfold chars at h
  obtain ⟨hfront, hd⟩ := List.append_inj' h (by simp [hday])
  obtain ⟨hy, hm⟩ := List.append_inj' hfront (by simp [hmonth])
  have hy := yearChars_injective hy
  have hm := Digits.pad_injective (List.cons.inj hm).2
  have hd := Digits.pad_injective (List.cons.inj hd).2
  obtain ⟨year, month, day, _, _, _⟩ := d
  obtain ⟨year', month', day', _, _, _⟩ := e
  simp_all

end Date

namespace Timestamp

variable {t u : Timestamp}

/-- The minute of the day and the microsecond in it; a leap second makes its minute longer. -/
def clock (t : Timestamp) : Nat × Nat :=
  (t.second / 60, t.second % 60 * 1000000 + t.nano / 1000)

/-- Two times that differ by less than a microsecond on the clock. -/
def SameMicro (t u : Timestamp) : Prop := t.date = u.date ∧ t.clock = u.clock

instance (t u : Timestamp) : Decidable (t.SameMicro u) := by
  unfold SameMicro
  infer_instance

theorem length_pad_two {n : Nat} (h : n < 100) : (Digits.pad 2 n).length = 2 :=
  Digits.length_pad (by decide) h

theorem length_clockChars (t : Timestamp) : (clockChars t.second t.nano).length = 8 := by
  have hs := t.second_lt
  have hn := t.nano_lt
  unfold clockChars
  simp only [List.length_append, List.length_cons]
  rw [length_pad_two (by omega), length_pad_two (by omega), length_pad_two (by omega)]

theorem clockChars_injective (h : clockChars t.second t.nano = clockChars u.second u.nano) :
    t.second / 60 = u.second / 60 ∧
      t.second % 60 + t.nano / 1000000000 = u.second % 60 + u.nano / 1000000000 := by
  have ht := t.nano_lt
  have hu := u.nano_lt
  unfold clockChars at h
  dsimp only at h
  obtain ⟨hfront, hsecond⟩ := List.append_inj' h (by
    simp only [List.length_cons]
    rw [length_pad_two (by omega), length_pad_two (by omega)])
  obtain ⟨hhour, hminute⟩ := List.append_inj' hfront (by
    simp only [List.length_cons]
    rw [length_pad_two (by omega), length_pad_two (by omega)])
  have hhour := Digits.pad_injective hhour
  have hminute := Digits.pad_injective (List.cons.inj hminute).2
  have hsecond := Digits.pad_injective (List.cons.inj hsecond).2
  omega

/-- The store writes the same text for two times just if they are the same microsecond. -/
theorem stored_eq_iff : t.stored = u.stored ↔ t.SameMicro u := by
  constructor
  · intro h
    have hfraction (t : Timestamp) : (Digits.pad 6 (t.nano % 1000000000 / 1000)).length = 6 :=
      Digits.length_pad (by decide) (by omega)
    obtain ⟨hbody, _⟩ := List.append_inj' (String.ofList_injective h) rfl
    obtain ⟨hfront, hmicro⟩ := List.append_inj' hbody (by simp [hfraction])
    obtain ⟨hdate, hclock⟩ := List.append_inj' hfront (by simp [length_clockChars])
    have hdate := Date.chars_injective hdate
    obtain ⟨hminute, hsecond⟩ := clockChars_injective (List.cons.inj hclock).2
    have hmicro := Digits.pad_injective (List.cons.inj hmicro).2
    refine ⟨hdate, Prod.ext hminute ?_⟩
    unfold clock
    omega
  · rintro ⟨hdate, hclock⟩
    obtain ⟨hminute, hmicro⟩ := Prod.mk.inj hclock
    have hhour : t.second / 3600 = u.second / 3600 := by omega
    have hsecond : t.second % 60 + t.nano / 1000000000 = u.second % 60 + u.nano / 1000000000 := by
      omega
    have hnano : t.nano % 1000000000 / 1000 = u.nano % 1000000000 / 1000 := by omega
    unfold stored clockChars
    rw [hdate, hhour, hminute, hsecond, hnano]

end Timestamp

/-! ### Times that are read back -/

def Timestamp.FourDigitYear (t : Timestamp) : Prop := 0 ≤ t.date.year ∧ t.date.year ≤ 9999

theorem Timestamp.stored_eq_utcChars {t : Timestamp} (h : t.FourDigitYear) :
    t.stored = String.ofList (Calendar.utcChars t.date.year.toNat t.date.month t.date.day
      (t.second / 3600) (t.second / 60 % 60) (t.second % 60 + t.nano / 1000000000)
      (t.nano % 1000000000 / 1000)) := by
  have hyear : Date.yearChars t.date.year = Digits.pad 4 t.date.year.toNat := if_pos h
  simp only [stored, clockChars, Date.chars, hyear, Calendar.utcChars, List.append_assoc,
    List.cons_append]

/-- What the store writes is read back as a time that it writes in the same way. -/
theorem StoredRun.readTime_stored {t : Timestamp} (h : t.FourDigitYear) :
    ∃ u, StoredRun.readTime t.stored = .ok u ∧ u.stored = t.stored := by
  have hs := t.second_lt
  have hn := t.nano_lt
  obtain ⟨u, hu, hdate, hsecond, hnano⟩ := Calendar.readRfc3339_utcChars t.date h
    (show t.second / 3600 < 24 by omega) (show t.second / 60 % 60 < 60 by omega)
    (show t.second % 60 + t.nano / 1000000000 ≤ 60 by omega)
    (show t.nano % 1000000000 / 1000 < 1000000 by omega)
  refine ⟨u, ?_, Timestamp.stored_eq_iff.mpr ⟨hdate, Prod.ext ?_ ?_⟩⟩
  · rw [Timestamp.stored_eq_utcChars h]
    exact Outcome.mapError_eq_ok.mpr hu
  · dsimp only [Timestamp.clock]
    omega
  · dsimp only [Timestamp.clock]
    split at hnano <;> omega

end TablePipeline
