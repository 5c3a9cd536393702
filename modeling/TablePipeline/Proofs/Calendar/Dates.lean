import TablePipeline.Proofs.Calendar.Rfc3339

/-!
# Dates and timestamps are read back

A date that is written in one of its layouts is read as that date: no layout that is tried earlier
takes it. A timestamp is read as itself, and the layouts of a date and RFC 3339 refuse it.
-/

set_option autoImplicit false

namespace TablePipeline

namespace Calendar

attribute [local instance (high)] instPowNat

variable {t : Timestamp} {l : List Field} {sep : Char}

/-! ### Dates -/

theorem Field.Leads.digits {f : Field} (hf : f.Leads)
    (hy : 0 ≤ t.date.year ∧ t.date.year ≤ 9999) :
    (∀ c ∈ f.write t, c.isDigit = true) ∧ f.write t ≠ [] ∧ (f.write t).length = f.width := by
  cases hf with
  | year =>
    have hyear : Field.year.write t = Digits.pad 4 t.date.year.toNat := if_pos hy
    rw [hyear]
    exact ⟨fun c hc => Digits.isDigit_of_mem_pad hc, pad_ne_nil _ _,
      Digits.length_pad (by decide) (by omega)⟩
  | day =>
    have hday := t.date.day_le
    exact ⟨fun c hc => Digits.isDigit_of_mem_pad hc, pad_ne_nil _ _,
      Digits.length_pad (by decide) (by omega)⟩

/-- A layout refuses what is written with another separator or begins with a wider field. -/
theorem readFields_of_other {f g : Field} (hf : f.Leads) (hg : g.Leads) {c d : Char}
    (hc : c.isDigit = false) (hd : d.isDigit = false) (h : c ≠ d ∨ f.width < g.width)
    (hy : 0 ≤ t.date.year ∧ t.date.year ≤ 9999) (fs gs : List Field) (p : Parts)
    (rest : List Char) :
    readFields (f :: .literal c :: fs) p (writeFields (g :: .literal d :: gs) t ++ rest) =
      none := by
  obtain ⟨hdigits, hne, hlength⟩ := hg.digits hy
  rw [writeFields_cons, writeFields_cons, List.append_assoc, List.append_assoc]
  exact readFields_of_mismatch hf hc hd hdigits hne (hlength ▸ h) fs p

theorem separated_dateLayout (hl : l ∈ dateLayouts) {rest : List Char}
    (hrest : ∀ c ∈ rest.head?, c.isDigit = false) : Separated t rest l := by
  simp only [dateLayouts, List.mem_cons, List.not_mem_nil, or_false] at hl
  rcases hl with rfl | rfl | rfl | rfl
  · simp [Separated, Field.EndsBefore, writeFields, Field.write]
  · simpa [Separated, Field.EndsBefore, writeFields, Field.write] using hrest
  · simp [Separated, Field.EndsBefore, writeFields, Field.write]
  · simpa [Separated, Field.EndsBefore, writeFields, Field.write] using hrest

theorem date?_fill (hl : l ∈ dateLayouts) :
    (l.foldl (Field.fill t) {}).date? = some t.date := by
  simp only [dateLayouts, List.mem_cons, List.not_mem_nil, or_false] at hl
  rcases hl with rfl | rfl | rfl | rfl <;> exact t.date.ofParts?_eq

theorem readFields_dateLayout (hl : l ∈ dateLayouts) :
    (readFields l {} (writeFields l t)).bind (·.date?) = some t.date := by
  rw [readFields_write (separated_dateLayout hl (by simp)), Option.bind_some, date?_fill hl]

theorem findSome?_dateLayouts (hl : l ∈ dateLayouts)
    (hy : 0 ≤ t.date.year ∧ t.date.year ≤ 9999) :
    (dateLayouts.findSome? fun k => (readFields k {} (writeFields l t)).bind (·.date?)) =
      some t.date := by
  have hother {f g : Field} (hf : f.Leads) (hg : g.Leads) {c d : Char} (hc : c.isDigit = false)
      (hd : d.isDigit = false) (h : c ≠ d ∨ f.width < g.width) (fs gs : List Field) :
      readFields (f :: .literal c :: fs) {} (writeFields (g :: .literal d :: gs) t) = none := by
    have hrefused := readFields_of_other hf hg hc hd h hy fs gs {} []
    rwa [List.append_nil] at hrefused
  have hread := readFields_dateLayout hl (t := t)
  simp only [dateLayouts, List.mem_cons, List.not_mem_nil, or_false] at hl
  rcases hl with rfl | rfl | rfl | rfl
  · rw [dateLayouts, List.findSome?_cons, hread]
  · rw [dateLayouts, List.findSome?_cons,
      hother .year .day (by decide) (by decide) (.inl (by decide)), Option.bind_none,
      List.findSome?_cons, hread]
  · rw [dateLayouts, List.findSome?_cons,
      hother .year .year (by decide) (by decide) (.inl (by decide)), Option.bind_none,
      List.findSome?_cons, hother .day .year (by decide) (by decide) (.inr (by decide)),
      Option.bind_none, List.findSome?_cons, hread]
  · rw [dateLayouts, List.findSome?_cons,
      hother .year .day (by decide) (by decide) (.inl (by decide)), Option.bind_none,
      List.findSome?_cons, hother .day .day (by decide) (by decide) (.inl (by decide)),
      Option.bind_none, List.findSome?_cons,
      hother .year .day (by decide) (by decide) (.inl (by decide)), Option.bind_none,
      List.findSome?_cons, hread]

/-! ### Timestamps -/

def dateFields : List Field := [.year, .literal '-', .month, .literal '-', .day]

theorem dateFields_mem : dateFields ∈ dateLayouts := List.mem_cons_self

theorem chars_eq (d : Date) : d.chars = writeFields dateFields (.midnight d) := by
  simp [Date.chars, writeFields, dateFields, Field.write, Timestamp.midnight]

theorem writeFields_date (t : Timestamp) : writeFields dateFields t = t.date.chars := by
  simp [Date.chars, writeFields, dateFields, Field.write]

theorem charsWith_eq (sep : Char) (t : Timestamp) :
    t.charsWith sep = writeFields dateFields t ++ sep :: writeFields clockFields t := by
  rw [writeFields_date]
  simp [Timestamp.charsWith, Timestamp.clockChars, writeFields, clockFields, Field.write]

theorem separated_clockFields (t : Timestamp) : Separated t [] clockFields := by
  simp [Separated, Field.EndsBefore, clockFields, writeFields]

/-- The fields of a date and a clock hold all parts of a timestamp. -/
theorem timestamp?_fill (t : Timestamp) :
    (clockFields.foldl (Field.fill t) (dateFields.foldl (Field.fill t) {})).timestamp? =
      some t := by
  have hsecond := t.second_lt
  have hnano := t.nano_lt
  have hleap := t.leap_second
  have hfill : clockFields.foldl (Field.fill t) (dateFields.foldl (Field.fill t) {}) =
      ⟨t.date.year, t.date.month, t.date.day, t.second / 3600, t.second / 60 % 60,
        t.second % 60 + t.nano / 1000000000, t.nano % 1000000000⟩ := by
    simp only [clockFields, dateFields, List.foldl_cons, List.foldl_nil, Field.fill]
    split
    · rename_i hzero
      rw [hzero]
    · rfl
  obtain ⟨u, hu, hudate, husecond, hunano⟩ := timestamp?_of_clock t.date
    (show t.second / 3600 < 24 by omega) (show t.second / 60 % 60 < 60 by omega)
    (show t.second % 60 + t.nano / 1000000000 ≤ 60 by omega)
    (show t.nano % 1000000000 < 1000000000 by omega)
  rw [hfill, hu]
  congr 1
  apply Timestamp.ext hudate
  · omega
  · split at hunano <;> omega

/-- A year of four digits is read with all that follows, and then a zone is missing. -/
theorem readRfc3339_charsWith (t : Timestamp) (hsep : sep = 'T' ∨ sep = ' ') :
    ∃ e, readRfc3339 (String.ofList (t.charsWith sep)) = .error e := by
  have hsecond := t.second_lt
  have hnano := t.nano_lt
  have hsigned {c : Char} (hc : c.isDigit = false) (cs : List Char) :
      ∃ e, readRfc3339 (String.ofList (c :: cs)) = .error e := by
    unfold readRfc3339
    split
    · exact ⟨_, rfl⟩
    · rw [String.toList_ofList, strictNumber_of_not_digit (by decide) hc]
      exact ⟨_, rfl⟩
  rcases Date.yearChars_cases t.date.year with ⟨hlow, hhigh, hy⟩ | ⟨_, hy⟩ | ⟨_, hy⟩
  · obtain ⟨u, hu, _⟩ := readRfc3339_clockFront t.date ⟨hlow, hhigh⟩
      (show t.second / 3600 < 24 by omega) (show t.second / 60 % 60 < 60 by omega)
      (show t.second % 60 + t.nano / 1000000000 ≤ 60 by omega) (.inr hsep)
      (isFraction_fractionChars (show t.nano % 1000000000 < 1000000000 by omega))
      (show ∀ c ∈ ([] : List Char).head?, c.isDigit = false ∧ c ≠ '.' by simp)
    rw [inZone_nil] at hu
    refine ⟨_, Eq.trans (congrArg _ ?_) hu⟩
    simp only [Timestamp.charsWith, Timestamp.clockChars, Date.chars, hy, clockFront,
      List.append_assoc, List.cons_append, List.append_nil]
  · rw [Timestamp.charsWith, Date.chars, hy]
    exact hsigned (by decide) _
  · rw [Timestamp.charsWith, Date.chars, hy]
    exact hsigned (by decide) _

/-- A date in front of a separator is read, and the fields behind it go on at the separator. -/
theorem readFields_charsWith (hsep : sep = 'T' ∨ sep = ' ') (fs : List Field) :
    readFields (dateFields ++ fs) {} (t.charsWith sep) =
      readFields fs (dateFields.foldl (Field.fill t) {}) (sep :: writeFields clockFields t) := by
  rw [charsWith_eq]
  apply readFields_append
  apply separated_dateLayout dateFields_mem
  rintro c ⟨⟩
  rcases hsep with rfl | rfl <;> decide

/-- A timestamp is read back, whichever separator stands between date and clock. -/
theorem readTimestamp?_charsWith (t : Timestamp) (hsep : sep = 'T' ∨ sep = ' ') :
    readTimestamp? (String.ofList (t.charsWith sep)) = some t := by
  obtain ⟨e, he⟩ := readRfc3339_charsWith t hsep
  have hdate := readFields_charsWith (t := t) hsep
  have hread {f : Field} (hf : Separated t [] (f :: clockFields)) (hwrite : f.write t = [sep])
      (hfill : ∀ p, f.fill t p = p) :
      (readFields (dateFields ++ f :: clockFields) {} (t.charsWith sep)).bind (·.timestamp?) =
        some t := by
    have hbehind := readFields_write hf (dateFields.foldl (Field.fill t) {})
    rw [writeFields_cons, hwrite, List.singleton_append, List.foldl_cons, hfill] at hbehind
    rw [hdate, hbehind, Option.bind_some, timestamp?_fill]
  have hlayouts : timestampLayouts =
    [dateFields ++ .blanks :: clockFields, dateFields ++ .literal 'T' :: clockFields] := rfl
  unfold readTimestamp?
  rw [he]
  dsimp only
  rw [String.toList_ofList, hlayouts, List.findSome?_cons]
  rcases hsep with rfl | rfl
  · have hblanks : readFields (dateFields ++ .blanks :: clockFields) {} (t.charsWith 'T') =
        none := by
      rw [hdate]
      rfl
    rw [hblanks, Option.bind_none, List.findSome?_cons,
      hread (f := .literal 'T') ⟨trivial, separated_clockFields t⟩ rfl fun _ => rfl]
  · have hhour : Field.blanks.EndsBefore (writeFields clockFields t ++ []) := by
      rw [clockFields, writeFields_cons, List.append_assoc]
      exact isBlank_head?_of_digits (fun c hc => Digits.isDigit_of_mem_pad hc) (pad_ne_nil 2 _) _
    rw [hread (f := .blanks) ⟨hhour, separated_clockFields t⟩ rfl fun _ => rfl]

theorem findSome?_dateLayouts_charsWith (hsep : sep = 'T' ∨ sep = ' ')
    (hy : 0 ≤ t.date.year ∧ t.date.year ≤ 9999) :
    (dateLayouts.findSome? fun l => (readFields l {} (t.charsWith sep)).bind (·.date?)) =
      none := by
  have hhyphens : readFields dateFields {} (t.charsWith sep) = none := by
    have hrest := readFields_charsWith (t := t) hsep []
    rwa [List.append_nil] at hrest
  have hother {f : Field} (hf : f.Leads) {c : Char} (hc : c.isDigit = false) (h : c ≠ '-')
      (fs : List Field) : readFields (f :: .literal c :: fs) {} (t.charsWith sep) = none := by
    rw [charsWith_eq]
    exact readFields_of_other hf .year hc (by decide) (.inl h) hy fs _ {} _
  rw [List.findSome?_eq_none_iff]
  intro l hl
  simp only [dateLayouts, List.mem_cons, List.not_mem_nil, or_false] at hl
  rcases hl with rfl | rfl | rfl | rfl
  · exact congrArg (Option.bind · _) hhyphens
  · rw [hother .day (by decide) (by decide), Option.bind_none]
  · rw [hother .year (by decide) (by decide), Option.bind_none]
  · rw [hother .day (by decide) (by decide), Option.bind_none]

/-! ### Between blanks -/

def Field.Nonblank : Field → Prop
  | .literal c => Text.isBlank c = false
  | .blanks => False
  | _ => True

theorem IsFraction.isBlank {cs : List Char} {nano : Nat} (h : IsFraction cs nano) {c : Char}
    (hc : c ∈ cs) : Text.isBlank c = false := by
  cases h with
  | none => cases hc
  | digits =>
    exact Text.isBlank_of_mem_cons (by decide) (fun c hc => Digits.isDigit_of_mem_pad hc) hc

theorem Field.Nonblank.isBlank {f : Field} (hf : f.Nonblank) {c : Char} (hc : c ∈ f.write t) :
    Text.isBlank c = false := by
  have hdigits {width n : Nat} : ∀ c ∈ Digits.pad width n, c.isDigit = true :=
    fun c hc => Digits.isDigit_of_mem_pad hc
  have hpad {width n : Nat} (h : c ∈ Digits.pad width n) : Text.isBlank c = false :=
    Text.isBlank_of_isDigit (hdigits c h)
  cases f with
  | year =>
    rcases Date.yearChars_cases t.date.year with ⟨_, _, hy⟩ | ⟨_, hy⟩ | ⟨_, hy⟩
    · rw [write, hy] at hc
      exact hpad hc
    · rw [write, hy] at hc
      exact Text.isBlank_of_mem_cons (by decide) hdigits hc
    · rw [write, hy] at hc
      exact Text.isBlank_of_mem_cons (by decide) hdigits hc
  | month => exact hpad hc
  | day => exact hpad hc
  | hour => exact hpad hc
  | minute => exact hpad hc
  | second => exact hpad hc
  | fraction =>
    exact (isFraction_fractionChars (show t.nano % 1000000000 < 1000000000 by omega)).isBlank hc
  | literal d =>
    obtain rfl := List.mem_singleton.mp hc
    exact hf
  | blanks => exact hf.elim

theorem isBlank_of_mem_writeFields {fs : List Field} (h : ∀ f ∈ fs, f.Nonblank) {c : Char}
    (hc : c ∈ writeFields fs t) : Text.isBlank c = false := by
  obtain ⟨f, hf, hc⟩ := List.mem_flatMap.mp hc
  exact (h f hf).isBlank hc

theorem nonblank_clockFields : ∀ f ∈ clockFields, f.Nonblank := by
  intro f hf
  simp only [clockFields, List.mem_cons, List.not_mem_nil, or_false] at hf
  rcases hf with rfl | rfl | rfl | rfl | rfl | rfl <;> trivial

theorem nonblank_dateLayout (hl : l ∈ dateLayouts) : ∀ f ∈ l, f.Nonblank := by
  intro f hf
  simp only [dateLayouts, List.mem_cons, List.not_mem_nil, or_false] at hl
  rcases hl with rfl | rfl | rfl | rfl
  all_goals
    simp only [List.mem_cons, List.not_mem_nil, or_false] at hf
    rcases hf with rfl | rfl | rfl | rfl | rfl <;> trivial

theorem trim_dateLayout (hl : l ∈ dateLayouts) (t : Timestamp) :
    Text.trim (String.ofList (writeFields l t)) = String.ofList (writeFields l t) :=
  Text.trim_of_nonblank fun _ hc => isBlank_of_mem_writeFields (nonblank_dateLayout hl) hc

theorem trim_charsWith (sep : Char) (t : Timestamp) :
    Text.trim (String.ofList (t.charsWith sep)) = String.ofList (t.charsWith sep) := by
  have hdate : writeFields dateFields t ≠ [] := by
    simp [dateFields, writeFields, Field.write]
  have hclock : writeFields clockFields t ≠ [] := by
    simp [clockFields, writeFields, Field.write]
  rw [charsWith_eq, ← List.singleton_append, ← List.append_assoc]
  apply Text.trim_of_words hdate hclock
  intro c hc
  rcases List.mem_append.mp hc with hc | hc
  · exact isBlank_of_mem_writeFields (nonblank_dateLayout dateFields_mem) hc
  · exact isBlank_of_mem_writeFields nonblank_clockFields hc

/-- A date is read back as it is displayed, of whatever year. -/
theorem readDate?_text (d : Date) : readDate? d.text = some d := by
  have hread := readFields_dateLayout dateFields_mem (t := .midnight d)
  have hlayouts : dateLayouts = dateFields :: dateLayouts.tail := rfl
  unfold readDate?
  dsimp only
  rw [Date.text, chars_eq, trim_dateLayout dateFields_mem, String.toList_ofList, hlayouts,
    List.findSome?_cons, hread]
  rfl

/-- The text of a date in a layout, numbers filled up with zeros. -/
def written (l : List Field) (d : Date) : String := String.ofList (writeFields l (.midnight d))

/-- Each layout of a date reads what was written in it, and no layout that is tried earlier takes
it, nor the date of a timestamp. -/
theorem readDate?_layouts {left right : String} (hleft : Text.isBlankText left = true)
    (hright : Text.isBlankText right = true) :
    (∀ d : Date, 0 ≤ d.year ∧ d.year ≤ 9999 → ∀ l ∈ dateLayouts,
        readDate? (left ++ written l d ++ right) = some d) ∧
      ∀ t : Timestamp, 0 ≤ t.date.year ∧ t.date.year ≤ 9999 →
        readDate? (left ++ t.text ++ right) = some t.date ∧
          readDate? (left ++ String.ofList (t.charsWith 'T') ++ right) = some t.date := by
  constructor
  · intro d hy l hl
    have hfound := findSome?_dateLayouts hl (t := .midnight d) hy
    unfold readDate?
    dsimp only
    rw [Text.trim_between hleft hright, written, trim_dateLayout hl, String.toList_ofList, hfound]
    rfl
  · intro t hy
    have hread {sep : Char} (hsep : sep = 'T' ∨ sep = ' ') :
        readDate? (left ++ String.ofList (t.charsWith sep) ++ right) = some t.date := by
      unfold readDate?
      dsimp only
      rw [Text.trim_between hleft hright, trim_charsWith, String.toList_ofList,
        findSome?_dateLayouts_charsWith hsep hy, readTimestamp?_charsWith t hsep]
      rfl
    exact ⟨hread (.inr rfl), hread (.inl rfl)⟩

theorem readDate?_layouts_ninth_of_march :
    (Text.isBlankText "\t " = true ∧ Text.isBlankText "\n" = true) ∧
      readDate? "\t 09.03.0007\n" = some ⟨7, 3, 9, by decide, by decide, by decide⟩ ∧
      readDate? "\t 0007-03-09T01:02:03.500\n" =
        some ⟨7, 3, 9, by decide, by decide, by decide⟩ := by
  have hleft : Text.isBlankText "\t " = true := by decide
  have hright : Text.isBlankText "\n" = true := by decide
  have hread := readDate?_layouts hleft hright
  have hdate := hread.1 ⟨7, 3, 9, by decide, by decide, by decide⟩ (by decide)
    [.day, .literal '.', .month, .literal '.', .year] (by decide)
  have htime := (hread.2 ⟨⟨7, 3, 9, by decide, by decide, by decide⟩, 3723, 500000000, by decide,
    by decide, by decide⟩ (by decide)).2
  refine ⟨⟨hleft, hright⟩, Eq.trans (congrArg readDate? ?_) hdate,
    Eq.trans (congrArg readDate? ?_) htime⟩
  · decide +kernel
  · decide +kernel

end Calendar

end TablePipeline
