import Mathlib.Tactic.Common
import TablePipeline.Calendar.Reading
import TablePipeline.Proofs.Text.Trimming

/-!
# What is written in a layout is read back

Every field of a layout has a written form with all its places. Reading takes just that form where
the text behind it cannot belong to it, so a layout reads what was written in it. A text that was
written in another layout is refused at the first separator, which is another character or comes
too late.
-/

set_option autoImplicit false

namespace TablePipeline

attribute [local instance (high)] instPowNat

namespace Date

theorem yearChars_cases (y : Int) :
    (0 ≤ y ∧ y ≤ 9999 ∧ yearChars y = Digits.pad 4 y.toNat) ∨
      (y < 0 ∧ yearChars y = '-' :: Digits.pad 4 y.natAbs) ∨
      (9999 < y ∧ yearChars y = '+' :: Digits.pad 4 y.natAbs) := by
  unfold yearChars
  split
  · rename_i hy
    exact .inl ⟨hy.1, hy.2, rfl⟩
  · split
    · rename_i hy
      exact .inr (.inl ⟨hy, rfl⟩)
    · exact .inr (.inr ⟨by omega, rfl⟩)

theorem day_le (d : Date) : d.day ≤ 31 := by
  have hd := d.day_range.2
  unfold daysInMonth at hd
  split at hd
  · split at hd <;> omega
  · split at hd <;> omega

end Date

namespace Calendar

theorem pad_ne_nil (width n : Nat) : Digits.pad width n ≠ [] := by
  intro h
  exact Digits.write_ne_nil n (List.append_eq_nil_iff.mp h).2

theorem isBlank_head?_of_digits {ds : List Char} (hds : ∀ c ∈ ds, c.isDigit = true) (hne : ds ≠ [])
    (rest : List Char) : ∀ c ∈ (ds ++ rest).head?, Text.isBlank c = false := by
  intro c hc
  cases ds with
  | nil => exact absurd rfl hne
  | cons d ds =>
    obtain rfl : d = c := Option.some.inj hc
    exact Text.isBlank_of_isDigit (hds d List.mem_cons_self)

theorem trimFront_of_digits {ds : List Char} (hds : ∀ c ∈ ds, c.isDigit = true) (hne : ds ≠ [])
    (rest : List Char) : Text.trimFront (ds ++ rest) = ds ++ rest :=
  Text.trimFront_of_head (isBlank_head?_of_digits hds hne rest)

/-! ### Numbers -/

/-- Digits are taken up to the width, or up to what is no digit. -/
theorem takeNumber_append {width : Nat} {ds rest : List Char}
    (hds : ∀ c ∈ ds, c.isDigit = true) (hne : ds ≠ [])
    (hend : ds.length = width ∨ ds.length ≤ width ∧ ∀ c ∈ rest.head?, c.isDigit = false) :
    takeNumber width (ds ++ rest) = some (Digits.value ds, rest) := by
  have hlength : ds.length ≤ width := hend.elim Nat.le_of_eq And.left
  have hbehind : (rest.take (width - ds.length)).takeWhile Char.isDigit = [] := by
    rcases hend with h | ⟨_, h⟩
    · rw [h, Nat.sub_self, List.take_zero, List.takeWhile_nil]
    · cases rest with
      | nil => rw [List.take_nil, List.takeWhile_nil]
      | cons c rest =>
        cases width - ds.length with
        | zero => rfl
        | succ k => rw [List.take_succ_cons, List.takeWhile_cons_of_neg (by simp [h c rfl])]
  have hdigits : ((ds ++ rest).take width).takeWhile Char.isDigit = ds := by
    rw [List.take_append, List.take_of_length_le hlength, List.takeWhile_append_of_pos hds,
      hbehind, List.append_nil]
  unfold takeNumber
  dsimp only
  rw [hdigits, if_neg (by simpa using hne), List.drop_left]

theorem takeNumber_digits {width : Nat} (hwidth : 0 < width) {ds rest : List Char}
    (hds : ∀ c ∈ ds, c.isDigit = true) (hne : ds ≠ [])
    (hrest : ∀ c ∈ rest.head?, c.isDigit = false) :
    takeNumber width (ds ++ rest) =
      some (Digits.value (ds.take width), ds.drop width ++ rest) := by
  have hsplit : ds ++ rest = ds.take width ++ (ds.drop width ++ rest) := by
    rw [← List.append_assoc, List.take_append_drop]
  rw [hsplit]
  apply takeNumber_append
  · exact fun c hc => hds c (List.mem_of_mem_take hc)
  · cases ds with
    | nil => exact absurd rfl hne
    | cons d ds =>
      cases width with
      | zero => omega
      | succ k => exact List.cons_ne_nil _ _
  · rw [List.length_take]
    by_cases h : width ≤ ds.length
    · exact .inl (Nat.min_eq_left h)
    · refine .inr ⟨Nat.min_le_left _ _, ?_⟩
      rw [List.drop_of_length_le (by omega), List.nil_append]
      exact hrest

theorem takeNumber_pad {width n : Nat} (hwidth : 0 < width) (h : n < 10 ^ width)
    (rest : List Char) : takeNumber width (Digits.pad width n ++ rest) = some (n, rest) := by
  have htake : takeNumber width (Digits.pad width n ++ rest) =
      some (Digits.value (Digits.pad width n), rest) :=
    takeNumber_append (fun c hc => Digits.isDigit_of_mem_pad hc) (pad_ne_nil width n)
      (.inl (Digits.length_pad hwidth h))
  rw [htake, Digits.value_pad]

theorem takeYear_of_digits {ds : List Char} (hds : ∀ c ∈ ds, c.isDigit = true) (hne : ds ≠ [])
    (rest : List Char) : takeYear (ds ++ rest) =
      (takeNumber 4 (ds ++ rest)).map fun (n, rest) => ((n : Int), rest) := by
  cases ds with
  | nil => exact absurd rfl hne
  | cons d ds =>
    have hd := hds d List.mem_cons_self
    unfold takeYear
    split
    · rename_i h
      rw [(List.cons.inj h).1] at hd
      cases hd
    · rename_i h
      rw [(List.cons.inj h).1] at hd
      cases hd
    · rfl

theorem takeYear_yearChars (y : Int) {rest : List Char}
    (hrest : ∀ c ∈ rest.head?, c.isDigit = false) :
    takeYear (Date.yearChars y ++ rest) = some (y, rest) := by
  have hsigned (n : Nat) : takeNumber (Digits.pad 4 n ++ rest).length (Digits.pad 4 n ++ rest) =
      some (n, rest) := by
    rw [takeNumber_append (fun c hc => Digits.isDigit_of_mem_pad hc) (pad_ne_nil 4 n)
      (.inr ⟨by rw [List.length_append]; omega, hrest⟩), Digits.value_pad]
  rcases Date.yearChars_cases y with ⟨hlow, hhigh, hy⟩ | ⟨hneg, hy⟩ | ⟨hlarge, hy⟩
  · rw [hy, takeYear_of_digits (fun c hc => Digits.isDigit_of_mem_pad hc) (pad_ne_nil 4 _),
      takeNumber_pad (by decide) (by omega)]
    show some ((y.toNat : Int), rest) = _
    rw [Int.toNat_of_nonneg hlow]
  · rw [hy, List.cons_append, takeYear, hsigned]
    show some (-(y.natAbs : Int), rest) = _
    rw [show -(y.natAbs : Int) = y by omega]
  · rw [hy, List.cons_append, takeYear, hsigned]
    show some ((y.natAbs : Int), rest) = _
    rw [show (y.natAbs : Int) = y by omega]

/-! ### Fractions -/

/-- A part of a second as it may be written: not at all, or as up to nine digits behind a point. -/
inductive IsFraction : List Char → Nat → Prop
  | none : IsFraction [] 0
  | digits {k n : Nat} (hpos : 0 < k) (hle : k ≤ 9) (h : n < 10 ^ k) :
      IsFraction ('.' :: Digits.pad k n) (n * 10 ^ (9 - k))

theorem isFraction_fractionChars {nano : Nat} (h : nano < 1000000000) :
    IsFraction (Timestamp.fractionChars nano) nano := by
  unfold Timestamp.fractionChars
  split
  · rename_i hzero
    rw [hzero]
    exact .none
  · split
    · have hdigits := IsFraction.digits (k := 3) (n := nano / 1000000) (by decide) (by decide)
        (by omega)
      rwa [show nano / 1000000 * 10 ^ (9 - 3) = nano by omega] at hdigits
    · split
      · have hdigits := IsFraction.digits (k := 6) (n := nano / 1000) (by decide) (by decide)
          (by omega)
        rwa [show nano / 1000 * 10 ^ (9 - 6) = nano by omega] at hdigits
      · have hdigits := IsFraction.digits (k := 9) (n := nano) (by decide) (by decide) (by omega)
        rwa [show nano * 10 ^ (9 - 9) = nano by omega] at hdigits

theorem takeNanos_pad {k n : Nat} (hpos : 0 < k) (hle : k ≤ 9) (h : n < 10 ^ k)
    {rest : List Char} (hrest : ∀ c ∈ rest.head?, c.isDigit = false) :
    takeNanos (Digits.pad k n ++ rest) = some (n * 10 ^ (9 - k), rest) := by
  have hdigits : ∀ c ∈ Digits.pad k n, c.isDigit = true :=
    fun c hc => Digits.isDigit_of_mem_pad hc
  have hlength : (Digits.pad k n).length = k := Digits.length_pad hpos h
  have htake : (Digits.pad k n ++ rest).takeWhile Char.isDigit = Digits.pad k n := by
    rw [List.takeWhile_append_of_pos hdigits]
    cases rest with
    | nil => rw [List.takeWhile_nil, List.append_nil]
    | cons c rest => rw [List.takeWhile_cons_of_neg (by simp [hrest c rfl]), List.append_nil]
  have hdrop : (Digits.pad k n ++ rest).dropWhile Char.isDigit = rest := by
    rw [List.dropWhile_append_of_pos hdigits]
    cases rest with
    | nil => rfl
    | cons c rest => rw [List.dropWhile_cons_of_neg (by simp [hrest c rfl])]
  unfold takeNanos
  dsimp only
  rw [htake, hdrop, List.take_of_length_le (by omega), hlength, Digits.value_pad,
    if_neg (by simpa using pad_ne_nil k n)]

theorem fractionChars_eq_nil_iff {nano : Nat} :
    Timestamp.fractionChars nano = [] ↔ nano = 0 := by
  unfold Timestamp.fractionChars
  split
  · simp [*]
  · split <;> [skip; split] <;> simp [*]

theorem Field.read_fraction {cs rest : List Char} {nano : Nat} (h : IsFraction cs nano) (p : Parts)
    (hrest : ∀ c ∈ rest.head?, c.isDigit = false ∧ c ≠ '.') :
    Field.fraction.read p (cs ++ rest) =
      some (if cs = [] then p else { p with nano := nano }, rest) := by
  cases h with
  | none =>
    rw [List.nil_append, if_pos rfl, read]
    rintro cs rfl
    exact (hrest '.' rfl).2 rfl
  | digits hpos hle hn =>
    rw [List.cons_append, read, takeNanos_pad hpos hle hn fun c hc => (hrest c hc).1]
    rfl

/-! ### Fields -/

/-- A field as it is written, numbers with all their places. -/
def Field.write (t : Timestamp) : Field → List Char
  | .year => Date.yearChars t.date.year
  | .month => Digits.pad 2 t.date.month
  | .day => Digits.pad 2 t.date.day
  | .hour => Digits.pad 2 (t.second / 3600)
  | .minute => Digits.pad 2 (t.second / 60 % 60)
  | .second => Digits.pad 2 (t.second % 60 + t.nano / 1000000000)
  | .fraction => Timestamp.fractionChars (t.nano % 1000000000)
  | .literal c => [c]
  | .blanks => [' ']

def writeFields (fs : List Field) (t : Timestamp) : List Char := fs.flatMap (Field.write t)

theorem writeFields_cons (f : Field) (fs : List Field) (t : Timestamp) :
    writeFields (f :: fs) t = f.write t ++ writeFields fs t :=
  List.flatMap_cons

/-- The parts of a time with what a field says of it. -/
def Field.fill (t : Timestamp) (p : Parts) : Field → Parts
  | .year => { p with year := t.date.year }
  | .month => { p with month := t.date.month }
  | .day => { p with day := t.date.day }
  | .hour => { p with hour := t.second / 3600 }
  | .minute => { p with minute := t.second / 60 % 60 }
  | .second => { p with second := t.second % 60 + t.nano / 1000000000 }
  | .fraction =>
    if t.nano % 1000000000 = 0 then p else { p with nano := t.nano % 1000000000 }
  | .literal _ | .blanks => p

/-- What stands behind a field cannot belong to it. -/
def Field.EndsBefore (rest : List Char) : Field → Prop
  | .year => ∀ c ∈ rest.head?, c.isDigit = false
  | .fraction => ∀ c ∈ rest.head?, c.isDigit = false ∧ c ≠ '.'
  | .blanks => ∀ c ∈ rest.head?, Text.isBlank c = false
  | _ => True

theorem Field.read_write {f : Field} {rest : List Char} (t : Timestamp) (p : Parts)
    (h : f.EndsBefore rest) : f.read p (f.write t ++ rest) = some (f.fill t p, rest) := by
  have hmonth := t.date.month_range
  have hday := t.date.day_le
  have hsecond := t.second_lt
  have hnano := t.nano_lt
  have hnumber {n : Nat} (hn : n < 100) :
      takeNumber 2 (Text.trimFront (Digits.pad 2 n ++ rest)) = some (n, rest) := by
    rw [trimFront_of_digits (fun c hc => Digits.isDigit_of_mem_pad hc) (pad_ne_nil 2 n),
      takeNumber_pad (by decide) (by omega)]
  cases f with
  | year =>
    have hfront : Text.trimFront (Date.yearChars t.date.year ++ rest) =
        Date.yearChars t.date.year ++ rest := by
      rcases Date.yearChars_cases t.date.year with ⟨_, _, hy⟩ | ⟨_, hy⟩ | ⟨_, hy⟩
      · rw [hy]
        exact trimFront_of_digits (fun c hc => Digits.isDigit_of_mem_pad hc) (pad_ne_nil _ _) rest
      · rw [hy, List.cons_append, Text.trimFront, List.dropWhile_cons_of_neg (by decide)]
      · rw [hy, List.cons_append, Text.trimFront, List.dropWhile_cons_of_neg (by decide)]
    rw [read, write, hfront, takeYear_yearChars _ h]
    rfl
  | month =>
    rw [read, write, hnumber (by omega)]
    rfl
  | day =>
    rw [read, write, hnumber (by omega)]
    rfl
  | hour =>
    rw [read, write, hnumber (by omega)]
    rfl
  | minute =>
    rw [read, write, hnumber (by omega)]
    rfl
  | second =>
    rw [read, write, hnumber (by omega)]
    rfl
  | fraction =>
    have hfraction := isFraction_fractionChars (show t.nano % 1000000000 < 1000000000 by omega)
    rw [write, read_fraction hfraction p h]
    simp only [fractionChars_eq_nil_iff, fill]
  | literal c => simp [read, write, fill]
  | blanks =>
    have hfront : Text.trimFront (' ' :: rest) = rest := by
      rw [Text.trimFront, List.dropWhile_cons_of_pos (by decide)]
      exact Text.trimFront_of_head h
    rw [read, write, List.singleton_append, hfront]
    rfl

/-! ### Layouts -/

/-- Behind each field of a layout stands what cannot belong to it. -/
def Separated (t : Timestamp) (rest : List Char) : List Field → Prop
  | [] => True
  | f :: fs => f.EndsBefore (writeFields fs t ++ rest) ∧ Separated t rest fs

theorem readFields_append {fs : List Field} {t : Timestamp} {rest : List Char}
    (h : Separated t rest fs) (gs : List Field) (p : Parts) :
    readFields (fs ++ gs) p (writeFields fs t ++ rest) =
      readFields gs (fs.foldl (Field.fill t) p) rest := by
  induction fs generalizing p with
  | nil => rfl
  | cons f fs ih =>
    rw [List.cons_append, readFields, writeFields_cons, List.append_assoc,
      Field.read_write t p h.1]
    exact ih h.2 (f.fill t p)

theorem readFields_write {fs : List Field} {t : Timestamp} (h : Separated t [] fs) (p : Parts) :
    readFields fs p (writeFields fs t) = some (fs.foldl (Field.fill t) p) := by
  have hread := readFields_append h [] p
  rwa [List.append_nil, List.append_nil] at hread

/-- The fields with which a date may begin. -/
inductive Field.Leads : Field → Prop
  | year : Leads .year
  | day : Leads .day

/-- The most digits without a sign that a field takes. -/
def Field.width : Field → Nat
  | .year => 4
  | _ => 2

theorem Field.Leads.read_digits {f : Field} (hf : f.Leads) (p : Parts) {ds rest : List Char}
    (hds : ∀ c ∈ ds, c.isDigit = true) (hne : ds ≠ [])
    (hrest : ∀ c ∈ rest.head?, c.isDigit = false) :
    ∃ q, f.read p (ds ++ rest) = some (q, ds.drop f.width ++ rest) := by
  cases hf with
  | year =>
    rw [read, trimFront_of_digits hds hne, takeYear_of_digits hds hne,
      takeNumber_digits (by decide) hds hne hrest]
    exact ⟨_, rfl⟩
  | day =>
    rw [read, trimFront_of_digits hds hne, takeNumber_digits (by decide) hds hne hrest]
    exact ⟨_, rfl⟩

/-- Digits that are followed by another separator, or are too many for the first field, are not
read. -/
theorem readFields_of_mismatch {f : Field} (hf : f.Leads) {c d : Char} (hc : c.isDigit = false)
    (hd : d.isDigit = false) {ds rest : List Char} (hds : ∀ c ∈ ds, c.isDigit = true)
    (hne : ds ≠ []) (h : c ≠ d ∨ f.width < ds.length) (fs : List Field) (p : Parts) :
    readFields (f :: .literal c :: fs) p (ds ++ d :: rest) = none := by
  have hnext : ∀ x ∈ (d :: rest).head?, x.isDigit = false := by
    rintro x ⟨⟩
    exact hd
  obtain ⟨q, hq⟩ := hf.read_digits p hds hne hnext
  rw [readFields, hq, Option.bind_some]
  dsimp only
  rw [readFields]
  cases hdrop : ds.drop f.width with
  | nil =>
    have hlength : ds.length ≤ f.width := List.drop_eq_nil_iff.mp hdrop
    have hcd : c ≠ d := h.resolve_right (Nat.not_lt.mpr hlength)
    rw [List.nil_append, Field.read, if_neg hcd, Option.bind_none]
  | cons x xs =>
    have hx : x.isDigit = true := hds x (List.mem_of_mem_drop (hdrop ▸ List.mem_cons_self))
    have hcx : c ≠ x := by
      rintro rfl
      rw [hc] at hx
      cases hx
    rw [List.cons_append, Field.read, if_neg hcx, Option.bind_none]

end Calendar

end TablePipeline
