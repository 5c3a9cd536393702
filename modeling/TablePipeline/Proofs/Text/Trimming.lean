import Mathlib.Data.List.TakeWhile
import TablePipeline.Text.Class

/-!
# Trimming

Blanks around a text make no difference to what it is trimmed to, and nothing is left just of a text
that is blank.
-/

set_option autoImplicit false

namespace TablePipeline.Text

theorem isBlank_of_isDigit {c : Char} (h : c.isDigit = true) : isBlank c = false := by
  have hrange : 48 ≤ c.toNat ∧ c.toNat ≤ 57 := by
    simp only [Char.isDigit, Bool.and_eq_true, decide_eq_true_eq, UInt32.le_iff_toNat_le] at h
    exact h
  simp only [isBlank, Bool.or_eq_false_iff, Bool.and_eq_false_iff, decide_eq_false_iff_not,
    beq_eq_false_iff_ne]
  omega

/-- There are no blanks among digits with a mark in front. -/
theorem isBlank_of_mem_cons {c d : Char} {ds : List Char} (hd : isBlank d = false)
    (hds : ∀ c ∈ ds, c.isDigit = true) (hc : c ∈ d :: ds) : isBlank c = false := by
  rcases List.mem_cons.mp hc with rfl | hc
  · exact hd
  · exact isBlank_of_isDigit (hds c hc)

theorem trimFront_of_head {cs : List Char} (h : ∀ c ∈ cs.head?, isBlank c = false) :
    trimFront cs = cs := by
  cases cs with
  | nil => rfl
  | cons c cs =>
    rw [trimFront, List.dropWhile_cons_of_neg]
    rw [h c rfl]
    decide

/-- Text that neither begins nor ends with a blank is trimmed to itself. -/
theorem trim_of_ends {s : String} (hfirst : ∀ c ∈ s.toList.head?, isBlank c = false)
    (hlast : ∀ c ∈ s.toList.getLast?, isBlank c = false) : trim s = s := by
  rw [← List.head?_reverse] at hlast
  have hback : s.toList.reverse.dropWhile isBlank = s.toList.reverse := trimFront_of_head hlast
  rw [trim, trimChars, trimFront_of_head hfirst, trimBack, hback, List.reverse_reverse,
    String.ofList_toList]

theorem trim_of_nonblank {cs : List Char} (h : ∀ c ∈ cs, isBlank c = false) :
    trim (String.ofList cs) = String.ofList cs := by
  apply trim_of_ends
  · intro c hc
    rw [String.toList_ofList] at hc
    exact h c (List.mem_of_mem_head? hc)
  · intro c hc
    rw [String.toList_ofList] at hc
    exact h c (List.mem_of_getLast? hc)

/-- What stands between two words is not looked at. -/
theorem trim_of_words {front mid back : List Char} (hfront : front ≠ []) (hback : back ≠ [])
    (h : ∀ c ∈ front ++ back, isBlank c = false) :
    trim (String.ofList (front ++ mid ++ back)) = String.ofList (front ++ mid ++ back) := by
  apply trim_of_ends
  · intro c hc
    rw [String.toList_ofList, List.append_assoc] at hc
    cases front with
    | nil => exact absurd rfl hfront
    | cons d front =>
      obtain rfl : d = c := Option.some.inj hc
      exact h d List.mem_cons_self
  · intro c hc
    rw [String.toList_ofList, List.getLast?_append, List.getLast?_eq_some_getLast hback,
      Option.some_or] at hc
    obtain rfl : back.getLast hback = c := Option.some.inj hc
    exact h _ (List.mem_append_right front (List.getLast_mem hback))

theorem trimFront_eq_nil_iff {cs : List Char} :
    trimFront cs = [] ↔ ∀ c ∈ cs, isBlank c = true :=
  List.dropWhile_eq_nil_iff

theorem trimBack_eq_nil_iff {cs : List Char} : trimBack cs = [] ↔ ∀ c ∈ cs, isBlank c = true := by
  rw [trimBack, List.reverse_eq_nil_iff, List.dropWhile_eq_nil_iff]
  simp only [List.mem_reverse]

theorem forall_blank_trimFront {cs : List Char} :
    (∀ c ∈ trimFront cs, isBlank c = true) ↔ ∀ c ∈ cs, isBlank c = true := by
  constructor
  · intro h c hc
    rw [← List.takeWhile_append_dropWhile (p := isBlank) (l := cs)] at hc
    rcases List.mem_append.mp hc with hc | hc
    · exact List.mem_takeWhile_imp hc
    · exact h c hc
  · exact fun h c hc => h c ((List.dropWhile_suffix isBlank).mem hc)

theorem trimBack_append {cs right : List Char} (h : ∀ c ∈ right, isBlank c = true) :
    trimBack (cs ++ right) = trimBack cs := by
  rw [trimBack, trimBack, List.reverse_append, List.dropWhile_append_of_pos]
  exact fun c hc => h c (List.mem_reverse.mp hc)

theorem trimFront_append {cs right : List Char} (h : ∃ c ∈ cs, isBlank c = false) :
    trimFront (cs ++ right) = trimFront cs ++ right := by
  have hne : trimFront cs ≠ [] := by
    intro hnil
    obtain ⟨c, hc, hblank⟩ := h
    rw [trimFront_eq_nil_iff.mp hnil c hc] at hblank
    cases hblank
  rw [trimFront, List.dropWhile_append, if_neg]
  · rfl
  · rwa [List.isEmpty_iff]

/-- Blanks around characters are trimmed off with those that are there already. -/
theorem trimChars_between {left cs right : List Char} (hleft : ∀ c ∈ left, isBlank c = true)
    (hright : ∀ c ∈ right, isBlank c = true) :
    trimChars (left ++ cs ++ right) = trimChars cs := by
  have hfront : trimFront (left ++ cs ++ right) = trimFront (cs ++ right) := by
    rw [List.append_assoc]
    exact List.dropWhile_append_of_pos hleft
  rw [trimChars, trimChars, hfront]
  by_cases hcs : ∃ c ∈ cs, isBlank c = false
  · rw [trimFront_append hcs, trimBack_append hright]
  · have hblank : ∀ c ∈ cs, isBlank c = true := by simpa using hcs
    rw [trimFront_eq_nil_iff.mpr hblank,
      trimFront_eq_nil_iff.mpr (List.forall_mem_append.mpr ⟨hblank, hright⟩)]

theorem trim_between {left right : String} (hleft : isBlankText left = true)
    (hright : isBlankText right = true) (s : String) : trim (left ++ s ++ right) = trim s := by
  rw [trim, trim, String.toList_append, String.toList_append,
    trimChars_between (List.all_eq_true.mp hleft) (List.all_eq_true.mp hright)]

/-- Nothing is left just of a blank text. -/
theorem isEmpty_trim (s : String) : (trim s).isEmpty = isBlankText s := by
  rw [Bool.eq_iff_iff, String.isEmpty_iff, isBlankText, List.all_eq_true, trim,
    String.ofList_eq_empty_iff, trimChars, trimBack_eq_nil_iff, forall_blank_trimFront]

end TablePipeline.Text
