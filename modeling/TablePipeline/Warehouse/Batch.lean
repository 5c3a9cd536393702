/-!
# Batches

Rows are written in pieces of bounded size. The pieces hold all rows in their order, none is empty,
and all but the last are full.
-/

set_option autoImplicit false

namespace TablePipeline

/-- Cuts a list into pieces of `n + 1` elements; the last may be shorter. -/
def batchesOf {α : Type} (n : Nat) (xs : List α) : List (List α) :=
  if _h : xs = [] then [] else xs.take (n + 1) :: batchesOf n (xs.drop (n + 1))
termination_by xs.length
decreasing_by
  have := List.length_pos_iff.2 _h
  simp only [List.length_drop]
  omega

theorem batchesOf_flatten {α : Type} (n : Nat) (xs : List α) : (batchesOf n xs).flatten = xs := by
  fun_induction batchesOf n xs with
  | case1 => simp_all
  | case2 xs _ ih => rw [List.flatten_cons, ih, List.take_append_drop]

theorem length_le_of_mem_batchesOf {α : Type} {n : Nat} {xs b : List α}
    (h : b ∈ batchesOf n xs) : b.length ≤ n + 1 := by
  fun_induction batchesOf n xs with
  | case1 => simp at h
  | case2 xs _ ih =>
    rcases List.mem_cons.1 h with rfl | h
    · simp only [List.length_take]; omega
    · exact ih h

theorem ne_nil_of_mem_batchesOf {α : Type} {n : Nat} {xs b : List α}
    (h : b ∈ batchesOf n xs) : b ≠ [] := by
  fun_induction batchesOf n xs with
  | case1 => simp at h
  | case2 xs hne ih =>
    rcases List.mem_cons.1 h with rfl | h
    · simpa using hne
    · exact ih h

theorem flatten_take_batchesOf {α : Type} (n k : Nat) (xs : List α) :
    ((batchesOf n xs).take k).flatten = xs.take (k * (n + 1)) := by
  induction k generalizing xs with
  | zero => simp
  | succ k ih =>
    rw [batchesOf]
    split
    · simp_all
    · rw [List.take_succ_cons, List.flatten_cons, ih, Nat.succ_mul, Nat.add_comm (k * (n + 1))]
      exact List.take_add.symm

theorem length_batchesOf_le_iff {α : Type} (n limit : Nat) (xs : List α) :
    (batchesOf n xs).length ≤ limit ↔ xs.length ≤ limit * (n + 1) := by
  fun_induction batchesOf n xs generalizing limit with
  | case1 => simp
  | case2 xs hne ih =>
    have hpos := List.length_pos_iff.mpr hne
    cases limit with
    | zero => simp only [List.length_cons]; omega
    | succ limit =>
      rw [List.length_cons, Nat.succ_le_succ_iff, ih, List.length_drop, Nat.succ_mul]
      omega

end TablePipeline
