import Std.Data.HashMap.Lemmas
import TablePipeline.Rule.Join

/-!
# Joins as nested loops

The index of the right rows holds under each key the rows of that key in their order, so joining
through it visits, for each left row, the right rows that match it.
-/

set_option autoImplicit false

namespace TablePipeline.Rows

/-- Two rows match where both have a key and the keys are the same. -/
def matching (leftKey rightKey : Nat) (row other : Row) : Bool :=
  (JoinKey.ofRow? leftKey row).isSome &&
    JoinKey.ofRow? rightKey other == JoinKey.ofRow? leftKey row

theorem addToIndex_getD (position : Nat) (index : KeyIndex) (row : Row) (k : JoinKey) :
    (addToIndex position index row).getD k #[] =
      if JoinKey.ofRow? position row = some k then (index.getD k #[]).push row
      else index.getD k #[] := by
  unfold addToIndex
  cases hk : JoinKey.ofRow? position row with
  | none => simp
  | some k' =>
    rw [Std.HashMap.getD_insert]
    by_cases h : k' = k
    · subst h
      simp
    · simp [h]

theorem foldl_addToIndex_getD (position : Nat) (index : KeyIndex) (rows : List Row) (k : JoinKey) :
    (rows.foldl (addToIndex position) index).getD k #[] =
      index.getD k #[] ++
        (rows.filter fun row => JoinKey.ofRow? position row == some k).toArray := by
  induction rows generalizing index with
  | nil => simp
  | cons row rows ih =>
    rw [List.foldl_cons, ih, addToIndex_getD, List.filter_cons]
    by_cases h : JoinKey.ofRow? position row = some k
    · simp [h]
    · simp [h]

theorem indexBy_getD (position : Nat) (rows : List Row) (k : JoinKey) :
    (indexBy position rows).getD k #[] =
      (rows.filter fun row => JoinKey.ofRow? position row == some k).toArray := by
  unfold indexBy
  rw [foldl_addToIndex_getD]
  simp

theorem filter_matching_of_none {leftKey : Nat} {row : Row}
    (h : JoinKey.ofRow? leftKey row = none) (right : List Row) (rightKey : Nat) :
    right.filter (matching leftKey rightKey row) = [] := by
  apply List.filter_eq_nil_iff.mpr
  intro other _
  simp [matching, h]

theorem filter_matching_of_some {leftKey : Nat} {row : Row} {k : JoinKey}
    (h : JoinKey.ofRow? leftKey row = some k) (right : List Row) (rightKey : Nat) :
    right.filter (matching leftKey rightKey row) =
      right.filter fun other => JoinKey.ofRow? rightKey other == some k := by
  apply List.filter_congr
  intro other _
  simp [matching, h]

/-- Joining through the index is joining each left row with the right rows that match it. -/
theorem join_eq_flatMap (kind : Sql.JoinKind) (left : List Row) (leftKey : Nat)
    (right : List Row) (rightKey width : Nat) :
    join kind left leftKey right rightKey width =
      left.flatMap fun row =>
        joinRow kind width (right.filter (matching leftKey rightKey row)).toArray row := by
  unfold join
  refine congrArg (left.flatMap ·) (funext fun row => ?_)
  dsimp only
  cases hk : JoinKey.ofRow? leftKey row with
  | none => rw [filter_matching_of_none hk]
  | some k => simp only [filter_matching_of_some hk, indexBy_getD]

theorem length_of_mem_join {kind : Sql.JoinKind} {left right : List Row}
    {leftKey rightKey m n : Nat} (hl : ∀ row ∈ left, row.length = m)
    (hr : ∀ row ∈ right, row.length = n) {row : Row}
    (h : row ∈ join kind left leftKey right rightKey n) : row.length = m + n := by
  rw [join_eq_flatMap, List.mem_flatMap] at h
  obtain ⟨l, hlm, h⟩ := h
  unfold joinRow at h
  split at h
  · cases kind with
    | inner => simp at h
    | left =>
      obtain rfl := List.mem_singleton.mp h
      rw [List.length_append, List.length_replicate, hl l hlm]
  · obtain ⟨r, hrm, rfl⟩ := List.mem_map.mp h
    have hr' : r ∈ right := (List.mem_filter.mp (by simpa using hrm)).1
    rw [List.length_append, hl l hlm, hr r hr']

end TablePipeline.Rows
