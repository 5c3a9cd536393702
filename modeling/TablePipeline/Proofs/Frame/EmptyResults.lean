import TablePipeline.Proofs.Frame.Results

/-!
# Empty results and the range of a wildcard

A wildcard takes the columns of a result that the fixed ones leave, so it stays in its range unless
the result is an empty one whose columns were not told. Such a result has no column at all, while
each fixed column moves the place of the wildcard on: it leaves its range just when a fixed column
stands before it.
-/

set_option autoImplicit false

namespace TablePipeline

def LayoutItem.told : LayoutItem → List PlanColumn
  | .column c => [c]
  | .wildcard qualifier (some declared) => declared.map fun c => ⟨some qualifier, c.name, c.type?⟩
  | .wildcard _ none => []

/-- A fault that is none of range. -/
def LayoutFault.InRange : LayoutFault → Prop
  | .outOfRange .. => False
  | _ => True

namespace Layout

open Outcome (Ends)

@[simp]
theorem fixedCount_column (c : PlanColumn) (items : List LayoutItem) :
    fixedCount (.column c :: items) = fixedCount items + 1 := rfl

@[simp]
theorem fixedCount_wildcard (qualifier : String) (declared : Option (List DeclaredColumn))
    (items : List LayoutItem) :
    fixedCount (.wildcard qualifier declared :: items) = fixedCount items := rfl

@[simp]
theorem wildcardCount_column (c : PlanColumn) (items : List LayoutItem) :
    wildcardCount (.column c :: items) = wildcardCount items := rfl

@[simp]
theorem wildcardCount_wildcard (qualifier : String) (declared : Option (List DeclaredColumn))
    (items : List LayoutItem) :
    wildcardCount (.wildcard qualifier declared :: items) = wildcardCount items + 1 := rfl

@[simp]
theorem findIdx_column (c : PlanColumn) (items : List LayoutItem) :
    (LayoutItem.column c :: items).findIdx isWildcard = items.findIdx isWildcard + 1 := by
  rw [List.findIdx_cons]
  rfl

@[simp]
theorem findIdx_wildcard (qualifier : String) (declared : Option (List DeclaredColumn))
    (items : List LayoutItem) :
    (LayoutItem.wildcard qualifier declared :: items).findIdx isWildcard = 0 := by
  rw [List.findIdx_cons]
  rfl

theorem declaredColumns_ends (qualifier : String) (names : List String) (nameless : Bool)
    (position : Nat) (declared : List DeclaredColumn) :
    Ends (fun _ => True) LayoutFault.InRange
      (declaredColumns qualifier names nameless position declared) := by
  unfold declaredColumns
  refine (Ends.mapM (Q := fun _ => True) fun c _ => ?_).mono fun _ _ => trivial
  cases names.findIdx? (· == c.name) with
  | some offset => trivial
  | none =>
    cases nameless with
    | true => trivial
    | false => trivial

/-- The width of a wildcard is what fills the result, except for an empty one. -/
theorem openWidth_ends (layout : List LayoutItem) {result : RowSet} (h : result ≠ .empty) :
    Ends (fun w => fixedCount layout + wildcardCount layout * w = result.columns.length)
      LayoutFault.InRange (openWidth layout result) := by
  have hne : ¬ (result.columns.length = 0 ∧ result.rows.isEmpty) := by
    rintro ⟨hcolumns, hrows⟩
    obtain ⟨columns, rows⟩ := result
    obtain rfl := List.eq_nil_of_length_eq_zero hcolumns
    obtain rfl := List.isEmpty_iff.mp hrows
    exact h rfl
  unfold openWidth
  dsimp only
  rw [if_neg hne]
  split
  · trivial
  · rename_i hcount
    split
    · rename_i hwidth
      show fixedCount layout + wildcardCount layout * _ = _
      rcases hwidth.2 with hone | hfixed
      · rw [hone, Nat.one_mul]
        omega
      · rw [hfixed, Nat.sub_self, Nat.mul_zero, Nat.add_zero]
    · trivial

theorem openWidth_empty {layout : List LayoutItem} (h : wildcardCount layout ≤ 1) :
    openWidth layout .empty = .ok 0 := by
  unfold openWidth
  dsimp only
  rw [if_neg (by omega), if_pos ⟨rfl, rfl⟩]

theorem openWidth_manyWildcards {layout : List LayoutItem} (h : 1 < wildcardCount layout)
    (result : RowSet) : openWidth layout result = .error .manyWildcards :=
  if_pos h

/-- As long as the items from a place on find room in the result, each wildcard is in its range. -/
theorem place_ends {result : RowSet} (nameless : Bool) {width : Nat} (position : Nat)
    {items : List LayoutItem}
    (h : position + (fixedCount items + wildcardCount items * width) ≤ result.columns.length) :
    Ends (fun _ => True) LayoutFault.InRange (place result nameless width position items) := by
  induction items generalizing position with
  | nil => trivial
  | cons item items ih =>
    cases item with
    | column c =>
      rw [fixedCount_column, wildcardCount_column] at h
      exact (ih (position + 1) (by omega)).bind fun _ _ => trivial
    | wildcard qualifier declared =>
      rw [fixedCount_wildcard, wildcardCount_wildcard, Nat.succ_mul] at h
      have hnames : namesFrom result width position =
          .ok ((result.columns.drop position).take width) := if_pos (by omega)
      have hrest := ih (position + width) (by omega)
      rw [place, hnames]
      cases declared with
      | none => exact hrest.bind fun _ _ => trivial
      | some declared =>
        exact (declaredColumns_ends ..).bind fun _ _ => hrest.bind fun _ _ => trivial

/-! ### Placing on an empty result -/

theorem declaredColumns_nameless (qualifier : String) (position : Nat)
    (declared : List DeclaredColumn) :
    ∃ placed, declaredColumns qualifier [] true position declared = .ok placed ∧
      placed.map (·.1) = (LayoutItem.wildcard qualifier (some declared)).told := by
  unfold declaredColumns
  induction declared with
  | nil => exact ⟨[], rfl, rfl⟩
  | cons c cs ih =>
    obtain ⟨placed, hplaced, hmap⟩ := ih
    refine ⟨(⟨some qualifier, c.name, c.type?⟩, position) :: placed, ?_, congrArg _ hmap⟩
    rw [List.mapM_cons, hplaced]
    rfl

/-- Nothing is out of range where a wildcard comes first, or none comes at all. Behind a fixed
column the place is not 0 any more, so no wildcard comes later. -/
theorem place_empty (position : Nat) {items : List LayoutItem} (hcount : wildcardCount items ≤ 1)
    (h : wildcardCount items = 1 → position + items.findIdx isWildcard = 0) :
    ∃ placed, place .empty true 0 position items = .ok placed ∧
      placed.map (·.1) = items.flatMap (·.told) := by
  induction items generalizing position with
  | nil => exact ⟨[], rfl, rfl⟩
  | cons item items ih =>
    cases item with
    | column c =>
      rw [wildcardCount_column] at hcount h
      rw [findIdx_column] at h
      obtain ⟨placed, hplaced, hmap⟩ := ih (position + 1) hcount fun hone => by
        have := h hone
        omega
      refine ⟨(c, position) :: placed, ?_, congrArg (c :: ·) hmap⟩
      rw [place, hplaced]
      rfl
    | wildcard qualifier declared =>
      rw [wildcardCount_wildcard] at hcount h
      rw [findIdx_wildcard] at h
      obtain rfl : position = 0 := h (by omega)
      obtain ⟨placed, hplaced, hmap⟩ := ih 0 (by omega) fun hone => by omega
      cases declared with
      | none => exact ⟨placed, by rw [place, hplaced]; rfl, hmap⟩
      | some declared =>
        obtain ⟨here, hhere, htold⟩ := declaredColumns_nameless qualifier 0 declared
        refine ⟨here ++ placed, ?_, by rw [List.map_append, htold, hmap, List.flatMap_cons]⟩
        have hnames : namesFrom .empty 0 0 = .ok [] := rfl
        exact Outcome.bind_eq_ok.mpr ⟨[], hnames, Outcome.bind_eq_ok.mpr ⟨here, hhere,
          Outcome.bind_eq_ok.mpr ⟨placed, hplaced, rfl⟩⟩⟩

theorem place_empty_outOfRange (position : Nat) {items : List LayoutItem}
    (hcount : wildcardCount items = 1) (h : 0 < position + items.findIdx isWildcard) :
    place .empty true 0 position items =
      .error (.outOfRange (position + items.findIdx isWildcard) 0) := by
  induction items generalizing position with
  | nil => cases hcount
  | cons item items ih =>
    cases item with
    | column c =>
      rw [findIdx_column] at h ⊢
      rw [place, ih (position + 1) hcount (by omega), Nat.add_right_comm, Nat.add_assoc]
      rfl
    | wildcard qualifier declared =>
      rw [findIdx_wildcard] at h ⊢
      have hnames : namesFrom .empty 0 position = .error (.outOfRange position 0) :=
        if_neg (by simpa [RowSet.empty] using Nat.ne_of_gt h)
      rw [place, hnames]
      rfl

end Layout

namespace Frame

open Layout
open Outcome (Ends)

theorem ofResult_empty_behind {layout : List LayoutItem} (hcount : wildcardCount layout = 1)
    (h : 0 < layout.findIdx isWildcard) :
    ofResult layout .empty = .error (.outOfRange (layout.findIdx isWildcard) 0) := by
  have hplace := place_empty_outOfRange 0 hcount (by omega)
  rw [Nat.zero_add] at hplace
  unfold ofResult
  rw [openWidth_empty (by omega)]
  show (place .empty true 0 0 layout >>= _) = _
  rw [hplace]
  rfl

theorem ofResult_empty_told {layout : List LayoutItem} (hcount : wildcardCount layout ≤ 1)
    (h : ¬ (wildcardCount layout = 1 ∧ 0 < layout.findIdx isWildcard)) :
    ofResult layout .empty = .ok ⟨layout.flatMap (·.told), []⟩ := by
  obtain ⟨placed, hplaced, hmap⟩ := place_empty 0 hcount fun hone => by omega
  unfold ofResult
  rw [openWidth_empty hcount]
  show (place .empty true 0 0 layout >>= _) = _
  rw [hplaced]
  show Except.ok (Frame.mk (placed.map (·.1)) (ite _ [] [])) = _
  rw [hmap, ite_self]

theorem ofResult_ends (layout : List LayoutItem) {result : RowSet} (h : result ≠ .empty) :
    Ends (fun _ => True) LayoutFault.InRange (ofResult layout result) := by
  unfold ofResult
  refine (openWidth_ends layout h).bind fun width hwidth => ?_
  exact (place_ends _ 0 (by omega)).bind fun _ _ => trivial

/-- Only an empty result leads out of range, and only behind a fixed column. -/
theorem empty_of_outOfRange {layout : List LayoutItem} {result : RowSet} {start length : Nat}
    (h : ofResult layout result = .error (.outOfRange start length)) :
    result = .empty ∧ wildcardCount layout = 1 ∧ 0 < start ∧
      start = layout.findIdx isWildcard ∧ length = 0 := by
  by_cases hempty : result = .empty
  · subst hempty
    have hcount : wildcardCount layout ≤ 1 := by
      refine Nat.le_of_not_lt fun hmany => ?_
      unfold ofResult at h
      rw [openWidth_manyWildcards hmany] at h
      cases h
    by_cases hbehind : wildcardCount layout = 1 ∧ 0 < layout.findIdx isWildcard
    · rw [ofResult_empty_behind hbehind.1 hbehind.2] at h
      cases h
      exact ⟨rfl, hbehind.1, hbehind.2, rfl, rfl⟩
    · rw [ofResult_empty_told hcount hbehind] at h
      cases h
  · exact ((ofResult_ends layout hempty).of_error h).elim

/-- What an empty result becomes under a layout with at most one wildcard, and the only results and
layouts that lead out of range. -/
theorem ofResult_range (layout : List LayoutItem) :
    (wildcardCount layout ≤ 1 →
      ofResult layout .empty =
        if wildcardCount layout = 1 ∧ 0 < layout.findIdx isWildcard then
          .error (.outOfRange (layout.findIdx isWildcard) 0)
        else .ok ⟨layout.flatMap (·.told), []⟩) ∧
    ∀ result start length, ofResult layout result = .error (.outOfRange start length) ↔
      result = .empty ∧ wildcardCount layout = 1 ∧ 0 < start ∧
        start = layout.findIdx isWildcard ∧ length = 0 := by
  constructor
  · intro hcount
    split
    · rename_i h
      exact ofResult_empty_behind h.1 h.2
    · rename_i h
      exact ofResult_empty_told hcount h
  · intro result start length
    constructor
    · exact empty_of_outOfRange
    · rintro ⟨rfl, hcount, hpos, rfl, rfl⟩
      exact ofResult_empty_behind hcount hpos

/-- A wildcard of a declared column before a fixed one is in its range. -/
theorem ofResult_range_wildcardFirst :
    wildcardCount [.wildcard "s" (some [⟨"id", none⟩]), .column ⟨none, "n", none⟩] ≤ 1 ∧
      ofResult [.wildcard "s" (some [⟨"id", none⟩]), .column ⟨none, "n", none⟩] .empty =
        .ok ⟨[⟨some "s", "id", none⟩, ⟨none, "n", none⟩], []⟩ :=
  ⟨by decide, (ofResult_range [.wildcard "s" (some [⟨"id", none⟩]), .column ⟨none, "n", none⟩]).1
    (by decide)⟩

/-- Behind a fixed column even a wildcard without declared columns is out of its range. -/
theorem ofResult_empty_fixedFirst :
    wildcardCount [.column ⟨some "c", "id", some .integer⟩, .wildcard "s" none] ≤ 1 ∧
      ofResult [.column ⟨some "c", "id", some .integer⟩, .wildcard "s" none] .empty =
        .error (.outOfRange 1 0) ∧
      ofResult [.column ⟨some "c", "id", some .integer⟩, .wildcard "s" none] .empty ≠
        .ok ⟨[⟨some "c", "id", some .integer⟩], []⟩ := by
  decide

end Frame

end TablePipeline
