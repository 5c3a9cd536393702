import TablePipeline.Proofs.Frame.Steps

/-!
# Frames of results

A result that fits a layout becomes a frame with the columns of the layout: the fixed ones one for
one, or the declared ones of a source that is read whole.
-/

set_option autoImplicit false

namespace TablePipeline

/-- A result as a layout expects it: a wildcard of declared columns finds them all, and without a
wildcard there is one column for each item. -/
def Layout.Fits (layout : List LayoutItem) (result : RowSet) : Prop :=
  result.Rectangular ∧ match layout with
    | [.wildcard _ (some declared)] => ∀ c ∈ declared, c.name ∈ result.columns
    | _ => result.columns.length = layout.length

namespace Layout

theorem Fits.length_eq {cs : List PlanColumn} {result : RowSet}
    (h : Fits (cs.map LayoutItem.column) result) : result.columns.length = cs.length := by
  cases cs with
  | nil => exact h.2
  | cons c cs =>
    cases cs with
    | nil => exact h.2
    | cons d ds => exact h.2.trans (List.length_map _)

theorem fixedCount_columns (cs : List PlanColumn) :
    fixedCount (cs.map LayoutItem.column) = cs.length := by
  induction cs with
  | nil => rfl
  | cons c cs ih =>
    show (fixedCount (cs.map LayoutItem.column)) + 1 = cs.length + 1
    rw [ih]

theorem wildcardCount_columns (cs : List PlanColumn) :
    wildcardCount (cs.map LayoutItem.column) = 0 := by
  induction cs with
  | nil => rfl
  | cons c cs ih => exact ih

theorem place_columns (result : RowSet) (nameless : Bool) (width position : Nat)
    (cs : List PlanColumn) :
    place result nameless width position (cs.map LayoutItem.column) =
      .ok (cs.zipIdx position) := by
  induction cs generalizing position with
  | nil => rfl
  | cons c cs ih =>
    rw [List.map_cons, place, ih, List.zipIdx_cons]
    rfl

theorem openWidth_columns {result : RowSet} {cs : List PlanColumn}
    (h : result.columns.length = cs.length) :
    openWidth (cs.map LayoutItem.column) result = .ok 0 := by
  unfold openWidth
  simp only [wildcardCount_columns, fixedCount_columns, h]
  split
  · omega
  · split
    · rfl
    · simp

theorem openWidth_wildcard (qualifier : String) (declared : Option (List DeclaredColumn))
    (result : RowSet) :
    openWidth [.wildcard qualifier declared] result = .ok result.columns.length := by
  have hw : wildcardCount [.wildcard qualifier declared] = 1 := rfl
  have hf : fixedCount [.wildcard qualifier declared] = 0 := rfl
  unfold openWidth
  simp only [hw, hf]
  split
  · omega
  · split
    · rename_i h
      rw [h.1]
    · simp

theorem declaredColumns_ok (qualifier : String) {names : List String} (nameless : Bool)
    (position : Nat) {declared : List DeclaredColumn} (h : ∀ c ∈ declared, c.name ∈ names) :
    ∃ placed, declaredColumns qualifier names nameless position declared = .ok placed ∧
      placed.map (·.1) = declared.map fun c => ⟨some qualifier, c.name, c.type?⟩ := by
  unfold declaredColumns
  induction declared with
  | nil => exact ⟨[], rfl, rfl⟩
  | cons c cs ih =>
    obtain ⟨placed, hp, hmap⟩ := ih fun d hd => h d (List.mem_cons_of_mem _ hd)
    cases hfind : names.findIdx? (· == c.name) with
    | none =>
      have hnone := List.findIdx?_eq_none_iff.mp hfind c.name (h c List.mem_cons_self)
      simp at hnone
    | some offset =>
      refine ⟨(⟨some qualifier, c.name, c.type?⟩, position + offset) :: placed, ?_, ?_⟩
      · rw [List.mapM_cons, hp, hfind]
        rfl
      · rw [List.map_cons, hmap, List.map_cons]

end Layout

namespace Frame

theorem ofResult_rectangular {layout : List LayoutItem} {result : RowSet} {f : Frame}
    (hr : result.Rectangular) (h : ofResult layout result = .ok f) : f.Rectangular := by
  unfold ofResult at h
  obtain ⟨width, _, h⟩ := Outcome.bind_eq_ok.mp h
  obtain ⟨placed, _, h⟩ := Outcome.bind_eq_ok.mp h
  obtain rfl := Outcome.pure_eq_ok.mp h
  intro row hrow
  show row.length = (placed.map (·.1)).length
  dsimp only at hrow
  split at hrow
  · rename_i hplaces
    have hlen := congrArg List.length hplaces
    rw [List.length_map, List.length_range] at hlen
    rw [hr row hrow, List.length_map, hlen]
  · obtain ⟨row', _, rfl⟩ := List.mem_map.mp hrow
    simp only [List.length_map]

theorem ofResult_of_place {layout : List LayoutItem} {result : RowSet} {width : Nat}
    {placed : List (PlanColumn × Nat)} (hw : Layout.openWidth layout result = .ok width)
    (hp : Layout.place result (result.columns.isEmpty && result.rows.isEmpty) width 0 layout =
      .ok placed) :
    ∃ rows, ofResult layout result = .ok ⟨placed.map (·.1), rows⟩ := by
  unfold ofResult
  rw [hw]
  exact ⟨_, Outcome.bind_eq_ok.mpr ⟨width, rfl, Outcome.bind_eq_ok.mpr ⟨placed, hp, rfl⟩⟩⟩

theorem ofResult_columns {result : RowSet} {cs : List PlanColumn}
    (h : result.columns.length = cs.length) :
    ∃ rows, ofResult (cs.map LayoutItem.column) result = .ok ⟨cs, rows⟩ := by
  have hp := Layout.place_columns result (result.columns.isEmpty && result.rows.isEmpty) 0 0 cs
  obtain ⟨rows, hrows⟩ := ofResult_of_place (Layout.openWidth_columns h) hp
  rw [List.zipIdx_map_fst] at hrows
  exact ⟨rows, hrows⟩

theorem ofResult_declared {qualifier : String} {declared : List DeclaredColumn} {result : RowSet}
    (h : ∀ c ∈ declared, c.name ∈ result.columns) :
    ∃ rows, ofResult [.wildcard qualifier (some declared)] result =
      .ok ⟨declared.map fun c => ⟨some qualifier, c.name, c.type?⟩, rows⟩ := by
  have hnames : Layout.namesFrom result result.columns.length 0 = .ok result.columns := by
    rw [Layout.namesFrom, if_pos (by omega), List.drop_zero, List.take_length]
  obtain ⟨placed, hplaced, hmap⟩ := Layout.declaredColumns_ok qualifier
    (result.columns.isEmpty && result.rows.isEmpty) 0 h
  have hp : Layout.place result (result.columns.isEmpty && result.rows.isEmpty)
      result.columns.length 0 [.wildcard qualifier (some declared)] = .ok placed := by
    unfold Layout.place
    refine Outcome.bind_eq_ok.mpr ⟨_, hnames, Outcome.bind_eq_ok.mpr ⟨placed, hplaced, ?_⟩⟩
    exact congrArg Except.ok (List.append_nil placed)
  obtain ⟨rows, hrows⟩ := ofResult_of_place (Layout.openWidth_wildcard _ _ _) hp
  rw [hmap] at hrows
  exact ⟨rows, hrows⟩

end Frame

end TablePipeline
