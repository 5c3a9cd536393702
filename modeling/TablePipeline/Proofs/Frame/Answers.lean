import TablePipeline.Proofs.Frame.EmptyResults

/-!
# Answers that fill a layout

An answer fills a layout if its columns fall into parts, one for each item: one column for a fixed
item and some number, the same throughout, for a wildcard. The places that a layout counts up are
then those of the parts, so the rows of the answer are the rows of its frame.
-/

set_option autoImplicit false

namespace TablePipeline

variable {layout : List LayoutItem} {names : List (List String)} {answer : RowSet} {width : Nat}

namespace LayoutItem

/-- The part of an answer that an item takes, if a wildcard is as wide as told. -/
def Takes (width : Nat) : LayoutItem → List String → Prop
  | .column _, names => names.length = 1
  | .wildcard _ declared, names => declared = none ∧ names.length = width

def landed : LayoutItem → List String → List PlanColumn
  | .column c, _ => [c]
  | .wildcard qualifier _, names => names.map fun n => ⟨some qualifier, n, none⟩

theorem Takes.length_landed {item : LayoutItem} {ns : List String} (h : item.Takes width ns) :
    (item.landed ns).length = ns.length := by
  cases item with
  | column c => exact h.symm
  | wildcard qualifier declared => exact List.length_map _

end LayoutItem

namespace Layout

open LayoutItem (Takes landed)

def landed (layout : List LayoutItem) (names : List (List String)) : List (List PlanColumn) :=
  List.zipWith LayoutItem.landed layout names

theorem lengths_landed (h : List.Forall₂ (Takes width) layout names) :
    (landed layout names).map List.length = names.map List.length := by
  induction h with
  | nil => rfl
  | cons hitem _ ih =>
    rw [landed, List.zipWith_cons_cons, List.map_cons, List.map_cons, hitem.length_landed]
    exact congrArg _ ih

theorem length_landed_flatten (h : List.Forall₂ (Takes width) layout names) :
    (landed layout names).flatten.length = names.flatten.length := by
  rw [List.length_flatten, List.length_flatten, lengths_landed h]

theorem length_flatten (h : List.Forall₂ (Takes width) layout names) :
    names.flatten.length = fixedCount layout + wildcardCount layout * width := by
  induction h with
  | nil => simp [fixedCount, wildcardCount]
  | @cons item ns layout names hitem _ ih =>
    rw [List.flatten_cons, List.length_append, ih]
    cases item with
    | column c =>
      rw [fixedCount_column, wildcardCount_column, show ns.length = 1 from hitem]
      omega
    | wildcard qualifier declared =>
      rw [fixedCount_wildcard, wildcardCount_wildcard, hitem.2, Nat.add_mul, Nat.one_mul]
      omega

/-- A wildcard gets the width that it has, and none at all counts as one of no columns. -/
theorem openWidth_takes (hcount : wildcardCount layout ≤ 1)
    (hwidth : wildcardCount layout = 0 → width = 0)
    (h : List.Forall₂ (Takes width) layout names) (hanswer : answer.columns = names.flatten) :
    openWidth layout answer = .ok width := by
  have hcases : wildcardCount layout = 0 ∧ width = 0 ∨ wildcardCount layout = 1 :=
    (Nat.le_one_iff_eq_zero_or_eq_one.mp hcount).imp_left fun h => ⟨h, hwidth h⟩
  have hsum : answer.columns.length = fixedCount layout + width := by
    rw [hanswer, length_flatten h]
    rcases hcases with ⟨hzero, rfl⟩ | hone
    · rw [Nat.mul_zero]
    · rw [hone, Nat.one_mul]
  unfold openWidth
  dsimp only
  rw [if_neg (Nat.not_lt.mpr hcount)]
  split
  · rename_i hempty
    exact congrArg Except.ok (by omega)
  · rw [if_pos (by omega), hsum, Nat.add_sub_cancel_left]

theorem namesFrom_append {before ns rest : List String}
    (hanswer : answer.columns = before ++ ns ++ rest) :
    namesFrom answer ns.length before.length = .ok ns := by
  rw [namesFrom, hanswer, List.append_assoc, List.drop_left, List.take_left, if_pos]
  simp only [List.length_append]
  omega

/-- The columns of a filled layout stand where those of the answer stand. -/
theorem place_takes (nameless : Bool) (before : List String)
    (h : List.Forall₂ (Takes width) layout names)
    (hanswer : answer.columns = before ++ names.flatten) :
    place answer nameless width before.length layout =
      .ok ((landed layout names).flatten.zipIdx before.length) := by
  induction h generalizing before with
  | nil => rfl
  | @cons item ns layout names hitem _ ih =>
    rw [List.flatten_cons, ← List.append_assoc] at hanswer
    have hrest := ih _ hanswer
    rw [List.length_append] at hrest
    rw [landed, List.zipWith_cons_cons, List.flatten_cons, List.zipIdx_append, hitem.length_landed]
    cases item with
    | column c =>
      rw [show ns.length = 1 from hitem] at hrest ⊢
      exact Outcome.bind_eq_ok.mpr ⟨_, hrest, rfl⟩
    | wildcard qualifier declared =>
      obtain ⟨rfl, rfl⟩ := hitem
      refine Outcome.bind_eq_ok.mpr ⟨ns, namesFrom_append hanswer, ?_⟩
      refine Outcome.bind_eq_ok.mpr ⟨_, rfl, Outcome.bind_eq_ok.mpr ⟨_, hrest, ?_⟩⟩
      refine congrArg (fun here => Except.ok (here ++ _)) ?_
      rw [LayoutItem.landed, List.zipIdx_map]
      rw [List.zipIdx_eq_map_add (i := before.length), List.map_map]
      rfl

end Layout

namespace Frame

/-- The frame of an answer that fills a layout has its rows, and the columns of the layout over
them. -/
theorem ofResult_takes (hcount : Layout.wildcardCount layout ≤ 1)
    (hwidth : Layout.wildcardCount layout = 0 → width = 0)
    (h : List.Forall₂ (LayoutItem.Takes width) layout names)
    (hanswer : answer.columns = names.flatten) :
    ofResult layout answer = .ok ⟨(Layout.landed layout names).flatten, answer.rows⟩ := by
  have hlength : (Layout.landed layout names).flatten.length = answer.columns.length := by
    rw [Layout.length_landed_flatten h, hanswer]
  have hplaces : ((Layout.landed layout names).flatten.zipIdx 0).map (·.2) =
      List.range answer.columns.length := by
    rw [List.zipIdx_map_snd, hlength, List.range_eq_range']
  have hplaced := Layout.place_takes (answer.columns.isEmpty && answer.rows.isEmpty) [] h
    hanswer
  rw [List.length_nil] at hplaced
  unfold ofResult
  rw [Layout.openWidth_takes hcount hwidth h hanswer]
  refine Outcome.bind_eq_ok.mpr ⟨width, rfl, Outcome.bind_eq_ok.mpr ⟨_, hplaced, ?_⟩⟩
  dsimp only
  rw [if_pos hplaces, List.zipIdx_map_fst]
  rfl

end Frame

end TablePipeline
