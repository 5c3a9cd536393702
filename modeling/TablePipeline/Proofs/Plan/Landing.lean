import TablePipeline.Proofs.Frame.Answers
import TablePipeline.Proofs.Plan.Bases

/-!
# Where the columns of an answer land

The select list and the layout of a stage are both read off its schema, item by item, and at most
one source of a stage is open. So an answer that gives the items of the list their columns in turn
fills the layout, and each of its columns lands under the item that asked for it.
-/

set_option autoImplicit false

namespace TablePipeline

open Sql (Expr SelectItem)

/-- A database answers an expression with one column, and a wildcard with any number of them. -/
def Sql.SelectItem.Answers : SelectItem → List String → Prop
  | .expr _ _, names => names.length = 1
  | .wildcard _, _ => True

/-- The columns that stand for an item of a schema over the part of an answer that it is given. -/
def SchemaItem.landed : SchemaItem Expr → List String → List PlanColumn
  | .column c, _ => [c.plain]
  | .openSource qualifier _, names => names.map fun n => ⟨some qualifier, n, none⟩

/-- The part of a list at a place, if the parts are as wide as told. -/
def partAt {α : Type} : List Nat → Nat → List α → List α
  | [], _, _ => []
  | width :: _, 0, xs => xs.take width
  | width :: widths, i + 1, xs => partAt widths i (xs.drop width)

theorem partAt_flatten {α : Type} {parts : List (List α)} {i : Nat} {part : List α}
    (h : parts[i]? = some part) : partAt (parts.map List.length) i parts.flatten = part := by
  induction parts generalizing i with
  | nil => cases h
  | cons first parts ih =>
    rw [List.map_cons, List.flatten_cons]
    cases i with
    | zero =>
      obtain rfl := Option.some.inj h
      exact List.take_left
    | succ i =>
      rw [partAt, List.drop_left]
      exact ih h

theorem Layout.wildcards_eq (layout : List LayoutItem) :
    wildcards layout = wildcardCount layout := by
  unfold wildcards wildcardCount
  rw [List.countP_eq_length_filter]
  rfl

namespace SqlStage

variable {st : SqlStage} {names : List (List String)}

theorem landed_layoutItem (item : SchemaItem Expr) (ns : List String) :
    (layoutItem item).landed ns = item.landed ns := by
  cases item <;> rfl

theorem wildcardCount_layout (st : SqlStage) :
    Layout.wildcardCount st.layout = st.schema.opens.length := by
  rw [← Layout.wildcards_eq, wildcards_layout]

/-- The select list item by item: without open sources an answer fills a layout at any width of its
wildcards. -/
theorem takes_of_closed {s : Schema Expr} {k : Nat} (hopens : s.opens = [])
    (h : List.Forall₂ SelectItem.Answers
      ((s.zipIdx k).map fun (item, i) => selectItem item i) names)
    (width : Nat) : List.Forall₂ (LayoutItem.Takes width) (s.map layoutItem) names := by
  induction s generalizing k names with
  | nil => cases h; exact .nil
  | cons item s ih =>
    obtain ⟨ns, names, hitem, hrest, rfl⟩ := List.forall₂_cons_left_iff.mp h
    cases item with
    | column c => exact .cons hitem (ih hopens hrest)
    | openSource q t => cases hopens

/-- The only open source gives the width, and no item behind it has any. -/
theorem exists_takes {s : Schema Expr} {k : Nat} (hopens : s.opens.length ≤ 1)
    (h : List.Forall₂ SelectItem.Answers
      ((s.zipIdx k).map fun (item, i) => selectItem item i) names) :
    ∃ width, List.Forall₂ (LayoutItem.Takes width) (s.map layoutItem) names ∧
      (s.opens = [] → width = 0) := by
  induction s generalizing k names with
  | nil => cases h; exact ⟨0, .nil, fun _ => rfl⟩
  | cons item s ih =>
    obtain ⟨ns, names, hitem, hrest, rfl⟩ := List.forall₂_cons_left_iff.mp h
    cases item with
    | column c =>
      obtain ⟨width, htakes, hwidth⟩ := ih hopens hrest
      exact ⟨width, .cons hitem htakes, hwidth⟩
    | openSource q t =>
      have hclosed : Schema.opens s = [] :=
        List.eq_nil_of_length_eq_zero (Nat.le_zero.mp (Nat.le_of_succ_le_succ hopens))
      exact ⟨ns.length, .cons ⟨rfl, rfl⟩ (takes_of_closed hclosed hrest _), nofun⟩

/-- An answer to the select list of a stage lands item by item, and keeps its rows. -/
theorem ofResult_answer (hopens : st.schema.opens.length ≤ 1) {answer : RowSet}
    (h : List.Forall₂ SelectItem.Answers st.select.projection names)
    (hanswer : answer.columns = names.flatten) :
    Frame.ofResult st.layout answer =
        .ok ⟨(List.zipWith SchemaItem.landed st.schema names).flatten, answer.rows⟩ ∧
      (List.zipWith SchemaItem.landed st.schema names).map List.length =
        names.map List.length := by
  obtain ⟨width, htakes, hwidth⟩ := exists_takes hopens h
  have hlanded : Layout.landed st.layout names =
      List.zipWith SchemaItem.landed st.schema names := by
    rw [Layout.landed, layout, List.zipWith_map_left]
    simp only [landed_layoutItem]
  rw [← hlanded]
  refine ⟨Frame.ofResult_takes ?_ ?_ htakes hanswer, Layout.lengths_landed htakes⟩
  · rw [wildcardCount_layout]
    exact hopens
  · rw [wildcardCount_layout, List.length_eq_zero_iff]
    exact hwidth

end SqlStage

namespace Graph

variable {steps : List Step} {stages : List Stage} {st : SqlStage}

/-- An answer that gives each item of the select list of a stage its columns becomes a frame with
the same rows. Part by part its columns are those that the item of the schema stands for, at the
places where the answer has them. -/
theorem compileSteps_landed (h : compileSteps [] 0 steps = .ok stages)
    (hst : Stage.sql st ∈ stages) :
    st.schema.opens.length ≤ 1 ∧
    ∀ (answer : RowSet) (names : List (List String)), answer.Rectangular →
      List.Forall₂ SelectItem.Answers st.select.projection names →
      answer.columns = names.flatten →
      ∃ f, Frame.ofResult st.layout answer = .ok f ∧ f.Rectangular ∧ f.rows = answer.rows ∧
        f.columns = (List.zipWith SchemaItem.landed st.schema names).flatten ∧
        ∀ i item, st.schema[i]? = some item → ∃ ns, names[i]? = some ns ∧
          st.select.projection[i]? = some (SqlStage.selectItem item i) ∧
          partAt (names.map List.length) i answer.columns = ns ∧
          partAt (names.map List.length) i f.columns = item.landed ns := by
  have hopens := (show st.Based steps from compileSteps_based h _ hst).opens
  refine ⟨hopens, fun answer names hrect hanswers hcolumns => ?_⟩
  obtain ⟨hresult, hlengths⟩ := SqlStage.ofResult_answer hopens hanswers hcolumns
  refine ⟨_, hresult, Frame.ofResult_rectangular hrect hresult, rfl, rfl, fun i item hitem => ?_⟩
  have hprojection : st.select.projection[i]? = some (SqlStage.selectItem item i) := by
    show (st.schema.zipIdx.map _)[i]? = _
    rw [List.getElem?_map, List.getElem?_zipIdx, hitem, Nat.zero_add]
    rfl
  obtain ⟨ns, hns⟩ : ∃ ns, names[i]? = some ns := by
    have hlt := (List.getElem?_eq_some_iff.mp hprojection).1
    exact ⟨_, List.getElem?_eq_getElem (hanswers.length_eq ▸ hlt)⟩
  refine ⟨ns, hns, hprojection, hcolumns ▸ partAt_flatten hns, ?_⟩
  rw [← hlengths]
  refine partAt_flatten ?_
  rw [List.getElem?_zipWith, hitem, hns]

/-- Customers with the orders of an open source, and a column that is computed behind them. -/
def ordersOfCustomers : List Step := [
  ⟨"c", .source ⟨"shop", .postgres, "customers", "c", some [⟨"id", some .integer⟩]⟩, []⟩,
  ⟨"o", .source ⟨"shop", .postgres, "orders", "o", none⟩, []⟩,
  ⟨"both", .join ⟨.inner, ⟨some "c", "id"⟩, ⟨some "o", "customer"⟩⟩, [0, 1]⟩,
  ⟨"next", .arithmetic ⟨[.column ⟨some "c", "id"⟩, .literal (.integer 1)], .add, "next", .null,
    .nullOut⟩, [2]⟩]

def nextOfCustomers : SqlStage where
  connection := "shop"
  kind := .postgres
  source := .table "customers" "c"
  joins := [.mk .inner (.table "orders" "o")
    [.mk (.column (some "c") "id") .eq (.expr (.column (some "o") "customer"))]]
  filters := []
  tables := ["c", "o"]
  schema := [.column ⟨some "c", "id", some .integer, .column (some "c") "id"⟩,
    .openSource "o" "o",
    .column ⟨none, "next", some .integer,
      .binary .add (.column (some "c") "id") (.literal (.integer 1))⟩]

/-- The open source has two columns in the database. -/
def answerOfOrders : RowSet :=
  ⟨["__c0", "customer", "amount", "__c2"], [[.integer 7, .integer 7, .integer 20, .integer 8]]⟩

theorem compileSteps_landed_ordersOfCustomers :
    ∃ stages f, compileSteps [] 0 ordersOfCustomers = .ok stages ∧
      Stage.sql nextOfCustomers ∈ stages ∧
      Frame.ofResult nextOfCustomers.layout answerOfOrders = .ok f ∧
      f.rows = [[.integer 7, .integer 7, .integer 20, .integer 8]] ∧
      f.columns = [⟨some "c", "id", some .integer⟩, ⟨some "o", "customer", none⟩,
        ⟨some "o", "amount", none⟩, ⟨none, "next", some .integer⟩] := by
  obtain ⟨c, o, both, hstages⟩ : ∃ c o both, compileSteps [] 0 ordersOfCustomers =
      .ok [c, o, both, .sql nextOfCustomers] := ⟨_, _, _, rfl⟩
  have hst : Stage.sql nextOfCustomers ∈ [c, o, both, .sql nextOfCustomers] := by simp
  have hanswers : List.Forall₂ SelectItem.Answers nextOfCustomers.select.projection
      [["__c0"], ["customer", "amount"], ["__c2"]] := .cons rfl (.cons trivial (.cons rfl .nil))
  have hrect : answerOfOrders.Rectangular := by unfold RowSet.Rectangular; decide
  obtain ⟨f, hf, -, hrows, hcolumns, -⟩ :=
    (compileSteps_landed hstages hst).2 answerOfOrders _ hrect hanswers rfl
  exact ⟨_, f, hstages, hst, hf, hrows, hcolumns⟩

end Graph

end TablePipeline
