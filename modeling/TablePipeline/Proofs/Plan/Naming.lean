import TablePipeline.Proofs.Plan.Scoping

/-!
# The aliases of a stage

What a stage of SQL carries for its columns and filters names nothing but tables of the stage, and
aliases of derived tables are new whenever they are given. No step of compilation changes that.
-/

set_option autoImplicit false

namespace TablePipeline

open Sql (Expr Predicate Named)

namespace SqlStage

theorem derivedAlias_injective : Function.Injective derivedAlias := by
  intro m n h
  have htext : Digits.text m = Digits.text n := (String.append_right_inj "__d").mp h
  rw [← Digits.value_write m, ← Digits.value_write n, String.ofList_injective htext]

theorem columnAlias_injective : Function.Injective columnAlias := by
  intro m n h
  have htext : Digits.text m = Digits.text n := (String.append_right_inj "__c").mp h
  rw [← Digits.value_write m, ← Digits.value_write n, String.ofList_injective htext]

/-- A stage over tables of its own; no alias of a derived table beyond the first few is among
them. -/
structure WellNamed (derived : Nat) (st : SqlStage) : Prop where
  schema : ∃ cs, st.schema = Schema.ofColumns cs ∧ ∀ c ∈ cs, Named st.tables c.carried.columns
  filters : ∀ p ∈ st.filters, Named st.tables p.columns
  tables : st.tables = st.source.aliasName :: st.joins.map (·.item.aliasName)
  fresh : ∀ n, derived < n → derivedAlias n ∉ st.tables

theorem WellNamed.mono {st : SqlStage} {derived derived' : Nat} (h : st.WellNamed derived)
    (hle : derived ≤ derived') : st.WellNamed derived' :=
  { h with fresh := fun n hn => h.fresh n (Nat.lt_of_le_of_lt hle hn) }

end SqlStage

namespace Schema

variable {cs : List (SchemaColumn Expr)}

theorem expr_ofColumns {r : Reference} {e : Expr} (h : (ofColumns cs).expr r = .ok e) :
    ∃ i c, (ofColumns cs).find r = .ok (.column i c) ∧ cs[i]? = some c ∧ e = c.carried := by
  obtain ⟨x, hx, h⟩ := Outcome.bind_eq_ok.mp h
  obtain ⟨i, c, rfl, hc, _⟩ := resolve_ofColumns (find_eq_ok.mp hx)
  exact ⟨i, c, hx, hc, (Outcome.pure_eq_ok.mp h).symm⟩

theorem exists_ofColumns {s : Schema Expr} (h : s.opens = []) : ∃ cs, s = ofColumns cs := by
  induction s with
  | nil => exact ⟨[], rfl⟩
  | cons item s ih =>
    cases item with
    | column c =>
      obtain ⟨cs, rfl⟩ := ih h
      exact ⟨c :: cs, rfl⟩
    | openSource q t => cases h

end Schema

namespace SqlStage

variable {derived : Nat}

theorem WellNamed.closed {st : SqlStage} (h : st.WellNamed derived) : st.Closed := by
  obtain ⟨cs, hcs, hnamed⟩ := h.schema
  exact ⟨hcs ▸ Schema.within_ofColumns.mpr hnamed, h.filters, h.tables⟩

theorem WellNamed.opens {st : SqlStage} (h : st.WellNamed derived) : st.schema.opens = [] := by
  obtain ⟨cs, hcs, _⟩ := h.schema
  rw [hcs, Schema.opens_ofColumns]

theorem WellNamed.of_closed {st : SqlStage} (hst : st.Closed) (hopens : st.schema.opens = [])
    (hfresh : ∀ n, derived < n → derivedAlias n ∉ st.tables) : st.WellNamed derived := by
  obtain ⟨cs, hcs⟩ := Schema.exists_ofColumns hopens
  exact ⟨⟨cs, hcs, Schema.within_ofColumns.mp (hcs ▸ hst.schema)⟩, hst.filters, hst.tables, hfresh⟩

theorem isColumn_of_left {right : SqlStage} {rule : JoinRule} {cs : List (SchemaColumn Expr)}
    (hcs : right.schema = Schema.ofColumns cs) (h : right.needsDerived rule = false)
    (hkind : rule.kind = .left) : ∀ c ∈ cs, c.carried.isColumn = true := by
  intro c hc
  unfold needsDerived Schema.hasComputed at h
  rw [Bool.or_eq_false_iff, hkind, hcs] at h
  have hany := h.2
  rw [beq_self_eq_true, Bool.true_and, List.any_eq_false] at hany
  obtain ⟨i, hi⟩ := List.getElem?_of_mem hc
  have hmem : (i, c) ∈ (Schema.ofColumns cs).columns := by
    rw [Schema.columns_ofColumns]
    exact List.mem_map.mpr ⟨(c, i), List.mem_zipIdx_iff_getElem?.mpr hi, rfl⟩
  simpa using hany (i, c) hmem

def derivedColumns (aliasName : String) (cs : List (SchemaColumn Expr)) :
    List (SchemaColumn Expr) :=
  cs.zipIdx.map fun (c, i) => { c with carried := .column (some aliasName) (columnAlias i) }

theorem derivedSchema_eq (aliasName : String) (cs : List (SchemaColumn Expr)) :
    derivedSchema aliasName (Schema.ofColumns cs) =
      Schema.ofColumns (derivedColumns aliasName cs) :=
  Stage.derivedSchema_ofColumns aliasName cs

theorem plain_derivedColumns (aliasName : String) (cs : List (SchemaColumn Expr)) :
    (derivedColumns aliasName cs).map SchemaColumn.plain = cs.map SchemaColumn.plain := by
  calc
    (derivedColumns aliasName cs).map SchemaColumn.plain =
        (cs.zipIdx.map Prod.fst).map SchemaColumn.plain := by
      rw [derivedColumns, List.map_map, List.map_map]
      rfl
    _ = cs.map SchemaColumn.plain := by rw [List.zipIdx_map_fst]

/-- The side of a join is one table with the columns of the stage, which name nothing else. -/
theorem WellNamed.joinedSide {right : SqlStage} (h : right.WellNamed derived) (rule : JoinRule)
    (aliasName : String) :
    (right.joinedSide rule aliasName).tables = [(right.joinedSide rule aliasName).item.aliasName] ∧
      ∃ cs ds, right.schema = Schema.ofColumns cs ∧
        (right.joinedSide rule aliasName).schema = Schema.ofColumns ds ∧
        ds.map SchemaColumn.plain = cs.map SchemaColumn.plain ∧
        ∀ c ∈ ds, Named (right.joinedSide rule aliasName).tables c.carried.columns := by
  obtain ⟨htables, hwithin, _⟩ := h.closed.joinedSide rule aliasName
  obtain ⟨cs, hcs, _⟩ := h.schema
  refine ⟨htables, cs, ?_⟩
  obtain ⟨ds, hds, hplain⟩ : ∃ ds, (right.joinedSide rule aliasName).schema =
      Schema.ofColumns ds ∧ ds.map SchemaColumn.plain = cs.map SchemaColumn.plain := by
    cases hd : right.needsDerived rule with
    | true =>
      rw [joinedSide_derived hd]
      exact ⟨_, hcs ▸ derivedSchema_eq aliasName cs, plain_derivedColumns aliasName cs⟩
    | false =>
      rw [joinedSide_plain hd]
      exact ⟨cs, hcs, rfl⟩
  exact ⟨ds, hcs, hds, hplain, Schema.within_ofColumns.mp (hds ▸ hwithin)⟩

/-- The side of a join brings no alias of the left side with it. -/
theorem WellNamed.joinedSide_disjoint {left right : SqlStage} {rule : JoinRule}
    (hl : left.WellNamed derived) (hfuse : left.canFuse right rule = true) {n : Nat}
    (hn : right.needsDerived rule = true → derived < n) :
    ∀ t ∈ (right.joinedSide rule (derivedAlias n)).tables, t ∉ left.tables := by
  cases hd : right.needsDerived rule with
  | true =>
    rw [joinedSide_derived hd]
    intro t ht
    obtain rfl := List.mem_singleton.mp ht
    exact hl.fresh n (hn hd)
  | false =>
    rw [joinedSide_plain hd]
    exact disjoint_of_canFuse hfuse

theorem WellNamed.fuse {left right st : SqlStage} {rule : JoinRule}
    (hl : left.WellNamed derived) (hr : right.WellNamed derived) {n : Nat}
    (hn : n = if right.needsDerived rule then derived + 1 else derived)
    (h : left.fuse right rule (derivedAlias n) = .ok st) : st.WellNamed n := by
  refine .of_closed (hl.closed.fuse hr.closed h) ?_ ?_
  · obtain ⟨_, _, _, _, hds, _⟩ := hr.joinedSide rule (derivedAlias n)
    obtain ⟨_, _, _, _, rfl⟩ := fuse_eq_ok h
    show Schema.opens (_ ++ _) = []
    rw [Schema.opens_append, hl.opens, hds, Schema.opens_ofColumns]
    rfl
  · obtain ⟨_, _, _, _, rfl⟩ := fuse_eq_ok h
    intro m hm hmem
    rcases List.mem_append.mp hmem with hmem | hmem
    · exact hl.fresh m (by split at hn <;> omega) hmem
    · cases hd : right.needsDerived rule with
      | true =>
        rw [joinedSide_derived hd] at hmem
        exact absurd (derivedAlias_injective (List.mem_singleton.mp hmem)) (by omega)
      | false =>
        rw [joinedSide_plain hd] at hmem
        exact hr.fresh m (by rw [hd] at hn; simp at hn; omega) hmem

end SqlStage

namespace Stage

def WellNamed (derived : Nat) : Stage → Prop
  | .sql st => st.WellNamed derived
  | .memory .. => True

variable {derived : Nat}

theorem WellNamed.mono {stage : Stage} {derived' : Nat} (h : stage.WellNamed derived)
    (hle : derived ≤ derived') : stage.WellNamed derived' := by
  cases stage with
  | sql st => exact SqlStage.WellNamed.mono h hle
  | memory node schema => trivial

theorem ofSource_wellNamed {source : SourceTable} (hcolumns : source.columns.isSome)
    (halias : ∀ n, source.aliasName ≠ SqlStage.derivedAlias n) {stage : Stage}
    (h : ofSource source = .ok stage) : stage.WellNamed derived := by
  obtain ⟨columns, hcolumns⟩ := Option.isSome_iff_exists.mp hcolumns
  unfold ofSource at h
  rw [hcolumns] at h
  split at h
  · obtain rfl := Except.ok.inj h
    constructor
    case schema =>
      refine ⟨columns.map fun c => ⟨some source.aliasName, c.name, c.type?,
        .column (some source.aliasName) c.name⟩, (List.map_map ..).symm, fun c hc => ?_⟩
      obtain ⟨d, _, rfl⟩ := List.mem_map.mp hc
      intro column hcolumn
      obtain rfl := List.mem_singleton.mp hcolumn
      exact ⟨source.aliasName, List.mem_singleton_self _, rfl⟩
    case filters => exact List.forall_mem_nil _
    case tables => rfl
    case fresh => exact fun n _ hmem => halias n (List.mem_singleton.mp hmem).symm
  · obtain ⟨path, _, h⟩ := Outcome.bind_eq_ok.mp h
    obtain rfl := Except.ok.inj h
    trivial

theorem Becomes.wellNamed {stage stage' : Stage} (h : stage.Becomes stage')
    (hw : stage.WellNamed derived) : stage'.WellNamed derived := by
  obtain ⟨st, st', rfl, rfl, href⟩ | ⟨_, _, _, _, _, rfl, _⟩ := h
  · have hst : st.WellNamed derived := hw
    refine SqlStage.WellNamed.of_closed (href.closed hst.closed) ?_ ?_
    · have hopens := href.opens
      rw [hst.opens] at hopens
      exact List.length_eq_zero_iff.mp (Nat.le_zero.mp hopens)
    · rw [href.tables]
      exact hst.fresh
  · trivial

theorem join_wellNamed {left right stage : Stage} (hl : left.WellNamed derived)
    (hr : right.WellNamed derived) {rule : JoinRule} {derived' : Nat}
    (h : join rule left right derived = .ok (stage, derived')) :
    derived ≤ derived' ∧ stage.WellNamed derived' := by
  obtain ⟨_, _, ⟨l, r, st, rfl, rfl, _, hd, hfuse, rfl⟩ | ⟨_, _, _, _, _, _, rfl, rfl⟩⟩ :=
    join_eq_ok h
  · refine ⟨by split at hd <;> omega, SqlStage.WellNamed.fuse hl hr hd hfuse⟩
  · exact ⟨Nat.le_refl _, trivial⟩

end Stage

namespace Graph

/-- Some steps read only sources that declare their columns, under aliases that are not kept for
derived tables. -/
def Declares (steps : List Step) : Prop :=
  ∀ step ∈ steps, ∀ source, step.op = .source source →
    source.columns.isSome ∧ ∀ n, source.aliasName ≠ SqlStage.derivedAlias n

theorem compileStep_wellNamed {stages : List Stage} {derived : Nat}
    (hw : ∀ stage ∈ stages, stage.WellNamed derived) {step : Step}
    (hsource : ∀ source, step.op = .source source →
      source.columns.isSome ∧ ∀ n, source.aliasName ≠ SqlStage.derivedAlias n)
    {derived' : Nat} {stage : Stage} (h : compileStep stages derived step = .ok (stage, derived')) :
    derived ≤ derived' ∧ stage.WellNamed derived' := by
  obtain ⟨rule, left, hl, right, hr, _, hjoin⟩ | ⟨rfl, ⟨source, hop, hst⟩ | ⟨input, hi, hst⟩⟩ :=
    compileStep_becomes h
  · exact Stage.join_wellNamed (hw left hl) (hw right hr) hjoin
  · obtain ⟨hcolumns, halias⟩ := hsource source hop
    exact ⟨Nat.le_refl _, Stage.ofSource_wellNamed hcolumns halias hst⟩
  · exact ⟨Nat.le_refl _, hst.wellNamed (hw input hi)⟩

/-- All stages are well named for one count of derived tables, with which compilation goes on. -/
theorem compileSteps_wellNamed {steps : List Step} (hsteps : Declares steps) {stages : List Stage}
    (h : compileSteps [] 0 steps = .ok stages) :
    ∃ derived, (∀ stage ∈ stages, stage.WellNamed derived) ∧
      ∀ more, compileSteps [] 0 (steps ++ more) = compileSteps stages derived more := by
  refine compileSteps_induction (P := fun st d => ∀ stage ∈ st, stage.WellNamed d) ?_
    (List.forall_mem_nil _) h
  intro st derived stage derived' step hm hw hc x hx
  obtain ⟨hle, hstage⟩ := compileStep_wellNamed hw (hsteps step hm) hc
  rcases List.mem_append.mp hx with hx | hx
  · exact (hw x hx).mono hle
  · obtain rfl := List.mem_singleton.mp hx
    exact hstage

end Graph

end TablePipeline
