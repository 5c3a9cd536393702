import TablePipeline.Graph.Check
import TablePipeline.Proofs.Outcome

/-!
# What the settings of a node may say

The settings that are read give an operation of the kind of their node. Its comparisons have the
operand that their operator takes, which is never null, and its arithmetic has two operands at
least.
-/

set_option autoImplicit false

namespace TablePipeline

open Sql (CompareOp)

/-- A comparison with the sort of operand that its operator takes. -/
def Comparison.WellPosed (c : Comparison) : Prop :=
  match c.right with
  | .none => c.op = .isNull ∨ c.op = .isNotNull
  | .list vs => c.op = .isIn ∧ vs ≠ []
  | .value v => c.op ≠ .isIn ∧ v ≠ .null
  | .column _ => c.op ≠ .isIn

namespace StepOp

def kind : StepOp → NodeKind
  | source _ => .source
  | join _ => .join
  | filter _ => .filter
  | cast _ => .cast
  | arithmetic _ => .arithmetic
  | condition _ => .condition

def WellPosed : StepOp → Prop
  | filter cs => ∀ c ∈ cs, c.WellPosed
  | arithmetic rule => 2 ≤ rule.operands.length
  | condition rule => rule.predicate.WellPosed
  | _ => True

end StepOp

theorem Scalar.ofJson?_ne_null {j : Json} {v : Scalar} (hj : j ≠ .null) (h : ofJson? j = some v) :
    v ≠ .null := by
  rintro rfl
  cases j with
  | null => exact hj rfl
  | int n =>
    rw [ofJson?] at h
    split at h
    · cases h
    · obtain ⟨d, _, hd⟩ := Option.map_eq_some_iff.mp h
      cases hd
  | float x =>
    rw [ofJson?] at h
    split at h <;> cases h
  | _ => cases h

namespace NodeConfig

variable {node : Node} {connections : List Connection} {policy : RowPolicy} {op : StepOp}

theorem readLiteral_ne_null {place : GraphPlace} {j : Json} {v : Scalar} (hj : j ≠ .null)
    (h : readLiteral place j = .ok v) : v ≠ .null := by
  unfold readLiteral at h
  split at h
  · rename_i v' hv
    obtain rfl := Except.ok.inj h
    exact Scalar.ofJson?_ne_null hj hv
  · cases h

/-- A value that is set is not null: null is read as no value. -/
def ComparisonEntry.NotNull (c : ComparisonEntry) : Prop := c.value ≠ some .null

theorem rightOperand_wellPosed {place : GraphPlace} {o : CompareOp} {c : ComparisonEntry}
    (hc : c.NotNull) {right : RightOperand} (h : rightOperand place o c = .ok right)
    (column : Reference) : (Comparison.mk column o right).WellPosed := by
  unfold rightOperand at h
  split at h
  case h_1 =>
    obtain rfl := Except.ok.inj h
    exact .inl rfl
  case h_2 =>
    obtain rfl := Except.ok.inj h
    exact .inr rfl
  case h_5 hin _ _ =>
    obtain ⟨r, _, rfl⟩ := Outcome.map_eq_ok.mp h
    exact hin
  case h_6 items _ _ =>
    split at h
    · cases h
    · rename_i hitems
      obtain ⟨vs, hvs, rfl⟩ := Outcome.map_eq_ok.mp h
      refine ⟨rfl, ?_⟩
      rintro rfl
      cases Outcome.mapM_eq_ok.mp hvs
      exact hitems rfl
  case h_8 hin hvalue _ =>
    obtain ⟨w, hw, rfl⟩ := Outcome.map_eq_ok.mp h
    refine ⟨hin, readLiteral_ne_null ?_ hw⟩
    rintro rfl
    exact hc hvalue
  all_goals cases h

/-! ### Each kind of node -/

theorem toComparison_wellPosed {entry : ComparisonEntry} (hentry : entry.NotNull)
    {c : Comparison} (h : entry.toComparison node = .ok c) : c.WellPosed := by
  obtain ⟨column, _, h⟩ := Outcome.bind_eq_ok.mp h
  obtain ⟨o, _, h⟩ := Outcome.bind_eq_ok.mp h
  obtain ⟨right, hright, h⟩ := Outcome.bind_eq_ok.mp h
  obtain rfl := Outcome.pure_eq_ok.mp h
  exact rightOperand_wellPosed hentry hright column

theorem readOption_ne_null {j : Json} {value : Option Json}
    (h : Json.readOption Json.readAny j = .ok value) : value ≠ some .null := by
  cases j <;> cases h <;> exact fun h => by cases h

/-- A field keeps what its setter keeps for every value that its reader gives. -/
theorem field_keeps {σ α : Type} {P : σ → Prop} {name : String} {absence : Json.Absence}
    {reader : Json.Reader α} {set : σ → α → σ} {j : Json} {a b : σ}
    (h : (Json.Field.of name absence reader set).read j a = .ok b) (ha : P a)
    (hset : ∀ a v j, P a → reader j = .ok v → P (set a v)) : P b := by
  obtain ⟨v, hv, rfl⟩ := Outcome.map_eq_ok.mp h
  exact hset a v j ha hv

theorem filterEntryShape_notNull {j : Json} {entry : ComparisonEntry}
    (h : filterEntryShape.read {} j = .ok entry) : entry.NotNull := by
  refine filterEntryShape.read_keeps (P := ComparisonEntry.NotNull) (fun f hf j a b ha hb => ?_)
    (by simp [ComparisonEntry.NotNull]) h
  simp only [filterEntryShape, List.mem_cons, List.not_mem_nil, or_false] at hf
  rcases hf with rfl | rfl | rfl
  · exact field_keeps (P := ComparisonEntry.NotNull) hb ha fun _ _ _ ha _ => ha
  · exact field_keeps (P := ComparisonEntry.NotNull) hb ha fun _ _ _ ha _ => ha
  · exact field_keeps (P := ComparisonEntry.NotNull) hb ha fun _ _ _ _ hv => readOption_ne_null hv

theorem predicateShape_notNull {j : Json} {entry : ComparisonEntry}
    (h : predicateShape.read {} j = .ok entry) : entry.NotNull := by
  refine predicateShape.read_keeps (P := ComparisonEntry.NotNull) (fun f hf j a b ha hb => ?_)
    (by simp [ComparisonEntry.NotNull]) h
  simp only [predicateShape, List.mem_cons, List.not_mem_nil, or_false] at hf
  rcases hf with rfl | rfl | rfl | rfl
  · exact field_keeps (P := ComparisonEntry.NotNull) hb ha fun _ _ _ ha _ => ha
  · exact field_keeps (P := ComparisonEntry.NotNull) hb ha fun _ _ _ ha _ => ha
  · exact field_keeps (P := ComparisonEntry.NotNull) hb ha fun _ _ _ _ hv => readOption_ne_null hv
  · exact field_keeps (P := ComparisonEntry.NotNull) hb ha fun _ _ _ ha _ => ha

theorem filterShape_notNull {j : Json} {entries : List ComparisonEntry}
    (h : filterShape.read [] j = .ok entries) : ∀ c ∈ entries, c.NotNull := by
  refine filterShape.read_keeps (P := fun entries => ∀ c ∈ entries, c.NotNull)
    (fun f hf j a b ha hb => ?_) (List.forall_mem_nil _) h
  obtain rfl := List.mem_singleton.mp hf
  refine field_keeps (P := fun entries => ∀ c ∈ entries, c.NotNull) hb ha fun _ items j _ hv => ?_
  cases j with
  | list js =>
    intro c hc
    obtain ⟨j, _, hj⟩ := Outcome.exists_of_mem_right hv hc
    exact filterEntryShape_notNull hj
  | _ => cases hv

theorem conditionShape_notNull {j : Json} {entry : ConditionEntry}
    (h : conditionShape.read {} j = .ok entry) : entry.predicate.NotNull := by
  refine conditionShape.read_keeps (P := fun c => c.predicate.NotNull)
    (fun f hf j a b ha hb => ?_) (by simp [ComparisonEntry.NotNull]) h
  simp only [conditionShape, List.mem_cons, List.not_mem_nil, or_false] at hf
  rcases hf with rfl | hf
  · exact field_keeps (P := fun c : ConditionEntry => c.predicate.NotNull) hb ha
      fun _ _ _ _ hv => predicateShape_notNull hv
  · rcases hf with rfl | rfl | rfl | rfl | rfl <;>
      exact field_keeps (P := fun c : ConditionEntry => c.predicate.NotNull) hb ha
        fun _ _ _ ha _ => ha

/-! ### Operations of nodes -/

theorem filterOp_wellPosed (h : filterOp node = .ok op) : op.kind = .filter ∧ op.WellPosed := by
  obtain ⟨entries, hentries, h⟩ := Outcome.bind_eq_ok.mp h
  obtain ⟨cs, hcs, h⟩ := Outcome.bind_eq_ok.mp h
  obtain rfl := Outcome.pure_eq_ok.mp h
  refine ⟨rfl, fun c hc => ?_⟩
  obtain ⟨entry, hentry, hc⟩ := Outcome.exists_of_mem_right hcs hc
  exact toComparison_wellPosed
    (filterShape_notNull (Outcome.mapError_eq_ok.mp hentries) entry hentry)
    hc

theorem castOp_wellPosed (h : castOp policy node = .ok op) : op.kind = .cast ∧ op.WellPosed := by
  obtain ⟨_, _, h⟩ := Outcome.bind_eq_ok.mp h
  obtain ⟨_, _, h⟩ := Outcome.bind_eq_ok.mp h
  obtain ⟨_, _, h⟩ := Outcome.bind_eq_ok.mp h
  obtain rfl := Outcome.pure_eq_ok.mp h
  exact ⟨rfl, trivial⟩

theorem arithmeticOp_wellPosed (h : arithmeticOp policy node = .ok op) :
    op.kind = .arithmetic ∧ op.WellPosed := by
  obtain ⟨c, _, h⟩ := Outcome.bind_eq_ok.mp h
  dsimp only at h
  split at h
  · cases h
  · rename_i hlength
    obtain ⟨operands, hoperands, h⟩ := Outcome.bind_eq_ok.mp h
    have hcount : 2 ≤ operands.length := by
      rw [← (Outcome.mapM_eq_ok.mp hoperands).length_eq]
      exact Nat.not_lt.mp hlength
    obtain ⟨_, _, h⟩ := Outcome.bind_eq_ok.mp h
    obtain ⟨_, _, h⟩ := Outcome.bind_eq_ok.mp h
    split at h <;>
    · obtain ⟨_, _, h⟩ := Outcome.bind_eq_ok.mp h
      obtain rfl := Outcome.pure_eq_ok.mp h
      exact ⟨rfl, hcount⟩

theorem conditionOp_wellPosed (h : conditionOp policy node = .ok op) :
    op.kind = .condition ∧ op.WellPosed := by
  obtain ⟨c, hc, h⟩ := Outcome.bind_eq_ok.mp h
  obtain ⟨predicate, hpredicate, h⟩ := Outcome.bind_eq_ok.mp h
  obtain ⟨_, _, h⟩ := Outcome.bind_eq_ok.mp h
  obtain ⟨_, _, h⟩ := Outcome.bind_eq_ok.mp h
  obtain ⟨_, _, h⟩ := Outcome.bind_eq_ok.mp h
  obtain ⟨_, _, h⟩ := Outcome.bind_eq_ok.mp h
  obtain rfl := Outcome.pure_eq_ok.mp h
  exact ⟨rfl, toComparison_wellPosed (conditionShape_notNull (Outcome.mapError_eq_ok.mp hc))
    hpredicate⟩

/-- The operation that the settings of a node give, whatever feeds it. -/
def operation (connections : List Connection) (policy : RowPolicy) (node : Node) :
    Except GraphError StepOp :=
  match node.kind with
  | .source => do return .source (← sourceTable connections node)
  | .join => do return .join (← (← joinSides node).toRule)
  | .filter => filterOp node
  | .cast => castOp policy node
  | .arithmetic => arithmeticOp policy node
  | .condition => conditionOp policy node
  | .sink => .error .noSinkInput

theorem operation_wellPosed (h : operation connections policy node = .ok op) :
    op.kind = node.kind ∧ op.WellPosed := by
  unfold operation at h
  split at h
  case h_1 hkind =>
    obtain ⟨_, _, h⟩ := Outcome.bind_eq_ok.mp h
    obtain rfl := Outcome.pure_eq_ok.mp h
    exact ⟨hkind.symm, trivial⟩
  case h_2 hkind =>
    obtain ⟨_, _, h⟩ := Outcome.bind_eq_ok.mp h
    obtain ⟨_, _, h⟩ := Outcome.bind_eq_ok.mp h
    obtain rfl := Outcome.pure_eq_ok.mp h
    exact ⟨hkind.symm, trivial⟩
  case h_3 hkind => exact hkind ▸ filterOp_wellPosed h
  case h_4 hkind => exact hkind ▸ castOp_wellPosed h
  case h_5 hkind => exact hkind ▸ arithmeticOp_wellPosed h
  case h_6 hkind => exact hkind ▸ conditionOp_wellPosed h
  case h_7 => cases h

theorem operation_join_eq_ok (hkind : node.kind = .join) :
    operation connections policy node = .ok op ↔
      ∃ c rule, joinSides node = .ok c ∧ c.toRule = .ok rule ∧ op = .join rule := by
  rw [operation, hkind]
  constructor
  · intro h
    obtain ⟨c, hc, h⟩ := Outcome.bind_eq_ok.mp h
    obtain ⟨rule, hrule, h⟩ := Outcome.bind_eq_ok.mp h
    exact ⟨c, rule, hc, hrule, (Outcome.pure_eq_ok.mp h).symm⟩
  · rintro ⟨c, rule, hc, hrule, rfl⟩
    exact Outcome.bind_eq_ok.mpr ⟨c, hc, Outcome.bind_eq_ok.mpr ⟨rule, hrule, rfl⟩⟩

end NodeConfig

end TablePipeline
