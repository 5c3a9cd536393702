import TablePipeline.Proofs.Frame.RowRules

/-!
# Steps that stay within their rows

A step in memory takes a cell that a row does not have for null. Here each step is set beside its
strict form, which reads and writes a cell only where the row has one and otherwise stops with the
place that it missed. On rows as wide as the columns the two are the same: a reference means a place
among the columns, and so does the place of a computed column.
-/

set_option autoImplicit false

namespace TablePipeline

variable {α β : Type}

/-- A place at which a row has no cell. -/
structure PlaceFault where
  place : Nat
  width : Nat
  deriving DecidableEq, Repr

/-- A computation that stops before it leaves a row. -/
abbrev Strict := Except PlaceFault

/-- A strict computation that may also fail as a step does. -/
abbrev StrictStep := ExceptT Failure Strict

namespace StrictStep

def settled (x : Except Failure α) : StrictStep α := ExceptT.mk (.ok x)

theorem settled_bind {x : Except Failure α} {k : α → StrictStep β} {f : α → Except Failure β}
    (h : ∀ a, x = .ok a → k a = settled (f a)) : (settled x >>= k) = settled (x >>= f) := by
  cases x with
  | ok a => exact h a rfl
  | error e => rfl

theorem lift_bind {x : Strict α} {a : α} (h : x = .ok a) (k : α → StrictStep β) :
    (ExceptT.lift x >>= k) = k a := by
  subst h
  rfl

end StrictStep

open StrictStep (settled settled_bind lift_bind)

namespace Row

def read (row : Row) (i : Nat) : Strict Scalar :=
  match row[i]? with
  | some v => .ok v
  | none => .error ⟨i, row.length⟩

def write (row : Row) (i : Nat) (v : Scalar) : Strict Row :=
  if i < row.length then .ok (row.set i v) else .error ⟨i, row.length⟩

variable {row : Row} {i : Nat}

theorem read_of_lt (h : i < row.length) : Row.read row i = .ok (row.getD i .null) := by
  rw [read, List.getD_eq_getElem?_getD, List.getElem?_eq_getElem h]
  rfl

theorem write_of_lt (h : i < row.length) (v : Scalar) : Row.write row i v = .ok (row.set i v) :=
  if_pos h

end Row

/-! ### Bound references -/

namespace BoundOperand

def Within (width : Nat) : BoundOperand → Prop
  | column i => i < width
  | literal _ => True

def strictValue (row : Row) : BoundOperand → Strict Scalar
  | column i => row.read i
  | literal v => .ok v

theorem strictValue_eq {o : BoundOperand} {row : Row} (h : o.Within row.length) :
    o.strictValue row = .ok (o.value row) := by
  cases o with
  | column i => exact Row.read_of_lt h
  | literal v => rfl

end BoundOperand

namespace BoundRight

def Within (width : Nat) : BoundRight → Prop
  | fixed _ => True
  | column i => i < width

def strictOperand (row : Row) : BoundRight → Strict CompareOperand
  | fixed o => .ok o
  | column i => do return .value (← row.read i)

theorem strictOperand_eq {right : BoundRight} {row : Row} (h : right.Within row.length) :
    right.strictOperand row = .ok (right.operand row) := by
  cases right with
  | fixed o => rfl
  | column i =>
    rw [strictOperand, Row.read_of_lt h]
    rfl

end BoundRight

namespace BoundComparison

def Within (width : Nat) (c : BoundComparison) : Prop := c.left < width ∧ c.right.Within width

def strictTest? (c : BoundComparison) (row : Row) : Strict (Option Bool) := do
  let left ← row.read c.left
  return left.test? c.op (← c.right.strictOperand row)

theorem strictTest?_eq {c : BoundComparison} {row : Row} (h : c.Within row.length) :
    c.strictTest? row = .ok (c.test? row) := by
  rw [strictTest?, Row.read_of_lt h.1, BoundRight.strictOperand_eq h.2, test?_eq]
  rfl

end BoundComparison

namespace Slot

def Within (width : Nat) : Slot → Prop
  | replace i => i < width
  | append => True

def strictPut (slot : Slot) (row : Row) (v : Scalar) : Strict Row :=
  match slot with
  | replace i => row.write i v
  | append => .ok (row ++ [v])

theorem strictPut_eq {slot : Slot} {row : Row} (h : slot.Within row.length) (v : Scalar) :
    slot.strictPut row v = .ok (slot.put row v) := by
  cases slot with
  | replace i => exact Row.write_of_lt h v
  | append => rfl

end Slot

/-! ### Rows in turn -/

def strictRule (policy : RowPolicy) (label : String)
    (value : Row → Strict (Except RowFault Scalar)) (slot : Slot) :
    Nat → List Row → Warnings → StrictStep (List Row × Warnings)
  | _, [], w => settled (.ok ([], w))
  | number, row :: rows, w => do
    match ← ExceptT.lift (value row) with
    | .ok v =>
      let row ← ExceptT.lift (slot.strictPut row v)
      let (rest, w) ← strictRule policy label value slot (number + 1) rows w
      return (row :: rest, w)
    | .error fault =>
      match ← settled (policy.recover label number fault.message w) with
      | (.keep v, w) =>
        let row ← ExceptT.lift (slot.strictPut row v)
        let (rest, w) ← strictRule policy label value slot (number + 1) rows w
        return (row :: rest, w)
      | (.skip, w) => strictRule policy label value slot (number + 1) rows w

theorem strictRule_eq {policy : RowPolicy} {label : String}
    {strictValue : Row → Strict (Except RowFault Scalar)}
    {value : Row → Except RowFault Scalar} {slot : Slot} {rows : List Row}
    (hvalue : ∀ row ∈ rows, strictValue row = .ok (value row))
    (hslot : ∀ row ∈ rows, slot.Within row.length) (number : Nat) (w : Warnings) :
    strictRule policy label strictValue slot number rows w =
      settled (applyRule policy label value slot number rows w) := by
  induction rows generalizing number w with
  | nil => rfl
  | cons row rows ih =>
    obtain ⟨hrow, hrows⟩ := List.forall_mem_cons.mp hvalue
    obtain ⟨hput, hputs⟩ := List.forall_mem_cons.mp hslot
    have hrest := ih hrows hputs
    have hkeep (v : Scalar) (w : Warnings) :
        (ExceptT.lift (slot.strictPut row v) >>= fun row => do
          let (rest, w) ← strictRule policy label strictValue slot (number + 1) rows w
          return (row :: rest, w)) =
        settled (do
          let (rest, w) ← applyRule policy label value slot (number + 1) rows w
          return (slot.put row v :: rest, w)) := by
      rw [lift_bind (Slot.strictPut_eq hput v), hrest]
      exact settled_bind fun _ _ => rfl
    rw [strictRule, applyRule, lift_bind hrow]
    cases value row with
    | ok v => exact hkeep v w
    | error fault =>
      refine settled_bind fun action _ => ?_
      obtain ⟨action | _, w'⟩ := action
      · exact hkeep _ w'
      · exact hrest _ w'

theorem filterAuxM_eq {strictTest : Row → Strict Bool} {test : Row → Bool} {rows : List Row}
    (h : ∀ row ∈ rows, strictTest row = .ok (test row)) (kept : List Row) :
    rows.filterAuxM strictTest kept = .ok ((rows.filter test).reverse ++ kept) := by
  induction rows generalizing kept with
  | nil => rfl
  | cons row rows ih =>
    obtain ⟨hrow, hrows⟩ := List.forall_mem_cons.mp h
    have hrest := ih hrows (cond (test row) (row :: kept) kept)
    rw [List.filterAuxM, hrow]
    refine hrest.trans (congrArg Except.ok ?_)
    cases htest : test row with
    | true =>
      rw [List.filter_cons_of_pos htest, List.reverse_cons, List.append_assoc]
      rfl
    | false =>
      rw [List.filter_cons_of_neg (by simp [htest])]
      rfl

theorem filterM_eq {strictTest : Row → Strict Bool} {test : Row → Bool} {rows : List Row}
    (h : ∀ row ∈ rows, strictTest row = .ok (test row)) :
    rows.filterM strictTest = .ok (rows.filter test) := by
  rw [List.filterM, filterAuxM_eq h]
  refine congrArg Except.ok ?_
  rw [List.append_nil, List.reverse_reverse]

theorem mapM_eq {f : α → Strict β} {g : α → β} {xs : List α} (h : ∀ x ∈ xs, f x = .ok (g x)) :
    xs.mapM f = .ok (xs.map g) := by
  rw [Outcome.mapM_eq_ok, List.forall₂_map_right_iff, List.forall₂_same]
  exact h

theorem allM_eq {f : α → Strict Bool} {g : α → Bool} {xs : List α}
    (h : ∀ x ∈ xs, f x = .ok (g x)) : xs.allM f = .ok (xs.all g) := by
  induction xs with
  | nil => rfl
  | cons x xs ih =>
    obtain ⟨hx, hxs⟩ := List.forall_mem_cons.mp h
    rw [List.allM, hx, List.all_cons]
    cases g x with
    | true => exact ih hxs
    | false => rfl

namespace Rows

def strictAddToIndex (position : Nat) (index : KeyIndex) (row : Row) : Strict KeyIndex := do
  match JoinKey.ofScalar? (← row.read position) with
  | some k => return index.insert k ((index.getD k #[]).push row)
  | none => return index

def strictJoin (kind : Sql.JoinKind) (left : List Row) (leftKey : Nat) (right : List Row)
    (rightKey width : Nat) : Strict (List Row) := do
  let index ← right.foldlM (strictAddToIndex rightKey) ∅
  let joined ← left.mapM fun row => do
    let partners := match JoinKey.ofScalar? (← row.read leftKey) with
      | some k => index.getD k #[]
      | none => #[]
    return joinRow kind width partners row
  return joined.flatten

theorem ofRow?_of_lt {position : Nat} {row : Row} (h : position < row.length) :
    JoinKey.ofRow? position row = JoinKey.ofScalar? (row.getD position .null) := by
  rw [JoinKey.ofRow?, List.getD_eq_getElem?_getD, List.getElem?_eq_getElem h]
  rfl

theorem strictAddToIndex_eq {position : Nat} {row : Row} (h : position < row.length)
    (index : KeyIndex) :
    strictAddToIndex position index row = .ok (addToIndex position index row) := by
  rw [strictAddToIndex, Row.read_of_lt h, addToIndex, ofRow?_of_lt h]
  show (match JoinKey.ofScalar? _ with | some k => _ | none => _) = _
  cases JoinKey.ofScalar? (row.getD position .null) <;> rfl

theorem foldlM_strictAddToIndex {position : Nat} {rows : List Row}
    (h : ∀ row ∈ rows, position < row.length) (index : KeyIndex) :
    rows.foldlM (strictAddToIndex position) index =
      .ok (rows.foldl (addToIndex position) index) := by
  induction rows generalizing index with
  | nil => rfl
  | cons row rows ih =>
    obtain ⟨hrow, hrows⟩ := List.forall_mem_cons.mp h
    rw [List.foldlM_cons, strictAddToIndex_eq hrow]
    exact ih hrows _

theorem strictJoin_eq (kind : Sql.JoinKind) {left right : List Row} {leftKey rightKey : Nat}
    (hleft : ∀ row ∈ left, leftKey < row.length)
    (hright : ∀ row ∈ right, rightKey < row.length) (width : Nat) :
    strictJoin kind left leftKey right rightKey width =
      .ok (join kind left leftKey right rightKey width) := by
  let partners (row : Row) : Array Row := match JoinKey.ofRow? leftKey row with
    | some k => (indexBy rightKey right).getD k #[]
    | none => #[]
  have hjoined : (left.mapM fun row => do
      let partners := match JoinKey.ofScalar? (← row.read leftKey) with
        | some k => (right.foldl (addToIndex rightKey) ∅).getD k #[]
        | none => #[]
      return joinRow kind width partners row : Strict (List (List Row))) =
      .ok (left.map fun row => joinRow kind width (partners row) row) := by
    refine mapM_eq fun row hrow => ?_
    rw [Row.read_of_lt (hleft row hrow)]
    dsimp only [partners]
    rw [ofRow?_of_lt (hleft row hrow)]
    rfl
  rw [strictJoin, foldlM_strictAddToIndex hright]
  refine Outcome.bind_eq_ok.mpr ⟨_, rfl, Outcome.bind_eq_ok.mpr ⟨_, hjoined, ?_⟩⟩
  rw [← List.flatMap_def]
  rfl

end Rows

/-! ### Steps -/

namespace Frame

variable {f g : Frame}

def strictFilter (f : Frame) (conditions : List Comparison) : StrictStep Frame := do
  let bound ← settled (conditions.mapM f.bindComparison)
  let rows ← ExceptT.lift (f.rows.filterM fun row =>
    bound.allM fun c => do return (← c.strictTest? row) == some true)
  return { f with rows }

def strictCast (f : Frame) (rule : CastRule) (w : Warnings) : StrictStep (Frame × Warnings) := do
  let i ← settled (f.resolve rule.column)
  let label := "cast of '" ++ rule.column.text ++ "' to " ++ rule.target.name
  let (rows, w) ← strictRule rule.policy label
    (fun row => do return (← row.read i).cast rule.target) (.replace i) 1 f.rows w
  return (⟨f.setType i (some rule.target), rows⟩, w)

def strictArithmetic (f : Frame) (rule : ArithmeticRule) (type? : Option ColumnType)
    (w : Warnings) : StrictStep (Frame × Warnings) := do
  let operands ← settled (rule.operands.mapM f.bindOperand)
  let label := "arithmetic '" ++ rule.output ++ "'"
  let (columns, slot) := f.computedSlot rule.output type?
  let (rows, w) ← strictRule rule.policy label
    (fun row => do
      return Arithmetic.evaluate rule.op (← operands.mapM (·.strictValue row)) rule.divideByZero)
    slot 1 f.rows w
  return (⟨columns, rows⟩, w)

def strictCondition (f : Frame) (rule : ConditionRule) (w : Warnings) :
    StrictStep (Frame × Warnings) := do
  let predicate ← settled (f.bindComparison rule.predicate)
  let yes ← settled (f.bindOperand rule.yes)
  let no ← settled (f.bindOperand rule.no)
  let label := "condition '" ++ rule.output ++ "'"
  let (columns, slot) := f.computedSlot rule.output rule.outputType
  let choose (row : Row) : Strict Scalar := do
    if (← predicate.strictTest? row) == some true then yes.strictValue row
    else no.strictValue row
  let (rows, w) ← strictRule rule.policy label
    (fun row => do return fitOutput rule.outputType (← choose row)) slot 1 f.rows w
  return (⟨columns, rows⟩, w)

def strictJoin (left right : Frame) (rule : JoinRule) : StrictStep Frame := do
  let leftKey ← settled (left.resolve rule.left)
  let rightKey ← settled (right.resolve rule.right)
  let rows ← ExceptT.lift (Rows.strictJoin rule.kind left.rows leftKey right.rows rightKey
    right.columns.length)
  return ⟨left.columns ++ right.columns, rows⟩

theorem within_of_bindOperand {o : RuleOperand} {b : BoundOperand} (h : f.bindOperand o = .ok b) :
    b.Within f.columns.length := by
  cases o with
  | column r =>
    obtain ⟨i, hi, hb⟩ := Outcome.bind_eq_ok.mp h
    obtain rfl := Outcome.pure_eq_ok.mp hb
    exact lt_of_resolve hi
  | literal v =>
    obtain rfl := Except.ok.inj h
    trivial

theorem within_bindsRight {right : RightOperand} {b : BoundRight} (h : f.BindsRight right b) :
    b.Within f.columns.length := by
  cases right with
  | column r =>
    obtain ⟨j, hj, rfl⟩ := h
    exact lt_of_resolve hj
  | _ =>
    obtain rfl : b = .fixed _ := h
    trivial

theorem within_of_bindComparison {c : Comparison} {b : BoundComparison}
    (h : f.bindComparison c = .ok b) : b.Within f.columns.length := by
  obtain ⟨hleft, _, hright⟩ := bindComparison_eq_ok.mp h
  exact ⟨lt_of_resolve hleft, within_bindsRight hright⟩

theorem within_computedSlot (f : Frame) (name : String) (type? : Option ColumnType) :
    (f.computedSlot name type?).2.Within f.columns.length := by
  unfold computedSlot
  split
  · rename_i i hi
    exact (List.findIdx?_eq_some_iff_getElem.mp hi).1
  · trivial

theorem strictFilter_eq (hf : f.Rectangular) (conditions : List Comparison) :
    f.strictFilter conditions = settled (f.filter conditions) := by
  refine settled_bind fun bound hbound => ?_
  refine lift_bind (filterM_eq fun row hrow => allM_eq fun c hc => ?_) _
  obtain ⟨_, _, hc⟩ := Outcome.exists_of_mem_right hbound hc
  rw [BoundComparison.strictTest?_eq (hf row hrow ▸ within_of_bindComparison hc)]
  rfl

/-- A row without the cell of a condition stops the strict form. -/
example : (strictFilter ⟨[⟨none, "id", none⟩], [[]]⟩ [⟨⟨none, "id"⟩, .isNull, .none⟩]).run =
    .error ⟨0, 0⟩ := rfl

theorem strictCast_eq (hf : f.Rectangular) (rule : CastRule) (w : Warnings) :
    f.strictCast rule w = settled (f.cast rule w) := by
  refine settled_bind fun i hi => ?_
  have hlt : ∀ row ∈ f.rows, i < row.length := fun row hrow => hf row hrow ▸ lt_of_resolve hi
  dsimp only
  rw [strictRule_eq (fun row hrow => by rw [Row.read_of_lt (hlt row hrow)]; rfl) hlt]
  exact settled_bind fun _ _ => rfl

theorem strictArithmetic_eq (hf : f.Rectangular) (rule : ArithmeticRule)
    (type? : Option ColumnType) (w : Warnings) :
    f.strictArithmetic rule type? w = settled (f.arithmetic rule type? w) := by
  refine settled_bind fun operands hoperands => ?_
  have hvalues : ∀ row ∈ f.rows, operands.mapM (·.strictValue row) =
      .ok (operands.map (·.value row)) := by
    intro row hrow
    refine mapM_eq fun o ho => BoundOperand.strictValue_eq ?_
    obtain ⟨_, _, ho⟩ := Outcome.exists_of_mem_right hoperands ho
    exact hf row hrow ▸ within_of_bindOperand ho
  dsimp only
  rw [strictRule_eq (fun row hrow => by rw [hvalues row hrow]; rfl)
    fun row hrow => hf row hrow ▸ f.within_computedSlot _ _]
  exact settled_bind fun _ _ => rfl

theorem strictCondition_eq (hf : f.Rectangular) (rule : ConditionRule) (w : Warnings) :
    f.strictCondition rule w = settled (f.condition rule w) := by
  refine settled_bind fun predicate hpredicate => ?_
  refine settled_bind fun yes hyes => ?_
  refine settled_bind fun no hno => ?_
  have hchosen : ∀ row ∈ f.rows, (do
      if (← predicate.strictTest? row) == some true then yes.strictValue row
      else no.strictValue row) =
      (.ok (if predicate.test? row == some true then yes.value row else no.value row) :
        Strict Scalar) := by
    intro row hrow
    rw [BoundComparison.strictTest?_eq (hf row hrow ▸ within_of_bindComparison hpredicate)]
    show (if predicate.test? row == some true then _ else _) = _
    split
    · exact BoundOperand.strictValue_eq (hf row hrow ▸ within_of_bindOperand hyes)
    · exact BoundOperand.strictValue_eq (hf row hrow ▸ within_of_bindOperand hno)
  dsimp only
  rw [strictRule_eq (fun row hrow => by rw [hchosen row hrow]; rfl)
    fun row hrow => hf row hrow ▸ f.within_computedSlot _ _]
  exact settled_bind fun _ _ => rfl

theorem strictJoin_eq {left right : Frame} (hl : left.Rectangular) (hr : right.Rectangular)
    (rule : JoinRule) : left.strictJoin right rule = settled (left.join right rule) := by
  refine settled_bind fun leftKey hleft => ?_
  refine settled_bind fun rightKey hright => ?_
  exact lift_bind (Rows.strictJoin_eq rule.kind
    (fun row hrow => hl row hrow ▸ lt_of_resolve hleft)
    (fun row hrow => hr row hrow ▸ lt_of_resolve hright) _) _

/-! ### What steps leave behind -/

theorem rectangular_of_filter {conditions : List Comparison} (hf : f.Rectangular)
    (h : f.filter conditions = .ok g) : g.Rectangular := by
  obtain ⟨bound, _, h⟩ := Outcome.bind_eq_ok.mp h
  obtain rfl := Outcome.pure_eq_ok.mp h
  exact fun row hrow => hf row (List.mem_filter.mp hrow).1

/-- A rule fills every row to the columns that its slot makes. -/
theorem rectangular_of_applyRule {policy : RowPolicy} {label : String}
    {value : Row → Except RowFault Scalar} {slot : Slot} {columns : List PlanColumn} {w : Warnings}
    {result : List Row × Warnings} (hf : f.Rectangular)
    (hcolumns : columns.length = slot.width f.columns.length)
    (h : applyRule policy label value slot 1 f.rows w = .ok result) :
    Rectangular ⟨columns, result.1⟩ := by
  have hrows := applyRule_yields policy label value slot hf 1 w
  rw [h] at hrows
  exact fun row hrow => (hrows row hrow).trans hcolumns.symm

theorem rectangular_of_cast {rule : CastRule} {w : Warnings} {result : Frame × Warnings}
    (hf : f.Rectangular) (h : f.cast rule w = .ok result) : result.1.Rectangular := by
  obtain ⟨i, _, h⟩ := Outcome.bind_eq_ok.mp h
  obtain ⟨rows, hrows, h⟩ := Outcome.bind_eq_ok.mp h
  obtain rfl := Outcome.pure_eq_ok.mp h
  exact rectangular_of_applyRule hf (f.length_setType i _) hrows

theorem rectangular_of_arithmetic {rule : ArithmeticRule} {type? : Option ColumnType}
    {w : Warnings} {result : Frame × Warnings} (hf : f.Rectangular)
    (h : f.arithmetic rule type? w = .ok result) : result.1.Rectangular := by
  obtain ⟨operands, _, h⟩ := Outcome.bind_eq_ok.mp h
  obtain ⟨rows, hrows, h⟩ := Outcome.bind_eq_ok.mp h
  obtain rfl := Outcome.pure_eq_ok.mp h
  exact rectangular_of_applyRule hf (f.length_computedSlot _ _) hrows

theorem rectangular_of_condition {rule : ConditionRule} {w : Warnings}
    {result : Frame × Warnings} (hf : f.Rectangular) (h : f.condition rule w = .ok result) :
    result.1.Rectangular := by
  obtain ⟨predicate, _, h⟩ := Outcome.bind_eq_ok.mp h
  obtain ⟨yes, _, h⟩ := Outcome.bind_eq_ok.mp h
  obtain ⟨no, _, h⟩ := Outcome.bind_eq_ok.mp h
  obtain ⟨rows, hrows, h⟩ := Outcome.bind_eq_ok.mp h
  obtain rfl := Outcome.pure_eq_ok.mp h
  exact rectangular_of_applyRule hf (f.length_computedSlot _ _) hrows

theorem rectangular_of_join {left right : Frame} {rule : JoinRule} (hl : left.Rectangular)
    (hr : right.Rectangular) (h : left.join right rule = .ok f) : f.Rectangular := by
  obtain ⟨leftKey, _, h⟩ := Outcome.bind_eq_ok.mp h
  obtain ⟨rightKey, _, h⟩ := Outcome.bind_eq_ok.mp h
  obtain rfl := Outcome.pure_eq_ok.mp h
  exact fun row hrow => (Rows.length_of_mem_join hl hr hrow).trans List.length_append.symm

end Frame

end TablePipeline
