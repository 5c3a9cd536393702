import TablePipeline.Proofs.Plan.References
import TablePipeline.Proofs.Rows.NestedLoop

/-!
# What steps in memory do to the columns

A step whose references the frame knows never fails over a reference. Its result has the columns
that the step promises, and rows as wide as they are.
-/

set_option autoImplicit false

namespace TablePipeline

variable {α β : Type}

/-- The results of a computation have a property, and its failures are not about references. -/
def Yields (x : Except Failure α) (P : α → Prop) : Prop :=
  match x with
  | .ok a => P a
  | .error f => f.kind ≠ .unresolvedReference

namespace Yields

theorem of_ok {x : Except Failure α} {P : α → Prop} {a : α} (hx : x = .ok a) (h : P a) :
    Yields x P := by
  subst hx
  exact h

theorem bind {x : Except Failure α} {f : α → Except Failure β} {P : α → Prop} {Q : β → Prop}
    (h : Yields x P) (hf : ∀ a, P a → Yields (f a) Q) : Yields (x >>= f) Q := by
  cases x with
  | ok a => exact hf a h
  | error f => exact h

end Yields

def Slot.width (n : Nat) : Slot → Nat
  | replace _ => n
  | append => n + 1

theorem Slot.length_put (slot : Slot) (row : Row) (v : Scalar) :
    (slot.put row v).length = slot.width row.length := by
  cases slot with
  | replace i => exact List.length_set
  | append => exact List.length_append

theorem RowPolicy.recover_yields (policy : RowPolicy) (rule : String) (row : Nat) (fault : String)
    (w : Warnings) : Yields (policy.recover rule row fault w) fun _ => True := by
  cases policy with
  | nullOut => trivial
  | skipRow => trivial
  | abort => exact fun h => by cases h

theorem applyRule_yields (policy : RowPolicy) (label : String)
    (value : Row → Except RowFault Scalar) (slot : Slot) {n : Nat} {rows : List Row}
    (h : ∀ row ∈ rows, row.length = n) (number : Nat) (w : Warnings) :
    Yields (applyRule policy label value slot number rows w)
      fun result => ∀ row ∈ result.1, row.length = slot.width n := by
  induction rows generalizing number w with
  | nil => exact fun row hrow => by simp at hrow
  | cons row rows ih =>
    have hrest := ih fun r hr => h r (List.mem_cons_of_mem _ hr)
    have hput (v : Scalar) : (slot.put row v).length = slot.width n := by
      rw [slot.length_put, h row List.mem_cons_self]
    have hcons (v : Scalar) (w : Warnings) :
        Yields ((applyRule policy label value slot (number + 1) rows w).bind fun r =>
          .ok (slot.put row v :: r.1, r.2)) fun result => ∀ row ∈ result.1,
            row.length = slot.width n := by
      apply (hrest (number + 1) w).bind
      intro result hresult r hr
      rcases List.mem_cons.mp hr with rfl | hr
      · exact hput v
      · exact hresult r hr
    unfold applyRule
    split
    · exact hcons _ w
    · apply (policy.recover_yields label number _ w).bind
      intro result _
      obtain ⟨action, w'⟩ := result
      cases action with
      | keep v => exact hcons v w'
      | skip => exact hrest (number + 1) w'

theorem applyRule_ok (policy : RowPolicy) (label : String) {value : Row → Except RowFault Scalar}
    {result : Row → Scalar} (slot : Slot) {rows : List Row}
    (h : ∀ row ∈ rows, value row = .ok (result row)) (number : Nat) (w : Warnings) :
    applyRule policy label value slot number rows w =
      .ok (rows.map fun row => slot.put row (result row), w) := by
  induction rows generalizing number with
  | nil => rfl
  | cons row rows ih =>
    rw [applyRule, h row List.mem_cons_self]
    dsimp only
    rw [ih fun row hrow => h row (List.mem_cons_of_mem _ hrow)]
    rfl

def BoundRight.operand (row : Row) : BoundRight → CompareOperand
  | fixed o => o
  | column i => .value (row.getD i .null)

theorem BoundComparison.test?_eq (c : BoundComparison) (row : Row) :
    c.test? row = (row.getD c.left .null).test? c.op (c.right.operand row) := by
  obtain ⟨left, op, right⟩ := c
  cases right with
  | fixed o => rfl
  | column i => rfl

namespace Frame

theorem bindOperand_ok {f : Frame} {o : RuleOperand} (h : f.Knows o.references) :
    ∃ b, f.bindOperand o = .ok b := by
  cases o with
  | column r =>
    obtain ⟨i, hi, _⟩ := h r List.mem_cons_self
    exact ⟨.column i, Outcome.bind_eq_ok.mpr ⟨i, hi, rfl⟩⟩
  | literal v => exact ⟨.literal v, rfl⟩

/-- What the right side of a comparison becomes in a frame. -/
def BindsRight (f : Frame) : RightOperand → BoundRight → Prop
  | .none, right => right = .fixed .none
  | .value v, right => right = .fixed (.value v)
  | .list vs, right => right = .fixed (.list vs)
  | .column r, right => ∃ j, f.resolve r = .ok j ∧ right = .column j

/-- The left side is resolved behind the right one, whatever that is. -/
theorem bindComparison_eq_ok {f : Frame} {c : Comparison} {b : BoundComparison} :
    f.bindComparison c = .ok b ↔
      f.resolve c.column = .ok b.left ∧ b.op = c.op ∧ f.BindsRight c.right b.right := by
  constructor
  case mp =>
    intro h
    have hleft {right : BoundRight} (hright : f.BindsRight c.right right)
        (h : (do return ⟨← f.resolve c.column, c.op, right⟩) = Except.ok b) :
        f.resolve c.column = .ok b.left ∧ b.op = c.op ∧ f.BindsRight c.right b.right := by
      obtain ⟨i, hi, hb⟩ := Outcome.bind_eq_ok.mp h
      obtain rfl := Outcome.pure_eq_ok.mp hb
      exact ⟨hi, rfl, hright⟩
    unfold bindComparison at h
    cases hc : c.right with
    | column r =>
      rw [hc] at h hleft
      obtain ⟨right, hright, h⟩ := Outcome.bind_eq_ok.mp h
      obtain ⟨j, hj, rfl⟩ := Outcome.map_eq_ok.mp hright
      exact hleft ⟨j, hj, rfl⟩ h
    | _ =>
      rw [hc] at h hleft
      exact hleft rfl h
  case mpr =>
    rintro ⟨hleft, hop, hright⟩
    obtain ⟨left, op, right⟩ := b
    obtain rfl : op = c.op := hop
    have hlast : (do return ⟨← f.resolve c.column, c.op, right⟩) =
        Except.ok (BoundComparison.mk left c.op right) :=
      Outcome.bind_eq_ok.mpr ⟨left, hleft, rfl⟩
    unfold bindComparison
    cases hc : c.right with
    | column r =>
      rw [hc] at hright
      obtain ⟨j, hj, rfl : right = .column j⟩ := hright
      exact Outcome.bind_eq_ok.mpr ⟨.column j, Outcome.map_eq_ok.mpr ⟨j, hj, rfl⟩, hlast⟩
    | _ =>
      rw [hc] at hright
      obtain rfl : right = .fixed _ := hright
      exact hlast

theorem bindComparison_ok {f : Frame} {c : Comparison} (h : f.Knows c.references) :
    ∃ b, f.bindComparison c = .ok b := by
  obtain ⟨i, hi, _⟩ := h c.column List.mem_cons_self
  have hright : ∃ right, f.BindsRight c.right right := by
    cases hc : c.right with
    | column r =>
      obtain ⟨j, hj, _⟩ := h r (List.mem_cons_of_mem _ (hc ▸ List.mem_cons_self))
      exact ⟨.column j, j, hj, rfl⟩
    | _ => exact ⟨_, rfl⟩
  obtain ⟨right, hright⟩ := hright
  exact ⟨⟨i, c.op, right⟩, bindComparison_eq_ok.mpr ⟨hi, rfl, hright⟩⟩

theorem filter_yields {f : Frame} {cs : List Comparison} (h : ∀ c ∈ cs, f.Knows c.references)
    (hf : f.Rectangular) :
    Yields (f.filter cs) fun g => g.columns = f.columns ∧ g.Rectangular := by
  obtain ⟨bound, hbound⟩ := Outcome.mapM_ok_of_forall fun c hc => bindComparison_ok (h c hc)
  refine Yields.of_ok (Outcome.bind_eq_ok.mpr ⟨bound, hbound, rfl⟩) ⟨rfl, ?_⟩
  intro row hrow
  exact hf row (List.mem_filter.mp hrow).1

theorem length_setType (f : Frame) (i : Nat) (type? : Option ColumnType) :
    (f.setType i type?).length = f.columns.length := List.length_modify _ _ _

theorem length_computedSlot (f : Frame) (name : String) (type? : Option ColumnType) :
    (f.computedSlot name type?).1.length =
      (f.computedSlot name type?).2.width f.columns.length := by
  unfold computedSlot
  split
  · exact f.length_setType _ _
  · exact List.length_append

theorem cast_yields {f : Frame} {rule : CastRule} {i : Nat} (hi : f.resolve rule.column = .ok i)
    (hf : f.Rectangular) (w : Warnings) :
    Yields (f.cast rule w) fun result =>
      result.1.columns = f.setType i (some rule.target) ∧ result.1.Rectangular := by
  unfold cast
  rw [hi]
  refine (applyRule_yields _ _ _ _ hf 1 w).bind fun result hresult => ⟨rfl, ?_⟩
  intro row hrow
  exact (hresult row hrow).trans (f.length_setType i _).symm

theorem arithmetic_yields {f : Frame} {rule : ArithmeticRule} {type? : Option ColumnType}
    (h : ∀ o ∈ rule.operands, f.Knows o.references) (hf : f.Rectangular) (w : Warnings) :
    Yields (f.arithmetic rule type? w) fun result =>
      result.1.columns = (f.computedSlot rule.output type?).1 ∧ result.1.Rectangular := by
  obtain ⟨operands, ho⟩ := Outcome.mapM_ok_of_forall fun o ho => bindOperand_ok (h o ho)
  unfold arithmetic
  rw [ho]
  refine (applyRule_yields _ _ _ _ hf 1 w).bind fun result hresult => ⟨rfl, ?_⟩
  intro row hrow
  exact (hresult row hrow).trans (f.length_computedSlot _ _).symm

theorem condition_yields {f : Frame} {rule : ConditionRule} (h : f.Knows rule.references)
    (hf : f.Rectangular) (w : Warnings) :
    Yields (f.condition rule w) fun result =>
      result.1.columns = (f.computedSlot rule.output rule.outputType).1 ∧
        result.1.Rectangular := by
  obtain ⟨predicate, hp⟩ := bindComparison_ok (c := rule.predicate)
    (h.mono fun r hr => List.mem_append_left _ (List.mem_append_left _ hr))
  obtain ⟨yes, hyes⟩ := bindOperand_ok (o := rule.yes)
    (h.mono fun r hr => List.mem_append_left _ (List.mem_append_right _ hr))
  obtain ⟨no, hno⟩ := bindOperand_ok (o := rule.no)
    (h.mono fun r hr => List.mem_append_right _ hr)
  unfold condition
  rw [hp, hyes, hno]
  refine (applyRule_yields _ _ _ _ hf 1 w).bind fun result hresult => ⟨rfl, ?_⟩
  intro row hrow
  exact (hresult row hrow).trans (f.length_computedSlot _ _).symm

theorem join_yields {left right : Frame} {rule : JoinRule} {i j : Nat}
    (hi : left.resolve rule.left = .ok i) (hj : right.resolve rule.right = .ok j)
    (hl : left.Rectangular) (hr : right.Rectangular) :
    Yields (left.join right rule) fun f =>
      f.columns = left.columns ++ right.columns ∧ f.Rectangular := by
  unfold join
  rw [hi, hj]
  refine ⟨rfl, ?_⟩
  intro row hrow
  exact (Rows.length_of_mem_join hl hr hrow).trans List.length_append.symm

end Frame

end TablePipeline
