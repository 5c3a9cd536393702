import TablePipeline.Proofs.Frame.Steps

/-!
# Rules that go from row to row

What a rule gives for a row is read off the row alone, so a row that fails changes nothing for the
others. Under each policy every row is kept, skipped or the end of the step, and each fault gives
one message with the number of its row in the input.
-/

set_option autoImplicit false

namespace TablePipeline

/-! ### Messages -/

/-- The warnings behind more messages: those for which there is room are kept, all are counted. -/
def Warnings.after (w : Warnings) (messages : List String) : Warnings where
  messages := w.messages ++ messages.take (w.cap - w.messages.length)
  total := w.total + messages.length
  cap := w.cap

theorem Warnings.after_nil (w : Warnings) : w.after [] = w := by
  rw [after, List.take_nil, List.append_nil, List.length_nil, Nat.add_zero]

theorem Warnings.push_after (w : Warnings) (m : String) (ms : List String) :
    (w.push m).after ms = w.after (m :: ms) := by
  obtain ⟨messages, total, cap⟩ := w
  unfold after push
  dsimp only
  rw [List.length_cons, Nat.add_assoc, Nat.add_comm 1]
  split
  · rename_i hroom
    have hrest : cap - messages.length = cap - (messages ++ [m]).length + 1 := by
      rw [List.length_append, List.length_singleton]
      omega
    rw [hrest, List.take_succ_cons, List.append_assoc, List.singleton_append]
  · rename_i hfull
    rw [Nat.sub_eq_zero_of_le (Nat.le_of_not_lt hfull), List.take_zero, List.take_zero]

def fault? : Except RowFault Scalar → Option RowFault
  | .ok _ => none
  | .error fault => some fault

theorem fault?_eq_none {x : Except RowFault Scalar} : fault? x = none ↔ ∃ v, x = .ok v := by
  cases x <;> simp [fault?]

/-- The messages for the rows of some rows that fail, with the number of each. -/
def faultTexts (label : String) (value : Row → Except RowFault Scalar) (ending : String)
    (first : Nat) (rows : List Row) : List String :=
  (rows.zipIdx first).filterMap fun (row, number) =>
    (fault? (value row)).map fun fault => faultText label number fault.message ++ ending

section Policies
variable {label : String} {value : Row → Except RowFault Scalar} {ending : String} {slot : Slot}
  {number : Nat} {row : Row} {rows : List Row} {v : Scalar} {fault : RowFault}

theorem faultTexts_ok (h : value row = .ok v) :
    faultTexts label value ending number (row :: rows) =
      faultTexts label value ending (number + 1) rows := by
  rw [faultTexts, List.zipIdx_cons]
  refine List.filterMap_cons_none ?_
  dsimp only
  rw [h]
  rfl

theorem faultTexts_error (h : value row = .error fault) :
    faultTexts label value ending number (row :: rows) =
      (faultText label number fault.message ++ ending) ::
        faultTexts label value ending (number + 1) rows := by
  rw [faultTexts, List.zipIdx_cons]
  refine List.filterMap_cons_some ?_
  dsimp only
  rw [h]
  rfl

theorem length_faultTexts : (faultTexts label value ending number rows).length =
    rows.countP fun row => (fault? (value row)).isSome := by
  induction rows generalizing number with
  | nil => rfl
  | cons row rows ih =>
    cases hrow : value row with
    | ok v => rw [faultTexts_ok hrow, ih, List.countP_cons_of_neg (by simp [hrow, fault?])]
    | error fault =>
      rw [faultTexts_error hrow, List.length_cons, ih,
        List.countP_cons_of_pos (by simp [hrow, fault?])]

/-! ### Each policy along the rows -/

theorem applyRule_nullOut (w : Warnings) :
    applyRule .nullOut label value slot number rows w =
      .ok (rows.map fun row => slot.put row ((value row).toOption.getD .null),
        w.after (faultTexts label value "; value set to NULL" number rows)) := by
  induction rows generalizing number w with
  | nil => exact congrArg (fun w => Except.ok ([], w)) w.after_nil.symm
  | cons row rows ih =>
    rw [applyRule, List.map_cons]
    cases hrow : value row with
    | ok v =>
      rw [faultTexts_ok hrow]
      exact Outcome.bind_eq_ok.mpr ⟨_, ih w, rfl⟩
    | error fault =>
      rw [faultTexts_error hrow, ← w.push_after]
      exact Outcome.bind_eq_ok.mpr ⟨_, rfl, Outcome.bind_eq_ok.mpr ⟨_, ih _, rfl⟩⟩

theorem applyRule_skipRow (w : Warnings) :
    applyRule .skipRow label value slot number rows w =
      .ok (rows.filterMap fun row => (value row).toOption.map (slot.put row),
        w.after (faultTexts label value "; row skipped" number rows)) := by
  induction rows generalizing number w with
  | nil => exact congrArg (fun w => Except.ok ([], w)) w.after_nil.symm
  | cons row rows ih =>
    rw [applyRule, List.filterMap_cons]
    cases hrow : value row with
    | ok v =>
      rw [faultTexts_ok hrow]
      exact Outcome.bind_eq_ok.mpr ⟨_, ih w, rfl⟩
    | error fault =>
      rw [faultTexts_error hrow, ← w.push_after]
      exact Outcome.bind_eq_ok.mpr ⟨_, rfl, ih _⟩

/-- Behind rows that do not fail the first one that fails ends the step. -/
theorem applyRule_abort {before rest : List Row} (hbefore : ∀ r ∈ before, ∃ v, value r = .ok v)
    (hrow : value row = .error fault) (w : Warnings) :
    applyRule .abort label value slot number (before ++ row :: rest) w =
      .error ⟨.castError, faultText label (number + before.length) fault.message⟩ := by
  induction before generalizing number with
  | nil =>
    rw [List.nil_append, applyRule, hrow]
    rfl
  | cons r before ih =>
    obtain ⟨v, hv⟩ := hbefore r List.mem_cons_self
    rw [List.cons_append, applyRule, hv]
    dsimp only
    rw [ih fun r hr => hbefore r (List.mem_cons_of_mem _ hr), List.length_cons, Nat.add_assoc,
      Nat.add_comm 1]
    rfl

end Policies

/-! ### Rules -/

/-- A rule that a step in memory applies to each row. -/
inductive RowRule
  | cast (rule : CastRule)
  | arithmetic (rule : ArithmeticRule) (type? : Option ColumnType)
  | condition (rule : ConditionRule)

namespace Frame

def cell (f : Frame) (row : Row) (r : Reference) : Scalar :=
  match f.resolve r with
  | .ok i => row.getD i .null
  | .error _ => .null

theorem lt_of_resolve {f : Frame} {r : Reference} {i : Nat} (h : f.resolve r = .ok i) :
    i < f.columns.length := by
  unfold resolve at h
  split at h
  · rename_i c j hits
    obtain rfl := Except.ok.inj h
    have hm : (c, j) ∈ f.columns.zipIdx :=
      Reference.mem_of_mem_hits (hits ▸ List.mem_singleton_self (c, j))
    exact (List.getElem?_eq_some_iff.mp (List.mem_zipIdx_iff_getElem?.mp hm)).1
  · cases h
  · cases h

theorem cell_of_resolve {f : Frame} {r : Reference} {i : Nat} (h : f.resolve r = .ok i)
    (row : Row) : f.cell row r = row.getD i .null := by
  rw [cell, h]

def operandValue (f : Frame) (row : Row) : RuleOperand → Scalar
  | .column r => f.cell row r
  | .literal v => v

def rightValue (f : Frame) (row : Row) : RightOperand → CompareOperand
  | .none => .none
  | .value v => .value v
  | .list vs => .list vs
  | .column r => .value (f.cell row r)

def truth? (f : Frame) (row : Row) (c : Comparison) : Option Bool :=
  (f.cell row c.column).test? c.op (f.rightValue row c.right)

/-- The place of a computed column: the one of an earlier one of its name, or behind all. -/
def outputPlace (f : Frame) (name : String) : Nat :=
  f.columns.findIdx fun c => c.qualifier.isNone && c.name == name

def Resolves (f : Frame) (rs : List Reference) : Prop := ∀ r ∈ rs, ∃ i, f.resolve r = .ok i

theorem Resolves.knows {f : Frame} {rs : List Reference} (h : f.Resolves rs) : f.Knows rs := by
  intro r hr
  obtain ⟨i, hi⟩ := h r hr
  exact ⟨i, hi, lt_of_resolve hi⟩

end Frame

/-- A row with another value at a place, which may be the one behind its last cell. -/
def Row.Gets (place : Nat) (v : Scalar) (row row' : Row) : Prop :=
  row'[place]? = some v ∧ ∀ i ≠ place, row'[i]? = row[i]?

namespace RowRule

def policy : RowRule → RowPolicy
  | cast rule => rule.policy
  | arithmetic rule _ => rule.policy
  | condition rule => rule.policy

def label : RowRule → String
  | cast rule => "cast of '" ++ rule.column.text ++ "' to " ++ rule.target.name
  | arithmetic rule _ => "arithmetic '" ++ rule.output ++ "'"
  | condition rule => "condition '" ++ rule.output ++ "'"

def references : RowRule → List Reference
  | cast rule => [rule.column]
  | arithmetic rule _ => rule.operands.flatMap RuleOperand.references
  | condition rule => rule.references

def apply (f : Frame) (w : Warnings) : RowRule → Except Failure (Frame × Warnings)
  | cast rule => f.cast rule w
  | arithmetic rule type? => f.arithmetic rule type? w
  | condition rule => f.condition rule w

def evaluate (f : Frame) (row : Row) : RowRule → Except RowFault Scalar
  | cast rule => (f.cell row rule.column).cast rule.target
  | arithmetic rule _ =>
    Arithmetic.evaluate rule.op (rule.operands.map (f.operandValue row)) rule.divideByZero
  | condition rule => Frame.fitOutput rule.outputType <|
    if f.truth? row rule.predicate = some true then f.operandValue row rule.yes
    else f.operandValue row rule.no

def place (f : Frame) : RowRule → Nat
  | cast rule => (f.resolve rule.column).toOption.getD f.columns.length
  | arithmetic rule _ => f.outputPlace rule.output
  | condition rule => f.outputPlace rule.output

def columns (f : Frame) : RowRule → List PlanColumn
  | cast rule => f.setType ((RowRule.cast rule).place f) (some rule.target)
  | arithmetic rule type? => (f.computedSlot rule.output type?).1
  | condition rule => (f.computedSlot rule.output rule.outputType).1

def fails (f : Frame) (rule : RowRule) (row : Row) : Bool := (fault? (rule.evaluate f row)).isSome

/-- The messages for the rows that fail, numbered from 1 in the frame. -/
def messages (f : Frame) (rule : RowRule) (ending : String) : List String :=
  faultTexts rule.label (fun row => rule.evaluate f row) ending 1 f.rows

def Writes (f : Frame) (rule : RowRule) (row row' : Row) : Prop :=
  ∃ v, rule.evaluate f row = .ok v ∧ Row.Gets (rule.place f) v row row'

end RowRule

/-! ### What a bound rule reads and writes -/

namespace Slot
variable {row : Row}

theorem gets_put_replace {i : Nat} (hi : i < row.length) (v : Scalar) :
    Row.Gets i v row ((replace i).put row v) :=
  ⟨List.getElem?_set_self hi, fun _ hj => List.getElem?_set_ne hj.symm⟩

theorem gets_put_append (v : Scalar) : Row.Gets row.length v row (append.put row v) := by
  refine ⟨List.getElem?_concat_length, fun i hi => ?_⟩
  rcases Nat.lt_or_gt_of_ne hi with hlt | hgt
  · exact List.getElem?_append_left hlt
  · have hput : (append.put row v).length ≤ i := by
      rw [length_put]
      exact hgt
    rw [List.getElem?_eq_none_iff.mpr hput, List.getElem?_eq_none_iff.mpr (Nat.le_of_lt hgt)]

end Slot

namespace Frame
variable {f : Frame} {row : Row}

theorem value_bindOperand {o : RuleOperand} {b : BoundOperand} (h : f.bindOperand o = .ok b) :
    b.value row = f.operandValue row o := by
  cases o with
  | column r =>
    obtain ⟨i, hi, hb⟩ := Outcome.bind_eq_ok.mp h
    obtain rfl := Outcome.pure_eq_ok.mp hb
    exact (cell_of_resolve hi row).symm
  | literal v =>
    obtain rfl := Except.ok.inj h
    rfl

theorem map_value_bindOperand {os : List RuleOperand} {bs : List BoundOperand}
    (h : os.mapM f.bindOperand = .ok bs) : bs.map (·.value row) = os.map (f.operandValue row) := by
  have hvalues : List.Forall₂ (· = ·) (bs.map (·.value row)) (os.map (f.operandValue row)) := by
    rw [List.forall₂_map_left_iff, List.forall₂_map_right_iff]
    exact (Outcome.mapM_eq_ok.mp h).flip.imp fun _ _ => value_bindOperand
  rwa [List.forall₂_eq_eq_eq] at hvalues

theorem operand_bindsRight {right : RightOperand} {b : BoundRight} (h : f.BindsRight right b) :
    b.operand row = f.rightValue row right := by
  cases right with
  | column r =>
    obtain ⟨j, hj, rfl⟩ := h
    rw [rightValue, cell_of_resolve hj]
    rfl
  | _ =>
    obtain rfl : b = .fixed _ := h
    rfl

theorem test?_bindComparison {c : Comparison} {b : BoundComparison}
    (h : f.bindComparison c = .ok b) : b.test? row = f.truth? row c := by
  obtain ⟨hleft, hop, hright⟩ := bindComparison_eq_ok.mp h
  rw [BoundComparison.test?_eq, truth?, cell_of_resolve hleft, hop, operand_bindsRight hright]

theorem gets_computedSlot (name : String) (type? : Option ColumnType)
    (hrow : row.length = f.columns.length) (v : Scalar) :
    Row.Gets (f.outputPlace name) v row ((f.computedSlot name type?).2.put row v) := by
  unfold computedSlot outputPlace
  split
  · rename_i i hi
    obtain ⟨hlt, hplace⟩ := List.findIdx?_eq_some_iff_findIdx_eq.mp hi
    rw [hplace]
    exact Slot.gets_put_replace (hrow ▸ hlt) v
  · rename_i hnone
    rw [List.findIdx?_eq_none_iff_findIdx_eq.mp hnone, ← hrow]
    exact Slot.gets_put_append v

end Frame

namespace RowRule
variable {f : Frame} {rule : RowRule}

theorem fails_eq_false {row : Row} :
    rule.fails f row = false ↔ ∃ v, rule.evaluate f row = .ok v := by
  rw [fails, Option.isSome_eq_false_iff, Option.isNone_iff_eq_none, fault?_eq_none]

/-- A rule whose references are known goes over the rows with the values that it gives for them. -/
theorem apply_eq (h : f.Resolves rule.references) :
    ∃ slot : Slot, (∀ row v, row.length = f.columns.length →
        Row.Gets (rule.place f) v row (slot.put row v)) ∧
      ∀ w, rule.apply f w =
        (applyRule rule.policy rule.label (fun row => rule.evaluate f row) slot 1 f.rows w).map
          fun result => (⟨rule.columns f, result.1⟩, result.2) := by
  cases rule with
  | cast rule =>
    obtain ⟨i, hi⟩ := h rule.column List.mem_cons_self
    have hplace : (RowRule.cast rule).place f = i := by
      rw [place, hi]
      rfl
    refine ⟨.replace i, fun row v hrow => ?_, fun w => ?_⟩
    · rw [hplace]
      exact Slot.gets_put_replace (hrow ▸ Frame.lt_of_resolve hi) v
    · have hvalue : (fun row : Row => (row.getD i .null).cast rule.target) =
          fun row => (RowRule.cast rule).evaluate f row := by
        funext row
        rw [evaluate, Frame.cell_of_resolve hi]
      rw [apply, Frame.cast, hi, columns, hplace, ← hvalue]
      rfl
  | arithmetic rule type? =>
    have hoperand : ∀ o ∈ rule.operands, ∃ b, f.bindOperand o = .ok b := fun o ho =>
      Frame.bindOperand_ok (h.knows.mono fun r hr => List.mem_flatMap.mpr ⟨o, ho, hr⟩)
    obtain ⟨operands, hoperands⟩ := Outcome.mapM_ok_of_forall hoperand
    refine ⟨(f.computedSlot rule.output type?).2,
      fun row v hrow => Frame.gets_computedSlot _ _ hrow v, fun w => ?_⟩
    have hvalue : (fun row : Row => Arithmetic.evaluate rule.op (operands.map (·.value row))
        rule.divideByZero) = fun row => (RowRule.arithmetic rule type?).evaluate f row := by
      funext row
      rw [evaluate, Frame.map_value_bindOperand hoperands]
    rw [apply, Frame.arithmetic, hoperands, ← hvalue]
    rfl
  | condition rule =>
    obtain ⟨predicate, hpredicate⟩ := Frame.bindComparison_ok (c := rule.predicate)
      (h.knows.mono fun r hr => List.mem_append_left _ (List.mem_append_left _ hr))
    obtain ⟨yes, hyes⟩ := Frame.bindOperand_ok (o := rule.yes)
      (h.knows.mono fun r hr => List.mem_append_left _ (List.mem_append_right _ hr))
    obtain ⟨no, hno⟩ := Frame.bindOperand_ok (o := rule.no)
      (h.knows.mono fun r hr => List.mem_append_right _ hr)
    refine ⟨(f.computedSlot rule.output rule.outputType).2,
      fun row v hrow => Frame.gets_computedSlot _ _ hrow v, fun w => ?_⟩
    have hvalue : (fun row : Row => Frame.fitOutput rule.outputType
        (if predicate.test? row == some true then yes.value row else no.value row)) =
          fun row => (RowRule.condition rule).evaluate f row := by
      funext row
      rw [evaluate, Frame.test?_bindComparison hpredicate, Frame.value_bindOperand hyes,
        Frame.value_bindOperand hno]
      simp only [beq_iff_eq]
    rw [apply, Frame.condition, hpredicate, hyes, hno, ← hvalue]
    rfl

end RowRule

/-! ### No row is lost -/

/-- The elements that a test passes, next to what a partial function gives for just these. -/
theorem forall₂_filterMap {α β : Type} {R : α → β → Prop} {p : α → Bool} {g : α → Option β}
    {xs : List α} (hnone : ∀ x ∈ xs, p x = false → g x = none)
    (hsome : ∀ x ∈ xs, p x = true → ∃ y, g x = some y ∧ R x y) :
    List.Forall₂ R (xs.filter p) (xs.filterMap g) := by
  induction xs with
  | nil => exact .nil
  | cons x xs ih =>
    have hrest := ih (fun x hx => hnone x (List.mem_cons_of_mem _ hx))
      fun x hx => hsome x (List.mem_cons_of_mem _ hx)
    cases hx : p x with
    | false =>
      rw [List.filter_cons_of_neg (by simp [hx]),
        List.filterMap_cons_none (hnone x List.mem_cons_self hx)]
      exact hrest
    | true =>
      obtain ⟨y, hy, hxy⟩ := hsome x List.mem_cons_self hx
      rw [List.filter_cons_of_pos hx, List.filterMap_cons_some hy]
      exact .cons hxy hrest

/-- What a rule makes of a frame under each policy. A row that fails gets null, is left out, or ends
the step; all others get the value of the rule and keep their other cells. The messages number the
rows of the frame, whichever of them are left out. -/
theorem RowRule.apply_by_policy (rule : RowRule) (f : Frame) (w : Warnings) (hf : f.Rectangular)
    (h : f.Resolves rule.references) :
    (rule.policy = .nullOut → ∃ g, rule.apply f w =
        .ok (g, w.after (rule.messages f "; value set to NULL")) ∧ g.columns = rule.columns f ∧
      (rule.messages f "; value set to NULL").length = f.rows.countP (rule.fails f) ∧
      List.Forall₂ (fun row row' => if rule.fails f row then Row.Gets (rule.place f) .null row row'
        else rule.Writes f row row') f.rows g.rows) ∧
    (rule.policy = .skipRow → ∃ g, rule.apply f w =
        .ok (g, w.after (rule.messages f "; row skipped")) ∧ g.columns = rule.columns f ∧
      (rule.messages f "; row skipped").length = f.rows.countP (rule.fails f) ∧
      List.Forall₂ (rule.Writes f) (f.rows.filter fun row => !rule.fails f row) g.rows) ∧
    (rule.policy = .abort →
      (∀ before row rest fault, f.rows = before ++ row :: rest →
        (∀ r ∈ before, rule.fails f r = false) → rule.evaluate f row = .error fault →
        rule.apply f w =
          .error ⟨.castError, faultText rule.label (before.length + 1) fault.message⟩) ∧
      ((∀ row ∈ f.rows, rule.fails f row = false) →
        ∃ g, rule.apply f w = .ok (g, w) ∧ g.columns = rule.columns f ∧
          List.Forall₂ (rule.Writes f) f.rows g.rows)) := by
  obtain ⟨slot, hput, happly⟩ := rule.apply_eq h
  have hwrites {row : Row} {v : Scalar} (hrow : row ∈ f.rows) (hv : rule.evaluate f row = .ok v) :
      rule.Writes f row (slot.put row v) := ⟨v, hv, hput row v (hf row hrow)⟩
  refine ⟨fun hpolicy => ?nullOut, fun hpolicy => ?skipRow, fun hpolicy => ⟨?fails, ?passes⟩⟩
  all_goals rw [hpolicy] at happly
  case nullOut =>
    refine ⟨_, by rw [happly, applyRule_nullOut]; rfl, rfl, length_faultTexts, ?_⟩
    rw [List.forall₂_map_right_iff, List.forall₂_same]
    intro row hrow
    cases hv : rule.evaluate f row with
    | ok v =>
      rw [if_neg (by simp [fails_eq_false.mpr ⟨v, hv⟩])]
      exact hwrites hrow hv
    | error fault =>
      rw [if_pos (by rw [fails, hv]; rfl)]
      exact hput row .null (hf row hrow)
  case skipRow =>
    refine ⟨_, by rw [happly, applyRule_skipRow]; rfl, rfl, length_faultTexts, ?_⟩
    refine forall₂_filterMap (fun row _ hrow => ?_) fun row hmem hrow => ?_
    · cases hv : rule.evaluate f row with
      | ok v => rw [fails_eq_false.mpr ⟨v, hv⟩] at hrow; cases hrow
      | error fault => rfl
    · obtain ⟨v, hv⟩ := fails_eq_false.mp (by simpa using hrow)
      exact ⟨slot.put row v, by rw [hv]; rfl, hwrites hmem hv⟩
  case fails =>
    intro before row rest fault hrows hbefore hrow
    rw [happly, hrows, applyRule_abort (fun r hr => fails_eq_false.mp (hbefore r hr)) hrow,
      Nat.add_comm]
    rfl
  case passes =>
    intro hall
    choose! value hvalue using fun row hrow => fails_eq_false.mp (hall row hrow)
    refine ⟨_, by rw [happly, applyRule_ok _ _ _ hvalue]; rfl, rfl, ?_⟩
    rw [List.forall₂_map_right_iff, List.forall₂_same]
    exact fun row hrow => hwrites hrow (hvalue row hrow)

/-- Two of four rows hold no number in the column that is counted up. -/
def countFrame : Frame where
  columns := [⟨some "p", "name", some .text⟩, ⟨none, "n", some .text⟩]
  rows := [[.text "a", .text "7"], [.text "b", .text "x"], [.text "c", .null],
    [.text "d", .text "y"]]

def countUp (policy : RowPolicy) : RowRule :=
  .arithmetic ⟨[.column ⟨none, "n"⟩, .literal (.integer 1)], .add, "n", .null, policy⟩ none

/-- The first message fills the room, and the second is only counted. -/
theorem RowRule.apply_by_policy_countUp :
    (∃ g, (countUp .skipRow).apply countFrame (.empty 1) =
        .ok (g, ⟨["arithmetic 'n', row 2: 'x' is not a number; row skipped"], 2, 1⟩) ∧
      g.rows.length = 2) ∧
    (∃ g, (countUp .nullOut).apply countFrame (.empty 1) =
        .ok (g, ⟨["arithmetic 'n', row 2: 'x' is not a number; value set to NULL"], 2, 1⟩) ∧
      g.rows.length = 4) ∧
    (countUp .abort).apply countFrame (.empty 1) =
      .error ⟨.castError, "arithmetic 'n', row 2: 'x' is not a number"⟩ := by
  have hf : countFrame.Rectangular := by unfold Frame.Rectangular; decide
  have h (policy : RowPolicy) : countFrame.Resolves (countUp policy).references := by
    intro r hr
    obtain rfl := List.mem_singleton.mp hr
    exact ⟨1, rfl⟩
  refine ⟨?_, ?_, ?_⟩
  · obtain ⟨g, hg, -, -, hrows⟩ :=
      ((countUp .skipRow).apply_by_policy countFrame (.empty 1) hf (h _)).2.1 rfl
    have hwarn : (Warnings.empty 1).after ((countUp .skipRow).messages countFrame "; row skipped") =
        ⟨["arithmetic 'n', row 2: 'x' is not a number; row skipped"], 2, 1⟩ := by decide +kernel
    exact ⟨g, hwarn ▸ hg, hrows.length_eq.symm.trans (by decide +kernel)⟩
  · obtain ⟨g, hg, -, -, hrows⟩ :=
      ((countUp .nullOut).apply_by_policy countFrame (.empty 1) hf (h _)).1 rfl
    have hwarn : (Warnings.empty 1).after
        ((countUp .nullOut).messages countFrame "; value set to NULL") =
          ⟨["arithmetic 'n', row 2: 'x' is not a number; value set to NULL"], 2, 1⟩ := by
      decide +kernel
    exact ⟨g, hwarn ▸ hg, hrows.length_eq.symm⟩
  · have hstop := (((countUp .abort).apply_by_policy countFrame (.empty 1) hf (h _)).2.2 rfl).1
      [[.text "a", .text "7"]] _ _ (.notANumber "x") rfl (by decide +kernel) (by rfl)
    have htext : faultText "arithmetic 'n'" 2 (RowFault.notANumber "x").message =
        "arithmetic 'n', row 2: 'x' is not a number" := by decide +kernel
    exact htext ▸ hstop

end TablePipeline
