import TablePipeline.Proofs.Plan.Columns
import TablePipeline.Proofs.Rule.Casting

/-!
# References of rules

Which references a rule makes. A rule that compiles makes only references that the schema of its
input knows, also after its literals are settled, and so does a frame with the columns of the
schema. A condition is settled so that its output accepts the types of its branches.
-/

set_option autoImplicit false

namespace TablePipeline

variable {ε : Type}

def RightOperand.references : RightOperand → List Reference
  | .column r => [r]
  | _ => []

def Comparison.references (c : Comparison) : List Reference := c.column :: c.right.references

def RuleOperand.references : RuleOperand → List Reference
  | .column r => [r]
  | .literal _ => []

def ConditionRule.references (rule : ConditionRule) : List Reference :=
  rule.predicate.references ++ rule.yes.references ++ rule.no.references

def Schema.Knows (s : Schema ε) (rs : List Reference) : Prop := ∀ r ∈ rs, ∃ x, s.find r = .ok x

def Frame.Knows (f : Frame) (rs : List Reference) : Prop :=
  ∀ r ∈ rs, ∃ i, f.resolve r = .ok i ∧ i < f.columns.length

theorem Frame.knows_of_schema {cs : List (SchemaColumn ε)} {f : Frame}
    (hf : f.columns = cs.map SchemaColumn.plain) {rs : List Reference}
    (h : (Schema.ofColumns cs).Knows rs) : f.Knows rs := by
  intro r hr
  obtain ⟨x, hx⟩ := h r hr
  obtain ⟨i, c, _, hc, hi⟩ := Frame.resolve_of_find hf hx
  refine ⟨i, hi, ?_⟩
  rw [hf, List.length_map]
  exact (List.getElem?_eq_some_iff.mp hc).1

/-- Which references a schema knows depends on its qualifiers and names alone. -/
theorem Schema.knows_of_plain {ε' : Type} {cs : List (SchemaColumn ε)}
    {ds : List (SchemaColumn ε')}
    (hplain : ds.map SchemaColumn.plain = cs.map SchemaColumn.plain) {rs : List Reference}
    (h : (Schema.ofColumns cs).Knows rs) : (Schema.ofColumns ds).Knows rs := by
  intro r hr
  obtain ⟨x, hx⟩ := h r hr
  obtain ⟨i, _, _, _, hi⟩ :=
    Frame.resolve_of_find (f := ⟨cs.map SchemaColumn.plain, []⟩) rfl hx
  exact Frame.find_of_resolve (f := ⟨cs.map SchemaColumn.plain, []⟩) hplain.symm hi

theorem Frame.Knows.mono {f : Frame} {rs rs' : List Reference} (h : f.Knows rs) (hs : rs' ⊆ rs) :
    f.Knows rs' := fun r hr => h r (hs hr)

namespace Schema

theorem knows_nil (s : Schema ε) : s.Knows [] := by simp [Knows]

theorem knows_singleton {s : Schema ε} {r : Reference} {x : Resolved ε} (h : s.find r = .ok x) :
    s.Knows [r] := by
  intro r' hr
  obtain rfl := List.mem_singleton.mp hr
  exact ⟨x, h⟩

theorem knows_append {s : Schema ε} {rs rs' : List Reference} (h : s.Knows rs)
    (h' : s.Knows rs') : s.Knows (rs ++ rs') := by
  intro r hr
  rcases List.mem_append.mp hr with hr | hr
  · exact h r hr
  · exact h' r hr

/-- A comparison keeps its references when its literals are settled, and they are known. Only a
reference on the right adds to the one on the left. -/
theorem coerceComparison_spec {s : Schema ε} {place : PlanPlace} {c c' : Comparison}
    (h : s.coerceComparison place c = .ok c') :
    c'.references = c.references ∧ s.Knows c'.references := by
  obtain ⟨x, hx, h⟩ := Outcome.bind_eq_ok.mp h
  dsimp only at h
  have hleft (right : RightOperand) (heq : right.references = c.right.references)
      (hr : s.Knows right.references) :
      Comparison.references { c with right } = c.references ∧
        s.Knows (Comparison.references { c with right }) :=
    ⟨congrArg (c.column :: ·) heq,
      show s.Knows ([c.column] ++ right.references) from knows_append (knows_singleton hx) hr⟩
  cases hc : c.right with
  | none =>
    rw [hc] at h
    obtain rfl := Outcome.pure_eq_ok.mp h
    exact hleft .none (by rw [hc]) (knows_nil s)
  | value v =>
    rw [hc] at h
    dsimp only at h
    split at h
    · obtain rfl := Outcome.pure_eq_ok.mp h
      exact hleft (.value v) (by rw [hc]) (knows_nil s)
    · obtain ⟨right, hright, h⟩ := Outcome.bind_eq_ok.mp h
      obtain ⟨v', _, rfl⟩ := Outcome.map_eq_ok.mp hright
      obtain rfl := Outcome.pure_eq_ok.mp h
      exact hleft (.value v') (by rw [hc]; rfl) (knows_nil s)
  | list vs =>
    rw [hc] at h
    obtain ⟨right, hright, h⟩ := Outcome.bind_eq_ok.mp h
    obtain ⟨vs', _, rfl⟩ := Outcome.map_eq_ok.mp hright
    obtain rfl := Outcome.pure_eq_ok.mp h
    exact hleft (.list vs') (by rw [hc]; rfl) (knows_nil s)
  | column r =>
    rw [hc] at h
    obtain ⟨y, hy, h⟩ := Outcome.bind_eq_ok.mp h
    obtain rfl := Outcome.pure_eq_ok.mp h
    exact hleft (.column r) (by rw [hc]) (knows_singleton hy)

theorem coerceComparisons_know {s : Schema ε} {place : PlanPlace} {cs cs' : List Comparison}
    (h : cs.mapM (s.coerceComparison place) = .ok cs') : ∀ c ∈ cs', s.Knows c.references := by
  intro c hc
  obtain ⟨c₀, _, hc₀⟩ := Outcome.exists_of_mem_right h hc
  exact (coerceComparison_spec hc₀).2

theorem operandType_knows {s : Schema ε} {o : RuleOperand} {t : Option ColumnType}
    (h : s.operandType? o = .ok t) : s.Knows o.references := by
  cases o with
  | column r =>
    obtain ⟨x, hx, _⟩ := Outcome.bind_eq_ok.mp h
    exact knows_singleton hx
  | literal v => exact knows_nil s

theorem operandTypes_know {s : Schema ε} {os : List RuleOperand} {ts : List (Option ColumnType)}
    (h : os.mapM s.operandType? = .ok ts) : ∀ o ∈ os, s.Knows o.references := by
  intro o ho
  obtain ⟨t, _, ht⟩ := Outcome.exists_of_mem_left h ho
  exact operandType_knows ht

end Schema

/-- The types of a branch are settled so that no cast to the output fails. -/
def Accepted (output branch : Option ColumnType) : Prop :=
  ∀ target t, output = some target → branch = some t → target.accepts t = true

theorem accepted_none (output : Option ColumnType) : Accepted output none :=
  fun _ _ _ h => by cases h

theorem accepted_some {target t : ColumnType} (h : target.accepts t = true) :
    Accepted (some target) (some t) := by
  intro target' t' htarget ht
  obtain rfl := Option.some.inj htarget
  obtain rfl := Option.some.inj ht
  exact h

namespace ConditionRule

variable {s : Schema ε}

/-- A branch keeps its references; it has the type that is told, which the declared one accepts. A
literal was cast to the declared type, so it is null or has that type. -/
theorem branch_spec {declared type? : Option ColumnType} {o o' : RuleOperand}
    {place : PlanPlace} (h : branch s place declared o = .ok (o', type?)) :
    o'.references = o.references ∧ s.operandType? o' = .ok type? ∧ Accepted declared type? := by
  cases o with
  | column r =>
    obtain ⟨x, hx, h⟩ := Outcome.bind_eq_ok.mp h
    have htype : s.operandType? (.column r) = .ok x.type? := Outcome.bind_eq_ok.mpr ⟨x, hx, rfl⟩
    dsimp only at h
    split at h
    · rename_i d t hd _
      split at h
      · rename_i haccepts
        obtain ⟨rfl, rfl⟩ := Prod.mk.inj (Outcome.pure_eq_ok.mp h)
        refine ⟨rfl, htype, ?_⟩
        rw [hd]
        exact accepted_some haccepts
      · obtain ⟨_, hthrow, _⟩ := Outcome.bind_eq_ok.mp h
        cases hthrow
    · rename_i hnone
      obtain ⟨rfl, rfl⟩ := Prod.mk.inj (Outcome.pure_eq_ok.mp h)
      exact ⟨rfl, htype, fun target u htarget hu => (hnone target u htarget hu).elim⟩
  | literal v =>
    unfold branch at h
    dsimp only at h
    cases declared with
    | none =>
      obtain ⟨rfl, rfl⟩ := Prod.mk.inj (Outcome.pure_eq_ok.mp h)
      exact ⟨rfl, rfl, fun target u htarget => by cases htarget⟩
    | some d =>
      obtain ⟨w, hw, h⟩ := Outcome.bind_eq_ok.mp h
      obtain ⟨rfl, rfl⟩ := Prod.mk.inj (Outcome.pure_eq_ok.mp h)
      refine ⟨rfl, rfl, fun target u htarget hu => ?_⟩
      obtain rfl := Option.some.inj htarget
      have hcast := Outcome.mapError_eq_ok.mp hw
      cases hv : v.isNull with
      | true =>
        obtain rfl := Scalar.isNull_eq_true_iff.mp hv
        obtain rfl := Except.ok.inj hcast
        cases hu
      | false =>
        obtain rfl := Option.some.inj ((Scalar.type?_of_cast hcast hv).symm.trans hu)
        exact ColumnType.accepts_self d

theorem commonType?_accepts {a b t : ColumnType} (h : commonType? a b = some t) :
    t.accepts a = true ∧ t.accepts b = true := by
  unfold commonType? at h
  split at h
  · rename_i heq
    obtain rfl := Option.some.inj h
    exact ⟨ColumnType.accepts_self _, heq ▸ ColumnType.accepts_self _⟩
  · split at h
    · rename_i ha
      obtain rfl := Option.some.inj h
      exact ⟨ColumnType.accepts_self _, ha.2⟩
    · split at h
      · rename_i hb
        obtain rfl := Option.some.inj h
        exact ⟨hb.2, ColumnType.accepts_self _⟩
      · cases h

structure Settles (rule : ConditionRule) (s : Schema ε) (settled : SettledCondition) : Prop where
  references : settled.rule.references = rule.references
  output : settled.rule.output = rule.output
  knows : s.Knows settled.rule.references
  yesType : s.operandType? settled.rule.yes = .ok settled.yesType
  noType : s.operandType? settled.rule.no = .ok settled.noType
  yesAccepted : Accepted settled.rule.outputType settled.yesType
  noAccepted : Accepted settled.rule.outputType settled.noType

/-- A settled condition makes the same references, and its output accepts both of its branches.
Without a declared type it takes the type of both branches, or of the one that has any. -/
theorem settles {rule : ConditionRule} {node : String} {settled : SettledCondition}
    (h : rule.settle s node = .ok settled) : rule.Settles s settled := by
  unfold settle at h
  obtain ⟨predicate, hp, h⟩ := Outcome.bind_eq_ok.mp h
  obtain ⟨⟨yes, yesType⟩, hyes, h⟩ := Outcome.bind_eq_ok.mp h
  obtain ⟨⟨no, noType⟩, hno, h⟩ := Outcome.bind_eq_ok.mp h
  obtain ⟨hpRefs, hpKnows⟩ := Schema.coerceComparison_spec hp
  obtain ⟨hyesRefs, hyesType, hyesAccepts⟩ := branch_spec hyes
  obtain ⟨hnoRefs, hnoType, hnoAccepts⟩ := branch_spec hno
  have hsettled : ∃ outputType, Accepted outputType yesType ∧ Accepted outputType noType ∧
      settled = ⟨{ rule with predicate, yes, no, outputType }, yesType, noType⟩ := by
    dsimp only at h
    cases houtput : rule.outputType with
    | some t =>
      rw [houtput] at h hyesAccepts hnoAccepts
      exact ⟨_, hyesAccepts, hnoAccepts, (Outcome.pure_eq_ok.mp h).symm⟩
    | none =>
      rw [houtput] at h
      cases yesType with
      | none =>
        refine ⟨noType, accepted_none _, ?_, (Outcome.pure_eq_ok.mp h).symm⟩
        cases noType with
        | none => exact accepted_none _
        | some b => exact accepted_some (ColumnType.accepts_self b)
      | some a =>
        cases noType with
        | none =>
          exact ⟨some a, accepted_some (ColumnType.accepts_self a), accepted_none _,
            (Outcome.pure_eq_ok.mp h).symm⟩
        | some b =>
          dsimp only at h
          split at h
          · rename_i t ht
            obtain ⟨ha, hb⟩ := commonType?_accepts ht
            exact ⟨some t, accepted_some ha, accepted_some hb, (Outcome.pure_eq_ok.mp h).symm⟩
          · obtain ⟨_, hthrow, _⟩ := Outcome.bind_eq_ok.mp h
            cases hthrow
  obtain ⟨outputType, hyesFits, hnoFits, rfl⟩ := hsettled
  refine ⟨?_, rfl, ?_, hyesType, hnoType, hyesFits, hnoFits⟩
  · show predicate.references ++ yes.references ++ no.references = _
    rw [hpRefs, hyesRefs, hnoRefs]
    rfl
  · exact Schema.knows_append (Schema.knows_append hpKnows (Schema.operandType_knows hyesType))
      (Schema.operandType_knows hnoType)

end ConditionRule

end TablePipeline
