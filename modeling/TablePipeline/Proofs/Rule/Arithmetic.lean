import TablePipeline.Execution.Target
import TablePipeline.Proofs.Outcome
import TablePipeline.Rule.Arithmetic

/-!
# Values of arithmetic and their types

Arithmetic that does not end at a zero divisor gives a number whose type follows from the types of
the numbers it goes over. That is the type which is tracked for its column, but where a text holds a
decimal and no operand is declared as one: then a whole number is tracked and a decimal comes out.
-/

set_option autoImplicit false

namespace TablePipeline

open Sql (ArithmeticOp)

def Number.type : Number → ColumnType
  | integer _ => .integer
  | decimal _ => .decimal
  | float _ => .float

theorem Number.type?_toScalar (n : Number) : n.toScalar.type? = some n.type := by
  cases n <;> rfl

namespace Scalar

def readsZero (v : Scalar) : Bool :=
  match v.toNumber with
  | .ok n => n.isZero
  | .error _ => false

def hidesDecimal (v : Scalar) : Bool :=
  v.type? == some .text && match v.toNumber with
    | .ok (.decimal _) => true
    | _ => false

theorem readsZero_eq {v : Scalar} {n : Number} (h : v.toNumber = .ok n) :
    v.readsZero = n.isZero := by
  unfold readsZero
  rw [h]

theorem hidesDecimal_iff {v : Scalar} :
    v.hidesDecimal = true ↔
      v.type? = some .text ∧ ∃ n, v.toNumber = .ok n ∧ n.type = .decimal := by
  unfold hidesDecimal
  rw [Bool.and_eq_true, beq_iff_eq]
  refine and_congr_right fun _ => ?_
  cases v.toNumber with
  | error fault => simp
  | ok n => cases n <;> simp [Number.type]

/-- A number has the type of its cell, unless the cell is a text, which holds no float. -/
theorem type_of_toNumber {v : Scalar} {n : Number} (h : v.toNumber = .ok n) :
    v.type? = some n.type ∨ v.type? = some .text ∧ n.type ≠ .float := by
  cases v with
  | integer m =>
    cases h
    exact .inl rfl
  | decimal d =>
    cases h
    exact .inl rfl
  | float x =>
    cases h
    exact .inl rfl
  | text s =>
    refine .inr ⟨rfl, ?_⟩
    unfold toNumber at h
    dsimp only at h
    split at h
    · cases h
      exact fun h => ColumnType.noConfusion h
    · split at h
      · cases h
        exact fun h => ColumnType.noConfusion h
      · cases h
  | _ => cases h

end Scalar

namespace Arithmetic

variable {op : ArithmeticOp} {divideByZero v r : Scalar} {vs : List Scalar} {acc : Number}

/-! ### Going on with the operands -/

def dividesByZero (op : ArithmeticOp) (operands : List Scalar) : Bool :=
  op == .divide && operands.tail.any Scalar.readsZero

theorem step_eq_ok {a b : Number} {x : Option Number} :
    Number.step op a b = .ok x ↔
      (op = .divide ∧ b.isZero = true) ∧ x = none ∨
        ¬ (op = .divide ∧ b.isZero = true) ∧ ∃ c, Number.combine? op a b = some c ∧ x = some c := by
  unfold Number.step
  split
  · rename_i hzero
    constructor
    · intro h
      exact .inl ⟨hzero, (Except.ok.inj h).symm⟩
    · rintro (⟨_, rfl⟩ | ⟨hne, _⟩)
      · rfl
      · exact absurd hzero hne
  · rename_i hzero
    cases Number.combine? op a b with
    | none =>
      constructor
      · intro h
        cases h
      · rintro (⟨h, _⟩ | ⟨_, c, hc, _⟩)
        · exact absurd h hzero
        · cases hc
    | some c =>
      constructor
      · intro h
        exact .inr ⟨hzero, c, rfl, (Except.ok.inj h).symm⟩
      · rintro (⟨h, _⟩ | ⟨_, c', hc, rfl⟩)
        · exact absurd h hzero
        · rw [hc]

/-- What a value of an operation over one operand more comes from. -/
theorem fold_cons_eq_ok :
    fold op divideByZero acc (v :: vs) = .ok r ↔
      ∃ n, v.toNumber = .ok n ∧
        ((op = .divide ∧ n.isZero = true) ∧ r = divideByZero ∨
          ¬ (op = .divide ∧ n.isZero = true) ∧
            ∃ next, Number.combine? op acc n = some next ∧
              fold op divideByZero next vs = .ok r) := by
  rw [fold, Outcome.bind_eq_ok]
  refine exists_congr fun n => and_congr_right fun _ => ?_
  rw [Outcome.bind_eq_ok]
  constructor
  · rintro ⟨x, hx, h⟩
    rcases step_eq_ok.mp hx with ⟨hzero, rfl⟩ | ⟨hzero, next, hnext, rfl⟩
    · exact .inl ⟨hzero, (Outcome.pure_eq_ok.mp h).symm⟩
    · exact .inr ⟨hzero, next, hnext, h⟩
  · rintro (⟨hzero, rfl⟩ | ⟨hzero, next, hnext, h⟩)
    · exact ⟨none, step_eq_ok.mpr (.inl ⟨hzero, rfl⟩), rfl⟩
    · exact ⟨some next, step_eq_ok.mpr (.inr ⟨hzero, next, hnext, rfl⟩), h⟩

theorem evaluate_eq_ok (hnull : (v :: vs).any Scalar.isNull = false) :
    evaluate op (v :: vs) divideByZero = .ok r ↔
      ∃ n, v.toNumber = .ok n ∧ fold op divideByZero n vs = .ok r := by
  unfold evaluate
  rw [hnull]
  exact Outcome.bind_eq_ok

theorem evaluate_null {operands : List Scalar} (hnull : operands.any Scalar.isNull = true)
    (h : evaluate op operands divideByZero = .ok r) : r = .null := by
  unfold evaluate at h
  rw [if_pos hnull] at h
  exact (Except.ok.inj h).symm

theorem fold_zeroDivisor (hzero : vs.any Scalar.readsZero = true)
    (h : fold .divide divideByZero acc vs = .ok r) : r = divideByZero := by
  induction vs generalizing acc with
  | nil => cases hzero
  | cons v vs ih =>
    obtain ⟨n, hn, ⟨_, hr⟩ | ⟨hne, next, _, hnext⟩⟩ := fold_cons_eq_ok.mp h
    · exact hr
    · refine ih ?_ hnext
      rw [List.any_cons, Scalar.readsZero_eq hn, Bool.or_eq_true] at hzero
      exact hzero.resolve_left fun hz => hne ⟨rfl, hz⟩

/-! ### Types of numbers -/

/-- The type of an operation over numbers of these types. -/
def numberType (op : ArithmeticOp) (types : List ColumnType) : ColumnType :=
  if .float ∈ types then .float
  else if .decimal ∈ types ∨ op = .divide then .decimal
  else .integer

theorem resultType?_known (op : ArithmeticOp) (types : List ColumnType) :
    resultType? op (types.map some) = some (numberType op types) := by
  unfold resultType? numberType
  simp only [List.contains_eq_mem, List.mem_map, Option.some_inj, exists_eq_right, reduceCtorEq,
    and_false, exists_false, decide_false, Bool.false_eq_true, if_false, decide_eq_true_eq,
    Bool.or_eq_true, beq_iff_eq]
  split
  · rfl
  · split <;> rfl

/-- The first two numbers may be combined before their type is taken. -/
theorem numberType_absorb (op : ArithmeticOp) (s t : ColumnType) (types : List ColumnType) :
    numberType op (numberType op [s, t] :: types) = numberType op (s :: t :: types) := by
  unfold numberType
  simp only [List.mem_cons, List.not_mem_nil, or_false]
  grind

theorem integerStep_type {m n : Int64} {c : Number} (h : Number.integerStep op m n = some c) :
    c.type = numberType op [.integer, .integer] := by
  cases op <;>
  · obtain ⟨_, _, rfl⟩ := Option.map_eq_some_iff.mp h
    rfl

theorem decimalStep_type {d e : Decimal} {c : Number} (h : Number.decimalStep op d e = some c) :
    c.type = .decimal := by
  obtain ⟨_, _, rfl⟩ := Option.map_eq_some_iff.mp h
  rfl

theorem floatStep_type {x y : Binary64} {c : Number} (h : Number.floatStep op x y = some c) :
    c.type = .float := by
  obtain ⟨_, h⟩ := Option.ite_none_right_eq_some.mp h
  obtain rfl := Option.some.inj h
  rfl

theorem combine?_type {a b c : Number} (h : Number.combine? op a b = some c) :
    c.type = numberType op [a.type, b.type] := by
  have hdecimal {x y : Option Decimal}
      (h : (do Number.decimalStep op (← x) (← y)) = some c) : c.type = .decimal := by
    obtain ⟨d, _, h⟩ := Option.bind_eq_some_iff.mp h
    obtain ⟨e, _, h⟩ := Option.bind_eq_some_iff.mp h
    exact decimalStep_type h
  cases a with
  | integer m =>
    cases b with
    | integer n => exact integerStep_type h
    | decimal e => exact hdecimal h
    | float y => exact floatStep_type h
  | decimal d =>
    cases b with
    | integer n => exact hdecimal h
    | decimal e => exact hdecimal h
    | float y => exact floatStep_type h
  | float x =>
    cases b with
    | integer n => exact floatStep_type h
    | decimal e => exact floatStep_type h
    | float y => exact floatStep_type h

/-- A number that no operation combined may have another type than one that did, so some operand is
left to combine it with, or its type is settled. Once an operation gave it, the type of the
accumulator is settled. -/
theorem fold_type (hzero : op = .divide → vs.any Scalar.readsZero = false)
    (hsettled : numberType op [acc.type] = acc.type ∨ vs ≠ [])
    (h : fold op divideByZero acc vs = .ok r) :
    ∃ numbers, vs.mapM Scalar.toNumber = .ok numbers ∧
      r.type? = some (numberType op (acc.type :: numbers.map Number.type)) := by
  induction vs generalizing acc with
  | nil =>
    obtain rfl := Except.ok.inj h
    refine ⟨[], rfl, ?_⟩
    rw [Number.type?_toScalar, List.map_nil, hsettled.resolve_right fun h => h rfl]
  | cons v vs ih =>
    obtain ⟨n, hn, ⟨⟨hop, hz⟩, _⟩ | ⟨_, next, hcombine, hfold⟩⟩ := fold_cons_eq_ok.mp h
    · have hany := hzero hop
      rw [List.any_cons, Scalar.readsZero_eq hn, hz] at hany
      cases hany
    · have htype := combine?_type hcombine
      have hrest : op = .divide → vs.any Scalar.readsZero = false := fun hop =>
        (Bool.or_eq_false_iff.mp (hzero hop)).2
      have hnext : numberType op [next.type] = next.type := by rw [htype, numberType_absorb]
      obtain ⟨numbers, hnumbers, hr⟩ := ih hrest (.inl hnext) hfold
      refine ⟨n :: numbers, ?_, ?_⟩
      · rw [List.mapM_cons, hn, hnumbers]
        rfl
      · rw [hr, htype, numberType_absorb, List.map_cons]

/-! ### Tracked types -/

/-- An operation on whole numbers, as far as the types of its operands tell, of which one is a text
that holds a decimal. -/
def HidesDecimal (op : ArithmeticOp) (operands : List Scalar) : Prop :=
  op ≠ .divide ∧ (∀ v ∈ operands, v.type? ≠ some .float ∧ v.type? ≠ some .decimal) ∧
    ∃ v ∈ operands, v.hidesDecimal = true

instance (op : ArithmeticOp) (operands : List Scalar) : Decidable (HidesDecimal op operands) :=
  inferInstanceAs (Decidable (_ ∧ _ ∧ _))

def ReadAs (operands : List Scalar) (numbers : List Number) : Prop :=
  List.Forall₂ (fun v n => v.toNumber = .ok n) operands numbers

variable {operands : List Scalar} {numbers : List Number} {types : List ColumnType}

theorem exists_types (hnull : operands.any Scalar.isNull = false) :
    ∃ types : List ColumnType, operands.map Scalar.type? = types.map some := by
  induction operands with
  | nil => exact ⟨[], rfl⟩
  | cons v vs ih =>
    obtain ⟨hv, hvs⟩ := Bool.or_eq_false_iff.mp hnull
    obtain ⟨types, htypes⟩ := ih hvs
    cases ht : v.type? with
    | none =>
      obtain rfl := (Scalar.type?_eq_none_iff v).mp ht
      cases hv
    | some t => exact ⟨t :: types, by rw [List.map_cons, List.map_cons, ht, htypes]⟩

theorem mem_types_iff (htypes : operands.map Scalar.type? = types.map some) (t : ColumnType) :
    t ∈ types ↔ ∃ v ∈ operands, v.type? = some t := by
  have hsome : some t ∈ types.map some ↔ t ∈ types := by simp
  rw [← hsome, ← htypes, List.mem_map]

theorem mem_numbers_iff (hnumbers : ReadAs operands numbers) {t : ColumnType} (ht : t ≠ .text) :
    t ∈ numbers.map Number.type ↔
      (∃ v ∈ operands, v.type? = some t) ∨
        ∃ v ∈ operands, v.type? = some .text ∧ ∃ n, v.toNumber = .ok n ∧ n.type = t := by
  rw [List.mem_map]
  constructor
  · rintro ⟨n, hn, rfl⟩
    obtain ⟨v, hv, h⟩ := Outcome.exists_of_forall₂ hnumbers.flip hn
    rcases Scalar.type_of_toNumber h with htype | ⟨htext, _⟩
    · exact .inl ⟨v, hv, htype⟩
    · exact .inr ⟨v, hv, htext, n, h, rfl⟩
  · rintro (⟨v, hv, htype⟩ | ⟨v, hv, _, n, h, htype⟩)
    · obtain ⟨n, hn, h⟩ := Outcome.exists_of_forall₂ hnumbers hv
      refine ⟨n, hn, ?_⟩
      rcases Scalar.type_of_toNumber h with heq | ⟨htext, _⟩
      · exact Option.some.inj (heq.symm.trans htype)
      · exact absurd (Option.some.inj (htype.symm.trans htext)) ht
    · obtain ⟨m, hm, h'⟩ := Outcome.exists_of_forall₂ hnumbers hv
      obtain rfl := Except.ok.inj (h.symm.trans h')
      exact ⟨n, hm, htype⟩

theorem float_mem_iff (hnumbers : ReadAs operands numbers) :
    .float ∈ numbers.map Number.type ↔ ∃ v ∈ operands, v.type? = some .float := by
  rw [mem_numbers_iff hnumbers (by decide)]
  refine or_iff_left ?_
  rintro ⟨v, _, htext, n, h, htype⟩
  rcases Scalar.type_of_toNumber h with heq | ⟨_, hne⟩
  · rw [htext, htype] at heq
    cases heq
  · exact hne htype

theorem decimal_mem_iff (hnumbers : ReadAs operands numbers) :
    .decimal ∈ numbers.map Number.type ↔
      (∃ v ∈ operands, v.type? = some .decimal) ∨ ∃ v ∈ operands, v.hidesDecimal = true := by
  rw [mem_numbers_iff hnumbers (by decide)]
  exact or_congr_right (exists_congr fun v => and_congr_right fun _ =>
    Scalar.hidesDecimal_iff.symm)

/-- The types of numbers and those of their cells lead to the same type just where no text hides a
decimal. -/
theorem numberType_numbers (op : ArithmeticOp)
    (htypes : operands.map Scalar.type? = types.map some)
    (hnumbers : ReadAs operands numbers) :
    if HidesDecimal op operands then
      numberType op types = .integer ∧ numberType op (numbers.map Number.type) = .decimal
    else numberType op (numbers.map Number.type) = numberType op types := by
  have hfloat := (float_mem_iff hnumbers).trans (mem_types_iff htypes .float).symm
  have hdecimal := decimal_mem_iff hnumbers
  rw [← mem_types_iff htypes .decimal] at hdecimal
  have hnone : (∀ v ∈ operands, v.type? ≠ some .float ∧ v.type? ≠ some .decimal) ↔
      .float ∉ types ∧ .decimal ∉ types := by
    rw [mem_types_iff htypes, mem_types_iff htypes]
    exact ⟨fun h => ⟨fun ⟨v, hv, ht⟩ => (h v hv).1 ht, fun ⟨v, hv, ht⟩ => (h v hv).2 ht⟩,
      fun h v hv => ⟨fun ht => h.1 ⟨v, hv, ht⟩, fun ht => h.2 ⟨v, hv, ht⟩⟩⟩
  have hhides : HidesDecimal op operands ↔ op ≠ .divide ∧
      (.float ∉ types ∧ .decimal ∉ types) ∧ ∃ v ∈ operands, v.hidesDecimal = true :=
    and_congr_right fun _ => and_congr_left fun _ => hnone
  unfold numberType
  rw [if_congr hfloat rfl (if_congr (or_congr_left hdecimal) rfl rfl)]
  grind

theorem fitRow_typed (policy : RowPolicy) (number : Nat) (name : String) {t : ColumnType}
    (h : r.type? = some t) (w : Warnings) :
    Sink.fitRow policy number [⟨name, t⟩] [r] w = .ok (some [r], w) := by
  have hkeep : (r.isNull || r.type? == some t) = true := by
    rw [h, BEq.rfl, Bool.or_true]
  rw [Sink.fitRow, if_pos hkeep]
  rfl

/-- The value of an operation that meets no zero divisor has the type that its column is tracked
with, and is written as it is. The one exception is a text that holds a decimal where the types of
the operands tell of whole numbers: a decimal comes out of it. -/
theorem evaluate_type (op : ArithmeticOp) (operands : List Scalar) (divideByZero : Scalar)
    (hlength : 2 ≤ operands.length) (hnull : operands.any Scalar.isNull = false)
    (hzero : dividesByZero op operands = false)
    (h : evaluate op operands divideByZero = .ok v) :
    if HidesDecimal op operands then
      resultType? op (operands.map Scalar.type?) = some .integer ∧ v.type? = some .decimal
    else ∃ t, resultType? op (operands.map Scalar.type?) = some t ∧ v.type? = some t ∧
      ∀ policy number name w, Sink.fitRow policy number [⟨name, t⟩] [v] w = .ok (some [v], w) := by
  obtain ⟨first, rest, rfl⟩ :=
    List.exists_cons_of_length_pos (Nat.lt_of_lt_of_le Nat.zero_lt_two hlength)
  obtain ⟨n, hn, hfold⟩ := (evaluate_eq_ok hnull).mp h
  have hrest : rest ≠ [] := by
    rintro rfl
    simp at hlength
  have hdivisors : op = .divide → rest.any Scalar.readsZero = false := by
    rintro rfl
    simpa [dividesByZero] using hzero
  obtain ⟨numbers, hnumbers, htype⟩ := fold_type hdivisors (.inr hrest) hfold
  obtain ⟨types, htypes⟩ := exists_types hnull
  have hall : ReadAs (first :: rest) (n :: numbers) := .cons hn (Outcome.mapM_eq_ok.mp hnumbers)
  have hagree := numberType_numbers op htypes hall
  rw [htypes, resultType?_known, htype, ← List.map_cons]
  split at hagree
  · rename_i hhides
    rw [if_pos hhides, hagree.1, hagree.2]
    exact ⟨rfl, rfl⟩
  · rename_i hhides
    rw [if_neg hhides, hagree]
    exact ⟨_, rfl, rfl, fun policy number name w =>
      fitRow_typed policy number name (by rw [htype, ← List.map_cons, hagree]) w⟩

/-- A quotient of whole numbers is a decimal and is tracked as one. -/
theorem evaluate_type_quotient :
    evaluate .divide [.integer 6, .integer 2] .null = .ok (.decimal (.ofInt64 3)) ∧
      ∃ t, resultType? .divide [some .integer, some .integer] = some t ∧
        (Scalar.decimal (.ofInt64 3)).type? = some t ∧ ∀ policy number name w,
          Sink.fitRow policy number [⟨name, t⟩] [.decimal (.ofInt64 3)] w =
            .ok (some [.decimal (.ofInt64 3)], w) :=
  have h : evaluate .divide [.integer 6, .integer 2] .null = .ok (.decimal (.ofInt64 3)) := by
    decide +kernel
  ⟨h, evaluate_type .divide [.integer 6, .integer 2] .null (by decide) (by decide) (by decide) h⟩

/-- A whole number is tracked for the sum of the text 1.5 and the number 1, which is a decimal that
the target table then rounds. -/
theorem evaluate_text_decimal :
    ∃ v, evaluate .add [.text "1.5", .integer 1] .null = .ok v ∧
      dividesByZero .add [.text "1.5", .integer 1] = false ∧
      v.type? ≠ resultType? .add ([Scalar.text "1.5", .integer 1].map Scalar.type?) ∧
      Sink.fitRow .abort 1 [⟨"total", .integer⟩] [v] (.empty 100) =
        .ok (some [.integer 3], .empty 100) := by
  refine ⟨_, rfl, ?_, ?_, ?_⟩
  all_goals decide +kernel

end Arithmetic

end TablePipeline
