import Mathlib.Algebra.GroupWithZero.Nat
import TablePipeline.Execution.Target
import TablePipeline.Proofs.Frame.OutputNames
import TablePipeline.Proofs.Rule.Casting
import TablePipeline.Proofs.Warehouse.CheckedRows

/-!
# Rows fit their target table

Each kept cell is the cast of the gathered one, or null where the policy puts null for a cast that
fails. Which rows are kept and which warnings are counted follows from the cells whose casts fail,
by the policy alone.
-/

set_option autoImplicit false

namespace TablePipeline

namespace Sink

def fitted (c : TableColumn) (v : Scalar) : Scalar :=
  match v.cast c.type with
  | .ok w => w
  | .error _ => .null

def misfits (c : TableColumn) (v : Scalar) : Bool :=
  match v.cast c.type with
  | .ok _ => false
  | .error _ => true

def misfitCount (columns : List TableColumn) (row : Row) : Nat :=
  (List.zipWith misfits columns row).count true

variable {policy : RowPolicy} {number : Nat} {c : TableColumn} {v : Scalar}
  {columns : List TableColumn} {row : Row} {w : Warnings}

/-! ### One cell -/

theorem takes_fitted (c : TableColumn) (v : Scalar) : c.Takes (fitted c v) := by
  unfold fitted
  cases hv : v.isNull with
  | true =>
    obtain rfl := Scalar.isNull_eq_true_iff.mp hv
    exact .inl rfl
  | false =>
    split
    · rename_i h
      exact .inr (Scalar.type?_of_cast h hv)
    · exact .inl rfl

theorem cast_of_takes (h : c.Takes v) : v.cast c.type = .ok v := by
  rcases h with h | h
  · obtain rfl := (Scalar.type?_eq_none_iff v).mp h
    rfl
  · exact Scalar.cast_self h

theorem cast_of_fits (h : misfits c v = false) : v.cast c.type = .ok (fitted c v) := by
  unfold misfits at h
  unfold fitted
  split at h
  · rename_i x hcast
    rw [hcast]
  · cases h

theorem cast_of_misfits (h : misfits c v = true) : ∃ fault, v.cast c.type = .error fault := by
  unfold misfits at h
  split at h
  · cases h
  · rename_i fault hcast
    exact ⟨fault, hcast⟩

theorem fitted_of_misfits (h : misfits c v = true) : fitted c v = .null := by
  obtain ⟨fault, hcast⟩ := cast_of_misfits h
  unfold fitted
  rw [hcast]

theorem takes_of_keeps (h : (v.isNull || v.type? == some c.type) = true) : c.Takes v := by
  rcases Bool.or_eq_true_iff.mp h with h | h
  · obtain rfl := Scalar.isNull_eq_true_iff.mp h
    exact .inl rfl
  · exact .inr (beq_iff_eq.mp h)

def keepCell (v : Scalar) (rest : Except Failure (Option Row × Warnings)) :
    Except Failure (Option Row × Warnings) :=
  rest.map fun p => (p.1.map (v :: ·), p.2)

theorem keepCell_eq_bind (v : Scalar) (rest : Except Failure (Option Row × Warnings)) :
    keepCell v rest = rest >>= fun p => pure (p.1.map (v :: ·), p.2) := by
  cases rest <;> rfl

theorem fitRow_cons_of_fits {cs : List TableColumn} {vs : Row} (h : misfits c v = false) :
    fitRow policy number (c :: cs) (v :: vs) w =
      keepCell (fitted c v) (fitRow policy number cs vs w) := by
  have hcast := cast_of_fits h
  rw [keepCell_eq_bind, fitRow]
  split
  · rename_i hkeep
    rw [cast_of_takes (takes_of_keeps hkeep)] at hcast
    rw [← Except.ok.inj hcast]
    rfl
  · rw [hcast]
    rfl

theorem fitRow_cons_of_misfits (h : misfits c v = true) (policy : RowPolicy) (number : Nat)
    (cs : List TableColumn) (vs : Row) (w : Warnings) :
    ∃ rule fault, fitRow policy number (c :: cs) (v :: vs) w =
      match policy.recover rule number fault w with
      | .ok (.keep x, w) => keepCell x (fitRow policy number cs vs w)
      | .ok (.skip, w) => .ok (none, w)
      | .error f => .error f := by
  obtain ⟨fault, hcast⟩ := cast_of_misfits h
  have hkeep : ¬ (v.isNull || v.type? == some c.type) = true := by
    intro hkeep
    rw [cast_of_takes (takes_of_keeps hkeep)] at hcast
    cases hcast
  refine ⟨"sink column '" ++ c.name ++ "'", fault.message, ?_⟩
  rw [fitRow, if_neg hkeep, hcast]
  cases policy with
  | nullOut =>
    dsimp only [RowPolicy.recover]
    rw [keepCell_eq_bind]
    rfl
  | skipRow => rfl
  | abort => rfl

/-! ### One row -/

theorem misfitCount_cons (c : TableColumn) (cs : List TableColumn) (v : Scalar) (vs : Row) :
    misfitCount (c :: cs) (v :: vs) = misfitCount cs vs + if misfits c v then 1 else 0 := by
  unfold misfitCount
  rw [List.zipWith_cons_cons, List.count_cons]
  cases misfits c v <;> rfl

theorem fitRow_of_fits (hlength : row.length = columns.length)
    (h : misfitCount columns row = 0) :
    fitRow policy number columns row w = .ok (some (List.zipWith fitted columns row), w) := by
  induction columns generalizing row with
  | nil =>
    obtain rfl := List.length_eq_zero_iff.mp hlength
    rfl
  | cons c cs ih =>
    cases row with
    | nil => cases hlength
    | cons v vs =>
      rw [misfitCount_cons] at h
      have hv : misfits c v = false := by
        cases hv : misfits c v with
        | false => rfl
        | true =>
          rw [hv, if_pos rfl] at h
          cases h
      have hlength : vs.length = cs.length := by simpa using hlength
      have hrest := ih hlength (by omega)
      rw [fitRow_cons_of_fits hv, hrest]
      rfl

theorem fitRow_nullOut (number : Nat) (w : Warnings) (hlength : row.length = columns.length) :
    ∃ w', fitRow .nullOut number columns row w =
        .ok (some (List.zipWith fitted columns row), w') ∧
      w'.total = w.total + misfitCount columns row := by
  induction columns generalizing row w with
  | nil =>
    obtain rfl := List.length_eq_zero_iff.mp hlength
    exact ⟨w, rfl, rfl⟩
  | cons c cs ih =>
    cases row with
    | nil => cases hlength
    | cons v vs =>
      have hlength : vs.length = cs.length := by simpa using hlength
      rw [misfitCount_cons]
      cases hv : misfits c v with
      | false =>
        obtain ⟨w', hrest, htotal⟩ := ih w hlength
        rw [fitRow_cons_of_fits hv, hrest]
        exact ⟨w', rfl, by simpa using htotal⟩
      | true =>
        obtain ⟨rule, fault, hcons⟩ := fitRow_cons_of_misfits hv .nullOut number cs vs w
        obtain ⟨w', hrest, htotal⟩ :=
          ih (w.push (faultText rule number fault ++ "; value set to NULL")) hlength
        refine ⟨w', ?_, ?_⟩
        · rw [hcons]
          dsimp only [RowPolicy.recover]
          rw [hrest, List.zipWith_cons_cons, fitted_of_misfits hv]
          rfl
        · rw [htotal, Warnings.push_total, if_pos rfl]
          omega

/-- The first misfit of a row decides where the policy does not put null. -/
theorem fitRow_of_misfits (number : Nat) (w : Warnings) (h : misfitCount columns row ≠ 0) :
    (∃ w', fitRow .skipRow number columns row w = .ok (none, w') ∧ w'.total = w.total + 1) ∧
      ∃ f, fitRow .abort number columns row w = .error f := by
  induction columns generalizing row with
  | nil => exact (h rfl).elim
  | cons c cs ih =>
    cases row with
    | nil => exact (h rfl).elim
    | cons v vs =>
      rw [misfitCount_cons] at h
      cases hv : misfits c v with
      | false =>
        rw [hv] at h
        obtain ⟨⟨w', hskip, htotal⟩, f, habort⟩ := ih (by simpa using h)
        rw [fitRow_cons_of_fits hv, fitRow_cons_of_fits hv, hskip, habort]
        exact ⟨⟨w', rfl, htotal⟩, f, rfl⟩
      | true =>
        obtain ⟨rule, fault, hskip⟩ := fitRow_cons_of_misfits hv .skipRow number cs vs w
        obtain ⟨rule', fault', habort⟩ := fitRow_cons_of_misfits hv .abort number cs vs w
        rw [hskip, habort]
        exact ⟨⟨_, rfl, Warnings.push_total _ _⟩, _, rfl⟩

/-! ### All rows -/

/-- Whether a row is kept: any row where misfits become null, else one without misfits. -/
def survives (policy : RowPolicy) (columns : List TableColumn) (row : Row) : Bool :=
  policy = .nullOut || misfitCount columns row = 0

/-- How many warnings a policy leaves of some rows. -/
def warningCount (policy : RowPolicy) (columns : List TableColumn) (rows : List Row) : Nat :=
  match policy with
  | .nullOut => (rows.map (misfitCount columns)).sum
  | .skipRow => rows.countP fun row => !survives .skipRow columns row
  | .abort => 0

variable {rows : List Row}

theorem fitRows_cons (policy : RowPolicy) (columns : List TableColumn) (number : Nat) (row : Row)
    (rows : List Row) (w : Warnings) :
    fitRows policy columns number (row :: rows) w = do
      let kept ← fitRow policy number columns row w
      let rest ← fitRows policy columns (number + 1) rows kept.2
      return (kept.1.toList ++ rest.1, rest.2) := rfl

theorem filter_survives_of_fits (h : ∀ row ∈ rows, misfitCount columns row = 0) :
    rows.filter (survives policy columns) = rows := by
  apply List.filter_eq_self.mpr
  intro row hrow
  simp [survives, h row hrow]

/-- Where misfits skip their rows, there is a warning for each row that is dropped. -/
theorem warningCount_skipRow (columns : List TableColumn) (rows : List Row) :
    warningCount .skipRow columns rows =
      rows.length - (rows.filter (survives .skipRow columns)).length := by
  have hcount := List.length_eq_countP_add_countP (l := rows) (survives .skipRow columns)
  rw [← List.countP_eq_length_filter, hcount, Nat.add_sub_cancel_left]
  simp [warningCount]

theorem warningCount_cons (policy : RowPolicy) (columns : List TableColumn) (row : Row)
    (rows : List Row) : warningCount policy columns (row :: rows) =
      warningCount policy columns [row] + warningCount policy columns rows := by
  cases policy with
  | nullOut => simp [warningCount]
  | skipRow =>
    unfold warningCount
    rw [← List.countP_append]
    rfl
  | abort => rfl

theorem fitRow_eq_ok (number : Nat) (w : Warnings) (hlength : row.length = columns.length)
    (h : policy = .abort → misfitCount columns row = 0) :
    ∃ w', fitRow policy number columns row w =
        .ok (if survives policy columns row then some (List.zipWith fitted columns row) else none,
          w') ∧
      w'.total = w.total + warningCount policy columns [row] ∧ (policy = .abort → w' = w) := by
  by_cases hfits : misfitCount columns row = 0
  · have hsurvives : survives policy columns row = true := by simp [survives, hfits]
    rw [fitRow_of_fits hlength hfits, if_pos hsurvives]
    refine ⟨w, rfl, ?_, fun _ => rfl⟩
    cases policy <;> simp [warningCount, hfits, hsurvives]
  · cases policy with
    | nullOut =>
      obtain ⟨w', hrow, htotal⟩ := fitRow_nullOut number w hlength
      refine ⟨w', hrow, ?_, fun hpolicy => (by cases hpolicy)⟩
      simpa [warningCount] using htotal
    | skipRow =>
      obtain ⟨w', hrow, htotal⟩ := (fitRow_of_misfits number w hfits).1
      have hsurvives : survives .skipRow columns row = false := by simp [survives, hfits]
      rw [hsurvives]
      refine ⟨w', hrow, ?_, fun hpolicy => (by cases hpolicy)⟩
      simpa [warningCount, hsurvives] using htotal
    | abort => exact (hfits (h rfl)).elim

/-- Unless a misfit aborts, the kept rows are fitted and each misfit or skipped row is counted. -/
theorem fitRows_eq_ok (number : Nat) (w : Warnings)
    (hrows : ∀ row ∈ rows, row.length = columns.length)
    (h : policy = .abort → ∀ row ∈ rows, misfitCount columns row = 0) :
    ∃ w', fitRows policy columns number rows w =
        .ok ((rows.filter (survives policy columns)).map (List.zipWith fitted columns), w') ∧
      w'.total = w.total + warningCount policy columns rows ∧ (policy = .abort → w' = w) := by
  induction rows generalizing number w with
  | nil =>
    refine ⟨w, rfl, ?_, fun _ => rfl⟩
    cases policy <;> rfl
  | cons row rows ih =>
    obtain ⟨hlength, hrows⟩ := List.forall_mem_cons.mp hrows
    obtain ⟨w₁, hrow, htotal₁, hsame₁⟩ := fitRow_eq_ok number w hlength
      fun hpolicy => h hpolicy row List.mem_cons_self
    obtain ⟨w₂, hrest, htotal₂, hsame₂⟩ := ih (number + 1) w₁ hrows
      fun hpolicy row hrow => h hpolicy row (List.mem_cons_of_mem _ hrow)
    refine ⟨w₂, ?_, ?_, fun hpolicy => (hsame₂ hpolicy).trans (hsame₁ hpolicy)⟩
    · rw [fitRows_cons, hrow]
      change (fitRows policy columns (number + 1) rows w₁ >>= _) = _
      rw [hrest, List.filter_cons]
      cases survives policy columns row <;> rfl
    · rw [htotal₂, htotal₁, warningCount_cons policy columns row rows]
      omega

theorem fitRows_eq_error (number : Nat) (w : Warnings) (hrow : row ∈ rows)
    (h : misfitCount columns row ≠ 0) (hrows : ∀ row ∈ rows, row.length = columns.length) :
    ∃ f, fitRows .abort columns number rows w = .error f := by
  induction rows generalizing number w with
  | nil => cases hrow
  | cons first rows ih =>
    obtain ⟨hlength, hrows⟩ := List.forall_mem_cons.mp hrows
    rw [fitRows_cons]
    by_cases hfirst : misfitCount columns first = 0
    · have hrow : row ∈ rows := by
        rcases List.mem_cons.mp hrow with rfl | hrow
        · exact (h hfirst).elim
        · exact hrow
      obtain ⟨f, hrest⟩ := ih (number + 1) w hrow hrows
      rw [fitRow_of_fits hlength hfirst]
      change ∃ f, (fitRows .abort columns (number + 1) rows w >>= _) = .error f
      rw [hrest]
      exact ⟨f, rfl⟩
    · obtain ⟨f, hf⟩ := (fitRow_of_misfits number w hfirst).2
      rw [hf]
      exact ⟨f, rfl⟩

/-! ### The target table -/

theorem length_columns (schema : List (String × ColumnType)) (f : Frame) :
    (Sink.columns schema f).length = f.columns.length := by
  simp [Sink.columns, OutputName.length_all]

theorem columns_names (schema : List (String × ColumnType)) (f : Frame) :
    (Sink.columns schema f).map (·.name) = OutputName.all f.columns := by
  have hlength : (OutputName.all f.columns).length ≤ f.columns.length :=
    Nat.le_of_eq (OutputName.length_all f.columns)
  calc (Sink.columns schema f).map (·.name)
      = (((OutputName.all f.columns).zip f.columns).zipIdx.map Prod.fst).map Prod.fst := by
        rw [Sink.columns, List.map_map, List.map_map]
        rfl
    _ = ((OutputName.all f.columns).zip f.columns).map Prod.fst := by
        rw [List.zipIdx_map_fst]
    _ = OutputName.all f.columns := List.map_fst_zip hlength

theorem checkRows_fitted {columns : List TableColumn} {rows : List Row}
    (h : ∀ row ∈ rows, row.length = columns.length) :
    checkRows columns (rows.map (List.zipWith fitted columns)) = .ok () := by
  rw [checkRows_eq_ok_iff]
  intro row hrow
  obtain ⟨row, hmem, rfl⟩ := List.mem_map.mp hrow
  have hlength := h row hmem
  clear h hmem hrow
  induction columns generalizing row with
  | nil => simp
  | cons c cs ih =>
    cases row with
    | nil => cases hlength
    | cons v vs =>
      rw [List.zipWith_cons_cons]
      exact .cons (takes_fitted c v) (ih vs (by simpa using hlength))

end Sink

variable {plan : Plan} {f : Frame} {w : Warnings}

/-- Every column of the sink schema is one of the target table. -/
def Plan.SchemaResolves (plan : Plan) (f : Frame) : Prop :=
  ∀ entry ∈ plan.sink.schema, entry.1 ∈ OutputName.all f.columns

theorem Plan.target_of_resolves (h : plan.SchemaResolves f) :
    plan.target f w = (Sink.fitRows plan.policy (Sink.columns plan.sink.schema f) 1 f.rows w).map
      fun p => (⟨plan.sink.table, Sink.columns plan.sink.schema f, plan.sink.mode⟩, p.1, p.2) := by
  unfold target
  dsimp only
  split
  · rename_i name type hfind
    have hmem := List.mem_of_find?_eq_some hfind
    have hmissing := List.find?_some hfind
    simp only [decide_eq_true_eq] at hmissing
    exact (hmissing (h _ hmem)).elim
  · cases Sink.fitRows plan.policy (Sink.columns plan.sink.schema f) 1 f.rows w <;> rfl

theorem Plan.target_of_not_resolves (h : ¬ plan.SchemaResolves f) :
    ∃ failure, plan.target f w = .error failure ∧ failure.kind = .unresolvedReference := by
  unfold target
  dsimp only
  split
  · exact ⟨_, rfl, rfl⟩
  · rename_i hfind
    refine (h fun entry hentry => ?_).elim
    simpa using List.find?_eq_none.mp hfind entry hentry

theorem Sink.length_of_mem_rows (hf : f.Rectangular) (schema : List (String × ColumnType)) :
    ∀ row ∈ f.rows, row.length = (Sink.columns schema f).length := by
  intro row hrow
  rw [Sink.length_columns]
  exact hf row hrow

/-- There is a result just if the schema names target columns and no misfit aborts. -/
theorem Plan.target_ok_iff (hf : f.Rectangular) :
    (∃ result, plan.target f w = .ok result) ↔ plan.SchemaResolves f ∧
      (plan.policy = .abort →
        ∀ row ∈ f.rows, Sink.misfitCount (Sink.columns plan.sink.schema f) row = 0) := by
  have hrows := Sink.length_of_mem_rows hf plan.sink.schema
  constructor
  · rintro ⟨result, h⟩
    have hresolves : plan.SchemaResolves f := by
      by_contra hnot
      obtain ⟨failure, hfailure, _⟩ := target_of_not_resolves (w := w) hnot
      rw [hfailure] at h
      cases h
    refine ⟨hresolves, fun hpolicy row hrow => ?_⟩
    by_contra hmisfit
    obtain ⟨failure, hfailure⟩ := Sink.fitRows_eq_error 1 w hrow hmisfit hrows
    rw [target_of_resolves hresolves, hpolicy, hfailure] at h
    cases h
  · rintro ⟨hresolves, habort⟩
    obtain ⟨w', hfit, _⟩ := Sink.fitRows_eq_ok 1 w hrows habort
    rw [target_of_resolves hresolves, hfit]
    exact ⟨_, rfl⟩

/-- The target table has its own name for each column, and the rows that are kept fit it, each with
the casts of its cells; the policy alone says which rows these are, how many warnings there are and
whether there is a result at all. -/
theorem Plan.target_fits (plan : Plan) (f : Frame) (w : Warnings) (hf : f.Rectangular) :
    (∀ target rows w', plan.target f w = .ok (target, rows, w') →
      target = ⟨plan.sink.table, Sink.columns plan.sink.schema f, plan.sink.mode⟩ ∧
      target.columns.length = f.columns.length ∧ (target.columns.map (·.name)).Nodup ∧
      checkRows target.columns rows = .ok () ∧
      rows = (f.rows.filter (Sink.survives plan.policy target.columns)).map
        (List.zipWith Sink.fitted target.columns) ∧
      (plan.policy = .nullOut → rows.length = f.rows.length ∧
        w'.total = w.total + (f.rows.map (Sink.misfitCount target.columns)).sum) ∧
      (plan.policy = .skipRow → w'.total = w.total + (f.rows.length - rows.length)) ∧
      (plan.policy = .abort → rows.length = f.rows.length ∧ w' = w)) ∧
    ((∃ result, plan.target f w = .ok result) ↔ plan.SchemaResolves f ∧
      (plan.policy = .abort →
        ∀ row ∈ f.rows, Sink.misfitCount (Sink.columns plan.sink.schema f) row = 0)) := by
  refine ⟨fun target rows w' h => ?_, target_ok_iff hf⟩
  have hrows := Sink.length_of_mem_rows hf plan.sink.schema
  obtain ⟨hresolves, habort⟩ := (target_ok_iff hf).mp ⟨_, h⟩
  obtain ⟨w₁, hfit, htotal, hsame⟩ := Sink.fitRows_eq_ok 1 w hrows habort
  rw [target_of_resolves hresolves, hfit] at h
  simp only [Except.map, Except.ok.injEq, Prod.mk.injEq] at h
  obtain ⟨rfl, rfl, rfl⟩ := h
  refine ⟨rfl, Sink.length_columns _ f, ?names, ?checked, rfl, ?nullOut, ?skipRow, ?abort⟩
  case names =>
    rw [Sink.columns_names]
    exact OutputName.all_nodup f.columns
  case checked =>
    apply Sink.checkRows_fitted
    intro row hrow
    exact hrows row (List.mem_of_mem_filter hrow)
  case nullOut =>
    intro hpolicy
    rw [hpolicy] at htotal ⊢
    exact ⟨by simp [Sink.survives], htotal⟩
  case skipRow =>
    intro hpolicy
    rw [hpolicy] at htotal ⊢
    rw [htotal, Sink.warningCount_skipRow, List.length_map]
  case abort =>
    intro hpolicy
    rw [Sink.filter_survives_of_fits (habort hpolicy), List.length_map]
    exact ⟨rfl, hsame hpolicy⟩

/-- Two columns of one name, the first of which has a text that is no number. -/
def measured : Frame where
  columns := [⟨some "a", "n", none⟩, ⟨some "b", "n", some .integer⟩]
  rows := [[.text "7", .integer 1], [.text "x", .integer 2]]

def measuredPlan : Plan where
  root := .query ⟨"sheets", ⟨"SELECT * FROM n", []⟩, []⟩
  sink := ⟨"numbers", [("a_n", .integer)], .append⟩
  policy := .skipRow

/-- The first row is kept with its text cast, the second one is dropped with a warning. -/
theorem target_fits_measured :
    ∃ target rows w', measuredPlan.target measured (.empty 10) = .ok (target, rows, w') ∧
      target.columns = [⟨"a_n", .integer⟩, ⟨"b_n", .integer⟩] ∧
      checkRows target.columns rows = .ok () ∧ rows = [[.integer 7, .integer 1]] ∧
      w'.total = 1 := by
  have hf : measured.Rectangular := by
    unfold Frame.Rectangular
    decide
  have hcolumns : Sink.columns measuredPlan.sink.schema measured =
      [⟨"a_n", .integer⟩, ⟨"b_n", .integer⟩] := by decide +kernel
  obtain ⟨hfits, hok⟩ := measuredPlan.target_fits measured (.empty 10) hf
  have hresolves : measuredPlan.SchemaResolves measured := by
    unfold Plan.SchemaResolves
    decide +kernel
  obtain ⟨⟨target, rows, w'⟩, h⟩ := hok.mpr ⟨hresolves, fun hpolicy => by cases hpolicy⟩
  obtain ⟨rfl, _, _, hchecked, hrows, _, hskip, _⟩ := hfits target rows w' h
  rw [hcolumns] at hrows
  have hkept : rows = [[.integer 7, .integer 1]] := by
    rw [hrows]
    decide +kernel
  have htotal := hskip rfl
  rw [hkept] at htotal
  exact ⟨_, rows, w', h, hcolumns, hchecked, hkept, htotal⟩

end TablePipeline
