import TablePipeline.Proofs.Frame.Steps
import TablePipeline.Proofs.Plan.Steps
import TablePipeline.Proofs.Query.Computing
import TablePipeline.Proofs.Rule.Casting

/-!
# Conditions in a query

The expression of a condition has the value that the condition has in memory, and computing it does
not fail on either side. In a query a cast is put around a branch whose type is not that of the
output; in memory the chosen value is cast where its own type is another one. Both are casts to a
type that accepts the type of the branch.

An open source gives columns that the schema does not list. They have no declared type, so they are
none of the columns that a rule on declared ones means.
-/

set_option autoImplicit false

namespace TablePipeline

open Sql (Cells ComputeTo Expr)

variable {ε : Type}

/-! ### The columns of a stage -/

/-- The columns of an item, where `names` gives those of the open sources. -/
def SchemaItem.spread (names : String → List String) : SchemaItem Expr → List (SchemaColumn Expr)
  | .column c => [c]
  | .openSource qualifier table =>
    (names table).map fun n => ⟨some qualifier, n, none, .column (some table) n⟩

def Schema.spread (names : String → List String) (s : Schema Expr) : List (SchemaColumn Expr) :=
  s.flatMap (·.spread names)

def Schema.told (s : Schema ε) : List (SchemaColumn ε) :=
  s.filterMap fun
    | .column c => some c
    | .openSource .. => none

/-- Every column that a reference may mean has a declared type, and null or a value of that type in
each row. -/
def Frame.Typed (f : Frame) (r : Reference) : Prop :=
  r.hits (·.1.qualifier) (·.1.name) f.columns.zipIdx ≠ [] ∧
    ∀ hit ∈ r.hits (·.1.qualifier) (·.1.name) f.columns.zipIdx,
      ∃ t, hit.1.type? = some t ∧ ∀ row ∈ f.rows, (row.getD hit.2 .null).Of (some t)

namespace Schema

variable {names : String → List String} {s : Schema Expr}

theorem columns_map_snd (s : Schema ε) : s.columns.map (·.2) = s.told := by
  unfold columns told
  rw [List.map_filterMap]
  conv_rhs => rw [← List.zipIdx_map_fst 0 s, List.filterMap_map]
  congr 1
  funext p
  obtain ⟨item, i⟩ := p
  cases item <;> rfl

theorem told_ofColumns (cs : List (SchemaColumn ε)) : (ofColumns cs).told = cs := by
  unfold told ofColumns
  rw [List.filterMap_map]
  exact List.filterMap_some

theorem mem_spread_of_mem_told {c : SchemaColumn Expr} (h : c ∈ s.told) : c ∈ s.spread names := by
  obtain ⟨item, hitem, hc⟩ := List.mem_filterMap.mp h
  cases item with
  | column d =>
    obtain rfl := Option.some.inj hc
    exact List.mem_flatMap.mpr ⟨_, hitem, List.mem_singleton_self d⟩
  | openSource q t => cases hc

theorem filter_spread {p : SchemaColumn Expr → Bool}
    (hp : ∀ q t n, p ⟨some q, n, none, .column (some t) n⟩ = false) :
    (s.spread names).filter p = s.told.filter p := by
  induction s with
  | nil => rfl
  | cons item s ih =>
    have hspread : spread names (item :: s) = item.spread names ++ spread names s :=
      List.flatMap_cons
    rw [hspread, List.filter_append, ih]
    cases item with
    | column c => exact (List.filter_append [c] (told s)).symm
    | openSource q t =>
      have hnone : ((SchemaItem.openSource q t).spread names).filter p = [] := by
        rw [List.filter_eq_nil_iff]
        intro c hc
        obtain ⟨n, _, rfl⟩ := List.mem_map.mp hc
        rw [hp q t n]
        exact Bool.false_ne_true
      rw [hnone]
      rfl

theorem filter_told {p : SchemaColumn Expr → Bool}
    (h : ∀ c ∈ s.spread names, p c = true → c.type?.isSome = true) :
    s.told.filter p = (s.spread names).filter p := by
  have htyped {c : SchemaColumn Expr} (hc : c ∈ s.spread names) :
      p c = (c.type?.isSome && p c) := by
    cases hpc : p c with
    | true => rw [h c hc hpc, Bool.true_and]
    | false => rw [Bool.and_false]
  calc s.told.filter p
      = s.told.filter fun c => c.type?.isSome && p c :=
        List.filter_congr fun c hc => htyped (mem_spread_of_mem_told hc)
    _ = (s.spread names).filter fun c => c.type?.isSome && p c :=
        (filter_spread fun _ _ _ => rfl).symm
    _ = (s.spread names).filter p := List.filter_congr fun c hc => (htyped hc).symm

/-- A reference that may mean typed columns only means declared ones. -/
theorem hits_told {r : Reference}
    (h : ∀ c ∈ r.hits (·.qualifier) (·.name) (s.spread names), c.type?.isSome = true) :
    r.hits (·.qualifier) (·.name) s.told = r.hits (·.qualifier) (·.name) (s.spread names) := by
  unfold Reference.hits at h ⊢
  cases hq : r.qualifier with
  | some q =>
    rw [hq] at h
    exact filter_told fun c hc hp => h c (List.mem_filter.mpr ⟨hc, hp⟩)
  | none =>
    rw [hq] at h
    have hcomputed : (s.spread names).filter (fun c => c.qualifier.isNone && c.name == r.name) =
        s.told.filter fun c => c.qualifier.isNone && c.name == r.name :=
      filter_spread fun _ _ _ => rfl
    rw [hcomputed] at h ⊢
    dsimp only at h ⊢
    split at h
    · rfl
    · exact filter_told fun c hc hp => h c (List.mem_filter.mpr ⟨hc, hp⟩)

theorem hits_columns (r : Reference) (s : Schema ε) :
    (r.hits (·.2.qualifier) (·.2.name) s.columns).map (·.2) =
      r.hits (·.qualifier) (·.name) s.told := by
  rw [← columns_map_snd, Reference.hits_map]

end Schema

namespace Frame

variable {names : String → List String} {s : Schema Expr} {f : Frame}

/-- A reference that means a typed column means the same one in the schema and in the frame. All
that it finds is typed, so none of it is a column of an open source. -/
theorem find_of_typed (hf : f.columns = (s.spread names).map SchemaColumn.plain) {r : Reference}
    (hr : f.Typed r) {x : Resolved Expr} (h : s.find r = .ok x) :
    ∃ i, ((s.spread names).map (·.carried))[i]? = some x.expr ∧ f.resolve r = .ok i ∧
      ∀ row ∈ f.rows, (row.getD i .null).Of x.type? := by
  obtain ⟨hne, htyped⟩ := hr
  rw [hits_columns hf] at hne htyped
  have hspread := Schema.hits_columns r (Schema.ofColumns (s.spread names))
  rw [Schema.told_ofColumns] at hspread
  have htold : r.hits (·.qualifier) (·.name) s.told =
      r.hits (·.qualifier) (·.name) (s.spread names) := by
    refine Schema.hits_told fun c hc => ?_
    rw [← hspread] at hc
    obtain ⟨hit, hhit, rfl⟩ := List.mem_map.mp hc
    obtain ⟨t, ht, _⟩ := htyped _ (List.mem_map_of_mem hhit)
    exact Option.isSome_iff_exists.mpr ⟨t, ht⟩
  rw [← Schema.hits_columns, ← hspread] at htold
  have hresolve := Schema.find_eq_ok.mp h
  unfold Schema.resolve at hresolve
  split at hresolve
  · rename_i k c hits
    obtain rfl := Except.ok.inj hresolve
    rw [hits] at htold
    obtain ⟨⟨i, d⟩, hhits, hd⟩ := List.map_eq_singleton_iff.mp htold.symm
    obtain rfl : d = c := hd
    obtain ⟨j, e, hx, he, hj⟩ := resolve_of_find hf (Schema.find_of_hits hhits)
    obtain ⟨rfl, rfl⟩ := Resolved.column.inj hx
    obtain ⟨t, ht, hrows⟩ := htyped (d.plain, i) (by rw [hhits]; exact List.mem_singleton_self _)
    refine ⟨i, by rw [List.getElem?_map, he]; rfl, hj, fun row hrow => ?_⟩
    have htype : d.type? = some t := ht
    show (row.getD i .null).Of d.type?
    rw [htype]
    exact hrows row hrow
  · rename_i hits
    rw [hits] at htold
    rw [List.map_eq_nil_iff.mp htold.symm] at hne
    exact absurd rfl hne
  · cases hresolve

/-- An operand has the same value in a query and in memory, null or of its type. -/
theorem bindOperand_value (hf : f.columns = (s.spread names).map SchemaColumn.plain)
    {o : RuleOperand} (ho : ∀ r ∈ o.references, f.Typed r) {e : Expr}
    (he : s.operandExpr o = .ok e) {type? : Option ColumnType}
    (htype : s.operandType? o = .ok type?) :
    ∃ b, f.bindOperand o = .ok b ∧ (∀ row ∈ f.rows, (b.value row).Of type?) ∧
      ∀ cells row, ComputeTo cells ((s.spread names).map (·.carried)) row →
        e.value? cells = some (b.value row) := by
  cases o with
  | literal v =>
    obtain rfl := Except.ok.inj he
    obtain rfl := Except.ok.inj htype
    exact ⟨.literal v, rfl, fun _ _ => .inr rfl, fun _ _ _ => rfl⟩
  | column r =>
    obtain ⟨x, hx, he⟩ := Outcome.bind_eq_ok.mp he
    obtain rfl := Outcome.pure_eq_ok.mp he
    obtain ⟨y, hy, htype⟩ := Outcome.bind_eq_ok.mp htype
    obtain rfl := Outcome.pure_eq_ok.mp htype
    obtain rfl := Except.ok.inj (hx.symm.trans hy)
    obtain ⟨i, hcarried, hi, hrows⟩ := find_of_typed hf (ho r List.mem_cons_self) hx
    exact ⟨.column i, Outcome.bind_eq_ok.mpr ⟨i, hi, rfl⟩, hrows,
      fun cells row h => h.getD hcarried⟩

/-- A comparison has the same truth in a query and in memory. -/
theorem bindComparison_truth (hf : f.columns = (s.spread names).map SchemaColumn.plain)
    {c : Comparison} (hc : ∀ r ∈ c.references, f.Typed r) {p : Sql.Predicate}
    (h : s.predicate c = .ok p) :
    ∃ b, f.bindComparison c = .ok b ∧
      ∀ cells row, ComputeTo cells ((s.spread names).map (·.carried)) row →
        p.truth? cells = some (b.test? row) := by
  obtain ⟨left, right, hleft, hright, rfl⟩ := Schema.predicate_eq_ok h
  obtain ⟨x, hx, hleft⟩ := Outcome.bind_eq_ok.mp hleft
  obtain rfl := Outcome.pure_eq_ok.mp hleft
  obtain ⟨i, hcarried, hi, _⟩ := find_of_typed hf (hc c.column List.mem_cons_self) hx
  have hbound : ∃ bound, f.BindsRight c.right bound ∧
      ∀ cells row, ComputeTo cells ((s.spread names).map (·.carried)) row →
        right.value? cells = some (bound.operand row) := by
    cases hr : c.right with
    | column r =>
      rw [hr] at hright
      obtain ⟨e, he, rfl⟩ := hright
      obtain ⟨y, hy, he⟩ := Outcome.bind_eq_ok.mp he
      obtain rfl := Outcome.pure_eq_ok.mp he
      have href : r ∈ c.references :=
        List.mem_cons_of_mem _ (by rw [hr]; exact List.mem_cons_self)
      obtain ⟨j, hcell, hj, _⟩ := find_of_typed hf (hc r href) hy
      refine ⟨.column j, ⟨j, hj, rfl⟩, fun cells row hrow => ?_⟩
      rw [Sql.Operand.value?, hrow.getD hcell]
      rfl
    | _ =>
      rw [hr] at hright
      obtain rfl : right = _ := hright
      exact ⟨.fixed _, rfl, fun _ _ _ => rfl⟩
  obtain ⟨bound, hbound, hsame⟩ := hbound
  refine ⟨⟨i, c.op, bound⟩, bindComparison_eq_ok.mpr ⟨hi, rfl, hbound⟩, fun cells row hrow => ?_⟩
  rw [Sql.Predicate.truth?, hrow.getD hcarried, hsame cells row hrow, BoundComparison.test?_eq]
  rfl

end Frame

/-! ### Casts of branches -/

section Branches

variable {output branch : Option ColumnType} {v : Scalar}

/-- Fitting a value is casting it, for it is left alone only where the cast does nothing. -/
theorem Frame.fitOutput_cast (target : ColumnType) (v : Scalar) :
    Frame.fitOutput (some target) v = v.cast target := by
  unfold Frame.fitOutput
  dsimp only
  split
  · rename_i hkeep
    exact (Scalar.cast_of (Scalar.of_keeps hkeep)).symm
  · rfl

theorem Frame.fitOutput_of (h : ∀ target, output = some target → v.Of (some target)) :
    Frame.fitOutput output v = .ok v := by
  cases output with
  | none => rfl
  | some target => rw [fitOutput_cast, Scalar.cast_of (h target rfl)]

theorem Frame.fitOutput_ok (haccepts : Accepted output branch) (hv : v.Of branch) :
    ∃ w, Frame.fitOutput output v = .ok w := by
  cases output with
  | none => exact ⟨v, rfl⟩
  | some target =>
    rw [fitOutput_cast]
    cases branch with
    | none =>
      obtain rfl := Scalar.of_none hv
      exact ⟨.null, rfl⟩
    | some t => exact Scalar.cast_of_accepts hv (haccepts target t rfl rfl)

/-- A branch of a query has the value that is cast to the output in memory. -/
theorem Stage.fitBranch_value {d : Sql.Dialect} {e e' : Expr} {cells : Cells}
    (h : fitBranch d output branch e = some e') (he : e.value? cells = some v)
    (hv : v.Of branch) : e'.value? cells = (Frame.fitOutput output v).toOption := by
  have hkeep (hfit : ∀ target, output = some target → v.Of (some target)) (heq : e = e') :
      e'.value? cells = (Frame.fitOutput output v).toOption := by
    rw [← heq, he, Frame.fitOutput_of hfit]
    rfl
  unfold fitBranch at h
  cases output with
  | none => exact hkeep (fun _ h => by cases h) (Option.some.inj h)
  | some target =>
    cases branch with
    | none =>
      exact hkeep (fun _ _ => .inl (Scalar.of_none hv)) (Option.some.inj h)
    | some t =>
      dsimp only at h
      split at h
      · rename_i heq
        refine hkeep (fun _ h => ?_) (Option.some.inj h)
        obtain rfl := Option.some.inj h
        exact heq ▸ hv
      · split at h
        · obtain rfl := Option.some.inj h
          rw [Expr.value?, he, Frame.fitOutput_cast]
          rfl
        · cases h

end Branches

/-! ### The column of a condition -/

/-- A condition that is put into a query computes what it computes in memory over the rows of the
stage. Its column carries a `CASE` that has a value for each row; the settled rule in memory stores
just these values, keeps every row and warns of none. Each column that the rule mentions is a
declared one, and holds null or a value of its type. -/
theorem Stage.condition_pushed {st st' : SqlStage} {node : String} {rule : ConditionRule}
    (h : (Stage.sql st).condition node rule = .ok (.sql st')) :
    ∃ settled test yes no, rule.settle st.schema node = .ok settled ∧
      st' = { st with
        schema := st.schema.putComputed rule.output settled.rule.outputType
          (.choose test yes no) } ∧
      ∀ (names : String → List String) (f : Frame),
        f.columns = (st.schema.spread names).map SchemaColumn.plain →
        (∀ r ∈ rule.references, f.Typed r) →
        ∃ value : Row → Scalar,
          (∀ row ∈ f.rows, ∀ cells,
            ComputeTo cells ((st.schema.spread names).map (·.carried)) row →
              (Expr.choose test yes no).value? cells = some (value row)) ∧
          ∀ w, f.condition settled.rule w =
            .ok (⟨(f.computedSlot rule.output settled.rule.outputType).1, f.rows.map fun row =>
              (f.computedSlot rule.output settled.rule.outputType).2.put row (value row)⟩, w) := by
  obtain ⟨settled, hsettled, ⟨test, yes, no, y, n, htest, hyes, hno, hy, hn, hst⟩ | hmemory⟩ :=
    condition_sql_eq_ok h
  · obtain ⟨hrefs, houtput, _, hyesType, hnoType, hyesFits, hnoFits⟩ :=
      ConditionRule.settles hsettled
    rw [houtput] at hst
    refine ⟨settled, test, y, n, hsettled, Stage.sql.inj hst, fun names f hf htyped => ?_⟩
    rw [← hrefs] at htyped
    obtain ⟨p, hp, htruth⟩ := Frame.bindComparison_truth hf
      (fun r hr => htyped r (List.mem_append_left _ (List.mem_append_left _ hr))) htest
    obtain ⟨a, ha, hatype, havalue⟩ := Frame.bindOperand_value hf
      (fun r hr => htyped r (List.mem_append_left _ (List.mem_append_right _ hr))) hyes hyesType
    obtain ⟨b, hb, hbtype, hbvalue⟩ := Frame.bindOperand_value hf
      (fun r hr => htyped r (List.mem_append_right _ hr)) hno hnoType
    have hfits : ∀ row ∈ f.rows, ∃ w, Frame.fitOutput settled.rule.outputType
        (if p.test? row == some true then a.value row else b.value row) = .ok w := by
      intro row hrow
      split
      · exact Frame.fitOutput_ok hyesFits (hatype row hrow)
      · exact Frame.fitOutput_ok hnoFits (hbtype row hrow)
    obtain ⟨value, hvalue⟩ : ∃ value : Row → Scalar, ∀ row ∈ f.rows,
        Frame.fitOutput settled.rule.outputType
          (if p.test? row == some true then a.value row else b.value row) = .ok (value row) := by
      choose! value hvalue using hfits
      exact ⟨value, hvalue⟩
    refine ⟨value, fun row hrow cells hcells => ?_, fun w => ?_⟩
    · have hchosen := hvalue row hrow
      rw [Expr.value?, htruth cells row hcells]
      dsimp only [Option.bind_eq_bind, Option.bind_some]
      split
      · rename_i htrue
        rw [htrue] at hchosen
        rw [fitBranch_value hy (havalue cells row hcells) (hatype row hrow)]
        exact congrArg Except.toOption hchosen
      · rename_i hfalse
        rw [if_neg (by simpa using hfalse)] at hchosen
        rw [fitBranch_value hn (hbvalue cells row hcells) (hbtype row hrow)]
        exact congrArg Except.toOption hchosen
    · rw [← houtput]
      exact Outcome.bind_eq_ok.mpr ⟨p, hp, Outcome.bind_eq_ok.mpr ⟨a, ha,
        Outcome.bind_eq_ok.mpr ⟨b, hb,
          Outcome.bind_eq_ok.mpr ⟨_, applyRule_ok _ _ _ hvalue 1 w, rfl⟩⟩⟩⟩
  · obtain ⟨_, _, _, hmemory⟩ := hmemory
    cases hmemory

/-- Orders with a declared amount, next to a source that declares nothing. -/
def orderStage : SqlStage where
  connection := "shop"
  kind := .postgres
  source := .table "orders" "o"
  joins := []
  filters := []
  tables := ["o", "s"]
  schema := [.column ⟨some "o", "amount", some .integer, .column (some "o") "amount"⟩,
    .openSource "s" "s"]

/-- The amounts above ten as decimals. -/
def largeRule : ConditionRule where
  predicate := ⟨⟨none, "amount"⟩, .gt, .value (.integer 10)⟩
  yes := .column ⟨none, "amount"⟩
  no := .literal .null
  output := "large"
  outputType := some .decimal
  policy := .abort

def orderFrame : Frame where
  columns := [⟨some "o", "amount", some .integer⟩, ⟨some "s", "id", none⟩]
  rows := [[.integer 20, .text "a"], [.null, .text "b"]]

theorem orderFrame_typed : ∀ r ∈ largeRule.references, orderFrame.Typed r := by
  have htyped : orderFrame.Typed ⟨none, "amount"⟩ := by
    refine ⟨by decide, fun hit hhit => ?_⟩
    obtain rfl := List.mem_singleton.mp hhit
    refine ⟨.integer, rfl, fun row hrow => ?_⟩
    rcases List.mem_cons.mp hrow with rfl | hrow
    · exact .inr rfl
    · obtain rfl := List.mem_singleton.mp hrow
      exact .inl rfl
  intro r hr
  simp only [largeRule, ConditionRule.references, Comparison.references, RightOperand.references,
    RuleOperand.references, List.append_nil, List.singleton_append, List.mem_cons,
    List.not_mem_nil, or_false, or_self] at hr
  rw [hr]
  exact htyped

theorem Stage.condition_pushed_large :
    ∃ st' settled test yes no,
      (Stage.sql orderStage).condition "large" largeRule = .ok (.sql st') ∧
      largeRule.settle orderStage.schema "large" = .ok settled ∧
      ∃ value : Row → Scalar,
        (∀ row ∈ orderFrame.rows, ∀ cells,
          ComputeTo cells ((orderStage.schema.spread fun _ => ["id"]).map (·.carried)) row →
            (Expr.choose test yes no).value? cells = some (value row)) ∧
        ∀ w, orderFrame.condition settled.rule w =
          .ok (⟨orderFrame.columns ++ [⟨none, "large", some .decimal⟩],
            orderFrame.rows.map fun row => row ++ [value row]⟩, w) := by
  have h : (Stage.sql orderStage).condition "large" largeRule = .ok (.sql _) := rfl
  obtain ⟨settled, test, yes, no, hsettled, _, hvalue⟩ := Stage.condition_pushed h
  obtain rfl := Except.ok.inj hsettled
  obtain ⟨value, hquery, hmemory⟩ := hvalue (fun _ => ["id"]) orderFrame rfl orderFrame_typed
  exact ⟨_, _, test, yes, no, h, rfl, value, hquery, hmemory⟩

end TablePipeline
