import Mathlib.Data.List.Basic
import TablePipeline.Frame.Rule
import TablePipeline.Plan.Rule
import TablePipeline.Proofs.Outcome

/-!
# Schemas without open sources

Where every source declares its columns, a schema is a list of columns. References then mean the
same place in the schema as in a frame with those columns, and a computed column goes to the same
place in both.
-/

set_option autoImplicit false

namespace TablePipeline

variable {ε ε' α β : Type}

def SchemaColumn.plain (c : SchemaColumn ε) : PlanColumn := ⟨c.qualifier, c.name, c.type?⟩

namespace Reference

theorem hits_map (r : Reference) (qualifier : β → Option String) (name : β → String) (f : α → β)
    (columns : List α) :
    r.hits qualifier name (columns.map f) =
      (r.hits (fun a => qualifier (f a)) (fun a => name (f a)) columns).map f := by
  have hfilter (p : β → Bool) : (columns.map f).filter p = (columns.filter (p ∘ f)).map f :=
    List.filter_map
  unfold hits
  split
  · rw [hfilter]
    rfl
  · simp only [hfilter, Function.comp_def]
    cases columns.filter fun a => (qualifier (f a)).isNone && name (f a) == r.name with
    | nil => rfl
    | cons a as =>
      cases as with
      | nil => rfl
      | cons b bs => rfl

theorem mem_of_mem_hits {r : Reference} {qualifier : α → Option String} {name : α → String}
    {columns : List α} {a : α} (h : a ∈ r.hits qualifier name columns) : a ∈ columns := by
  unfold hits at h
  split at h
  · exact List.mem_of_mem_filter h
  · split at h
    · rename_i c hc
      obtain rfl := List.mem_singleton.mp h
      exact List.mem_of_mem_filter (hc ▸ List.mem_singleton_self a)
    · exact List.mem_of_mem_filter h

end Reference

namespace Schema

def ofColumns (cs : List (SchemaColumn ε)) : Schema ε := cs.map .column

theorem ofColumns_injective : Function.Injective (@ofColumns ε) :=
  List.map_injective_iff.mpr fun _ _ h => SchemaItem.column.inj h

theorem ofColumns_append (cs ds : List (SchemaColumn ε)) :
    ofColumns (cs ++ ds) = ofColumns cs ++ ofColumns ds := List.map_append

theorem ofColumns_set (cs : List (SchemaColumn ε)) (i : Nat) (c : SchemaColumn ε) :
    (ofColumns cs).set i (.column c) = ofColumns (cs.set i c) := List.map_set.symm

theorem ofColumns_length (cs : List (SchemaColumn ε)) : (ofColumns cs).length = cs.length :=
  List.length_map _

theorem columns_ofColumns (cs : List (SchemaColumn ε)) :
    (ofColumns cs).columns = cs.zipIdx.map fun (c, i) => (i, c) := by
  unfold columns ofColumns
  rw [List.zipIdx_map, List.filterMap_map, ← List.filterMap_eq_map]
  rfl

theorem plain_columns (cs : List (SchemaColumn ε)) :
    (ofColumns cs).columns.map (·.2.plain) = cs.map SchemaColumn.plain := by
  rw [columns_ofColumns, List.map_map]
  exact (List.map_map (f := Prod.fst)).symm.trans (by rw [List.zipIdx_map_fst])

theorem opens_map_column (f : α → SchemaColumn ε) (xs : List α) :
    Schema.opens (xs.map fun x => .column (f x)) = [] := by
  induction xs with
  | nil => rfl
  | cons x xs ih => exact ih

theorem opens_ofColumns (cs : List (SchemaColumn ε)) : (ofColumns cs).opens = [] :=
  opens_map_column id cs

theorem erased_ofColumns (cs : List (SchemaColumn ε)) :
    (ofColumns cs).erased = ofColumns (cs.map fun c => ⟨c.qualifier, c.name, c.type?, ()⟩) := by
  simp only [erased, ofColumns, List.map_map]
  rfl

/-- What a reference means is one of the columns at its place. -/
theorem resolve_ofColumns {cs : List (SchemaColumn ε)} {r : Reference} {x : Resolved ε}
    (h : (ofColumns cs).resolve r = .ok x) :
    ∃ i c, x = .column i c ∧ cs[i]? = some c ∧
      r.hits (·.2.qualifier) (·.2.name) (ofColumns cs).columns = [(i, c)] := by
  unfold resolve at h
  split at h
  · rename_i i c hits
    obtain rfl := Except.ok.inj h
    refine ⟨i, c, rfl, ?_, hits⟩
    have hm : (i, c) ∈ (ofColumns cs).columns :=
      Reference.mem_of_mem_hits (hits ▸ List.mem_singleton_self (i, c))
    rw [columns_ofColumns] at hm
    obtain ⟨⟨d, j⟩, hd, heq⟩ := List.mem_map.mp hm
    obtain ⟨rfl, rfl⟩ := Prod.mk.inj heq
    exact List.mem_zipIdx_iff_getElem?.mp hd
  · rw [opens_ofColumns] at h
    split at h <;> simp at h
  · cases h

theorem find_eq_ok {s : Schema ε} {r : Reference} {x : Resolved ε} :
    s.find r = .ok x ↔ s.resolve r = .ok x := Outcome.mapError_eq_ok

theorem find_of_hits {s : Schema ε} {r : Reference} {i : Nat} {c : SchemaColumn ε}
    (h : r.hits (·.2.qualifier) (·.2.name) s.columns = [(i, c)]) :
    s.find r = .ok (.column i c) := by
  rw [find_eq_ok]
  unfold resolve
  rw [h]

/-! ### Comparisons -/

/-- What the right side of a comparison becomes in a query. -/
def RightExpr (s : Schema Sql.Expr) : RightOperand → Sql.Operand → Prop
  | .none, right => right = .none
  | .value v, right => right = .expr (.literal v)
  | .list vs, right => right = .list vs
  | .column r, right => ∃ e, s.expr r = .ok e ∧ right = .expr e

/-- The left side is looked up behind the right one, whatever that is. -/
theorem predicate_eq_ok {s : Schema Sql.Expr} {c : Comparison} {p : Sql.Predicate}
    (h : s.predicate c = .ok p) :
    ∃ left right, s.expr c.column = .ok left ∧ s.RightExpr c.right right ∧
      p = .mk left c.op right := by
  have hleft {right : Sql.Operand} (hright : s.RightExpr c.right right)
      (h : (do return .mk (← s.expr c.column) c.op right : Except CompileError Sql.Predicate) =
        .ok p) :
      ∃ left right, s.expr c.column = .ok left ∧ s.RightExpr c.right right ∧
        p = .mk left c.op right := by
    obtain ⟨left, hleft, h⟩ := Outcome.bind_eq_ok.mp h
    exact ⟨left, right, hleft, hright, (Outcome.pure_eq_ok.mp h).symm⟩
  unfold predicate at h
  cases hc : c.right with
  | column r =>
    rw [hc] at h hleft
    obtain ⟨right, hright, h⟩ := Outcome.bind_eq_ok.mp h
    obtain ⟨e, he, rfl⟩ := Outcome.map_eq_ok.mp hright
    exact hleft ⟨e, he, rfl⟩ h
  | _ =>
    rw [hc] at h hleft
    exact hleft rfl h

/-! ### Columns in place of others -/

/-- The place of the first element with a property, sought among the numbered elements. -/
theorem find?_zipIdx_place (p : α → Bool) (xs : List α) (k : Nat) :
    ((xs.zipIdx k).find? fun a => p a.1).map (·.2) = (xs.findIdx? p).map (· + k) := by
  induction xs generalizing k with
  | nil => rfl
  | cons x xs ih =>
    rw [List.zipIdx_cons, List.find?_cons, List.findIdx?_cons]
    by_cases hx : p x
    · simp [hx]
    · simp only [hx, Bool.false_eq_true, if_false, ih, Option.map_map]
      congr 1
      funext i
      simp only [Function.comp_apply]
      omega

theorem find?_computed (cs : List (SchemaColumn ε)) (name : String) :
    ((ofColumns cs).columns.find? fun (_, c) => c.qualifier.isNone && c.name == name).map (·.1) =
      cs.findIdx? fun c => c.qualifier.isNone && c.name == name := by
  rw [columns_ofColumns, List.find?_map, Option.map_map]
  have h := find?_zipIdx_place (fun c : SchemaColumn ε => c.qualifier.isNone && c.name == name) cs 0
  simpa [Function.comp_def] using h

/-- Columns with a computed one put in place of the first of its name, or behind all. -/
def withComputed (cs : List (SchemaColumn ε)) (name : String) (type? : Option ColumnType)
    (carried : ε) : List (SchemaColumn ε) :=
  match cs.findIdx? fun c => c.qualifier.isNone && c.name == name with
  | some i => cs.set i ⟨none, name, type?, carried⟩
  | none => cs ++ [⟨none, name, type?, carried⟩]

theorem putComputed_ofColumns (cs : List (SchemaColumn ε)) (name : String)
    (type? : Option ColumnType) (carried : ε) :
    (ofColumns cs).putComputed name type? carried =
      ofColumns (withComputed cs name type? carried) := by
  have h := find?_computed cs name
  unfold putComputed withComputed
  rw [← h]
  cases (ofColumns cs).columns.find? fun (_, c) => c.qualifier.isNone && c.name == name with
  | some x => exact ofColumns_set cs x.1 _
  | none => exact (ofColumns_append cs [⟨none, name, type?, carried⟩]).symm

end Schema

namespace Frame

theorem hits_columns {cs : List (SchemaColumn ε)} {f : Frame}
    (hf : f.columns = cs.map SchemaColumn.plain) (r : Reference) :
    r.hits (·.1.qualifier) (·.1.name) f.columns.zipIdx =
      (r.hits (·.2.qualifier) (·.2.name) (Schema.ofColumns cs).columns).map
        fun (i, c) => (c.plain, i) := by
  have hz : f.columns.zipIdx =
      (Schema.ofColumns cs).columns.map fun (i, c) => (c.plain, i) := by
    rw [hf, List.zipIdx_map, Schema.columns_ofColumns, List.map_map]
    rfl
  rw [hz, Reference.hits_map]
  rfl

/-- A reference that means a column of the schema means the same place in a frame with its
columns. -/
theorem resolve_of_find {cs : List (SchemaColumn ε)} {f : Frame}
    (hf : f.columns = cs.map SchemaColumn.plain) {r : Reference} {x : Resolved ε}
    (h : (Schema.ofColumns cs).find r = .ok x) :
    ∃ i c, x = .column i c ∧ cs[i]? = some c ∧ f.resolve r = .ok i := by
  obtain ⟨i, c, hx, hc, hits⟩ := Schema.resolve_ofColumns (Schema.find_eq_ok.mp h)
  refine ⟨i, c, hx, hc, ?_⟩
  unfold resolve
  rw [hits_columns hf, hits]
  rfl

theorem find_of_resolve {cs : List (SchemaColumn ε)} {f : Frame}
    (hf : f.columns = cs.map SchemaColumn.plain) {r : Reference} {i : Nat}
    (h : f.resolve r = .ok i) : ∃ x, (Schema.ofColumns cs).find r = .ok x := by
  unfold resolve at h
  rw [hits_columns hf] at h
  split at h
  · rename_i c j hits
    obtain ⟨⟨k, d⟩, hd, _⟩ := List.map_eq_singleton_iff.mp hits
    exact ⟨.column k d, Schema.find_of_hits hd⟩
  · cases h
  · cases h

theorem setType_eq {cs : List (SchemaColumn ε)} {f : Frame}
    (hf : f.columns = cs.map SchemaColumn.plain) {i : Nat} {c d : SchemaColumn ε}
    (hc : cs[i]? = some c) (hq : d.qualifier = c.qualifier) (hn : d.name = c.name) :
    f.setType i d.type? = (cs.set i d).map SchemaColumn.plain := by
  unfold setType
  rw [hf]
  apply List.ext_getElem?
  intro j
  rw [List.getElem?_modify, List.map_set, List.getElem?_set, List.getElem?_map, List.length_map]
  by_cases hij : i = j
  · subst hij
    obtain ⟨hlt, rfl⟩ := List.getElem?_eq_some_iff.mp hc
    simp [hlt, SchemaColumn.plain, hq, hn]
  · simp [hij]

theorem computedSlot_columns {cs : List (SchemaColumn ε)} {f : Frame}
    (hf : f.columns = cs.map SchemaColumn.plain) (name : String) (type? : Option ColumnType)
    (carried : ε) :
    (f.computedSlot name type?).1 =
      (Schema.withComputed cs name type? carried).map SchemaColumn.plain := by
  have hi : (f.columns.findIdx? fun c => c.qualifier.isNone && c.name == name) =
      cs.findIdx? fun c => c.qualifier.isNone && c.name == name := by
    rw [hf, List.findIdx?_map]
    rfl
  unfold computedSlot Schema.withComputed
  rw [hi]
  cases hfind : cs.findIdx? fun c => c.qualifier.isNone && c.name == name with
  | none => simp [hf, SchemaColumn.plain]
  | some i =>
    obtain ⟨hlt, hp, _⟩ := List.findIdx?_eq_some_iff_getElem.mp hfind
    simp only [Bool.and_eq_true, Option.isNone_iff_eq_none, beq_iff_eq] at hp
    exact setType_eq hf (List.getElem?_eq_getElem hlt) (d := ⟨none, name, type?, carried⟩)
      hp.1.symm hp.2.symm

end Frame

end TablePipeline
