import Mathlib.Data.List.Duplicate
import Mathlib.Data.List.Nodup
import Mathlib.Data.List.Perm.Subperm
import TablePipeline.Frame.Name

/-!
# Names of target columns are different

Of the numbered forms of a name there are more than names in use, so one of them is free, and each
column gets a name that no earlier one has. It is the first free one of the name that the column
would like and the numbered forms of it.
-/

set_option autoImplicit false

namespace TablePipeline.OutputName

theorem text_injective {n m : Nat} (h : Digits.text n = Digits.text m) : n = m := by
  have hwrite : Digits.write n = Digits.write m := String.ofList_injective h
  rw [← Digits.value_write n, hwrite, Digits.value_write]

theorem numbered_injective {base : String} {n m : Nat} (h : numbered base n = numbered base m) :
    n = m := by
  have htext : Digits.text (n + 2) = Digits.text (m + 2) := by
    simpa [numbered, String.append_assoc] using h
  have := text_injective htext
  omega

theorem exists_free (used : List String) (base : String) :
    ∃ name ∈ (List.range (used.length + 1)).map (numbered base), name ∉ used := by
  by_contra hall
  push Not at hall
  have hnodup : ((List.range (used.length + 1)).map (numbered base)).Nodup :=
    List.nodup_range.map fun n m h => numbered_injective h
  have hle := (hnodup.subperm hall).length_le
  rw [List.length_map, List.length_range] at hle
  omega

theorem fresh_not_mem (used : List String) (base : String) : fresh used base ∉ used := by
  unfold fresh
  split
  · obtain ⟨name, hname, hfree⟩ := exists_free used base
    cases hfind : ((List.range (used.length + 1)).map (numbered base)).find? (· ∉ used) with
    | none =>
      have := List.find?_eq_none.mp hfind name hname
      exact (this (by simpa using hfree)).elim
    | some found => simpa using List.find?_some hfind
  · assumption

theorem length_assign (used bases : List String) : (assign used bases).length = bases.length := by
  induction bases generalizing used with
  | nil => rfl
  | cons b bases ih =>
    rw [assign, List.length_cons, ih, List.length_cons]

theorem assign_nodup (used bases : List String) :
    (assign used bases).Nodup ∧ ∀ name ∈ assign used bases, name ∉ used := by
  induction bases generalizing used with
  | nil => simp [assign]
  | cons b bases ih =>
    obtain ⟨hnodup, hfree⟩ := ih (fresh used b :: used)
    rw [assign]
    refine ⟨List.nodup_cons.mpr ⟨fun hmem => ?_, hnodup⟩, ?_⟩
    · exact hfree _ hmem List.mem_cons_self
    · intro name hname
      rcases List.mem_cons.mp hname with rfl | hname
      · exact fresh_not_mem used b
      · exact fun hused => hfree name hname (List.mem_cons_of_mem _ hused)

theorem length_all (columns : List PlanColumn) : (all columns).length = columns.length := by
  rw [all, length_assign, List.length_map]

theorem all_nodup (columns : List PlanColumn) : (all columns).Nodup :=
  (assign_nodup [] _).1

/-! ### Which name a column gets -/

/-- The name that a column would like: its own, or with the qualifier in front where several columns
have that name. -/
inductive Wish (columns : List PlanColumn) (c : PlanColumn) : String → Prop
  | plain (h : c.qualifier = none ∨ ¬List.Duplicate c.name (columns.map (·.name))) :
    Wish columns c c.name
  | qualified (q : String) (hq : c.qualifier = some q)
    (h : List.Duplicate c.name (columns.map (·.name))) : Wish columns c (q ++ "_" ++ c.name)

theorem duplicate_iff {columns : List PlanColumn} {name : String} :
    List.Duplicate name (columns.map (·.name)) ↔ 1 < columns.countP (·.name == name) := by
  rw [List.duplicate_iff_two_le_count, List.count, List.countP_map]
  rfl

theorem wish_base (columns : List PlanColumn) (c : PlanColumn) :
    Wish columns c (base columns c) := by
  unfold base
  split
  · rename_i q hq
    split
    · rename_i h
      exact .qualified q hq (duplicate_iff.mpr h)
    · rename_i h
      exact .plain (.inr fun hdup => h (duplicate_iff.mp hdup))
  · rename_i hq
    exact .plain (.inl hq)

theorem numbered_ne (base : String) (n : Nat) : numbered base n ≠ base := by
  intro h
  have hlength := congrArg String.length h
  have hone : "_".length = 1 := rfl
  rw [numbered, String.length_append, String.length_append] at hlength
  omega

theorem find?_numbered {used : List String} {base name : String} {count : Nat}
    (h : ((List.range count).map (numbered base)).find? (· ∉ used) = some name) :
    ∃ n, name = numbered base n ∧ ∀ m < n, numbered base m ∈ used := by
  rw [List.find?_map] at h
  obtain ⟨n, hn, rfl⟩ := Option.map_eq_some_iff.mp h
  obtain ⟨-, -, hbefore⟩ := List.find?_range_eq_some.mp hn
  exact ⟨n, rfl, fun m hm => by simpa using hbefore m hm⟩

theorem fresh_of_mem {used : List String} {base : String} (h : base ∈ used) :
    ∃ n, fresh used base = numbered base n ∧ ∀ m < n, numbered base m ∈ used := by
  rw [fresh, if_pos h]
  cases hfind : ((List.range (used.length + 1)).map (numbered base)).find? (· ∉ used) with
  | none =>
    obtain ⟨name, hname, hfree⟩ := exists_free used base
    exact (List.find?_eq_none.mp hfind name hname (by simpa using hfree)).elim
  | some name => exact find?_numbered hfind

theorem fresh_eq_self_iff {used : List String} {base : String} :
    fresh used base = base ↔ base ∉ used := by
  constructor
  · intro h
    rw [← h]
    exact fresh_not_mem used base
  · exact fun h => if_neg h

/-- A number that is reached has all numbers before it in use, and the bare name with them. -/
theorem number_le {used : List String} {base : String} {n : Nat} (hbase : base ∈ used)
    (hbefore : ∀ m < n, numbered base m ∈ used) : n + 1 ≤ used.length := by
  have hnodup : (base :: (List.range n).map (numbered base)).Nodup := by
    refine List.nodup_cons.mpr ⟨?_, List.nodup_range.map fun m k h => numbered_injective h⟩
    intro hmem
    obtain ⟨m, -, hm⟩ := List.mem_map.mp hmem
    exact numbered_ne base m hm
  have hsubset : base :: (List.range n).map (numbered base) ⊆ used := by
    refine List.cons_subset.mpr ⟨hbase, fun name hname => ?_⟩
    obtain ⟨m, hm, rfl⟩ := List.mem_map.mp hname
    exact hbefore m (List.mem_range.mp hm)
  simpa using (hnodup.subperm hsubset).length_le

theorem assign_getElem? (used bases : List String) (i : Nat) :
    (assign used bases)[i]? =
      bases[i]?.map (fresh (((assign used bases).take i).reverse ++ used)) := by
  induction bases generalizing used i with
  | nil => simp [assign]
  | cons b bases ih =>
    rw [assign]
    cases i with
    | zero => simp
    | succ i => simp [ih]

theorem all_getElem? (columns : List PlanColumn) (i : Nat) :
    (all columns)[i]? =
      columns[i]?.map fun c => fresh ((all columns).take i).reverse (base columns c) := by
  rw [all, assign_getElem?, List.append_nil, List.getElem?_map, Option.map_map]
  rfl

/-- There is a name for each column, and no name twice. A column gets the name that it would like
just if no earlier column has it, and otherwise the first free number behind it, which is at most
one more than there are earlier columns. -/
theorem all_first_free (columns : List PlanColumn) :
    (all columns).length = columns.length ∧ (all columns).Nodup ∧
      ∀ i c, columns[i]? = some c →
        ∃ base name, Wish columns c base ∧ (all columns)[i]? = some name ∧
          (name = base ∨ ∃ k, 2 ≤ k ∧ k ≤ i + 1 ∧ name = base ++ "_" ++ Digits.text k ∧
            ∀ j, 2 ≤ j → j < k → base ++ "_" ++ Digits.text j ∈ (all columns).take i) ∧
          (name = base ↔ base ∉ (all columns).take i) := by
  refine ⟨length_all columns, all_nodup columns, fun i c hc => ?_⟩
  have hname := all_getElem? columns i
  rw [hc] at hname
  refine ⟨base columns c, _, wish_base columns c, hname, ?_, ?_⟩
  · by_cases hbase : base columns c ∈ ((all columns).take i).reverse
    · obtain ⟨n, hn, hbefore⟩ := fresh_of_mem hbase
      have hle := number_le hbase hbefore
      rw [List.length_reverse, List.length_take] at hle
      refine .inr ⟨n + 2, by omega, by omega, hn, fun j hj hjn => ?_⟩
      have hmem := hbefore (j - 2) (by omega)
      rwa [numbered, Nat.sub_add_cancel hj, List.mem_reverse] at hmem
    · exact .inl (fresh_eq_self_iff.mpr hbase)
  · rw [← List.mem_reverse]
    exact fresh_eq_self_iff

/-- The last column would like the name of the second one. -/
def crowded : List PlanColumn :=
  [⟨none, "total", none⟩, ⟨some "a", "x_total", none⟩, ⟨some "a", "total", none⟩,
    ⟨some "x", "total", none⟩]

theorem all_first_free_crowded :
    crowded[3]? = some ⟨some "x", "total", none⟩ ∧
      all crowded = ["total", "x_total", "a_total", "x_total_2"] ∧
      ∃ base, Wish crowded ⟨some "x", "total", none⟩ base ∧ base = "x_total" ∧
        base ∈ (all crowded).take 3 := by
  have hall : all crowded = ["total", "x_total", "a_total", "x_total_2"] := by decide +kernel
  have hnamed : crowded[3]? = some ⟨some "x", "total", none⟩ := rfl
  obtain ⟨base, name, hwish, hname, -, hbare⟩ := (all_first_free crowded).2.2 3 _ hnamed
  have hbase : base = "x_total" := by
    cases hwish with
    | plain h =>
      have hdup : List.Duplicate "total" (crowded.map (·.name)) := by
        rw [List.duplicate_iff_two_le_count]
        decide
      exact (h.elim nofun fun hnot => hnot hdup).elim
    | qualified q hq h =>
      obtain rfl := Option.some.inj hq
      decide +kernel
  have hnotBare : name ≠ base := by
    rw [hall] at hname
    rw [hbase, ← Option.some.inj hname]
    decide
  exact ⟨hnamed, hall, base, hwish, hbase, not_not.mp fun hfree => hnotBare (hbare.mpr hfree)⟩

end TablePipeline.OutputName
