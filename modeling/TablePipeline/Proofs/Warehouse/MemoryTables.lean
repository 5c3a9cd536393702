import TablePipeline.Proofs.Outcome
import TablePipeline.Proofs.Warehouse.CheckedRows
import TablePipeline.Warehouse.Batch
import TablePipeline.Warehouse.Memory

/-!
# Tables of a warehouse in memory

What a table holds after it was put in, after a writer was opened on it and after a batch. A writer
takes batches up to the first one that is beyond the limit or fails the check.
-/

set_option autoImplicit false

namespace TablePipeline.MemoryWarehouse

variable {w w' : MemoryWarehouse} {target : TableSpec} {writer writer' : MemoryWriter}
  {key path : String} {t : StoredTable} {rows : List Row}

theorem lookup_filter_ne {α β : Type} [BEq α] [LawfulBEq α] {k k' : α} (h : k' ≠ k)
    (xs : List (α × β)) : (xs.filter (·.1 != k)).lookup k' = xs.lookup k' := by
  induction xs with
  | nil => rfl
  | cons x xs ih =>
    obtain ⟨a, b⟩ := x
    by_cases ha : a = k
    · subst ha
      rw [List.filter_cons_of_neg (by simp), ih, List.lookup_cons, beq_false_of_ne h]
    · rw [List.filter_cons_of_pos (by simpa using ha), List.lookup_cons, List.lookup_cons, ih]

@[simp] theorem get?_put (w : MemoryWarehouse) (key : String) (t : StoredTable) :
    (w.put key t).get? key = some t := by
  simp [get?, put]

theorem get?_put_of_ne {other : String} (h : other ≠ key) :
    (w.put key t).get? other = w.get? other := by
  unfold get? put
  rw [List.lookup_cons, beq_false_of_ne h]
  exact lookup_filter_ne h w.tables

@[simp] theorem put_put (w : MemoryWarehouse) (key : String) (t t' : StoredTable) :
    (w.put key t).put key t' = w.put key t' := by
  simp [put, List.filter_filter]

theorem table?_of_key (h : tableKey path = .ok key) : w.table? path = w.get? key := by
  unfold table?
  rw [h]

theorem table?_put_of_ne (h : tableKey path ≠ .ok key) :
    (w.put key t).table? path = w.table? path := by
  unfold table?
  split
  · rename_i other hother
    have hne : other ≠ key := by
      rintro rfl
      exact h hother
    exact get?_put_of_ne hne
  · rfl

/-! ### Opening a writer -/

def baseRows (w : MemoryWarehouse) (target : TableSpec) : List Row :=
  match target.mode, w.table? target.table with
  | .append, some t => t.rows
  | _, _ => []

theorem openWriter_eq_ok (h : w.openWriter target = .ok (writer, w')) :
    tableKey target.table = .ok writer.key ∧ writer.key ∉ w.locked ∧ writer.batches = 0 ∧
      w' = w.put writer.key ⟨writer.columns, w.baseRows target⟩ := by
  obtain ⟨_, _, h⟩ := Outcome.bind_eq_ok.mp h
  obtain ⟨_, _, h⟩ := Outcome.bind_eq_ok.mp h
  obtain ⟨key, hkey, h⟩ := Outcome.bind_eq_ok.mp h
  have hkey := Outcome.mapError_eq_ok.mp hkey
  dsimp only at h
  split at h
  · cases h
  · rename_i hfree
    obtain ⟨rfl, rfl⟩ := Prod.mk.inj (Outcome.pure_eq_ok.mp h)
    have htable : w.table? target.table = w.get? key := table?_of_key hkey
    refine ⟨hkey, hfree, rfl, ?_⟩
    unfold baseRows prepared
    rw [htable]
    cases target.mode <;> cases w.get? key <;> rfl

/-! ### Writing batches -/

/-- A writer takes a batch: it is within the limit and passes the check. -/
def Takes (w : MemoryWarehouse) (writer : MemoryWriter) (rows : List Row) : Prop :=
  (∀ limit ∈ w.failAfter, writer.batches < limit) ∧ checkRows writer.columns rows = .ok ()

instance : Decidable (w.Takes writer rows) := inferInstanceAs (Decidable (_ ∧ _))

theorem takes_put (w : MemoryWarehouse) (key : String) (t : StoredTable) :
    (w.put key t).Takes writer rows ↔ w.Takes writer rows := .rfl

theorem writeBatch_of_takes (h : w.Takes writer rows) (ht : w.get? writer.key = some t) :
    w.writeBatch writer rows = .ok ({ writer with batches := writer.batches + 1 },
      w.put writer.key { t with rows := t.rows ++ rows }) := by
  obtain ⟨hlimit, hcheck⟩ := h
  unfold writeBatch
  rw [hcheck, ht]
  cases hfail : w.failAfter with
  | none => rfl
  | some limit =>
    have hwithin := hlimit limit hfail
    simp [Nat.not_le.mpr hwithin, Except.mapError, bind, Except.bind, pure, Except.pure]

theorem takes_of_writeBatch (h : w.writeBatch writer rows = .ok (writer', w')) :
    w.Takes writer rows := by
  unfold writeBatch at h
  dsimp only at h
  split at h
  · rename_i limit hfail
    split at h
    · cases h
    · rename_i hwithin
      obtain ⟨_, hcheck, _⟩ := Outcome.bind_eq_ok.mp h
      refine ⟨fun limit' hlimit => ?_, Outcome.mapError_eq_ok.mp hcheck⟩
      obtain rfl := Option.some.inj (hfail.symm.trans hlimit)
      exact Nat.not_le.mp hwithin
  · rename_i hfail
    obtain ⟨_, hcheck, _⟩ := Outcome.bind_eq_ok.mp h
    refine ⟨fun limit hlimit => ?_, Outcome.mapError_eq_ok.mp hcheck⟩
    cases hfail.symm.trans hlimit

theorem writeBatch_eq_ok (h : w.writeBatch writer rows = .ok (writer', w')) :
    ∃ t, w.get? writer.key = some t ∧ w' = w.put writer.key { t with rows := t.rows ++ rows } := by
  have htakes := takes_of_writeBatch h
  cases hget : w.get? writer.key with
  | some t =>
    rw [writeBatch_of_takes htakes hget] at h
    exact ⟨t, rfl, (Prod.mk.inj (Except.ok.inj h)).2.symm⟩
  | none =>
    unfold writeBatch at h
    rw [hget] at h
    dsimp only at h
    split at h
    · split at h
      · cases h
      · obtain ⟨_, _, h⟩ := Outcome.bind_eq_ok.mp h
        cases h
    · obtain ⟨_, _, h⟩ := Outcome.bind_eq_ok.mp h
      cases h

/-- How many batches a writer takes before the first one that it does not take. -/
def taken (w : MemoryWarehouse) : MemoryWriter → List (List Row) → Nat
  | _, [] => 0
  | writer, b :: bs =>
    if w.Takes writer b then w.taken { writer with batches := writer.batches + 1 } bs + 1 else 0

/-- All batches are taken if none is beyond the limit and all rows pass the check. -/
theorem taken_eq_length_iff (w : MemoryWarehouse) (writer : MemoryWriter)
    (batches : List (List Row)) :
    w.taken writer batches = batches.length ↔
      (∀ limit ∈ w.failAfter, batches = [] ∨ writer.batches + batches.length ≤ limit) ∧
        checkRows writer.columns batches.flatten = .ok () := by
  rw [checkRows_eq_ok_iff]
  induction batches generalizing writer with
  | nil => simp [taken]
  | cons b bs ih =>
    have hb : checkRows writer.columns b = .ok () ↔ _ := checkRows_eq_ok_iff
    rw [taken, List.flatten_cons, List.forall_mem_append, ← hb]
    split
    · rename_i htakes
      obtain ⟨hlimit, hcheck⟩ := htakes
      rw [List.length_cons, Nat.succ_inj, ih]
      constructor
      · rintro ⟨hlimits, hrows⟩
        refine ⟨fun limit h => .inr ?_, hcheck, hrows⟩
        have hbound := hlimit limit h
        rcases hlimits limit h with rfl | hle
        · exact hbound
        · dsimp only at hle
          omega
      · rintro ⟨hlimits, _, hrows⟩
        refine ⟨fun limit h => .inr ?_, hrows⟩
        rcases hlimits limit h with hnil | hle
        · cases hnil
        · dsimp only
          omega
    · rename_i hrefused
      constructor
      · intro h
        cases h
      · rintro ⟨hlimits, hcheck, _⟩
        refine (hrefused ⟨fun limit h => ?_, hcheck⟩).elim
        rcases hlimits limit h with hnil | hle
        · cases hnil
        · rw [List.length_cons] at hle
          omega

/-- Rows that a fresh writer takes in batches of a size. -/
def Admits (w : MemoryWarehouse) (writer : MemoryWriter) (size : Nat) (rows : List Row) : Prop :=
  (∀ limit ∈ w.failAfter, rows.length ≤ limit * size) ∧ checkRows writer.columns rows = .ok ()

theorem taken_batchesOf_iff (w : MemoryWarehouse) (hfresh : writer.batches = 0) (n : Nat)
    (rows : List Row) :
    w.taken writer (batchesOf n rows) = (batchesOf n rows).length ↔
      w.Admits writer (n + 1) rows := by
  rw [taken_eq_length_iff, batchesOf_flatten, hfresh]
  refine and_congr_left fun _ => forall₂_congr fun limit _ => ?_
  rw [Nat.zero_add, ← length_batchesOf_le_iff]
  constructor
  · rintro (hnil | hle)
    · rw [hnil]
      exact Nat.zero_le limit
    · exact hle
  · exact .inr

end TablePipeline.MemoryWarehouse
