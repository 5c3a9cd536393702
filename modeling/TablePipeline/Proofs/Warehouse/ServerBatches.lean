import TablePipeline.Proofs.Outcome
import TablePipeline.Proofs.Warehouse.CheckedRows
import TablePipeline.Warehouse.Postgres

/-!
# Batches on a server

A batch goes to the server in pieces, one statement each. It is inserted and counted as a whole if
every piece is taken; a piece that is refused ends the batch, and the pieces before it stay. So a
batch that fits in one statement is inserted as a whole or not at all.
-/

set_option autoImplicit false

namespace TablePipeline

/-- The rows that a statement inserts, each with its table. -/
def TableStatement.newRows : TableStatement → List (String × Row)
  | insert table _ rows => rows.map fun cells => (table, cells.map (·.value))
  | _ => []

variable {σ : Type}

/-- Every insertion is taken with all of its rows, which are counted, or refused with all of them.
The rows of those that were taken are in `inserted`, in their order. -/
structure PostgresServer.Inserts (s : PostgresServer σ) (inserted : σ → List (String × Row)) :
    Prop where
  takes : ∀ {statement state result state'}, s.execute statement state = (.ok result, state') →
    inserted state' = inserted state ++ statement.newRows
  counts : ∀ {table names rows state result state'},
    s.execute (.insert table names rows) state = (.ok result, state') →
    result.affected = rows.length
  refuses : ∀ {statement state e state'}, s.execute statement state = (.error e, state') →
    inserted state' = inserted state

namespace BoundCell

theorem values_ofRow {columns : List TableColumn} {row : Row}
    (h : row.length = columns.length) : (ofRow columns row).map (·.value) = row := by
  induction row generalizing columns with
  | nil => simp [ofRow]
  | cons v vs ih =>
    cases columns with
    | nil => cases h
    | cons c cs =>
      have htail := ih (Nat.succ.inj h)
      unfold ofRow at htail ⊢
      rw [List.zipWith_cons_cons, List.map_cons, htail]
      rfl

end BoundCell

namespace PostgresServer

variable {s : PostgresServer σ} {inserted : σ → List (String × Row)}

theorem newRows_insert {columns : List TableColumn} {rows : List Row} (table : String)
    (names : List String) (h : ∀ row ∈ rows, row.length = columns.length) :
    (TableStatement.insert table names (rows.map (BoundCell.ofRow columns))).newRows =
      rows.map (Prod.mk table) := by
  rw [TableStatement.newRows, List.map_map]
  refine List.map_congr_left fun row hrow => ?_
  rw [Function.comp_apply, BoundCell.values_ofRow (h row hrow)]

/-- What pieces of a batch add before the first that is refused. -/
theorem Inserts.insertPieces (h : s.Inserts inserted) (writer : PostgresWriter)
    (pieces : List (List Row))
    (hwidth : ∀ piece ∈ pieces, ∀ row ∈ piece, row.length = writer.columns.length) (written : Nat)
    (state : σ) :
    let answer := s.insertPieces writer pieces written state
    Outcome.Ends
      (fun n => n = written + pieces.flatten.length ∧
        inserted answer.2 = inserted state ++ pieces.flatten.map (Prod.mk writer.table))
      (fun _ => ∃ k < pieces.length,
        inserted answer.2 = inserted state ++ (pieces.take k).flatten.map (Prod.mk writer.table))
      answer.1 := by
  induction pieces generalizing written state with
  | nil => exact ⟨rfl, (List.append_nil _).symm⟩
  | cons piece pieces ih =>
    obtain ⟨hpiece, hpieces⟩ := List.forall_mem_cons.mp hwidth
    have hrows := newRows_insert writer.table writer.names hpiece
    generalize hstatement : TableStatement.insert writer.table writer.names
      (piece.map (BoundCell.ofRow writer.columns)) = statement at hrows
    cases hanswer : s.execute statement state with
    | mk outcome state₁ =>
      cases outcome with
      | error e =>
        have hrefused : s.insertPieces writer (piece :: pieces) written state =
            (.error (.write (.stated e.withState)), state₁) := by
          simp only [PostgresServer.insertPieces, hstatement, hanswer]
        rw [hrefused]
        refine ⟨0, Nat.succ_pos _, ?_⟩
        exact (h.refuses hanswer).trans (List.append_nil _).symm
      | ok result =>
        have htaken : s.insertPieces writer (piece :: pieces) written state =
            s.insertPieces writer pieces (written + result.affected) state₁ := by
          simp only [PostgresServer.insertPieces, hstatement, hanswer]
        have hadded := h.takes hanswer
        rw [hrows] at hadded
        have hcount : result.affected = piece.length := by
          subst hstatement
          rw [h.counts hanswer, List.length_map]
        rw [htaken, hcount]
        have hrest := ih hpieces (written + piece.length) state₁
        revert hrest
        generalize s.insertPieces writer pieces (written + piece.length) state₁ = answer
        obtain ⟨fault | n, state'⟩ := answer
        · rintro ⟨k, hk, hstate⟩
          refine ⟨k + 1, Nat.succ_lt_succ hk, ?_⟩
          rw [List.take_succ_cons, List.flatten_cons, List.map_append, ← List.append_assoc,
            ← hadded]
          exact hstate
        · rintro ⟨hn, hstate⟩
          refine ⟨?_, ?_⟩
          · rw [hn, List.flatten_cons, List.length_append, Nat.add_assoc]
          · rw [List.flatten_cons, List.map_append, ← List.append_assoc, ← hadded]
            exact hstate

theorem eq_nil_of_dvd_length {α : Type} {n : Nat} {xs : List α} (hdvd : n ∣ xs.length)
    (hlt : xs.length < n) : xs = [] :=
  List.length_eq_zero_iff.mp (Nat.eq_zero_of_dvd_of_lt hdvd hlt)

theorem rowsPerStatement_pos (columns : Nat) : 0 < rowsPerStatement columns := Nat.le_max_right _ 1

/-- What is left in the table of a batch that fails: the rows of some statements, but never all. -/
def Leaves (perStatement : Nat) (batch left : List Row) : Prop :=
  ∃ k, k * perStatement < batch.length ∧ left = batch.take (k * perStatement)

namespace Leaves

variable {perStatement : Nat} {batch left : List Row}

theorem nil (h : batch ≠ []) : Leaves perStatement batch [] := by
  refine ⟨0, ?_, ?_⟩
  · rw [Nat.zero_mul]
    exact List.length_pos_iff.mpr h
  · rw [Nat.zero_mul, List.take_zero]

theorem isPrefix (h : Leaves perStatement batch left) : left <+: batch := by
  obtain ⟨k, _, rfl⟩ := h
  exact List.take_prefix _ batch

theorem length_lt (h : Leaves perStatement batch left) : left.length < batch.length := by
  obtain ⟨k, hk, rfl⟩ := h
  rwa [List.length_take_of_le (Nat.le_of_lt hk)]

theorem dvd_length (h : Leaves perStatement batch left) : perStatement ∣ left.length := by
  obtain ⟨k, hk, rfl⟩ := h
  rw [List.length_take_of_le (Nat.le_of_lt hk)]
  exact Nat.dvd_mul_left perStatement k

/-- Nothing is left of a batch that fits in one statement. -/
theorem eq_nil (h : Leaves perStatement batch left) (hfits : batch.length ≤ perStatement) :
    left = [] :=
  eq_nil_of_dvd_length h.dvd_length (Nat.lt_of_lt_of_le h.length_lt hfits)

end Leaves

/-- A batch that fails its check is not sent. -/
theorem Inserts.writeBatch (h : s.Inserts inserted) (writer : PostgresWriter) (rows : List Row)
    (state : σ) :
    let answer := s.writeBatch writer rows state
    Outcome.Ends
      (fun n => n = rows.length ∧
        inserted answer.2 = inserted state ++ rows.map (Prod.mk writer.table))
      (fun _ => ∃ left, Leaves (rowsPerStatement writer.columns.length) rows left ∧
        inserted answer.2 = inserted state ++ left.map (Prod.mk writer.table))
      answer.1 := by
  unfold PostgresServer.writeBatch
  split
  · rename_i hempty
    obtain rfl := List.isEmpty_iff.mp hempty
    exact ⟨rfl, (List.append_nil _).symm⟩
  · rename_i hrows
    have hnothing : ∃ left, Leaves (rowsPerStatement writer.columns.length) rows left ∧
        inserted state = inserted state ++ left.map (Prod.mk writer.table) :=
      ⟨[], .nil (mt List.isEmpty_iff.mpr hrows), (List.append_nil _).symm⟩
    split
    · exact hnothing
    · split
      · exact hnothing
      · rename_i hcheck
        split
        · exact hnothing
        · have hwidth : ∀ row ∈ rows, row.length = writer.columns.length := fun row hrow =>
            (checkRows_eq_ok_iff.mp hcheck row hrow).length_eq.symm
          obtain ⟨n, hn⟩ := Nat.exists_eq_succ_of_ne_zero
            (Nat.ne_of_gt (rowsPerStatement_pos writer.columns.length))
          have hpieces := h.insertPieces writer (batchesOf n rows)
            (fun piece hpiece row hrow => hwidth row
              (batchesOf_flatten n rows ▸ List.mem_flatten_of_mem hpiece hrow)) 0 state
          rw [hn, Nat.succ_sub_one]
          revert hpieces
          generalize s.insertPieces writer (batchesOf n rows) 0 state = answer
          rw [batchesOf_flatten, Nat.zero_add]
          obtain ⟨fault | written, state'⟩ := answer
          · rintro ⟨k, hk, hstate⟩
            rw [flatten_take_batchesOf] at hstate
            refine ⟨_, ⟨k, ?_, rfl⟩, hstate⟩
            rwa [← Nat.not_le, ← length_batchesOf_le_iff, Nat.not_le]
          · exact id

/-- A server that takes a number of insertions and refuses all others. -/
def limited : PostgresServer (Nat × List (String × Row)) where
  connect s := (.ok (), s)
  execute
    | .insert _ _ _, (0, log) => (.error (.database "disk full" (some "53100") none), 0, log)
    | .insert table names rows, (n + 1, log) =>
      (.ok ⟨rows.length, [], []⟩, n, log ++ (TableStatement.insert table names rows).newRows)
    | .select _, s =>
      (.ok ⟨0, [⟨"id", .integer⟩], [[.integer 1], [.integer 2], [.integer 3]]⟩, s)
    | _, s => (.ok ⟨0, [], []⟩, s)
  leave s := s

theorem limited_inserts : limited.Inserts Prod.snd where
  takes := by
    intro statement state result state' h
    cases statement with
    | insert table names rows =>
      obtain ⟨_ | n, log⟩ := state
      · cases h
      · cases h
        rfl
    | _ =>
      cases h
      exact (List.append_nil _).symm
  counts := by
    intro table names rows state result state' h
    obtain ⟨_ | n, log⟩ := state
    · cases h
    · cases h
      rfl
  refuses := by
    intro statement state e state' h
    cases statement with
    | insert table names rows =>
      obtain ⟨_ | n, log⟩ := state
      · cases h
        rfl
      · cases h
    | _ => cases h

theorem batchesOf_replicate {α : Type} (n : Nat) (x : α) :
    batchesOf n (List.replicate (n + 2) x) = [List.replicate (n + 1) x, [x]] := by
  rw [batchesOf, dif_neg (by simp), batchesOf, dif_neg (by simp), batchesOf, dif_pos (by simp)]
  simp

/-- A batch of one row more than a statement holds fails, and the rows of the first statement are
left. -/
theorem limited_writeBatch {writer : PostgresWriter} {row : Row}
    (hrow : List.Forall₂ TableColumn.Takes writer.columns row) (hcolumns : writer.columns ≠ [])
    (hopen : writer.isOpen = true) :
    ∃ fault, limited.writeBatch writer
        (List.replicate (rowsPerStatement writer.columns.length + 1) row) (1, []) =
      (.error fault, 0,
        List.replicate (rowsPerStatement writer.columns.length) (writer.table, row)) := by
  obtain ⟨n, hn⟩ := Nat.exists_eq_succ_of_ne_zero
    (Nat.ne_of_gt (rowsPerStatement_pos writer.columns.length))
  have hcheck : checkRows writer.columns (List.replicate (n + 2) row) = .ok () := by
    refine checkRows_eq_ok_iff.mpr fun row' hrow' => ?_
    rwa [List.eq_of_mem_replicate hrow']
  refine ⟨.write (.stated "disk full (SQLSTATE 53100)"), ?_⟩
  have hpieces : limited.writeBatch writer (List.replicate (n + 2) row) (1, []) =
      limited.insertPieces writer [List.replicate (n + 1) row, [row]] 0 (1, []) := by
    unfold PostgresServer.writeBatch
    rw [if_neg (by simp), if_neg (by simpa using hcolumns), hcheck, hn]
    dsimp only
    rw [if_neg (by simp [hopen]), Nat.succ_sub_one, batchesOf_replicate]
  have hinserted : (TableStatement.insert writer.table writer.names
      ((List.replicate (n + 1) row).map (BoundCell.ofRow writer.columns))).newRows =
      List.replicate (n + 1) (writer.table, row) := by
    rw [newRows_insert writer.table writer.names, List.map_replicate]
    intro row' hrow'
    rw [List.eq_of_mem_replicate hrow', hrow.length_eq]
  rw [hn, hpieces]
  exact congrArg (fun log => (_, 0, log)) hinserted

/-- So a batch of one column that fails can leave its first 65000 rows. -/
theorem writeBatch_limited :
    limited.Inserts Prod.snd ∧ ∃ fault,
      limited.writeBatch ⟨"\"t\"", [⟨"id", .integer⟩], ["\"id\""], false, true⟩
          (List.replicate (rowsPerStatement 1 + 1) [.integer 1]) (1, []) =
        (.error fault, 0, List.replicate (rowsPerStatement 1) ("\"t\"", [.integer 1])) :=
  ⟨limited_inserts, limited_writeBatch (.cons (.inr rfl) .nil) (List.cons_ne_nil _ _) rfl⟩

/-! ### What statements keep -/

theorem executeAll_keeps {P : σ → Prop} {statements : List TableStatement}
    (hkeeps : ∀ statement ∈ statements, ∀ state, P state → P (s.execute statement state).2)
    {state : σ} (hstate : P state) : P (s.executeAll statements state).2 := by
  induction statements generalizing state with
  | nil => exact hstate
  | cons statement rest ih =>
    obtain ⟨hfirst, hrest⟩ := List.forall_mem_cons.mp hkeeps
    have hnext := hfirst state hstate
    rw [PostgresServer.executeAll]
    split <;> rename_i heq <;> rw [heq] at hnext
    · exact ih hrest hnext
    · exact hnext

theorem transact_keeps {P : σ → Prop} {statements : List TableStatement}
    (hkeeps : ∀ statement ∈ .start :: .rollback :: (statements ++ [.commit]),
      ∀ state, P state → P (s.execute statement state).2)
    {state : σ} (hstate : P state) : P (s.transact statements state).2 := by
  obtain ⟨hstart, hrollback, hall⟩ :=
    (List.forall_mem_cons.mp hkeeps).imp_right List.forall_mem_cons.mp
  have hstarted := hstart state hstate
  unfold PostgresServer.transact
  split <;> rename_i heq <;> rw [heq] at hstarted
  · exact hstarted
  · have hdone := executeAll_keeps hall hstarted
    split <;> rename_i heq <;> rw [heq] at hdone
    · exact hdone
    · exact hrollback _ hdone

/-! ### Statements that insert nothing -/

theorem Inserts.execute (h : s.Inserts inserted) (statement : TableStatement)
    (hnone : statement.newRows = []) (state : σ) :
    inserted (s.execute statement state).2 = inserted state := by
  cases hanswer : s.execute statement state with
  | mk outcome state' =>
    cases outcome with
    | error e => exact h.refuses hanswer
    | ok result => rw [h.takes hanswer, hnone, List.append_nil]

theorem newRows_preparation (table definitions : String) (mode : WriteMode) :
    ∀ statement ∈ .start :: .rollback :: (preparation table definitions mode ++ [.commit]),
      statement.newRows = [] := by
  cases mode <;> simp [preparation, TableStatement.newRows]

theorem Inserts.transact (h : s.Inserts inserted) {statements : List TableStatement}
    (hnone : ∀ statement ∈ .start :: .rollback :: (statements ++ [.commit]),
      statement.newRows = []) (state : σ) :
    inserted (s.transact statements state).2 = inserted state :=
  transact_keeps (P := fun after => inserted after = inserted state)
    (fun statement hmem after hafter =>
      (h.execute statement (hnone statement hmem) after).trans hafter) rfl

theorem Inserts.releaseLock (h : s.Inserts inserted) (table : String) (held : Bool) (state : σ) :
    inserted (s.releaseLock table held state) = inserted state := by
  unfold PostgresServer.releaseLock
  split
  · exact h.execute (.unlock table) rfl state
  · rfl

theorem Inserts.finish (h : s.Inserts inserted) (writer : PostgresWriter) (state : σ) :
    inserted (s.finish writer state).2 = inserted state := by
  unfold PostgresServer.finish
  split
  · exact h.releaseLock _ _ state
  · rfl

theorem Inserts.query (h : s.Inserts inserted) (fragment : Sql.Fragment) (state : σ) :
    inserted (s.query fragment state).2 = inserted state := by
  have hselect := h.execute (.select fragment) rfl state
  unfold PostgresServer.query
  split <;> rename_i heq <;> rw [heq] at hselect <;> exact hselect

theorem Inserts.takeLock (h : s.Inserts inserted) (table : String) (state : σ) :
    inserted (s.takeLock table state).2 = inserted state := by
  have hlock := h.execute (.tryLock table) rfl state
  unfold PostgresServer.takeLock
  split <;> rename_i heq <;> rw [heq] at hlock <;> exact hlock

theorem Inserts.prepare (h : s.Inserts inserted) (target : TableSpec) (table definitions : String)
    (names : List String) (held : Bool) (state : σ) :
    let answer := s.prepare target table definitions names held state
    inserted answer.2 = inserted state ∧
      Outcome.Ends (fun writer => writer.table = table ∧ writer.columns = target.columns)
        (fun _ => True) answer.1 := by
  have hprepared := h.transact (newRows_preparation table definitions target.mode) state
  unfold PostgresServer.prepare
  split <;> rename_i heq <;> rw [heq] at hprepared
  · exact ⟨hprepared, rfl, rfl⟩
  · exact ⟨(h.releaseLock table held _).trans hprepared, trivial⟩

/-- A writer is of the table and the columns that it is opened for, and opening inserts nothing. -/
theorem Inserts.openWriter (h : s.Inserts inserted) (singleWriter : Bool) (target : TableSpec)
    (state : σ) :
    let answer := s.openWriter singleWriter target state
    inserted answer.2 = inserted state ∧
      Outcome.Ends
        (fun writer => Sql.quotePath .postgres target.table = .ok writer.table ∧
          writer.columns = target.columns)
        (fun _ => True) answer.1 := by
  unfold PostgresServer.openWriter
  dsimp only
  split
  · exact ⟨rfl, trivial⟩
  · rename_i table definitions names hparts
    have htable : Sql.quotePath .postgres target.table = .ok table := by
      obtain ⟨table', htable, hparts⟩ := Outcome.bind_eq_ok.mp hparts
      obtain ⟨_, _, hparts⟩ := Outcome.bind_eq_ok.mp hparts
      obtain ⟨_, _, hparts⟩ := Outcome.bind_eq_ok.mp hparts
      obtain ⟨rfl, -⟩ := Prod.mk.inj (Outcome.pure_eq_ok.mp hparts)
      exact htable
    have hprepare (held : Bool) (state : σ) :=
      h.prepare target table definitions names held state
    split
    · have hlock := h.takeLock table state
      split <;> rename_i heq <;> rw [heq] at hlock
      · exact ⟨hlock, trivial⟩
      · exact ⟨hlock, trivial⟩
      · rename_i state₁
        obtain ⟨hstate, hwriter⟩ := hprepare true state₁
        refine ⟨hstate.trans hlock, hwriter.mono ?_⟩
        rintro writer ⟨rfl, hcolumns⟩
        exact ⟨htable, hcolumns⟩
    · obtain ⟨hstate, hwriter⟩ := hprepare false state
      refine ⟨hstate, hwriter.mono ?_⟩
      rintro writer ⟨rfl, hcolumns⟩
      exact ⟨htable, hcolumns⟩

end PostgresServer

end TablePipeline
