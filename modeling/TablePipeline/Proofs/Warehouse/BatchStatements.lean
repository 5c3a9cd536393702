import Mathlib.Algebra.GroupWithZero.Nat
import TablePipeline.Proofs.Warehouse.SessionLocks

/-!
# The statements of a batch

A batch goes to the server in pieces, each as one insertion. The pieces are the rows of the batch in
their order; an insertion numbers its placeholders on through its rows and binds the cells in the
same order, each under the type of its column, and no insertion has more of them than a server
takes.
-/

set_option autoImplicit false

namespace TablePipeline

/-! ### One insertion -/

namespace BoundCell

variable {columns : List TableColumn} {row : Row} {c : TableColumn} {v : Scalar}

def under (c : TableColumn) (v : Scalar) : BoundCell := ⟨c.type, v⟩

theorem ofCell_of_takes (h : c.Takes v) : ofCell c v = under c v := by
  unfold ofCell under
  rcases h with hnull | htype
  · rw [hnull]
    rfl
  · rw [htype]
    rfl

theorem ofRow_of_takes (h : List.Forall₂ TableColumn.Takes columns row) :
    ofRow columns row = List.zipWith under columns row := by
  induction h with
  | nil => rfl
  | cons hcell _ ih =>
    rw [ofRow, List.zipWith_cons_cons, ofCell_of_takes hcell]
    exact congrArg _ ih

end BoundCell

namespace TableStatement

/-- The placeholders of a row, counted from `n`. -/
def rowGroup (n width : Nat) : String :=
  "(" ++ String.intercalate ", " ((List.range' n width).map fun i => "$" ++ Digits.text i) ++ ")"

theorem placeholders_replicate (n width count : Nat) :
    placeholders n (List.replicate count width) =
      (List.range count).map fun k => rowGroup (n + k * width) width := by
  induction count generalizing n with
  | zero => rfl
  | succ count ih =>
    rw [List.replicate_succ, placeholders, ih, List.range_succ_eq_map, List.map_cons, List.map_map,
      Nat.zero_mul, Nat.add_zero]
    refine congrArg _ (List.map_congr_left fun k _ => ?_)
    rw [Function.comp_apply, Nat.succ_mul, Nat.add_comm (k * width), Nat.add_assoc]

end TableStatement

namespace PostgresWriter

/-- A statement inserts some rows: its text has a group of placeholders for each row, numbered on
through the rows, and its parameters are the cells of the rows, each under the type of its
column. -/
structure Carries (w : PostgresWriter) (rows : List Row) (statement : TableStatement) : Prop where
  text : statement.text =
    "INSERT INTO " ++ w.table ++ " (" ++ String.intercalate ", " w.names ++ ") VALUES " ++
      String.intercalate ", " ((List.range rows.length).map fun k =>
        TableStatement.rowGroup (1 + k * w.columns.length) w.columns.length)
  params : statement.params = rows.flatMap (List.zipWith BoundCell.under w.columns)
  count : statement.params.length = rows.length * w.columns.length

def insertion (w : PostgresWriter) (rows : List Row) : TableStatement :=
  .insert w.table w.names (rows.map (BoundCell.ofRow w.columns))

theorem widths_insertion {columns : List TableColumn} {rows : List Row}
    (h : ∀ row ∈ rows, List.Forall₂ TableColumn.Takes columns row) :
    (rows.map (BoundCell.ofRow columns)).map List.length =
      List.replicate rows.length columns.length := by
  rw [List.eq_replicate_iff, List.length_map, List.length_map]
  refine ⟨rfl, fun width hwidth => ?_⟩
  obtain ⟨cells, hcells, rfl⟩ := List.mem_map.mp hwidth
  obtain ⟨row, hrow, rfl⟩ := List.mem_map.mp hcells
  rw [BoundCell.ofRow, List.length_zipWith, ← (h row hrow).length_eq, Nat.min_self]

theorem insertion_carries (w : PostgresWriter) {rows : List Row}
    (h : ∀ row ∈ rows, List.Forall₂ TableColumn.Takes w.columns row) :
    w.Carries rows (w.insertion rows) where
  text := by
    rw [insertion, TableStatement.text_insert, widths_insertion h,
      TableStatement.placeholders_replicate]
  params := by
    rw [insertion, TableStatement.params, ← List.flatMap_def]
    exact List.flatMap_congr fun row hrow => BoundCell.ofRow_of_takes (h row hrow)
  count := by
    rw [insertion, TableStatement.params, List.length_flatten, widths_insertion h,
      List.sum_replicate_nat]

/-- As many rows as one statement is given need no more parameters than a server takes. -/
theorem Carries.params_le {w : PostgresWriter} {rows : List Row} {statement : TableStatement}
    (h : w.Carries rows statement) (hrows : rows.length ≤ rowsPerStatement w.columns.length)
    (hcolumns : w.columns.length ≤ 65535) : statement.params.length ≤ 65535 := by
  have hroom : rowsPerStatement w.columns.length * w.columns.length ≤ 65535 := by
    rcases Nat.le_total 1 (maxParameters / w.columns.length) with hmany | hone
    · rw [rowsPerStatement, Nat.max_eq_left hmany]
      exact Nat.le_trans (Nat.div_mul_le_self _ _) (by decide)
    · rw [rowsPerStatement, Nat.max_eq_right hone, Nat.one_mul]
      exact hcolumns
  rw [h.count]
  exact Nat.le_trans (Nat.mul_le_mul_right _ hrows) hroom

end PostgresWriter

/-! ### All insertions of a batch -/

def SessionEvent.Accepted (e : SessionEvent) : Prop :=
  ∃ statement result, e = answered statement (.ok result)

/-- A piece of a batch, the statement for it and what the server gave. -/
structure SentPiece where
  rows : List Row
  statement : TableStatement
  result : StatementResult

def SentPiece.event (p : SentPiece) : SessionEvent := .answered p.statement (.ok p.result)

namespace PostgresServer

variable {answers : List SessionEvent → TableStatement → Except ClientError StatementResult}
  {log : List SessionEvent} {writer : PostgresWriter} {rows piece : List Row}
  {pieces : List (List Row)}

theorem insertPieces_of_error {e : ClientError}
    (h : answers log (writer.insertion piece) = .error e) (written : Nat) :
    ((answering answers).insertPieces writer (piece :: pieces) written log).2 =
      log ++ [.answered (writer.insertion piece) (.error e)] := by
  unfold PostgresWriter.insertion at h ⊢
  simp only [insertPieces, answering, h]

theorem insertPieces_of_ok {result : StatementResult}
    (h : answers log (writer.insertion piece) = .ok result) (written : Nat) :
    (answering answers).insertPieces writer (piece :: pieces) written log =
      (answering answers).insertPieces writer pieces (written + result.affected)
        (log ++ [.answered (writer.insertion piece) (.ok result)]) := by
  unfold PostgresWriter.insertion at h ⊢
  simp only [insertPieces, answering, h]

/-- Where no piece is refused, each is sent once and the counts of the server are added up. -/
theorem insertPieces_sent (written : Nat)
    (h : ∀ e ∈ ((answering answers).insertPieces writer pieces written log).2.drop log.length,
      e.Accepted) :
    ∃ sent : List SentPiece, sent.map (·.rows) = pieces ∧
      (∀ p ∈ sent, p.statement = writer.insertion p.rows) ∧
      (answering answers).insertPieces writer pieces written log =
        (.ok (written + (sent.map (·.result.affected)).sum), log ++ sent.map (·.event)) := by
  induction pieces generalizing written log with
  | nil =>
    refine ⟨[], rfl, List.forall_mem_nil _, ?_⟩
    rw [List.map_nil, List.map_nil, List.append_nil]
    rfl
  | cons piece pieces ih =>
    cases hanswer : answers log (writer.insertion piece) with
    | error e =>
      rw [insertPieces_of_error hanswer, List.drop_left] at h
      obtain ⟨_, _, heq⟩ := h _ (List.mem_singleton_self _)
      cases heq
    | ok result =>
      rw [insertPieces_of_ok hanswer] at h ⊢
      obtain ⟨sent, hrows, hstatements, hsent⟩ := ih (written + result.affected) fun e he => by
        rw [List.length_append, ← List.drop_drop] at he
        exact h e (List.mem_of_mem_drop he)
      refine ⟨⟨piece, writer.insertion piece, result⟩ :: sent, ?_, ?_, ?_⟩
      · rw [List.map_cons, hrows]
      · exact List.forall_mem_cons.mpr ⟨rfl, hstatements⟩
      · rw [hsent, List.map_cons, List.map_cons, List.sum_cons, Nat.add_assoc, List.append_assoc]
        rfl

theorem insertPieces_log
    (answers : List SessionEvent → TableStatement → Except ClientError StatementResult)
    (writer : PostgresWriter) (pieces : List (List Row)) (log : List SessionEvent)
    (written : Nat) :
    ∃ events, ((answering answers).insertPieces writer pieces written log).2 = log ++ events ∧
      ∀ e ∈ events, ∃ log' statement, e = .answered statement (answers log' statement) := by
  induction pieces generalizing log written with
  | nil => exact ⟨[], (List.append_nil log).symm, List.forall_mem_nil _⟩
  | cons piece pieces ih =>
    cases hanswer : answers log (writer.insertion piece) with
    | error e =>
      refine ⟨_, insertPieces_of_error hanswer written, List.forall_mem_singleton.mpr ?_⟩
      exact ⟨log, writer.insertion piece, by rw [hanswer]⟩
    | ok result =>
      rw [insertPieces_of_ok hanswer]
      obtain ⟨events, hlog, hevents⟩ := ih
        (log ++ [.answered (writer.insertion piece) (.ok result)]) (written + result.affected)
      refine ⟨.answered (writer.insertion piece) (.ok result) :: events, ?_,
        List.forall_mem_cons.mpr ⟨?_, hevents⟩⟩
      · rw [hlog, List.append_assoc]
        rfl
      · exact ⟨log, writer.insertion piece, by rw [hanswer]⟩

theorem writeBatch_eq_insertPieces (hcolumns : writer.columns ≠ []) (hopen : writer.isOpen = true)
    (hrows : rows ≠ []) (hcheck : checkRows writer.columns rows = .ok ()) :
    (answering answers).writeBatch writer rows log =
      (answering answers).insertPieces writer
        (batchesOf (rowsPerStatement writer.columns.length - 1) rows) 0 log := by
  unfold writeBatch
  rw [if_neg (mt List.isEmpty_iff.mp hrows), if_neg (mt List.isEmpty_iff.mp hcolumns), hcheck,
    hopen]
  rfl

theorem accepted_of_takes (log : List SessionEvent) (hcolumns : writer.columns ≠ [])
    (hopen : writer.isOpen = true) (hrows : rows ≠ [])
    (hcheck : checkRows writer.columns rows = .ok ())
    (h : ∀ log statement, ∃ result, answers log statement = .ok result) :
    ∀ e ∈ ((answering answers).writeBatch writer rows log).2.drop log.length, e.Accepted := by
  rw [writeBatch_eq_insertPieces hcolumns hopen hrows hcheck]
  obtain ⟨events, hlog, hevents⟩ := insertPieces_log answers writer
    (batchesOf (rowsPerStatement writer.columns.length - 1) rows) log 0
  rw [hlog, List.drop_left]
  intro e he
  obtain ⟨log', statement, rfl⟩ := hevents e he
  obtain ⟨result, hresult⟩ := h log' statement
  exact ⟨statement, result, by rw [hresult]⟩

/-- A batch that passes the check of its table and is not refused in part is sent as a whole: the
statements carry its rows in their order, each at least one and no more than have room, and what the
server says it took is added up. -/
theorem writeBatch_carries
    (answers : List SessionEvent → TableStatement → Except ClientError StatementResult)
    (log : List SessionEvent) (writer : PostgresWriter) (rows : List Row)
    (hcolumns : writer.columns ≠ []) (hopen : writer.isOpen = true) (hrows : rows ≠ [])
    (hcheck : checkRows writer.columns rows = .ok ())
    (haccepted : ∀ e ∈ ((answering answers).writeBatch writer rows log).2.drop log.length,
      e.Accepted) :
    ∃ sent : List SentPiece,
      (answering answers).writeBatch writer rows log =
        (.ok (sent.map (·.result.affected)).sum, log ++ sent.map (·.event)) ∧
      sent.flatMap (·.rows) = rows ∧
      ∀ p ∈ sent, writer.Carries p.rows p.statement ∧ p.rows ≠ [] ∧
        p.rows.length ≤ max 1 (65000 / writer.columns.length) ∧
        (writer.columns.length ≤ 65535 → p.statement.params.length ≤ 65535) := by
  rw [writeBatch_eq_insertPieces hcolumns hopen hrows hcheck] at haccepted ⊢
  obtain ⟨n, hn⟩ := Nat.exists_eq_succ_of_ne_zero
    (Nat.ne_of_gt (rowsPerStatement_pos writer.columns.length))
  rw [hn, Nat.succ_sub_one] at haccepted ⊢
  obtain ⟨sent, hpieces, hstatements, hsent⟩ := insertPieces_sent 0 haccepted
  have hall : sent.flatMap (·.rows) = rows := by
    rw [List.flatMap_def, hpieces, batchesOf_flatten]
  refine ⟨sent, by rw [hsent, Nat.zero_add], hall, fun p hp => ?_⟩
  have hpiece : p.rows ∈ batchesOf n rows := hpieces ▸ List.mem_map_of_mem hp
  have hroom : p.rows.length ≤ rowsPerStatement writer.columns.length :=
    hn ▸ length_le_of_mem_batchesOf hpiece
  have htakes : ∀ row ∈ p.rows, List.Forall₂ TableColumn.Takes writer.columns row :=
    fun row hrow => checkRows_eq_ok_iff.mp hcheck row (hall ▸ List.mem_flatMap_of_mem hp hrow)
  have hcarries := hstatements p hp ▸ writer.insertion_carries htakes
  refine ⟨hcarries, ne_nil_of_mem_batchesOf hpiece, ?_, hcarries.params_le hroom⟩
  rw [Nat.max_comm]
  exact hroom

/-- A column of nulls one longer than a statement has room for goes in several statements. -/
theorem writeBatch_carries_longColumn :
    ∃ sent : List SentPiece,
      (answering fun _ statement => .ok ⟨statement.inserted.length, [], []⟩).writeBatch
          ⟨"\"t\"", [⟨"id", .integer⟩], ["\"id\""], false, true⟩ (List.replicate 65001 [.null]) [] =
        (.ok (sent.map (·.result.affected)).sum, sent.map (·.event)) ∧
      sent.flatMap (·.rows) = List.replicate 65001 [.null] ∧ 2 ≤ sent.length := by
  have hrows : List.replicate 65001 [Scalar.null] ≠ [] := List.replicate_succ_ne_nil
  have hcheck : checkRows [⟨"id", .integer⟩] (List.replicate 65001 [.null]) = .ok () :=
    checkRows_eq_ok_iff.mpr fun row hrow =>
      List.eq_of_mem_replicate hrow ▸ .cons (.inl rfl) .nil
  have hcolumns : [(⟨"id", .integer⟩ : TableColumn)] ≠ [] := List.cons_ne_nil _ _
  obtain ⟨sent, hsent, hall, hpieces⟩ := writeBatch_carries
    (fun _ statement => .ok ⟨statement.inserted.length, [], []⟩) []
    ⟨"\"t\"", [⟨"id", .integer⟩], ["\"id\""], false, true⟩ (List.replicate 65001 [.null])
    hcolumns rfl hrows hcheck (accepted_of_takes [] hcolumns rfl hrows hcheck fun _ _ => ⟨_, rfl⟩)
  refine ⟨sent, hsent, hall, ?_⟩
  rcases sent with _ | ⟨p, _ | ⟨q, rest⟩⟩
  · exact absurd hall.symm hrows
  · have hlength := congrArg List.length hall
    rw [List.flatMap_singleton, List.length_replicate] at hlength
    have hroom := (hpieces p List.mem_cons_self).2.2.1
    rw [hlength] at hroom
    exact absurd hroom (by decide)
  · exact Nat.succ_le_succ (Nat.succ_le_succ (Nat.zero_le _))

end PostgresServer

end TablePipeline
