import TablePipeline.Proofs.Warehouse.ServerBatches

/-!
# Locks of sessions

The lock of a table belongs to the session that took it. A writer gives its lock back when it is
done, and closes its session if it is dropped before; a failure to give the lock back is passed
over. Then the session keeps the lock, and whoever uses it next does so unawares.
-/

set_option autoImplicit false

namespace TablePipeline

inductive SessionEvent
  | answered (statement : TableStatement) (answer : Except ClientError StatementResult)
  | closed
  deriving DecidableEq

namespace PostgresServer

/-- A server whose answer to a statement may be any that depends on all that happened before. Its
state is the log of the session. -/
def answering
    (answers : List SessionEvent → TableStatement → Except ClientError StatementResult) :
    PostgresServer (List SessionEvent) where
  connect log := (.ok (), log)
  execute statement log :=
    (answers log statement, log ++ [.answered statement (answers log statement)])
  leave log := log ++ [.closed]

end PostgresServer

/-! ### The life of a writer -/

inductive WriterCall
  | batch (rows : List Row)
  | finish

namespace PostgresServer

variable {σ : Type}

def call (s : PostgresServer σ) (writer : PostgresWriter) (state : σ) :
    WriterCall → PostgresWriter × σ
  | .batch rows => (writer, (s.writeBatch writer rows state).2)
  | .finish => s.finish writer state

def callAll (s : PostgresServer σ) :
    List WriterCall → PostgresWriter → σ → PostgresWriter × σ
  | [], writer, state => (writer, state)
  | c :: cs, writer, state =>
    let (writer, state) := s.call writer state c
    s.callAll cs writer state

/-- What a session goes through from the opening of a writer to its drop. -/
def serve (s : PostgresServer σ) (singleWriter : Bool) (target : TableSpec)
    (calls : List WriterCall) (state : σ) : σ :=
  match s.openWriter singleWriter target state with
  | (.error _, state) => state
  | (.ok writer, state) =>
    let (writer, state) := s.callAll calls writer state
    s.dropWriter writer state

end PostgresServer

/-! ### Events and locks -/

def TableStatement.IsLock : TableStatement → Prop
  | tryLock _ | unlock _ => True
  | _ => False

namespace SessionEvent

def Takes (table : String) (e : SessionEvent) : Prop :=
  ∃ result, e = answered (.tryLock table) (.ok result) ∧ lockAnswer result.rows = .ok true

def GivesBack (table : String) (e : SessionEvent) : Prop :=
  ∃ result, e = answered (.unlock table) (.ok result)

def Plain : SessionEvent → Prop
  | answered statement _ => ¬ statement.IsLock
  | closed => False

/-- No lock is taken, and none is given back. -/
structure Idle (e : SessionEvent) : Prop where
  stays : e ≠ closed
  takesNone : ∀ table, ¬ e.Takes table
  asksNone : ∀ table answer, e ≠ answered (.unlock table) answer

variable {e : SessionEvent}

theorem Plain.idle (h : e.Plain) : e.Idle where
  stays := by
    rintro rfl
    exact h
  takesNone := by
    rintro table ⟨result, rfl, _⟩
    exact h trivial
  asksNone := by
    rintro table answer rfl
    exact h trivial

theorem idle_of_refused {table : String} {answer : Except ClientError StatementResult}
    (h : ∀ result, answer = .ok result → lockAnswer result.rows ≠ .ok true) :
    (answered (.tryLock table) answer).Idle where
  stays := fun heq => nomatch heq
  takesNone := by
    rintro table' ⟨result, heq, hlock⟩
    obtain ⟨-, hanswer⟩ := answered.inj heq
    exact h result hanswer hlock
  asksNone := fun _ _ heq => nomatch heq

end SessionEvent

open SessionEvent

/-- A session that is not closed has a lock that it did not give back. -/
def Leaks (log : List SessionEvent) : Prop :=
  .closed ∉ log ∧ ∃ table before e after, log = before ++ e :: after ∧ e.Takes table ∧
    ∀ e' ∈ after, ¬ e'.GivesBack table

/-- The log of a session that is open, by the lock that its writer holds. -/
inductive Course : Option String → List SessionEvent → Prop
  | free {log : List SessionEvent} (h : ∀ e ∈ log, e.Idle) : Course none log
  | held {table : String} {e : SessionEvent} {log : List SessionEvent} (he : e.Takes table)
      (h : ∀ e ∈ log, e.Plain) : Course (some table) (e :: log)
  | asked {table : String} {e : SessionEvent} {log rest : List SessionEvent}
      {answer : Except ClientError StatementResult} (he : e.Takes table)
      (h : ∀ e ∈ log, e.Plain) (hrest : ∀ e ∈ rest, e.Plain) :
      Course none (e :: log ++ .answered (.unlock table) answer :: rest)

namespace Course

variable {lock : Option String} {table : String} {log : List SessionEvent} {e : SessionEvent}

theorem plain (h : Course lock log) (he : e.Plain) : Course lock (log ++ [e]) := by
  cases h with
  | free h =>
    exact .free (List.forall_mem_append.mpr ⟨h, List.forall_mem_singleton.mpr he.idle⟩)
  | held htakes h =>
    exact .held htakes (List.forall_mem_append.mpr ⟨h, List.forall_mem_singleton.mpr he⟩)
  | asked htakes h hrest =>
    rw [List.append_assoc, List.cons_append]
    exact .asked htakes h
      (List.forall_mem_append.mpr ⟨hrest, List.forall_mem_singleton.mpr he⟩)

theorem giveBack (h : Course (some table) log) (answer : Except ClientError StatementResult) :
    Course none (log ++ [.answered (.unlock table) answer]) := by
  cases h with
  | held htakes h => exact .asked htakes h (List.forall_mem_nil _)

theorem not_leaks_closed : ¬ Leaks (log ++ [.closed]) := fun h =>
  h.1 (List.mem_append_right _ (List.mem_singleton_self _))

theorem asks_none_of_held (h : Course (some table) log) (key : String)
    (answer : Except ClientError StatementResult) : .answered (.unlock key) answer ∉ log := by
  cases h with
  | held htakes h =>
    intro hmem
    rcases List.mem_cons.mp hmem with rfl | hmem
    · obtain ⟨result, heq, _⟩ := htakes
      cases heq
    · exact h _ hmem trivial

/-- The lock that was taken first is the only one, and only one answer may give it back. -/
theorem leaks_asked_iff {rest : List SessionEvent}
    {answer : Except ClientError StatementResult} (he : e.Takes table) (h : ∀ e ∈ log, e.Plain)
    (hrest : ∀ e ∈ rest, e.Plain) :
    Leaks (e :: log ++ .answered (.unlock table) answer :: rest) ↔
      ∃ fault, answer = .error fault := by
  obtain ⟨result, rfl, hlock⟩ := he
  constructor
  · rintro ⟨-, key, before, e, after, heq, ⟨result', rfl, hlock'⟩, hnone⟩
    cases before with
    | nil =>
      obtain ⟨hfirst, rfl⟩ := List.cons.inj heq
      obtain ⟨htable, -⟩ := answered.inj hfirst
      obtain rfl := TableStatement.tryLock.inj htable
      cases answer with
      | error fault => exact ⟨fault, rfl⟩
      | ok given =>
        exact (hnone _ (List.mem_append_right _ List.mem_cons_self) ⟨given, rfl⟩).elim
    | cons first before =>
      obtain ⟨-, hrest'⟩ := List.cons.inj heq
      have hmem : .answered (.tryLock key) (.ok result') ∈
          log ++ .answered (.unlock table) answer :: rest := by
        rw [show log ++ _ = _ from hrest']
        exact List.mem_append_right _ List.mem_cons_self
      rcases List.mem_append.mp hmem with hmem | hmem
      · exact (h _ hmem trivial).elim
      · rcases List.mem_cons.mp hmem with heq | hmem
        · cases heq
        · exact (hrest _ hmem trivial).elim
  · rintro ⟨fault, rfl⟩
    refine ⟨fun hclosed => ?_, table, [], _, _, rfl, ⟨result, rfl, hlock⟩, ?_⟩
    · rcases List.mem_append.mp hclosed with hmem | hmem
      · exact h _ ((List.mem_cons.mp hmem).resolve_left fun heq => nomatch heq)
      · exact hrest _ ((List.mem_cons.mp hmem).resolve_left fun heq => nomatch heq)
    · rintro e hmem ⟨given, rfl⟩
      rcases List.mem_append.mp hmem with hmem | hmem
      · exact h _ hmem trivial
      · exact hrest _ ((List.mem_cons.mp hmem).resolve_left fun heq => nomatch heq) trivial

/-- A session that goes back to its pool leaks a lock just when the statement that gives the lock
back has failed. -/
theorem leaks_iff (h : Course none log) :
    Leaks log ↔ ∃ table fault, .answered (.unlock table) (.error fault) ∈ log := by
  cases h with
  | free h =>
    constructor
    · rintro ⟨-, table, before, e, after, rfl, htakes, -⟩
      exact ((h e (List.mem_append_right _ List.mem_cons_self)).takesNone table htakes).elim
    · rintro ⟨table, fault, hmem⟩
      exact ((h _ hmem).asksNone table _ rfl).elim
  | @asked table e log rest answer htakes h hrest =>
    rw [leaks_asked_iff htakes h hrest]
    constructor
    · rintro ⟨fault, rfl⟩
      exact ⟨table, fault, List.mem_append_right _ List.mem_cons_self⟩
    · rintro ⟨key, fault, hmem⟩
      rcases List.mem_append.mp hmem with hmem | hmem
      · exact (asks_none_of_held (.held htakes h) key _ hmem).elim
      · rcases List.mem_cons.mp hmem with heq | hmem
        · exact ⟨fault, (answered.inj heq).2.symm⟩
        · exact (hrest _ hmem trivial).elim

end Course

/-! ### What a writer does to its session -/

def PostgresWriter.lock? (w : PostgresWriter) : Option String :=
  if w.holdsLock then some w.table else none

/-- A session has a writer, which holds its lock only while it is open. -/
structure PostgresWriter.Uses (w : PostgresWriter) (log : List SessionEvent) : Prop where
  course : Course w.lock? log
  closed : w.isOpen = false → w.holdsLock = false

namespace PostgresServer

variable {answers : List SessionEvent → TableStatement → Except ClientError StatementResult}
  {lock : Option String} {log : List SessionEvent} {writer : PostgresWriter}

theorem execute_course {statement : TableStatement} (hplain : ¬ statement.IsLock)
    (h : Course lock log) : Course lock ((answering answers).execute statement log).2 :=
  h.plain hplain

theorem isLock_preparation (table definitions : String) (mode : WriteMode) :
    ∀ statement ∈ .start :: .rollback :: (preparation table definitions mode ++ [.commit]),
      ¬ statement.IsLock := by
  cases mode <;> simp [preparation, TableStatement.IsLock]

theorem insertPieces_course (pieces : List (List Row)) (written : Nat) (h : Course lock log) :
    Course lock ((answering answers).insertPieces writer pieces written log).2 := by
  induction pieces generalizing written log with
  | nil => exact h
  | cons rows pieces ih =>
    have hnext : Course lock ((answering answers).execute (.insert writer.table writer.names
      (rows.map (BoundCell.ofRow writer.columns))) log).2 := execute_course id h
    rw [insertPieces]
    split <;> rename_i heq <;> rw [heq] at hnext
    · exact ih _ hnext
    · exact hnext

theorem writeBatch_course (rows : List Row) (h : Course lock log) :
    Course lock ((answering answers).writeBatch writer rows log).2 := by
  unfold writeBatch
  split
  · exact h
  split
  · exact h
  split
  · exact h
  split
  · exact h
  · exact insertPieces_course _ _ h

theorem releaseLock_course {table : String} {held : Bool}
    (h : Course (if held then some table else none) log) :
    Course none ((answering answers).releaseLock table held log) := by
  cases held with
  | true => exact Course.giveBack h _
  | false => exact h

theorem finish_uses (h : writer.Uses log) :
    let after := (answering answers).finish writer log
    after.1.Uses after.2 := by
  unfold finish
  split
  · exact ⟨releaseLock_course h.course, fun _ => rfl⟩
  · exact h

theorem call_uses (h : writer.Uses log) (c : WriterCall) :
    let after := (answering answers).call writer log c
    after.1.Uses after.2 := by
  cases c with
  | batch rows => exact ⟨writeBatch_course rows h.course, h.closed⟩
  | finish => exact finish_uses h

theorem callAll_uses (calls : List WriterCall) (h : writer.Uses log) :
    let after := (answering answers).callAll calls writer log
    after.1.Uses after.2 := by
  induction calls generalizing writer log with
  | nil => exact h
  | cons c cs ih => exact ih (call_uses h c)

theorem prepare_uses (target : TableSpec) {table : String} (definitions : String)
    (names : List String) {held : Bool} (h : Course (if held then some table else none) log) :
    let answer := (answering answers).prepare target table definitions names held log
    Outcome.Ends (fun writer => writer.Uses answer.2) (fun _ => Course none answer.2)
      answer.1 := by
  have hprepared : Course _
      ((answering answers).transact (preparation table definitions target.mode) log).2 :=
    transact_keeps (P := Course (if held then some table else none))
      (fun statement hmem _ => execute_course (isLock_preparation _ _ _ statement hmem)) h
  unfold prepare
  split <;> rename_i heq <;> rw [heq] at hprepared
  · exact ⟨hprepared, fun hopen => nomatch hopen⟩
  · exact releaseLock_course hprepared

theorem takeLock_course
    (answers : List SessionEvent → TableStatement → Except ClientError StatementResult)
    (table : String) :
    let answer := (answering answers).takeLock table []
    Outcome.Ends (fun taken => Course (if taken then some table else none) answer.2)
      (fun _ => Course none answer.2) answer.1 := by
  have hidle (h : ∀ result, answers [] (.tryLock table) = .ok result →
      lockAnswer result.rows ≠ .ok true) :
      Course none [.answered (.tryLock table) (answers [] (.tryLock table))] :=
    .free (List.forall_mem_singleton.mpr (idle_of_refused h))
  show Outcome.Ends _ _ (takeLock (answering answers) table []).1
  cases hanswer : answers [] (.tryLock table) with
  | error e =>
    simp only [takeLock, answering, hanswer]
    rw [hanswer] at hidle
    exact hidle fun _ heq => nomatch heq
  | ok result =>
    simp only [takeLock, answering, hanswer]
    rw [hanswer] at hidle
    cases hlock : lockAnswer result.rows with
    | error e => exact hidle fun _ heq => Except.ok.inj heq ▸ hlock ▸ nofun
    | ok taken =>
      cases taken with
      | true => exact .held ⟨result, rfl, hlock⟩ (List.forall_mem_nil _)
      | false => exact hidle fun _ heq => Except.ok.inj heq ▸ hlock ▸ nofun

theorem openWriter_uses
    (answers : List SessionEvent → TableStatement → Except ClientError StatementResult)
    (singleWriter : Bool) (target : TableSpec) :
    let answer := (answering answers).openWriter singleWriter target []
    Outcome.Ends (fun writer => writer.Uses answer.2) (fun _ => Course none answer.2)
      answer.1 := by
  have hstart : Course none [] := .free (List.forall_mem_nil _)
  unfold openWriter
  dsimp only
  split
  · exact hstart
  · rename_i table definitions names _
    split
    · have hlock := takeLock_course answers table
      split <;> rename_i heq <;> rw [heq] at hlock
      · exact hlock
      · exact hlock
      · exact prepare_uses target definitions names hlock
    · exact prepare_uses target definitions names hstart

/-- A writer that still holds its lock takes the session along. -/
theorem dropWriter_leaks_iff (h : writer.Uses log) :
    Leaks ((answering answers).dropWriter writer log) ↔ ∃ table fault,
      .answered (.unlock table) (.error fault) ∈ (answering answers).dropWriter writer log := by
  obtain ⟨hcourse, hclosed⟩ := h
  cases hheld : writer.holdsLock with
  | true =>
    have hopen : writer.isOpen = true := by
      by_contra hopen
      rw [hclosed (eq_false_of_ne_true hopen)] at hheld
      cases hheld
    rw [PostgresWriter.lock?, hheld, if_pos rfl] at hcourse
    rw [dropWriter, hopen, hheld, Bool.and_true, if_pos rfl]
    refine iff_of_false Course.not_leaks_closed ?_
    rintro ⟨table, fault, hmem⟩
    rcases List.mem_append.mp hmem with hmem | hmem
    · exact hcourse.asks_none_of_held table _ hmem
    · cases List.mem_singleton.mp hmem
  | false =>
    rw [PostgresWriter.lock?, hheld, if_neg Bool.false_ne_true] at hcourse
    rw [dropWriter, hheld, Bool.and_false, if_neg Bool.false_ne_true]
    exact hcourse.leaks_iff

/-- A session leaks the lock of a table just when the statement that gives the lock back has failed,
whatever its writer is asked to do and whatever the server answers. -/
theorem serve_leaks_iff
    (answers : List SessionEvent → TableStatement → Except ClientError StatementResult)
    (singleWriter : Bool) (target : TableSpec) (calls : List WriterCall) :
    Leaks ((answering answers).serve singleWriter target calls []) ↔
      ∃ table fault, .answered (.unlock table) (.error fault) ∈
        (answering answers).serve singleWriter target calls [] := by
  have hopened : Outcome.Ends _ _ _ := openWriter_uses answers singleWriter target
  unfold serve
  split <;> rename_i heq <;> rw [heq] at hopened
  · exact hopened.leaks_iff
  · exact dropWriter_leaks_iff (callAll_uses calls hopened)

/-- A server that takes every statement, but for the one that gives a lock back. -/
def keepsLock (_ : List SessionEvent) : TableStatement → Except ClientError StatementResult
  | .tryLock _ => .ok ⟨1, ⟨[⟨"pg_try_advisory_lock", .boolean⟩], [[.boolean true]]⟩⟩
  | .unlock _ => .error (.database "canceling statement due to user request" (some "57014") none)
  | .insert _ _ rows => .ok ⟨rows.length, ⟨[], []⟩⟩
  | _ => .ok ⟨0, ⟨[], []⟩⟩

/-- A writer that is finished gives its session back with the lock, if the server does not take the
lock back. -/
theorem serve_keepsLock_leaks :
    Leaks ((answering keepsLock).serve true ⟨"t", [⟨"id", .integer⟩], .append⟩
      [.batch [[.integer 1]], .finish] []) := by
  have hlog : (answering keepsLock).serve true ⟨"t", [⟨"id", .integer⟩], .append⟩
      [.batch [[.integer 1]], .finish] [] =
        [.tryLock "\"t\"", .start, .create "\"t\"" "\"id\" BIGINT" true, .commit,
          .insert "\"t\"" ["\"id\""] [[⟨.integer, .integer 1⟩]], .unlock "\"t\""].map
            fun statement => .answered statement (keepsLock [] statement) := by
    decide +kernel
  rw [hlog]
  refine ⟨by decide, "\"t\"", [], _, _, rfl, ⟨_, rfl, rfl⟩, ?_⟩
  rintro e he ⟨result, rfl⟩
  obtain ⟨statement, _, heq⟩ := List.mem_map.mp he
  obtain ⟨rfl, hanswer⟩ := answered.inj heq
  cases hanswer

end PostgresServer

end TablePipeline
