import TablePipeline.Execution.Sources
import TablePipeline.Proofs.Execution.Writing
import TablePipeline.Proofs.Warehouse.ServerBatches

/-!
# The count of a run

A run counts the rows of the batches that were written. In memory these are all rows that it
inserted. On a server there may be more: a batch that takes several statements can fail with some of
its rows inserted, which no count tells. Batches that fit in one statement are counted exactly.
-/

set_option autoImplicit false

namespace TablePipeline

variable {σ τ : Type}

/-- A batch for a table in memory is added and counted as a whole, or nothing is changed. -/
theorem MemoryWarehouse.services_writeBatch (sources : Sources τ) (writer : MemoryWriter)
    (rows : List Row) (x : MemoryWarehouse × τ) :
    let answer := (services sources).writeBatch writer rows x
    Outcome.Ends
      (fun n => n = rows.length ∧ ∃ table, x.1.get? writer.key = some table ∧
        answer.2.2 = (x.1.put writer.key { table with rows := table.rows ++ rows }, x.2))
      (fun _ => answer.2.2 = x) answer.1 := by
  unfold services
  dsimp only
  split
  · rename_i writer' w' hwrite
    obtain ⟨table, htable, rfl⟩ := writeBatch_eq_ok hwrite
    exact ⟨rfl, table, htable, rfl⟩
  · exact rfl

theorem PostgresServer.Inserts.services_keeps {server : PostgresServer σ}
    {inserted : σ → List (String × Row)} (h : server.Inserts inserted) (singleWriter : Bool)
    (sources : Sources τ) :
    (server.services singleWriter sources).Keeps fun x => inserted x.1 := by
  have hs : (server.services singleWriter sources).toSources =
      sources.withSheets server.query := rfl
  exact Services.keeps_of_sheets hs h.query

namespace Engine

variable {server : PostgresServer σ} {inserted : σ → List (String × Row)} {singleWriter : Bool}
  {sources : Sources τ} {e : Engine (σ × τ) PostgresWriter} {job : Job} {store : RunStore}
  {r : StoredRun}

/-- From an open writer on, whole batches are inserted and counted; of the batch that fails the rows
of some statements are left. Along the batches those before were inserted as a whole, and `written`
counts them. -/
theorem finishFrom_inserts (he : e.services = server.services singleWriter sources)
    (h : server.Inserts inserted) (now : Timestamp) (state : σ) (t : τ) (load : Load)
    (writer : PostgresWriter) (batches : List (List Row)) (number written : Nat)
    (hr : store.Holds job.run r) (hp : r.status = .processing) :
    ∃ result store' state' r' k left,
      e.finishFrom job now (.write load writer batches number written) store (state, t) =
        (.returned result, store', state', t) ∧
      store'.Holds job.run r' ∧
      r'.Settles result (written + (batches.take k).flatten.length) ∧
      inserted state' = inserted state ++
        ((batches.take k).flatten ++ left).map (Prod.mk writer.table) ∧
      (k = batches.length ∧ left = [] ∨
        ∃ f batch, result = .error f ∧ batches[k]? = some batch ∧
          PostgresServer.Leaves (rowsPerStatement writer.columns.length) batch left) := by
  have hfinish (writer : PostgresWriter) (state : σ) :
      e.services.finish writer (state, t) = (.ok (), (server.finish writer state).2, t) := by
    rw [he]
    rfl
  induction batches generalizing number written state store r with
  | nil =>
    obtain ⟨store', r', hend, hr', hsettles⟩ :=
      finishFrom_of_no_batches e now _ (hfinish writer state) number written hr hp
    refine ⟨_, store', _, r', 0, [], hend, hr', hsettles, ?_, .inl ⟨rfl, rfl⟩⟩
    exact (h.finish writer state).trans (List.append_nil _).symm
  | cons b bs ih =>
    have hbatch := h.writeBatch writer b state
    have hservice : e.services.writeBatch writer b (state, t) =
        ((server.writeBatch writer b state).1, writer, (server.writeBatch writer b state).2,
          t) := by
      rw [he]
      rfl
    revert hbatch hservice
    generalize server.writeBatch writer b state = answer
    obtain ⟨fault | n, state₁⟩ := answer
    · rintro ⟨left, hleft, hstate⟩ hservice
      obtain ⟨f, store', r', hend, hr', hsettles⟩ :=
        finishFrom_of_batch_error e now _ hservice (hfinish writer state₁) bs number written hr hp
      refine ⟨_, store', _, r', 0, left, hend, hr', hsettles, ?_, .inr ⟨f, b, rfl, rfl, hleft⟩⟩
      exact (h.finish writer state₁).trans hstate
    · rintro ⟨rfl, hstate⟩ hservice
      obtain ⟨store₁, r₁, hnext, hr₁, hp₁⟩ :=
        finishFrom_of_batch_ok e now _ hservice bs number written hr hp
      obtain ⟨result, store', state', r', k, left, hend, hr', hsettles, hinserted, hends⟩ :=
        ih state₁ (number + 1) (written + b.length) hr₁ hp₁
      refine ⟨result, store', state', r', k + 1, left, hnext.trans hend, hr', ?_, ?_, ?_⟩
      · rw [List.take_succ_cons, List.flatten_cons, List.length_append, ← Nat.add_assoc]
        exact hsettles
      · rw [hinserted, hstate, List.take_succ_cons, List.flatten_cons, List.append_assoc,
          List.append_assoc, ← List.map_append]
      · simpa only [List.length_cons, Nat.succ_inj, List.getElem?_cons_succ] using hends

/-- What an execution inserts in the table of a load: the rows that it counts, which are whole
batches, and behind them the rows that are left of a batch that failed. -/
structure Inserted (load : Load) (size : Nat) (counted left : List Row) (result : RunResult) :
    Prop where
  batches : ∃ k, counted = load.rows.take (k * size)
  order : counted ++ left <+: load.rows
  /-- What is left went in by whole statements. -/
  statements : rowsPerStatement load.target.columns.length ∣ left.length
  short : left.length < size
  succeeds : ∀ s, result = .ok s → counted = load.rows ∧ left = []

/-- With batches that fit in one statement all rows that are inserted are counted. -/
theorem Inserted.left_eq_nil {load : Load} {size : Nat} {counted left : List Row}
    {result : RunResult} (h : Inserted load size counted left result)
    (hfits : size ≤ rowsPerStatement load.target.columns.length) : left = [] :=
  PostgresServer.eq_nil_of_dvd_length h.statements (Nat.lt_of_lt_of_le h.short hfits)

theorem inserted_all (load : Load) (n : Nat) (result : RunResult) :
    Inserted load (n + 1) load.rows [] result := by
  refine ⟨⟨load.rows.length, ?batches⟩, ?order, Nat.dvd_zero _, Nat.succ_pos n,
    fun _ _ => ⟨rfl, rfl⟩⟩
  case batches =>
    have hlength : load.rows.length ≤ load.rows.length * (n + 1) :=
      Nat.le_mul_of_pos_right _ (Nat.succ_pos n)
    exact (List.take_of_length_le hlength).symm
  case order => exact ⟨[], by rw [List.append_nil, List.append_nil]⟩

/-- The batches before one that fails, and what is left of it, are the first rows of a load. -/
theorem inserted_of_batches {load : Load} {n k : Nat} {batch left : List Row} {f : Failure}
    (hk : (batchesOf n load.rows)[k]? = some batch)
    (hleft : PostgresServer.Leaves (rowsPerStatement load.target.columns.length) batch left) :
    Inserted load (n + 1) ((batchesOf n load.rows).take k).flatten left (.error f) := by
  refine ⟨⟨k, flatten_take_batchesOf n k load.rows⟩, ?order, hleft.dvd_length, ?short, nofun⟩
  case order =>
    obtain ⟨hlt, rfl⟩ := List.getElem?_eq_some_iff.mp hk
    obtain ⟨rest, hrest⟩ := hleft.isPrefix
    refine ⟨rest ++ ((batchesOf n load.rows).drop (k + 1)).flatten, ?_⟩
    calc ((batchesOf n load.rows).take k).flatten ++ left ++
          (rest ++ ((batchesOf n load.rows).drop (k + 1)).flatten)
      _ = ((batchesOf n load.rows).take k).flatten ++
          ((left ++ rest) ++ ((batchesOf n load.rows).drop (k + 1)).flatten) := by
        simp only [List.append_assoc]
      _ = ((batchesOf n load.rows).take k ++ (batchesOf n load.rows).drop k).flatten := by
        rw [hrest, List.flatten_append, List.drop_eq_getElem_cons hlt, List.flatten_cons]
      _ = load.rows := by rw [List.take_append_drop, batchesOf_flatten]
  case short =>
    have hbatch := length_le_of_mem_batchesOf (List.mem_of_getElem? hk)
    exact Nat.lt_of_lt_of_le hleft.length_lt hbatch

/-- A pending run over a server, with nothing in between: what it inserts, and what it counts.
Neither gathering nor opening inserts a row, so all rows come from batches. -/
theorem execute_inserts (he : e.services = server.services singleWriter sources)
    (h : server.Inserts inserted) (now : Timestamp) (state : σ) (t : τ)
    (hr : store.Holds job.run r) (hp : r.status = .pending) :
    ∃ ending store' state' t' r' counted left,
      e.execute job now store (state, t) = (ending, store', state', t') ∧
      store'.Holds job.run r' ∧ r'.Reflects ending counted.length ∧
      ((counted = [] ∧ left = [] ∧ inserted state' = inserted state ∧
          ((∃ f, ending = .returned (.error f)) ∨
            ending = .crashed ∧ (e.load job (state, t)).1 = .error .crash)) ∨
        ∃ result load table, ending = .returned result ∧ (e.load job (state, t)).1 = .ok load ∧
          Sql.quotePath .postgres load.target.table = .ok table ∧
          inserted state' = inserted state ++ (counted ++ left).map (Prod.mk table) ∧
          Inserted load (max e.config.batchSize 1) counted left result) := by
  have hloaded : inserted (e.load job (state, t)).2.1 = inserted state :=
    load_keeps (he ▸ h.services_keeps singleWriter sources) job (state, t)
  revert hloaded
  cases hload : e.load job (state, t) with
  | mk gathered state₁ =>
    obtain ⟨s₁, t₁⟩ := state₁
    intro hloaded
    cases gathered with
    | error halt =>
      obtain ⟨ending, store', r', hend, hr', hreflects, hhalts⟩ :=
        execute_of_halt e now _ hload hr hp
      exact ⟨ending, store', s₁, t₁, r', [], [], hend, hr', hreflects,
        .inl ⟨rfl, rfl, hloaded, hhalts.imp_right (And.imp_right (congrArg Except.error))⟩⟩
    | ok load =>
      have hopening := h.openWriter singleWriter load.target s₁
      have hservice : e.services.openWriter load.target (s₁, t₁) =
          ((server.openWriter singleWriter load.target s₁).1,
            (server.openWriter singleWriter load.target s₁).2, t₁) := by
        rw [he]
        rfl
      revert hopening hservice
      generalize server.openWriter singleWriter load.target s₁ = answer
      obtain ⟨fault | writer, s₂⟩ := answer
      · rintro ⟨hstate, -⟩ hservice
        obtain ⟨store', r', hend, hr', hsettles⟩ := execute_of_unopened e now _ hload hservice hr hp
        exact ⟨_, store', s₂, t₁, r', [], [], hend, hr', hsettles,
          .inl ⟨rfl, rfl, hstate.trans hloaded, .inl ⟨_, rfl⟩⟩⟩
      · rintro ⟨hstate, htable, hcolumns⟩ hservice
        obtain ⟨store₁, r₁, hnext, hr₁, hp₁⟩ := execute_of_opened e now _ hload hservice hr hp
        obtain ⟨result, store', state', r', k, left, hend, hr', hsettles, hinserted, hends⟩ :=
          finishFrom_inserts he h now s₂ t₁ load writer
            (batchesOf (e.config.batchSize - 1) load.rows) 1 0 hr₁ hp₁
        rw [Nat.zero_add] at hsettles
        generalize hn : e.config.batchSize - 1 = n at *
        have hsize : max e.config.batchSize 1 = n + 1 := by omega
        refine ⟨_, store', state', t₁, r', _, left, hnext.trans hend, hr', hsettles,
          .inr ⟨result, load, writer.table, rfl, rfl, htable, ?_, ?_⟩⟩
        · rw [hinserted, hstate, hloaded]
        · rw [hsize]
          rw [hcolumns] at hends
          rcases hends with ⟨rfl, rfl⟩ | ⟨f, batch, rfl, hk, hleft⟩
          · rw [List.take_length, batchesOf_flatten]
            exact inserted_all load n result
          · exact inserted_of_batches hk hleft

def onServer (server : PostgresServer σ) (singleWriter : Bool) (sources : Sources τ) (vault : Vault)
    (config : EngineConfig) : Engine (σ × τ) PostgresWriter :=
  ⟨server.services singleWriter sources, vault, config⟩

/-- A batch in memory is inserted and counted as a whole or not at all, and so a run counts what it
inserts. On a server this holds of the batches that fit in one statement; of a larger one that fails
the rows of its first statements may be left, and these are beyond the count. -/
theorem execute_counts (server : PostgresServer σ) (inserted : σ → List (String × Row))
    (h : server.Inserts inserted) (singleWriter : Bool) (sources : Sources τ) (vault : Vault)
    (config : EngineConfig) (job : Job) (now : Timestamp) (store : RunStore) (r : StoredRun)
    (hopen : store.isOpen = true) (hr : store.find? job.run = some r)
    (hp : r.status = .pending) :
    (∀ (writer : MemoryWriter) (rows : List Row) (x : MemoryWarehouse × τ),
      let answer := (MemoryWarehouse.services sources).writeBatch writer rows x
      Outcome.Ends
        (fun n => n = rows.length ∧ ∃ table, x.1.get? writer.key = some table ∧
          answer.2.2 = (x.1.put writer.key { table with rows := table.rows ++ rows }, x.2))
        (fun _ => answer.2.2 = x) answer.1) ∧
    (∀ (writer : PostgresWriter) (rows : List Row) (state : σ),
      let answer := server.writeBatch writer rows state
      let perStatement := rowsPerStatement writer.columns.length
      Outcome.Ends
        (fun n => n = rows.length ∧
          inserted answer.2 = inserted state ++ rows.map (Prod.mk writer.table))
        (fun _ => ∃ left, PostgresServer.Leaves perStatement rows left ∧
          (rows.length ≤ perStatement → left = []) ∧
          inserted answer.2 = inserted state ++ left.map (Prod.mk writer.table)) answer.1) ∧
    (∀ (w : MemoryWarehouse) (t : τ), ∃ ending store' w' t' r' counted,
      (inMemory sources vault config).execute job now store (w, t) = (ending, store', w', t') ∧
      store'.find? job.run = some r' ∧ r'.Reflects ending counted.length ∧
      (counted = [] ∧ w' = w ∨
        ∃ load writer, (inMemory sources vault config).Opens job w t load writer ∧
          w' = w.put writer.key ⟨writer.columns, w.baseRows load.target ++ counted⟩)) ∧
    ∀ (state : σ) (t : τ), ∃ ending store' state' t' r' counted left,
      (onServer server singleWriter sources vault config).execute job now store (state, t) =
        (ending, store', state', t') ∧
      store'.find? job.run = some r' ∧ r'.Reflects ending counted.length ∧
      ((counted = [] ∧ left = [] ∧ inserted state' = inserted state ∧
          ((∃ f, ending = .returned (.error f)) ∨ ending = .crashed ∧
            ((onServer server singleWriter sources vault config).load job (state, t)).1 =
              .error .crash)) ∨
        ∃ result load table, ending = .returned result ∧
          ((onServer server singleWriter sources vault config).load job (state, t)).1 = .ok load ∧
          Sql.quotePath .postgres load.target.table = .ok table ∧
          inserted state' = inserted state ++ (counted ++ left).map (Prod.mk table) ∧
          Inserted load (max config.batchSize 1) counted left result ∧
          (max config.batchSize 1 ≤ rowsPerStatement load.target.columns.length → left = [])) := by
  have hheld : store.Holds job.run r := ⟨hopen, hr⟩
  refine ⟨MemoryWarehouse.services_writeBatch sources, ?serverBatches, ?memory, ?server⟩
  case serverBatches =>
    intro writer rows state
    refine (h.writeBatch writer rows state).mono_error ?_
    rintro fault ⟨left, hleft, hstate⟩
    exact ⟨left, hleft, hleft.eq_nil, hstate⟩
  case memory =>
    intro w t
    by_cases hopens : ∃ load writer, (inMemory sources vault config).Opens job w t load writer
    · obtain ⟨load, writer, hopens⟩ := hopens
      obtain ⟨result, store', r', counted, _, hend, hr', hsettles, _⟩ :=
        execute_of_opens rfl now hopens hheld hp
      exact ⟨_, store', _, _, r', counted, hend, hr'.2, hsettles,
        .inr ⟨load, writer, hopens, rfl⟩⟩
    · obtain ⟨ending, store', r', t', hend, hr', hreflects, _⟩ :=
        execute_of_not_opens rfl now (fun load writer h => hopens ⟨load, writer, h⟩) hheld hp
      exact ⟨ending, store', w, t', r', [], hend, hr'.2, hreflects, .inl ⟨rfl, rfl⟩⟩
  case server =>
    intro state t
    obtain ⟨ending, store', state', t', r', counted, left, hend, hr', hreflects, hends⟩ :=
      execute_inserts (e := onServer server singleWriter sources vault config) rfl h now state t
        hheld hp
    refine ⟨ending, store', state', t', r', counted, left, hend, hr'.2, hreflects, ?_⟩
    refine hends.imp_right ?_
    rintro ⟨result, load, table, hreturned, hload, htable, hstate, hinserted⟩
    exact ⟨result, load, table, hreturned, hload, htable, hstate, hinserted,
      hinserted.left_eq_nil⟩

/-- The three rows of a sheet are to be inserted in batches of two. -/
def sheetOnServer : Engine ((Nat × List (String × Row)) × Unit) PostgresWriter :=
  onServer .limited false .offline ⟨none⟩ ⟨2, 100, 8000⟩

def sheetNow : Timestamp := .midnight ⟨2023, 11, 17, by decide, by decide, by decide⟩

def sheetRuns : RunStore := ⟨[⟨"run", none, none, .pending, 0, none, none, "", ""⟩], true⟩

def sheetInserted : List (String × Row) :=
  [("\"result\"", [.integer 1]), ("\"result\"", [.integer 2])]

theorem load_sheetOnServer :
    ∃ load, sheetOnServer.load sheetJob ((1, []), ()) = (.ok load, (1, []), ()) ∧
      load.target = ⟨"result", [⟨"id", .integer⟩], .append⟩ ∧
      load.rows = [[.integer 1], [.integer 2], [.integer 3]] := by
  have hgathered : (sheetOnServer.load sheetJob ((1, []), ())).1.toOption.map
      (fun load => (load.target, load.rows)) =
      some (⟨"result", [⟨"id", .integer⟩], .append⟩,
        [[.integer 1], [.integer 2], [.integer 3]]) := by
    decide +kernel
  have hstate : (sheetOnServer.load sheetJob ((1, []), ())).2 = ((1, []), ()) := by
    decide +kernel
  obtain ⟨load, hload, hparts⟩ := Option.map_eq_some_iff.mp hgathered
  obtain ⟨htarget, hrows⟩ := Prod.mk.inj hparts
  exact ⟨load, Prod.ext (Outcome.toOption_eq_some.mp hload) hstate, htarget, hrows⟩

/-- The server takes one insertion, so the second batch is refused and nothing of it stays. -/
theorem execute_sheetOnServer :
    ∃ f store', sheetOnServer.execute sheetJob sheetNow sheetRuns ((1, []), ()) =
      (.returned (.error f), store', (0, sheetInserted), ()) := by
  obtain ⟨load, hload, htarget, hrows⟩ := load_sheetOnServer
  generalize hwriter : (⟨"\"result\"", [⟨"id", .integer⟩], ["\"id\""], false, true⟩ :
    PostgresWriter) = writer
  have hopened : sheetOnServer.services.openWriter load.target ((1, []), ()) =
      (.ok writer, (1, []), ()) := by
    rw [htarget, ← hwriter]
    decide +kernel
  have hbatches : batchesOf (sheetOnServer.config.batchSize - 1) load.rows =
      [[[.integer 1], [.integer 2]], [[.integer 3]]] := by
    rw [hrows]
    decide +kernel
  have hfirst : sheetOnServer.services.writeBatch writer [[.integer 1], [.integer 2]]
      ((1, []), ()) = (.ok 2, writer, (0, sheetInserted), ()) := by
    have hcount : (sheetOnServer.services.writeBatch writer [[.integer 1], [.integer 2]]
        ((1, []), ())).1.toOption = some 2 := by
      rw [← hwriter]
      decide +kernel
    refine Prod.ext (Outcome.toOption_eq_some.mp hcount) ?_
    rw [← hwriter]
    decide +kernel
  have hsecond : ∃ fault, sheetOnServer.services.writeBatch writer [[.integer 3]]
      ((0, sheetInserted), ()) = (.error fault, writer, (0, sheetInserted), ()) := by
    have hanswer : (sheetOnServer.services.writeBatch writer [[.integer 3]]
          ((0, sheetInserted), ())).1.toOption = none ∧
        (sheetOnServer.services.writeBatch writer [[.integer 3]] ((0, sheetInserted), ())).2 =
          (writer, (0, sheetInserted), ()) := by
      rw [← hwriter]
      decide +kernel
    generalize sheetOnServer.services.writeBatch writer [[.integer 3]] ((0, sheetInserted), ()) =
      answer at hanswer ⊢
    obtain ⟨fault | count, rest⟩ := answer
    · exact ⟨fault, Prod.ext rfl hanswer.2⟩
    · cases hanswer.1
  obtain ⟨fault, hsecond⟩ := hsecond
  have hfinish : sheetOnServer.services.finish writer ((0, sheetInserted), ()) =
      (.ok (), (0, sheetInserted), ()) := by
    rw [← hwriter]
    rfl
  have hpending : sheetRuns.Holds sheetJob.run
      ⟨"run", none, none, .pending, 0, none, none, "", ""⟩ := ⟨rfl, rfl⟩
  obtain ⟨store₁, r₁, hwrite, hr₁, hp₁⟩ :=
    execute_of_opened sheetOnServer sheetNow _ hload hopened hpending rfl
  rw [hbatches] at hwrite
  obtain ⟨store₂, r₂, hnext, hr₂, hp₂⟩ := finishFrom_of_batch_ok sheetOnServer sheetNow _ hfirst
    [[[.integer 3]]] 1 0 hr₁ hp₁
  obtain ⟨f, store', _, hend, _⟩ := finishFrom_of_batch_error sheetOnServer sheetNow _ hsecond
    hfinish [] 2 2 hr₂ hp₂
  exact ⟨f, store', hwrite.trans (hnext.trans hend)⟩

/-- Only the first insertion is taken, and its two rows are counted. -/
theorem execute_counts_sheetOnServer :
    ∃ f store' r', sheetOnServer.execute sheetJob sheetNow sheetRuns ((1, []), ()) =
        (.returned (.error f), store', (0, sheetInserted), ()) ∧
      store'.find? "run" = some r' ∧ r'.status = .failed ∧ r'.rowsWritten = 2 := by
  obtain ⟨f, store', hexecute⟩ := execute_sheetOnServer
  obtain ⟨_, _, _, hserver⟩ := execute_counts .limited Prod.snd PostgresServer.limited_inserts false
    .offline ⟨none⟩ ⟨2, 100, 8000⟩ sheetJob sheetNow sheetRuns _ rfl rfl rfl
  obtain ⟨ending, store'', state', t', r', counted, left, hend, hr', hsettles, hends⟩ :=
    hserver (1, []) ()
  cases hexecute.symm.trans hend
  refine ⟨f, store', r', hexecute, hr', hsettles.ends.1, ?_⟩
  rcases hends with ⟨_, _, hnone, _⟩ | ⟨_, load, table, _, hload, _, hinserted, _, hleft⟩
  · cases hnone
  · obtain ⟨load', hload', htarget, _⟩ := load_sheetOnServer
    obtain rfl : load' = load := Except.ok.inj ((congrArg Prod.fst hload').symm.trans hload)
    rw [htarget] at hleft
    obtain rfl := hleft (by decide)
    have hcount := congrArg List.length hinserted
    rw [List.nil_append, List.append_nil, List.length_map] at hcount
    rw [hsettles.rows, ← hcount]
    rfl

end Engine

end TablePipeline
