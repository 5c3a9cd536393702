import TablePipeline.Proofs.Execution.Reading
import TablePipeline.Proofs.Run.Changes
import TablePipeline.Proofs.Warehouse.MemoryTables

/-!
# Writing the rows of a run

An execution that nothing comes between, over a warehouse in memory: what the target table holds
afterwards, what the record of the run tells, and how both follow from the batches that were taken.
-/

set_option autoImplicit false

namespace TablePipeline

/-- A text for a blank one begins with a letter. -/
theorem Failure.report_not_blank (f : Failure) : Text.isBlankText f.report = false := by
  unfold report
  split
  · unfold Text.isBlankText
    rw [String.toList_append, List.all_append, Bool.and_eq_false_iff]
    exact .inl (by decide)
  · rename_i h
    exact Bool.eq_false_iff.mpr h

structure StoredRun.Settles (r : StoredRun) (result : RunResult) (written : Nat) : Prop where
  rows : r.rowsWritten = Int64.ofNat written
  ends : match result with
    | .ok s => r.status = .completed ∧ s.rowsWritten = written
    | .error f => r.status = .failed ∧ r.errorKind = some f.kind.name ∧
        r.errorMessage = some f.report ∧ Text.isBlankText f.report = false

/-- An execution that returns settles its run; a crash leaves it processing. -/
def StoredRun.Reflects (r : StoredRun) (ending : RunEnd) (written : Nat) : Prop :=
  match ending with
  | .returned result => r.Settles result written
  | .crashed => r.status = .processing

def Load.success (load : Load) (written : Nat) : RunSuccess :=
  ⟨written, load.target.table, load.warnings.messages, load.warnings.total⟩

/-- The phase behind the gathering of the rows, whatever became of them. -/
def Execution.ofLoad {ω : Type} : Except Halt Load → Execution ω
  | .ok load => .openWriter load
  | .error (.failure f) => .fail f 0
  | .error .crash => .crashed

namespace Engine

variable {σ ω τ : Type} {job : Job} {store store' : RunStore} {r : StoredRun}

section Steps

variable {e : Engine σ ω} {now : Timestamp} {state state' : σ} {x y : Execution ω}

theorem step_gather : e.step job now store state .gather =
    (.ofLoad (e.load job state).1, store, (e.load job state).2) := by
  simp only [step]
  rcases e.load job state with ⟨(_ | _) | _, _⟩ <;> rfl

theorem finishFrom_of_end {ending : RunEnd} (hx : x.end? = some ending) :
    e.finishFrom job now x store state = (ending, store, state) := by
  rw [finishFrom]
  split
  · rename_i heq
    obtain rfl := Option.some.inj (heq.symm.trans hx)
    rfl
  · rename_i heq
    cases heq.symm.trans hx

theorem finishFrom_done (result : RunResult) :
    e.finishFrom job now (.done result) store state = (.returned result, store, state) :=
  finishFrom_of_end rfl

theorem finishFrom_of_step (hx : x.end? = none)
    (h : e.step job now store state x = (y, store', state')) :
    e.finishFrom job now x store state = e.finishFrom job now y store' state' := by
  rw [finishFrom]
  split
  · rename_i result hresult
    cases hx.symm.trans hresult
  · rw [h]

end Steps

section Changes

variable (e : Engine σ ω) (now : Timestamp) (state : σ)

theorem execute_of_pending (hr : store.Holds job.run r) (hp : r.status = .pending) :
    ∃ store' r', e.execute job now store state = e.finishFrom job now .gather store' state ∧
      store'.Holds job.run r' ∧ r'.status = .processing := by
  have haccepts : r.accepts .begin = true := by
    simp [StoredRun.accepts, hp, RunChange.begin]
  obtain ⟨store', hchange, hr'⟩ := hr.change now rfl haccepts
  have hclaimed : e.step job now store state .claim = (.gather, store', state) := by
    simp only [step, hchange]
  exact ⟨store', _, finishFrom_of_step rfl hclaimed, hr', rfl⟩

theorem finishFrom_fail (hr : store.Holds job.run r) (hp : r.status = .processing) (f : Failure)
    (written : Nat) :
    ∃ store' r', e.finishFrom job now (.fail f written) store state =
        (.returned (.error f), store', state) ∧
      store'.Holds job.run r' ∧ r'.Settles (.error f) written := by
  have haccepts : r.accepts (.fail .processing f.toRunFailure (some written)) = true := by
    simp [StoredRun.accepts, hp, RunChange.fail]
  obtain ⟨store', hchange, hr'⟩ := hr.change now rfl haccepts
  have hfailed : e.step job now store state (.fail f written) =
      (.done (.error f), store', state) := by
    simp only [step, hchange]
  refine ⟨store', _, ?_, hr', rfl, rfl, rfl, rfl, f.report_not_blank⟩
  rw [finishFrom_of_step rfl hfailed, finishFrom_done]

theorem finishFrom_complete (hr : store.Holds job.run r) (hp : r.status = .processing)
    (load : Load) (written : Nat) :
    ∃ store' r', e.finishFrom job now (.complete load written) store state =
        (.returned (.ok (load.success written)), store', state) ∧
      store'.Holds job.run r' ∧ r'.Settles (.ok (load.success written)) written := by
  have haccepts : r.accepts (.complete written) = true := by
    simp [StoredRun.accepts, hp, RunChange.complete]
  obtain ⟨store', hchange, hr'⟩ := hr.change now rfl haccepts
  have hcompleted : e.step job now store state (.complete load written) =
      (.done (.ok (load.success written)), store', state) := by
    simp only [step, hchange]
    rfl
  refine ⟨store', _, ?_, hr', rfl, rfl, rfl⟩
  rw [finishFrom_of_step rfl hcompleted, finishFrom_done]

variable {state' : σ} {load : Load} {writer writer' : ω} {b : List Row}

/-- A batch that is written is counted, and the next one follows. -/
theorem finishFrom_of_batch_ok {n : Nat}
    (h : e.services.writeBatch writer b state = (.ok n, writer', state')) (bs : List (List Row))
    (number written : Nat) (hr : store.Holds job.run r) (hp : r.status = .processing) :
    ∃ store₁ r₁, e.finishFrom job now (.write load writer (b :: bs) number written) store state =
        e.finishFrom job now (.write load writer' bs (number + 1) (written + n)) store₁ state' ∧
      store₁.Holds job.run r₁ ∧ r₁.status = .processing := by
  have hwritten : e.step job now store state (.write load writer (b :: bs) number written) =
      (.report load writer' bs number (written + n), store, state') := by
    simp only [step, h]
  obtain ⟨store₁, hprogress, hr₁⟩ := hr.progress (written + n) now hp
  have hreported : e.step job now store state' (.report load writer' bs number (written + n)) =
      (.write load writer' bs (number + 1) (written + n), store₁, state') := by
    simp only [step, hprogress]
  refine ⟨store₁, _, ?_, hr₁, hp⟩
  rw [finishFrom_of_step rfl hwritten, finishFrom_of_step rfl hreported]

/-- A batch that fails ends the run with the count of those before it. -/
theorem finishFrom_of_batch_error {fault : WarehouseError} {closed : Except WarehouseError Unit}
    {state'' : σ} (h : e.services.writeBatch writer b state = (.error fault, writer', state'))
    (hfinish : e.services.finish writer' state' = (closed, state'')) (bs : List (List Row))
    (number written : Nat) (hr : store.Holds job.run r) (hp : r.status = .processing) :
    ∃ f store' r', e.finishFrom job now (.write load writer (b :: bs) number written) store state =
        (.returned (.error f), store', state'') ∧
      store'.Holds job.run r' ∧ r'.Settles (.error f) written := by
  generalize hf : batchFailure number written fault = f
  have hwritten : e.step job now store state (.write load writer (b :: bs) number written) =
      (.close load writer' (.error f) written, store, state') := by
    simp only [step, h, hf]
  have hclosed : e.step job now store state' (.close load writer' (.error f) written) =
      (.fail f written, store, state'') := by
    simp only [step, hfinish]
  obtain ⟨store', r', hend, hr', hsettles⟩ := e.finishFrom_fail now state'' hr hp f written
  refine ⟨f, store', r', ?_, hr', hsettles⟩
  rw [finishFrom_of_step rfl hwritten, finishFrom_of_step rfl hclosed, hend]

/-- Once all batches are written the run ends well. -/
theorem finishFrom_of_no_batches (hfinish : e.services.finish writer state = (.ok (), state'))
    (number written : Nat) (hr : store.Holds job.run r) (hp : r.status = .processing) :
    ∃ store' r', e.finishFrom job now (.write load writer [] number written) store state =
        (.returned (.ok (load.success written)), store', state') ∧
      store'.Holds job.run r' ∧ r'.Settles (.ok (load.success written)) written := by
  have hclosed : e.step job now store state (.close load writer (.ok ()) written) =
      (.complete load written, store, state') := by
    simp only [step, hfinish]
  obtain ⟨store', r', hend, hr', hsettles⟩ :=
    e.finishFrom_complete now state' hr hp load written
  refine ⟨store', r', ?_, hr', hsettles⟩
  rw [finishFrom_of_step rfl rfl, finishFrom_of_step rfl hclosed, hend]

/-! ### Before the first batch -/

variable {fault : WarehouseError} {f : Failure} {state'' : σ}

/-- A pending run is claimed, and the rows of its job are gathered. -/
theorem execute_of_load {gathered : Except Halt Load}
    (hload : e.load job state = (gathered, state')) (hr : store.Holds job.run r)
    (hp : r.status = .pending) :
    ∃ store₁ r₁, e.execute job now store state =
        e.finishFrom job now (.ofLoad gathered) store₁ state' ∧
      store₁.Holds job.run r₁ ∧ r₁.status = .processing := by
  obtain ⟨store₁, r₁, hclaim, hr₁, hp₁⟩ := execute_of_pending e now state hr hp
  have hgathered : e.step job now store₁ state .gather = (.ofLoad gathered, store₁, state') := by
    rw [step_gather, hload]
  exact ⟨store₁, r₁, hclaim.trans (finishFrom_of_step rfl hgathered), hr₁, hp₁⟩

/-- If the rows of a job cannot be gathered its run fails with that failure. -/
theorem execute_of_ungathered (hload : e.load job state = (.error (.failure f), state'))
    (hr : store.Holds job.run r) (hp : r.status = .pending) :
    ∃ store' r', e.execute job now store state = (.returned (.error f), store', state') ∧
      store'.Holds job.run r' ∧ r'.Settles (.error f) 0 := by
  obtain ⟨store₁, r₁, hstart, hr₁, hp₁⟩ := execute_of_load e now state hload hr hp
  obtain ⟨store', r', hend, hr', hsettles⟩ := finishFrom_fail e now state' hr₁ hp₁ f 0
  exact ⟨store', r', hstart.trans hend, hr', hsettles⟩

/-- A crash while the rows are gathered is the end, and the run is still processing. -/
theorem execute_of_crash (hload : e.load job state = (.error .crash, state'))
    (hr : store.Holds job.run r) (hp : r.status = .pending) :
    ∃ store' r', e.execute job now store state = (.crashed, store', state') ∧
      store'.Holds job.run r' ∧ r'.status = .processing := by
  obtain ⟨store₁, r₁, hstart, hr₁, hp₁⟩ := execute_of_load e now state hload hr hp
  exact ⟨store₁, r₁, hstart.trans (finishFrom_of_end rfl), hr₁, hp₁⟩

/-- Without the rows of its job an execution ends in a failure, or crashes as they are gathered. -/
theorem execute_of_halt {halt : Halt} (hload : e.load job state = (.error halt, state'))
    (hr : store.Holds job.run r) (hp : r.status = .pending) :
    ∃ ending store' r', e.execute job now store state = (ending, store', state') ∧
      store'.Holds job.run r' ∧ r'.Reflects ending 0 ∧
      ((∃ f, ending = .returned (.error f)) ∨ ending = .crashed ∧ halt = .crash) := by
  cases halt with
  | failure f =>
    obtain ⟨store', r', hend, hr', hsettles⟩ := execute_of_ungathered e now state hload hr hp
    exact ⟨_, store', r', hend, hr', hsettles, .inl ⟨f, rfl⟩⟩
  | crash =>
    obtain ⟨store', r', hend, hr', hprocessing⟩ := execute_of_crash e now state hload hr hp
    exact ⟨_, store', r', hend, hr', hprocessing, .inr ⟨rfl, rfl⟩⟩

/-- If no writer can be opened for the rows the run fails with the fault of the warehouse. -/
theorem execute_of_unopened (hload : e.load job state = (.ok load, state'))
    (hopen : e.services.openWriter load.target state' = (.error fault, state''))
    (hr : store.Holds job.run r) (hp : r.status = .pending) :
    ∃ store' r', e.execute job now store state =
        (.returned (.error fault.toFailure), store', state'') ∧
      store'.Holds job.run r' ∧ r'.Settles (.error fault.toFailure) 0 := by
  obtain ⟨store₁, r₁, hstart, hr₁, hp₁⟩ := execute_of_load e now state hload hr hp
  have hrefused : e.step job now store₁ state' (.openWriter load) =
      (.fail fault.toFailure 0, store₁, state'') := by
    simp only [step, hopen]
  obtain ⟨store', r', hend, hr', hsettles⟩ :=
    finishFrom_fail e now state'' hr₁ hp₁ fault.toFailure 0
  refine ⟨store', r', ?_, hr', hsettles⟩
  rw [hstart, Execution.ofLoad, finishFrom_of_step rfl hrefused, hend]

/-- Once its rows are gathered and a writer is opened, an execution goes on to write all batches. -/
theorem execute_of_opened (hload : e.load job state = (.ok load, state'))
    (hopen : e.services.openWriter load.target state' = (.ok writer, state''))
    (hr : store.Holds job.run r) (hp : r.status = .pending) :
    ∃ store₁ r₁, e.execute job now store state =
        e.finishFrom job now
          (.write load writer (batchesOf (e.config.batchSize - 1) load.rows) 1 0) store₁ state'' ∧
      store₁.Holds job.run r₁ ∧ r₁.status = .processing := by
  obtain ⟨store₁, r₁, hstart, hr₁, hp₁⟩ := execute_of_load e now state hload hr hp
  have hopened : e.step job now store₁ state' (.openWriter load) =
      (.write load writer (batchesOf (e.config.batchSize - 1) load.rows) 1 0, store₁, state'') := by
    simp only [step, hopen]
  exact ⟨store₁, r₁, hstart.trans (finishFrom_of_step rfl hopened), hr₁, hp₁⟩

end Changes

/-! ### Over a warehouse in memory -/

variable {sources : Sources τ} {e : Engine (MemoryWarehouse × τ) MemoryWriter}
  {w : MemoryWarehouse} {t : τ} {load : Load} {writer : MemoryWriter}

/-- From an open writer on, the batches that are taken are added to the table and counted, and the
run ends well just if these are all. Along the batches the table holds those before, and `written`
counts them; what the writer does not take it refuses, and the table stays. -/
theorem finishFrom_write (he : e.services = MemoryWarehouse.services sources) (now : Timestamp)
    (w : MemoryWarehouse) (t : τ) (load : Load) (writer : MemoryWriter)
    (batches : List (List Row)) (number written : Nat) (table : StoredTable)
    (hr : store.Holds job.run r) (hp : r.status = .processing) :
    ∃ result store' r' added, added = (batches.take (w.taken writer batches)).flatten ∧
      e.finishFrom job now (.write load writer batches number written) store
          (w.put writer.key table, t) =
        (.returned result, store', w.put writer.key { table with rows := table.rows ++ added },
          t) ∧
      store'.Holds job.run r' ∧ r'.Settles result (written + added.length) ∧
      if w.taken writer batches = batches.length then
        result = .ok (load.success (written + added.length))
      else ∃ f, result = .error f := by
  have hfinish (writer : MemoryWriter) (w' : MemoryWarehouse) :
      e.services.finish writer (w', t) = (.ok (), w', t) := by
    rw [he]
    rfl
  induction batches generalizing writer number written table store r with
  | nil =>
    obtain ⟨store', r', hend, hr', hsettles⟩ :=
      finishFrom_of_no_batches e now _ (hfinish writer (w.put writer.key table)) number written
        hr hp
    refine ⟨_, store', r', [], rfl, ?_, hr', hsettles, rfl⟩
    rw [List.append_nil]
    exact hend
  | cons b bs ih =>
    rw [MemoryWarehouse.taken]
    split
    · rename_i htakes
      have hwrite := MemoryWarehouse.writeBatch_of_takes
        ((w.takes_put writer.key table).mpr htakes) (w.get?_put writer.key table)
      rw [MemoryWarehouse.put_put] at hwrite
      have hservice : e.services.writeBatch writer b (w.put writer.key table, t) =
          (.ok b.length, { writer with batches := writer.batches + 1 },
            w.put writer.key { table with rows := table.rows ++ b }, t) := by
        simp only [he, MemoryWarehouse.services, hwrite]
      obtain ⟨store₁, r₁, hnext, hr₁, hp₁⟩ :=
        finishFrom_of_batch_ok e now _ hservice bs number written hr hp
      obtain ⟨result, store', r', added, hadded, hend, hr', hsettles, hends⟩ :=
        ih { writer with batches := writer.batches + 1 } (number + 1) (written + b.length)
          { table with rows := table.rows ++ b } hr₁ hp₁
      have hcount : written + b.length + added.length = written + (b ++ added).length := by
        rw [List.length_append, Nat.add_assoc]
      rw [hcount] at hsettles hends
      rw [List.append_assoc] at hend
      refine ⟨result, store', r', b ++ added, ?_, hnext.trans hend, hr', hsettles, ?_⟩
      · rw [List.take_succ_cons, List.flatten_cons, hadded]
      · simpa only [List.length_cons, Nat.succ_inj] using hends
    · rename_i hrefused
      cases hwrite : (w.put writer.key table).writeBatch writer b with
      | ok next =>
        have htakes := MemoryWarehouse.takes_of_writeBatch hwrite
        exact (hrefused ((w.takes_put writer.key table).mp htakes)).elim
      | error fault =>
        have hservice : e.services.writeBatch writer b (w.put writer.key table, t) =
            (.error fault, writer, w.put writer.key table, t) := by
          simp only [he, MemoryWarehouse.services, hwrite]
        obtain ⟨f, store', r', hend, hr', hsettles⟩ :=
          finishFrom_of_batch_error e now _ hservice (hfinish writer _) bs number written hr hp
        refine ⟨_, store', r', [], rfl, ?_, hr', hsettles, f, rfl⟩
        rw [List.append_nil]
        exact hend

/-- The rows of a job are gathered and a writer is opened for them. -/
def Opens (e : Engine (MemoryWarehouse × τ) MemoryWriter) (job : Job) (w : MemoryWarehouse) (t : τ)
    (load : Load) (writer : MemoryWriter) : Prop :=
  (e.load job (w, t)).1 = .ok load ∧ ∃ w', w.openWriter load.target = .ok (writer, w')

theorem Opens.unique {load' : Load} {writer' : MemoryWriter} (h : e.Opens job w t load writer)
    (h' : e.Opens job w t load' writer') : load' = load ∧ writer' = writer := by
  obtain ⟨hload, w₁, hopen⟩ := h
  obtain ⟨hload', w₂, hopen'⟩ := h'
  obtain rfl := Except.ok.inj (hload'.symm.trans hload)
  exact ⟨rfl, (Prod.mk.inj (Except.ok.inj (hopen'.symm.trans hopen))).1⟩

theorem load_inMemory (he : e.services = MemoryWarehouse.services sources) (job : Job)
    (w : MemoryWarehouse) (t : τ) :
    e.load job (w, t) = ((e.load job (w, t)).1, w, (e.load job (w, t)).2.2) := by
  have hkeeps : e.services.Keeps Prod.fst := he ▸ MemoryWarehouse.services_keeps sources
  exact Prod.ext rfl (Prod.ext (load_keeps hkeeps job (w, t)) rfl)

theorem execute_to_write (he : e.services = MemoryWarehouse.services sources) (now : Timestamp)
    (h : e.Opens job w t load writer) (hr : store.Holds job.run r) (hp : r.status = .pending) :
    ∃ store₁ r₁, e.execute job now store (w, t) =
        e.finishFrom job now
          (.write load writer (batchesOf (e.config.batchSize - 1) load.rows) 1 0) store₁
          (w.put writer.key ⟨writer.columns, w.baseRows load.target⟩, (e.load job (w, t)).2.2) ∧
      store₁.Holds job.run r₁ ∧ r₁.status = .processing := by
  obtain ⟨hload, w', hopen⟩ := h
  obtain ⟨_, _, _, rfl⟩ := MemoryWarehouse.openWriter_eq_ok hopen
  have hstate := load_inMemory he job w t
  rw [hload] at hstate
  refine execute_of_opened e now _ hstate ?_ hr hp
  simp only [he, MemoryWarehouse.services, hopen]

/-- The batches that are taken end up behind the rows that the table began with. -/
theorem execute_of_opens (he : e.services = MemoryWarehouse.services sources) (now : Timestamp)
    (h : e.Opens job w t load writer) (hr : store.Holds job.run r) (hp : r.status = .pending) :
    let batches := batchesOf (e.config.batchSize - 1) load.rows
    ∃ result store' r' added, added = (batches.take (w.taken writer batches)).flatten ∧
      e.execute job now store (w, t) =
        (.returned result, store',
          w.put writer.key ⟨writer.columns, w.baseRows load.target ++ added⟩,
          (e.load job (w, t)).2.2) ∧
      store'.Holds job.run r' ∧ r'.Settles result added.length ∧
      if w.taken writer batches = batches.length then result = .ok (load.success added.length)
      else ∃ f, result = .error f := by
  intro batches
  obtain ⟨store₁, r₁, hwrite, hr₁, hp₁⟩ := execute_to_write he now h hr hp
  obtain ⟨result, store', r', added, hadded, hend, hr', hsettles, hends⟩ :=
    finishFrom_write he now w (e.load job (w, t)).2.2 load writer batches 1 0
      ⟨writer.columns, w.baseRows load.target⟩ hr₁ hp₁
  rw [Nat.zero_add] at hsettles hends
  exact ⟨result, store', r', added, hadded, hwrite.trans hend, hr', hsettles, hends⟩

theorem execute_of_openWriter_error (he : e.services = MemoryWarehouse.services sources)
    (now : Timestamp) {fault : WarehouseError} (hload : (e.load job (w, t)).1 = .ok load)
    (hopen : w.openWriter load.target = .error fault) (hr : store.Holds job.run r)
    (hp : r.status = .pending) :
    ∃ store' r' t', e.execute job now store (w, t) =
        (.returned (.error fault.toFailure), store', w, t') ∧
      store'.Holds job.run r' ∧ r'.Settles (.error fault.toFailure) 0 := by
  have hstate := load_inMemory he job w t
  rw [hload] at hstate
  have hrefused : e.services.openWriter load.target (w, (e.load job (w, t)).2.2) =
      (.error fault, w, (e.load job (w, t)).2.2) := by
    simp only [he, MemoryWarehouse.services, hopen]
  obtain ⟨store', r', hend⟩ := execute_of_unopened e now _ hstate hrefused hr hp
  exact ⟨store', r', _, hend⟩

/-- Before a writer is open an execution ends in a failure, or crashes as its rows are gathered. -/
theorem execute_of_not_opens (he : e.services = MemoryWarehouse.services sources)
    (now : Timestamp) (h : ∀ load writer, ¬ e.Opens job w t load writer)
    (hr : store.Holds job.run r) (hp : r.status = .pending) :
    ∃ ending store' r' t', e.execute job now store (w, t) = (ending, store', w, t') ∧
      store'.Holds job.run r' ∧ r'.Reflects ending 0 ∧
      ((∃ f, ending = .returned (.error f)) ∨
        ending = .crashed ∧ (e.load job (w, t)).1 = .error .crash) := by
  have hstate := load_inMemory he job w t
  cases hload : (e.load job (w, t)).1 with
  | error halt =>
    rw [hload] at hstate
    obtain ⟨ending, store', r', hend, hr', hreflects, hhalts⟩ :=
      execute_of_halt e now _ hstate hr hp
    exact ⟨ending, store', r', _, hend, hr', hreflects,
      hhalts.imp_right (And.imp_right (congrArg Except.error))⟩
  | ok load =>
    cases hopen : w.openWriter load.target with
    | ok opened => exact (h load opened.1 ⟨hload, opened.2, hopen⟩).elim
    | error fault =>
      obtain ⟨store', r', t', hend, hr', hsettles⟩ :=
        execute_of_openWriter_error he now hload hopen hr hp
      exact ⟨_, store', r', t', hend, hr', hsettles, .inl ⟨_, rfl⟩⟩

theorem execute_eq_ok (he : e.services = MemoryWarehouse.services sources) {now : Timestamp}
    (hr : store.Holds job.run r) (hp : r.status = .pending) {s : RunSuccess}
    (h : (e.execute job now store (w, t)).1 = .returned (.ok s)) :
    ∃ load writer, e.Opens job w t load writer ∧ s = load.success load.rows.length ∧
      (e.execute job now store (w, t)).2.2 =
        (w.put writer.key ⟨writer.columns, w.baseRows load.target ++ load.rows⟩,
          (e.load job (w, t)).2.2) := by
  by_cases hopens : ∃ load writer, e.Opens job w t load writer
  · obtain ⟨load, writer, hopens⟩ := hopens
    obtain ⟨result, store', r', added, hadded, hend, _, _, hends⟩ :=
      execute_of_opens he now hopens hr hp
    rw [hend] at h ⊢
    obtain rfl : result = .ok s := RunEnd.returned.inj h
    split at hends
    · rename_i hall
      rw [hall, List.take_length, batchesOf_flatten] at hadded
      subst hadded
      exact ⟨load, writer, hopens, Except.ok.inj hends, rfl⟩
    · obtain ⟨f, hf⟩ := hends
      cases hf
  · obtain ⟨_, store', r', t', hend, _, _, ⟨f, rfl⟩ | ⟨rfl, _⟩⟩ :=
      execute_of_not_opens he now (fun load writer h => hopens ⟨load, writer, h⟩) hr hp
    · rw [hend] at h
      cases h
    · rw [hend] at h
      cases h

/-- Behind the rows that its table began with there are the first `k` batches of a load, all of them
just if the writer takes them. -/
structure Arrives (w w' : MemoryWarehouse) (load : Load) (writer : MemoryWriter)
    (size k written : Nat) (result : RunResult) : Prop where
  taken : k = w.taken writer (batchesOf (size - 1) load.rows)
  count : written = (load.rows.take (k * size)).length
  table : w'.table? load.target.table =
    some ⟨writer.columns, w.baseRows load.target ++ load.rows.take (k * size)⟩
  others : ∀ path, MemoryWarehouse.tableKey path ≠ MemoryWarehouse.tableKey load.target.table →
    w'.table? path = w.table? path
  complete : ∀ s, result = .ok s →
    s = load.success load.rows.length ∧ load.rows.take (k * size) = load.rows
  succeeds : (∃ s, result = .ok s) ↔ w.Admits writer size load.rows

theorem execute_arrives (he : e.services = MemoryWarehouse.services sources) (now : Timestamp)
    (h : e.Opens job w t load writer) (hr : store.Holds job.run r) (hp : r.status = .pending) :
    ∃ result store' w' r' k written,
      e.execute job now store (w, t) = (.returned result, store', w', (e.load job (w, t)).2.2) ∧
      store'.Holds job.run r' ∧ r'.Settles result written ∧
      Arrives w w' load writer (max e.config.batchSize 1) k written result := by
  obtain ⟨result, store', r', added, hadded, hend, hr', hsettles, hends⟩ :=
    execute_of_opens he now h hr hp
  obtain ⟨_, w₁, hwriter⟩ := h
  obtain ⟨hkey, _, hfresh, _⟩ := MemoryWarehouse.openWriter_eq_ok hwriter
  generalize hn : e.config.batchSize - 1 = n at hadded hends
  have hsize : max e.config.batchSize 1 = n + 1 := by omega
  rw [flatten_take_batchesOf] at hadded
  rw [hsize]
  refine ⟨result, store', _, r', _, _, hend, hr', hsettles, rfl, by rw [hadded]; rfl, ?table,
    ?others, ?complete, ?succeeds⟩
  case table =>
    rw [MemoryWarehouse.table?_of_key hkey, MemoryWarehouse.get?_put, hadded]
    rfl
  case others =>
    intro path hpath
    rw [hkey] at hpath
    exact MemoryWarehouse.table?_put_of_ne hpath
  case complete =>
    intro s hs
    split at hends
    · rename_i htaken
      have hrows := flatten_take_batchesOf n (batchesOf n load.rows).length load.rows
      rw [List.take_length, batchesOf_flatten, ← htaken] at hrows
      rw [hadded, ← hrows] at hends
      exact ⟨Except.ok.inj (hs.symm.trans hends), hrows.symm⟩
    · obtain ⟨f, rfl⟩ := hends
      cases hs
  case succeeds =>
    rw [← w.taken_batchesOf_iff hfresh]
    split at hends
    · rename_i htaken
      exact ⟨fun _ => htaken, fun _ => ⟨_, hends⟩⟩
    · rename_i htaken
      obtain ⟨f, rfl⟩ := hends
      exact ⟨fun ⟨s, hs⟩ => (by cases hs), fun h => (htaken h).elim⟩

def inMemory (sources : Sources τ) (vault : Vault) (config : EngineConfig) :
    Engine (MemoryWarehouse × τ) MemoryWriter := ⟨MemoryWarehouse.services sources, vault, config⟩

/-- Runs that end well leave the same state whatever the size of the batches: what is gathered and
opened does not depend on it. -/
theorem execute_batchSize (hr : store.Holds job.run r) (hp : r.status = .pending) {vault : Vault}
    {config : EngineConfig} {now : Timestamp} {batchSize : Nat} {s s' : RunSuccess}
    (h : ((inMemory sources vault config).execute job now store (w, t)).1 = .returned (.ok s))
    (h' : ((inMemory sources vault { config with batchSize }).execute job now store (w, t)).1 =
      .returned (.ok s')) :
    s' = s ∧ ((inMemory sources vault { config with batchSize }).execute job now store (w, t)).2.2 =
      ((inMemory sources vault config).execute job now store (w, t)).2.2 := by
  obtain ⟨load, writer, hopens, rfl, hstate⟩ := execute_eq_ok rfl hr hp h
  obtain ⟨load', writer', hopens', rfl, hstate'⟩ := execute_eq_ok rfl hr hp h'
  obtain ⟨rfl, rfl⟩ := hopens.unique hopens'
  exact ⟨rfl, hstate'.trans hstate.symm⟩

/-- A pending run that nothing comes between over a warehouse in memory. Past an open writer the
execution returns, and whole batches arrive in the table, all of them just if the writer takes them;
before it nothing is changed, and the execution fails or crashes as its rows are gathered. The
record tells the result and the count of the rows that arrived, and runs that end well leave the
same tables whatever the size of the batches. -/
theorem execute_inMemory (sources : Sources τ) (vault : Vault) (config : EngineConfig) (job : Job)
    (now : Timestamp) (store : RunStore) (w : MemoryWarehouse) (t : τ) (r : StoredRun)
    (hopen : store.isOpen = true) (hr : store.find? job.run = some r)
    (hp : r.status = .pending) :
    ∃ ending store' w' t' r' written,
      (inMemory sources vault config).execute job now store (w, t) = (ending, store', w', t') ∧
      store'.find? job.run = some r' ∧ r'.Reflects ending written ∧
      (∀ load writer, (inMemory sources vault config).Opens job w t load writer →
        ∃ result k, ending = .returned result ∧
          Arrives w w' load writer (max config.batchSize 1) k written result) ∧
      ((∀ load writer, ¬ (inMemory sources vault config).Opens job w t load writer) →
        w' = w ∧ written = 0 ∧ ((∃ f, ending = .returned (.error f)) ∨ ending = .crashed ∧
          ((inMemory sources vault config).load job (w, t)).1 = .error .crash)) ∧
      ∀ batchSize s s', ending = .returned (.ok s) →
        ((inMemory sources vault { config with batchSize }).execute job now store (w, t)).1 =
          .returned (.ok s') →
        s' = s ∧ ((inMemory sources vault { config with batchSize }).execute job now store
          (w, t)).2.2 = (w', t') := by
  have hheld : store.Holds job.run r := ⟨hopen, hr⟩
  by_cases hopens : ∃ load writer, (inMemory sources vault config).Opens job w t load writer
  · obtain ⟨load, writer, hopens⟩ := hopens
    obtain ⟨result, store', w', r', k, written, hend, hr', hsettles, harrives⟩ :=
      execute_arrives rfl now hopens hheld hp
    refine ⟨.returned result, store', w', _, r', written, hend, hr'.2, hsettles, ?opened,
      ?unopened, ?sizes⟩
    case opened =>
      intro load' writer' h
      obtain ⟨rfl, rfl⟩ := hopens.unique h
      exact ⟨result, k, rfl, harrives⟩
    case unopened =>
      intro hnone
      exact (hnone load writer hopens).elim
    case sizes =>
      intro batchSize s s' hs hs'
      obtain ⟨rfl, hstate⟩ := execute_batchSize hheld hp (by rw [hend]; exact hs) hs'
      exact ⟨rfl, hstate.trans (by rw [hend])⟩
  · have hnone : ∀ load writer, ¬ (inMemory sources vault config).Opens job w t load writer :=
      fun load writer h => hopens ⟨load, writer, h⟩
    obtain ⟨ending, store', r', t', hend, hr', hreflects, hfails⟩ :=
      execute_of_not_opens rfl now hnone hheld hp
    refine ⟨ending, store', w, t', r', 0, hend, hr'.2, hreflects, ?opened, ?unopened, ?sizes⟩
    case opened =>
      intro load writer h
      exact (hnone load writer h).elim
    case unopened => exact fun _ => ⟨rfl, rfl, hfails⟩
    case sizes =>
      rintro batchSize s s' rfl
      rcases hfails with ⟨f, hf⟩ | ⟨hcrashed, _⟩
      · cases hf
      · cases hcrashed

def sheetJob : Job where
  run := "run"
  pipeline := {
    nodes := [
      ⟨"orders", .source, .object [("connection", .text "sheets"), ("table", .text "orders")]⟩,
      ⟨"out", .sink, .object []⟩]
    edges := [⟨"orders", "out"⟩]
    sink := ⟨"result", [], .append⟩
    policy := .nullOut }
  connections := [⟨"sheets", .excel, "", none, "", "", none, none, none⟩]

/-- Three rows for a table that has one; the second batch of a writer fails. -/
def limitedSheet : MemoryWarehouse :=
  ⟨[("orders", ⟨[⟨"id", .integer⟩], [[.integer 1], [.integer 2], [.integer 3]]⟩),
    ("result", ⟨[⟨"id", .integer⟩], [[.integer 0]]⟩)], [], some 1⟩

/-- With batches of two rows, two of the three arrive and are counted in the failed run. -/
theorem execute_inMemory_limitedSheet :
    ∃ f store' w' t' r',
      (inMemory .offline ⟨none⟩ ⟨2, 100, 8000⟩).execute sheetJob
          (.midnight ⟨2024, 2, 29, by decide, by decide, by decide⟩)
          ⟨[⟨"run", none, none, .pending, 0, none, none, "", ""⟩], true⟩ (limitedSheet, ()) =
        (.returned (.error f), store', w', t') ∧
      store'.find? "run" = some r' ∧ r'.status = .failed ∧ r'.errorKind = some f.kind.name ∧
      r'.rowsWritten = 2 ∧ w'.table? "result" =
        some ⟨[⟨"id", .integer⟩], [[.integer 0], [.integer 1], [.integer 2]]⟩ := by
  obtain ⟨_, store', w', t', r', written, hend, hr', hreflects, hopened, _⟩ :=
    execute_inMemory .offline ⟨none⟩ ⟨2, 100, 8000⟩ sheetJob
      (.midnight ⟨2024, 2, 29, by decide, by decide, by decide⟩)
      ⟨[⟨"run", none, none, .pending, 0, none, none, "", ""⟩], true⟩ limitedSheet () _ rfl rfl rfl
  have hload : ((inMemory .offline ⟨none⟩ ⟨2, 100, 8000⟩).load sheetJob
      (limitedSheet, ())).1.toOption.map (fun l => (l.target, l.rows)) =
      some (⟨"result", [⟨"id", .integer⟩], .append⟩,
        [[.integer 1], [.integer 2], [.integer 3]]) := by
    decide +kernel
  obtain ⟨load, hload, hparts⟩ := Option.map_eq_some_iff.mp hload
  obtain ⟨htarget, hrows⟩ := Prod.mk.inj hparts
  have hwriter : ∃ opened, limitedSheet.openWriter load.target = .ok opened ∧
      opened.1 = ⟨"result", [⟨"id", .integer⟩], 0⟩ := by
    rw [htarget]
    exact ⟨_, rfl, rfl⟩
  obtain ⟨⟨writer, w₁⟩, hwriter, rfl⟩ := hwriter
  obtain ⟨result, k, rfl, htaken, hcount, htable, _, _, hsucceeds⟩ :=
    hopened load _ ⟨Outcome.toOption_eq_some.mp hload, w₁, hwriter⟩
  obtain ⟨hrecorded, hends⟩ := hreflects
  rw [hrows] at htaken hcount htable hsucceeds
  obtain rfl : k = 1 := by
    rw [htaken]
    cbv
  have hfails : ¬ ∃ s, result = .ok s := by
    rw [hsucceeds]
    exact fun h => absurd (h.1 1 rfl) (by decide)
  cases result with
  | ok s => exact (hfails ⟨s, rfl⟩).elim
  | error f =>
    rw [htarget] at htable
    refine ⟨f, store', w', t', r', hend, hr', hends.1, hends.2.1, ?_, htable⟩
    rw [hrecorded, hcount]
    rfl

end Engine

end TablePipeline
