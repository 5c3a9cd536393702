import TablePipeline.Proofs.Execution.Steps
import TablePipeline.Proofs.Execution.Writing
import TablePipeline.Proofs.Run.Lifecycle

/-!
# Runs that fail before they write

Until a writer is open an execution leaves a warehouse in memory alone, and from then on it fails
only by a batch or by the store of runs. So a failure of any other kind leaves every table as it
was.
-/

set_option autoImplicit false

namespace TablePipeline

def Failure.IsOfWriting (f : Failure) : Prop := f.kind = .writeError ∨ f.kind = .storageError

namespace Execution

variable {ω : Type}

/-- A writer was opened, and nothing has failed but a batch or a use of the store of runs. -/
def HasOpened : Execution ω → Prop
  | write .. | report .. | complete .. => True
  | close _ _ (.error f) _ | fail f _ | done (.error f) => f.IsOfWriting
  | close _ _ (.ok ()) _ | done (.ok _) => True
  | _ => False

end Execution

namespace Engine

variable {σ ω τ : Type} {e : Engine σ ω} {job : Job} {now : Timestamp} {store : RunStore}
  {state : σ} {x : Execution ω} {f : Failure}

/-- Closing succeeds, so past an open writer only a batch or the store of runs adds a failure. -/
theorem Takes.hasOpened {y : Execution ω} {store' : RunStore} {state' : σ}
    (h : e.Takes job now store state x y store' state')
    (hfinish : ∀ writer state, (e.services.finish writer state).1 = .ok ()) (hx : x.HasOpened) :
    y.HasOpened := by
  cases h with
  | claimed | notClaimed | claimFault | refused | gathered | notGathered | gatherCrashed | opened
  | notOpened | crashed =>
    exact hx.elim
  | allWritten | batchWritten | reported | closed | completed => trivial
  | batchFailed => exact .inl rfl
  | notReported _ hkind | notCompleted _ hkind => exact .inr hkind
  | reportFault | completeFault => exact .inr rfl
  | @notClosed _ writer _ _ _ h =>
    have hclosed := hfinish writer state
    rw [h] at hclosed
    cases hclosed
  | closedAfter | failed | failFault | done => exact hx

/-- Past an open writer the result is a success or a failure of writing. -/
theorem finishFrom_hasOpened
    (hfinish : ∀ writer state, (e.services.finish writer state).1 = .ok ()) (h : x.HasOpened)
    (hf : (e.finishFrom job now x store state).1 = .returned (.error f)) : f.IsOfWriting := by
  fun_induction e.finishFrom job now x store state with
  | case1 x store state ending hend =>
    cases x with
    | done result =>
      obtain rfl := Option.some.inj hend
      obtain rfl := RunEnd.returned.inj hf
      exact h
    | crashed => exact h.elim
    | _ => cases hend
  | case2 x store state hnone next ih =>
    exact ih ((e.step_takes job now store state x).hasOpened hfinish h) hf

theorem step_refused (e : Engine σ ω) (job : Job) (now : Timestamp) (store : RunStore) (state : σ) :
    ∃ f, e.step job now store state .refused = (.done (.error f), store, state) ∧
      f.kind = .storageError := by
  refine ⟨_, rfl, ?_⟩
  split <;> rfl

/-- A run that is not claimed fails by the store of runs. -/
theorem kind_of_not_claimed (h : ¬ store.Makes job.run .begin now)
    (hf : (e.execute job now store state).1 = .returned (.error f)) : f.kind = .storageError := by
  unfold execute at hf
  cases hchange : store.change job.run .begin now with
  | error fault =>
    have hclaim : e.step job now store state .claim =
        (.done (.error fault.toFailure), store, state) := by
      simp only [step, hchange]
    rw [finishFrom_of_step rfl hclaim, finishFrom_done] at hf
    obtain rfl := Except.error.inj (RunEnd.returned.inj hf)
    rfl
  | ok r =>
    obtain ⟨claimed, store'⟩ := r
    cases claimed with
    | true => exact (h ⟨store', hchange⟩).elim
    | false =>
      have hclaim : e.step job now store state .claim = (.refused, store', state) := by
        simp only [step, hchange]
      obtain ⟨f', hrefused, hkind⟩ := step_refused e job now store' state
      rw [finishFrom_of_step rfl hclaim, finishFrom_of_step rfl hrefused, finishFrom_done] at hf
      obtain rfl := Except.error.inj (RunEnd.returned.inj hf)
      exact hkind

/-! ### Over a warehouse in memory -/

/-- An execution that opens a writer fails, if it does, by writing. -/
theorem Opens.isOfWriting {sources : Sources τ} {e : Engine (MemoryWarehouse × τ) MemoryWriter}
    {w : MemoryWarehouse} {t : τ} {load : Load} {writer : MemoryWriter} {r : StoredRun}
    (h : e.Opens job w t load writer) (he : e.services = MemoryWarehouse.services sources)
    (hr : store.Holds job.run r) (hp : r.status = .pending)
    (hf : (e.execute job now store (w, t)).1 = .returned (.error f)) : f.IsOfWriting := by
  obtain ⟨store₁, r₁, hwrite, _⟩ := execute_to_write he now h hr hp
  rw [hwrite] at hf
  refine finishFrom_hasOpened ?finish ?opened hf
  case finish =>
    intro writer state
    rw [he]
    rfl
  case opened => trivial

/-- An execution that fails neither by a batch nor by the store of runs had claimed its run and
leaves the warehouse as it was; the record of the run tells the failure and that no row was
written. -/
theorem execute_untouched (sources : Sources τ) (vault : Vault) (config : EngineConfig) (job : Job)
    (now : Timestamp) (store : RunStore) (w : MemoryWarehouse) (t : τ) (f : Failure)
    (h : ((inMemory sources vault config).execute job now store (w, t)).1 =
      .returned (.error f))
    (hwrite : f.kind ≠ .writeError) (hstore : f.kind ≠ .storageError) :
    ∃ store' t' r',
      (inMemory sources vault config).execute job now store (w, t) =
        (.returned (.error f), store', w, t') ∧
      store.Makes job.run .begin now ∧
      store'.find? job.run = some r' ∧ r'.status = .failed ∧ r'.errorKind = some f.kind.name ∧
      r'.errorMessage = some f.report ∧ r'.rowsWritten = 0 := by
  have hclaimed : store.Makes job.run .begin now := by
    by_contra hnot
    exact hstore (kind_of_not_claimed hnot h)
  obtain ⟨hopen, _, r, hr, haccepts⟩ := (RunStore.makes_iff_accepts ..).mp hclaimed
  have hheld : store.Holds job.run r := ⟨hopen, hr⟩
  have hp : r.status = .pending := StoredRun.accepts_status haccepts
  have hnone : ∀ load writer, ¬ (inMemory sources vault config).Opens job w t load writer := by
    intro load writer hopens
    rcases hopens.isOfWriting rfl hheld hp h with hkind | hkind
    · exact hwrite hkind
    · exact hstore hkind
  obtain ⟨ending, store', r', t', hend, hr', hreflects, _⟩ :=
    execute_of_not_opens rfl now hnone hheld hp
  rw [hend] at h
  obtain rfl : ending = .returned (.error f) := h
  obtain ⟨hfailed, hkind, hmessage, _⟩ := hreflects.ends
  exact ⟨store', t', r', hend, hclaimed, hr'.2, hfailed, hkind, hmessage, hreflects.rows⟩

def replacingJob : Job := { sheetJob with pipeline.sink.mode := .replace }

/-- The table that is to be replaced is held by another writer. -/
def heldSheet : MemoryWarehouse :=
  ⟨[("orders", ⟨[⟨"id", .integer⟩], [[.integer 1]]⟩),
    ("result", ⟨[⟨"name", .text⟩], [[.text "kept"]]⟩)], ["result"], none⟩

def waitingRun : StoredRun := ⟨"run", none, none, .pending, 0, none, none, "", ""⟩

/-- The last check before the table would be dropped fails, and the row in it stays. -/
theorem execute_untouched_heldSheet :
    ∃ f store' r',
      (inMemory .offline ⟨none⟩ .standard).execute replacingJob (.midnight RunStore.day)
          ⟨[waitingRun], true⟩ (heldSheet, ()) =
        (.returned (.error f), store', heldSheet, ()) ∧
      f.kind = .targetLocked ∧
      store'.find? "run" = some r' ∧ r'.status = .failed ∧ r'.errorKind = some "TargetLocked" ∧
      r'.rowsWritten = 0 := by
  have hload : ((inMemory .offline ⟨none⟩ .standard).load replacingJob
      (heldSheet, ())).1.toOption.map (·.target) =
      some ⟨"result", [⟨"id", .integer⟩], .replace⟩ := by
    decide +kernel
  obtain ⟨load, hload, htarget⟩ := Option.map_eq_some_iff.mp hload
  have hrefused : heldSheet.openWriter load.target = .error (.locked "result") := by
    rw [htarget]
    rfl
  have hheld : RunStore.Holds ⟨[waitingRun], true⟩ replacingJob.run waitingRun := ⟨rfl, rfl⟩
  obtain ⟨_, _, _, hend, _⟩ := execute_of_openWriter_error rfl (.midnight RunStore.day)
    (Outcome.toOption_eq_some.mp hload) hrefused hheld rfl
  obtain ⟨store', _, r', hexecute, _, hr', hfailed, hkind, _, hrows⟩ :=
    execute_untouched .offline ⟨none⟩ .standard replacingJob (.midnight RunStore.day)
      ⟨[waitingRun], true⟩ heldSheet () (WarehouseError.locked "result").toFailure (by rw [hend])
      (by decide) (by decide)
  exact ⟨_, store', r', hexecute, rfl, hr', hfailed, hkind, hrows⟩

end Engine

end TablePipeline
