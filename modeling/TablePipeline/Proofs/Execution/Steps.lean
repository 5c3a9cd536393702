import TablePipeline.Execution.Engine
import TablePipeline.Proofs.Run.Changes

/-!
# What one step of an execution does

A step moves the run along the changes its status allows. Only the step that claims a pending run
lets an execution in, only the step that completes it ends well, and an execution whose run has
ended starts at most the batch that it was about to write. A crash changes nothing that is kept.
-/

set_option autoImplicit false

namespace TablePipeline

variable {σ ω : Type}

namespace Execution

/-- An execution that was not let in: it only ends with a fault of the store of runs. -/
def Outside : Execution ω → Prop
  | claim | refused => True
  | done (.error f) => f.kind = .storageError
  | _ => False

def startsBatch : Execution ω → Bool
  | write _ _ (_ :: _) _ _ => true
  | _ => false

/-- Whether a batch may still be written before the next report of progress. -/
def mayWrite : Execution ω → Bool
  | gather | openWriter _ => true
  | x => x.startsBatch

end Execution

namespace Engine

variable (e : Engine σ ω) (job : Job) (now : Timestamp) (store : RunStore) (state : σ)

/-- The steps an execution may take, one for each answer of the store of runs or of the services:
from a phase to a phase, and the store and the state behind it. -/
inductive Takes : Execution ω → Execution ω → RunStore → σ → Prop
  | claimed {store' : RunStore} (h : store.change job.run .begin now = .ok (true, store')) :
    Takes .claim .gather store' state
  | notClaimed {store' : RunStore} (h : store.change job.run .begin now = .ok (false, store')) :
    Takes .claim .refused store' state
  | claimFault {fault : StoreFault} (h : store.change job.run .begin now = .error fault) :
    Takes .claim (.done (.error fault.toFailure)) store state
  | refused {f : Failure} (h : f.kind = .storageError) :
    Takes .refused (.done (.error f)) store state
  | gathered {load : Load} {state' : σ} (h : e.load job state = (.ok load, state')) :
    Takes .gather (.openWriter load) store state'
  | notGathered {f : Failure} {state' : σ} (h : e.load job state = (.error (.failure f), state')) :
    Takes .gather (.fail f 0) store state'
  | gatherCrashed {state' : σ} (h : e.load job state = (.error .crash, state')) :
    Takes .gather .crashed store state'
  | opened {load : Load} {writer : ω} {state' : σ}
      (h : e.services.openWriter load.target state = (.ok writer, state')) :
    Takes (.openWriter load)
      (.write load writer (batchesOf (e.config.batchSize - 1) load.rows) 1 0) store state'
  | notOpened {load : Load} {fault : WarehouseError} {state' : σ}
      (h : e.services.openWriter load.target state = (.error fault, state')) :
    Takes (.openWriter load) (.fail fault.toFailure 0) store state'
  | allWritten {load : Load} {writer : ω} {number written : Nat} :
    Takes (.write load writer [] number written) (.close load writer (.ok ()) written) store state
  | batchWritten {load : Load} {writer writer' : ω} {batch : List Row} {batches : List (List Row)}
      {number written n : Nat} {state' : σ}
      (h : e.services.writeBatch writer batch state = (.ok n, writer', state')) :
    Takes (.write load writer (batch :: batches) number written)
      (.report load writer' batches number (written + n)) store state'
  | batchFailed {load : Load} {writer writer' : ω} {batch : List Row} {batches : List (List Row)}
      {number written : Nat} {fault : WarehouseError} {state' : σ}
      (h : e.services.writeBatch writer batch state = (.error fault, writer', state')) :
    Takes (.write load writer (batch :: batches) number written)
      (.close load writer' (.error (batchFailure number written fault)) written) store state'
  | reported {load : Load} {writer : ω} {batches : List (List Row)} {number written : Nat}
      {store' : RunStore} (h : store.progress job.run written now = .ok (true, store')) :
    Takes (.report load writer batches number written)
      (.write load writer batches (number + 1) written) store' state
  | notReported {load : Load} {writer : ω} {batches : List (List Row)} {number written : Nat}
      {f : Failure} {store' : RunStore}
      (h : store.progress job.run written now = .ok (false, store'))
      (hkind : f.kind = .storageError) :
    Takes (.report load writer batches number written) (.close load writer (.error f) written)
      store' state
  | reportFault {load : Load} {writer : ω} {batches : List (List Row)} {number written : Nat}
      {fault : StoreFault} (h : store.progress job.run written now = .error fault) :
    Takes (.report load writer batches number written)
      (.close load writer (.error fault.toFailure) written) store state
  | closed {load : Load} {writer : ω} {written : Nat} {state' : σ}
      (h : e.services.finish writer state = (.ok (), state')) :
    Takes (.close load writer (.ok ()) written) (.complete load written) store state'
  | notClosed {load : Load} {writer : ω} {written : Nat} {fault : WarehouseError} {state' : σ}
      (h : e.services.finish writer state = (.error fault, state')) :
    Takes (.close load writer (.ok ()) written) (.fail fault.toFailure written) store state'
  | closedAfter {load : Load} {writer : ω} {f : Failure} {written : Nat}
      {answer : Except WarehouseError Unit} {state' : σ}
      (h : e.services.finish writer state = (answer, state')) :
    Takes (.close load writer (.error f) written) (.fail f written) store state'
  | completed {load : Load} {written : Nat} {s : RunSuccess} {store' : RunStore}
      (h : store.change job.run (.complete written) now = .ok (true, store'))
      (hwritten : s.rowsWritten = written) :
    Takes (.complete load written) (.done (.ok s)) store' state
  | notCompleted {load : Load} {written : Nat} {f : Failure} {store' : RunStore}
      (h : store.change job.run (.complete written) now = .ok (false, store'))
      (hkind : f.kind = .storageError) :
    Takes (.complete load written) (.fail f written) store' state
  | completeFault {load : Load} {written : Nat} {fault : StoreFault}
      (h : store.change job.run (.complete written) now = .error fault) :
    Takes (.complete load written) (.fail fault.toFailure written) store state
  | failed {f : Failure} {written : Nat} {b : Bool} {store' : RunStore}
      (h : store.change job.run (.fail .processing f.toRunFailure (some written)) now =
        .ok (b, store')) :
    Takes (.fail f written) (.done (.error f)) store' state
  | failFault {f : Failure} {written : Nat} :
    Takes (.fail f written) (.done (.error f)) store state
  | done {result : RunResult} : Takes (.done result) (.done result) store state
  | crashed : Takes .crashed .crashed store state

theorem step_takes (x : Execution ω) :
    e.Takes job now store state x (e.step job now store state x).1
      (e.step job now store state x).2.1 (e.step job now store state x).2.2 := by
  cases x with
  | claim =>
    simp only [step]
    split
    · exact .claimed ‹_›
    · exact .notClaimed ‹_›
    · exact .claimFault ‹_›
  | refused =>
    refine .refused ?_
    split <;> rfl
  | gather =>
    simp only [step]
    split
    · exact .gathered ‹_›
    · exact .notGathered ‹_›
    · exact .gatherCrashed ‹_›
  | openWriter load =>
    simp only [step]
    split
    · exact .opened ‹_›
    · exact .notOpened ‹_›
  | write load writer batches number written =>
    cases batches with
    | nil => exact .allWritten
    | cons b bs =>
      simp only [step]
      split
      · exact .batchWritten ‹_›
      · exact .batchFailed ‹_›
  | report load writer batches number written =>
    simp only [step]
    split
    · exact .reported ‹_›
    · exact .notReported ‹_› rfl
    · exact .reportFault ‹_›
  | close load writer result written =>
    simp only [step]
    split
    · exact .closed ‹_›
    · exact .notClosed ‹_›
    · exact .closedAfter ‹_›
  | complete load written =>
    simp only [step]
    split
    · exact .completed ‹_› rfl
    · exact .notCompleted ‹_› rfl
    · exact .completeFault ‹_›
  | fail failure written =>
    simp only [step]
    split
    · exact .failed ‹_›
    · exact .failFault
  | done result => exact .done
  | crashed => exact .crashed

variable {e job now store state} in
theorem takes_of_step {x y : Execution ω} (h : (e.step job now store state x).1 = y) :
    e.Takes job now store state x y (e.step job now store state x).2.1
      (e.step job now store state x).2.2 :=
  h ▸ e.step_takes job now store state x

namespace Takes

variable {e : Engine σ ω} {job : Job} {now : Timestamp} {store store' : RunStore} {state state' : σ}
  {x y : Execution ω}

/-- Only a claim, a report and the two ends change the store, and each of them one run. -/
theorem evolves (h : e.Takes job now store state x y store' state') : store.Evolves store' := by
  cases h with
  | claimed h | notClaimed h | completed h | notCompleted h | failed h =>
    exact RunStore.change_evolves h
  | reported h | notReported h => exact RunStore.progress_evolves h
  | _ => exact .refl store

theorem outside (h : e.Takes job now store state x y store' state') (hx : x.Outside) :
    state' = state ∧ (y.Outside ∨ x = .claim ∧ y = .gather) := by
  cases h with
  | claimed => exact ⟨rfl, .inr ⟨rfl, rfl⟩⟩
  | notClaimed => exact ⟨rfl, .inl trivial⟩
  | claimFault => exact ⟨rfl, .inl rfl⟩
  | refused hkind => exact ⟨rfl, .inl hkind⟩
  | done => exact ⟨rfl, .inl hx⟩
  | _ => exact hx.elim

/-- To be let in an execution takes up a pending run. -/
theorem claim (h : e.Takes job now store state .claim .gather store' state') :
    ∃ r r', store.find? job.run = some r ∧ r.status = .pending ∧
      store'.find? job.run = some r' ∧ r'.status = .processing := by
  cases h with
  | claimed hchange =>
    obtain ⟨_, _, _, r, hr, hstart, hr'⟩ | ⟨hb, _⟩ := RunStore.change_eq_ok hchange
    · exact ⟨r, _, hr, hstart, hr', rfl⟩
    · cases hb

/-- An execution ends well only by completing its run with the rows it tells. -/
theorem done_ok {s : RunSuccess} (h : e.Takes job now store state x (.done (.ok s)) store' state') :
    x = .done (.ok s) ∨
      (∃ load, x = .complete load s.rowsWritten) ∧
      ∃ r, store'.find? job.run = some r ∧ r.status = .completed ∧
        r.rowsWritten = Int64.ofNat s.rowsWritten := by
  cases h with
  | done => exact .inl rfl
  | completed hchange hwritten =>
    subst hwritten
    obtain ⟨_, _, _, r, _, _, hr'⟩ | ⟨hb, _⟩ := RunStore.change_eq_ok hchange
    · exact .inr ⟨⟨_, rfl⟩, _, hr', rfl, rfl⟩
    · cases hb

/-- A run that has ended is neither taken up nor reports progress, so no batch follows one that is
started, and none follows the next report. -/
theorem mayWrite (h : e.Takes job now store state x y store' state') {r : StoredRun}
    (hr : store.find? job.run = some r) (ht : r.status.isTerminal = true)
    (hx : x.startsBatch = true ∨ x.mayWrite = false) : y.mayWrite = false := by
  cases h with
  | claimed hchange => cases RunStore.change_of_isTerminal hr ht hchange
  | reported hprogress => cases RunStore.progress_of_isTerminal hr ht hprogress
  | gathered | notGathered | opened | notOpened => rcases hx with hx | hx <;> cases hx
  | _ => rfl

end Takes

end Engine

end TablePipeline
