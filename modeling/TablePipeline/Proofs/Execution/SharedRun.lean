import Mathlib.Algebra.Group.Nat.Defs
import Mathlib.Data.Nat.Find
import TablePipeline.Proofs.Execution.Gather
import TablePipeline.Proofs.Execution.Interleaving

/-!
# Runs that several calls work on

Whatever order calls take turns in, at most one execution of a run is let in, its success is told by
the record for good, a run that was reaped keeps the words of the reconciler, and once the run has
ended at most one more batch is written. The run of an execution is a matter of its job alone, so
everything is said of the calls that execute one run among calls of all kinds on all runs.
-/

set_option autoImplicit false

namespace TablePipeline.Interleaving

variable {ι σ ω : Type} [DecidableEq ι] {v : Interleaving ι σ ω} {i j : ι} {e : Engine σ ω}
  {job : Job} {id : String} {m n : Nat} {r : StoredRun} {phase : Execution ω} {s : RunSuccess}

/-! ### Executions that are let in -/

theorem Executes.exists_at (h : v.Executes i id) :
    ∃ e job, job.run = id ∧ v.At i e job 0 .claim ∧ ∀ n, ∃ phase, v.At i e job n phase := by
  obtain ⟨e, job, hat, hid⟩ := h
  refine ⟨e, job, hid, hat, fun n => hat.exists_at (Nat.zero_le n)⟩

theorem Executes.run_eq (h : v.Executes i id) (hat : v.At i e job n phase) : job.run = id := by
  obtain ⟨e', job', hid, _, hall⟩ := h.exists_at
  obtain ⟨phase', hat'⟩ := hall n
  obtain ⟨_, rfl, _⟩ := hat.unique hat'
  exact hid

/-- The turn that lets an execution in finds its run pending and leaves it processing. -/
theorem LetIn.kept (h : v.Executes i id) (hin : v.LetIn i n) :
    (v.turns n).1 = i ∧ (∃ r, v.Kept id n r ∧ r.status = .pending) ∧
      ∃ r, v.Kept id (n + 1) r ∧ r.status = .processing := by
  obtain ⟨e, job, hclaim, hgather⟩ := hin
  obtain ⟨hi, hnext⟩ := hclaim.turn hgather (by simp)
  obtain ⟨r, r', hr, hpending, hr', hprocessing⟩ := (Engine.takes_of_step hnext).claim
  rw [h.run_eq hclaim] at hr hr'
  refine ⟨hi, ⟨r, hr, hpending⟩, r', ?_, hprocessing⟩
  unfold Kept
  rw [hclaim.world_succ hi]
  exact hr'

theorem LetIn.not_lt (hi : v.Executes i id) (hj : v.Executes j id) (him : v.LetIn i m)
    (hjn : v.LetIn j n) : ¬ m < n := by
  intro hlt
  obtain ⟨_, _, r, hr, hprocessing⟩ := him.kept hi
  obtain ⟨_, ⟨r', hr', hpending⟩, _⟩ := hjn.kept hj
  have hp : r.status ≠ .pending := by
    rw [hprocessing]
    exact RunStatus.noConfusion
  obtain ⟨r'', hr'', hp⟩ := hr.not_pending hp hlt
  obtain rfl := hr'.unique hr''
  exact hp hpending

theorem LetIn.unique (hi : v.Executes i id) (hj : v.Executes j id) (him : v.LetIn i m)
    (hjn : v.LetIn j n) : i = j ∧ m = n := by
  have hmn : m = n := by
    have := LetIn.not_lt hi hj him hjn
    have := LetIn.not_lt hj hi hjn him
    omega
  subst hmn
  exact ⟨(him.kept hi).1.symm.trans (hjn.kept hj).1, rfl⟩

theorem Executes.outside (hat : v.At i e job 0 .claim) (hout : ∀ n, ¬ v.LetIn i n) (n : Nat) :
    ∃ phase, v.At i e job n phase ∧ phase.Outside := by
  refine hat.exists_of_le trivial (fun k phase _ _ hi hk hphase => ?_) (Nat.zero_le n)
  obtain ⟨_, hnext | ⟨rfl, hgather⟩⟩ :=
    (e.step_takes job (v.turns k).2 (v.world k).store (v.world k).state phase).outside hphase
  · exact hnext
  · have hmoves := hk.moves hi
    rw [next, hgather] at hmoves
    exact (hout k ⟨e, job, hk, hmoves⟩).elim

/-- The first turn after which an execution is done is the one that completed the run. -/
theorem At.completes (hclaim : v.At i e job 0 .claim) (hdone : v.At i e job n (.done (.ok s))) :
    ∃ m < n, v.Completes i m s ∧ ∃ r, v.Kept job.run (m + 1) r ∧ r.status = .completed ∧
      r.rowsWritten = Int64.ofNat s.rowsWritten := by
  induction n with
  | zero => cases (hclaim.unique hdone).2.2
  | succ n ih =>
    obtain ⟨phase, hat⟩ := hclaim.exists_at (Nat.zero_le n)
    by_cases hphase : phase = .done (.ok s)
    · subst hphase
      obtain ⟨m, hm, h⟩ := ih hat
      exact ⟨m, Nat.lt_succ_of_lt hm, h⟩
    · obtain ⟨hi, hnext⟩ := hat.turn hdone (Ne.symm hphase)
      obtain h | ⟨⟨load, rfl⟩, r, hr, hcompleted, hrows⟩ :=
        (Engine.takes_of_step hnext).done_ok
      · exact (hphase h).elim
      · refine ⟨n, Nat.lt_succ_self n, ⟨e, job, load, hat, hdone⟩, r, ?_, hcompleted, hrows⟩
        unfold Kept
        rw [hat.world_succ hi]
        exact hr

theorem record_status {record : RunRecord} (h : r.record = .ok record) :
    record.status = r.status ∧ record.rowsWritten = r.rowsWritten.toInt.toNat := by
  obtain ⟨_, _, h⟩ := Outcome.bind_eq_ok.mp h
  obtain ⟨_, _, h⟩ := Outcome.bind_eq_ok.mp h
  obtain rfl := Outcome.pure_eq_ok.mp h
  exact ⟨rfl, rfl⟩

/-- An execution that returns a success has completed its run for good. -/
theorem Executes.success (h : v.Executes i id) (hr : v.Returns i n (.ok s)) :
    ∃ m < n, v.Completes i m s ∧ ∃ r, (∀ k, m < k → v.Kept id k r) ∧ r.status = .completed ∧
      r.rowsWritten = Int64.ofNat s.rowsWritten ∧
      ∀ record, r.record = .ok record → record.status = .completed ∧
        (s.rowsWritten < 2 ^ 63 → record.rowsWritten = s.rowsWritten) := by
  obtain ⟨e, job, rfl, hclaim, _⟩ := h.exists_at
  obtain ⟨e', job', hdone⟩ := hr
  obtain ⟨rfl, rfl⟩ : e = e' ∧ job = job' := by
    obtain ⟨phase, hat⟩ := hclaim.exists_at (Nat.zero_le n)
    exact ⟨(hat.unique hdone).1, (hat.unique hdone).2.1⟩
  obtain ⟨m, hm, hcompletes, r, hr, hcompleted, hrows⟩ := hclaim.completes hdone
  refine ⟨m, hm, hcompletes, r, fun k hk => hr.of_le ?_ hk, hcompleted, hrows, ?_⟩
  · rw [hcompleted]
    rfl
  · intro record hrecord
    obtain ⟨hstatus, hwritten⟩ := record_status hrecord
    refine ⟨hstatus.trans hcompleted, fun hlt => ?_⟩
    rw [hwritten, hrows, Int64.toInt_ofNat_of_lt hlt]
    rfl

/-! ### Reaping -/

theorem calls_stay (hi : (v.turns n).1 ≠ i) : (v.world (n + 1)).calls i = (v.world n).calls i :=
  Function.update_of_ne (Ne.symm hi) ..

theorem calls_step (hi : (v.turns n).1 = i) :
    (v.world (n + 1)).calls i =
        (((v.world n).calls i).step (v.turns n).2 (v.world n).store (v.world n).state).1 ∧
      (v.world (n + 1)).store =
        (((v.world n).calls i).step (v.turns n).2 (v.world n).store (v.world n).state).2.1 := by
  subst hi
  exact ⟨Function.update_self .., rfl⟩

theorem reload_of_after {rest reaped rest' reaped' : List String} {id' : String}
    {looked : Reconciling}
    (h : Sweeping.after id rest reaped looked = .visit .reload id' rest' reaped') :
    looked = .reload := by
  cases looked with
  | done result =>
    cases result with
    | error e => cases rest <;> cases h
    | ok outcome => cases rest <;> cases h
  | reload => rfl
  | look => cases h
  | fail seen => cases h

theorem Reaps.kept {c : Reconciler} {seen : RunRecord} (h : v.Reaps c id seen n) :
    ∃ r, v.Kept id (n + 1) r ∧ r.status = .failed ∧
      r.errorKind = some (c.timeoutFailure seen).kind ∧
      r.errorMessage = some (c.timeoutFailure seen).message := by
  obtain ⟨i, now, ⟨hfail, hreload⟩ | ⟨rest, reaped, hfail, hreload⟩⟩ := h
  · have hi : (v.turns n).1 = i := by
      by_contra hi
      rw [calls_stay hi, hfail] at hreload
      cases hreload
    obtain ⟨hcalls, hstore⟩ := calls_step hi
    rw [hfail, Call.step] at hcalls hstore
    rw [hreload] at hcalls
    unfold Kept
    rw [hstore]
    exact Reconciler.step_fail (Call.reconcile.inj hcalls).2.2.2.symm
  · have hi : (v.turns n).1 = i := by
      by_contra hi
      rw [calls_stay hi, hfail] at hreload
      cases hreload
    obtain ⟨hcalls, hstore⟩ := calls_step hi
    rw [hfail, Call.step] at hcalls hstore
    rw [hreload] at hcalls
    unfold Kept
    rw [hstore]
    exact Reconciler.step_fail (reload_of_after (Call.sweep.inj hcalls).2.2.symm)

/-- A run that was reaped stays so, and no execution of it returns a success. -/
theorem Reaps.failure {c : Reconciler} {seen : RunRecord} (h : v.Reaps c id seen m) :
    (∃ r, (∀ k, m < k → v.Kept id k r) ∧ r.status = .failed ∧
      r.errorKind = some (c.timeoutFailure seen).kind ∧
      r.errorMessage = some (c.timeoutFailure seen).message) ∧
    ∀ i n result, v.Executes i id → v.Returns i n result → ∃ f, result = .error f := by
  obtain ⟨r, hr, hfailed, hkind, hmessage⟩ := h.kept
  have hkept : ∀ k, m < k → v.Kept id k r := by
    intro k hk
    refine hr.of_le ?_ hk
    rw [hfailed]
    rfl
  refine ⟨⟨r, hkept, hfailed, hkind, hmessage⟩, ?_⟩
  intro i n result hi hresult
  cases result with
  | error f => exact ⟨f, rfl⟩
  | ok s =>
    obtain ⟨m', _, _, r', hkept', hcompleted, _⟩ := hi.success hresult
    obtain rfl := (hkept (m + m' + 1) (by omega)).unique (hkept' (m + m' + 1) (by omega))
    rw [hfailed] at hcompleted
    cases hcompleted

/-! ### Batches after the end -/

theorem mayWrite_of_startsBatch (h : phase.startsBatch = true) : phase.mayWrite = true := by
  cases phase with
  | write => exact h
  | _ => cases h

/-- Once a run has ended, its execution starts at most one batch more: behind that batch none may be
written, and no later turn changes this. -/
theorem StartsBatch.not_lt (h : v.Executes i id) {k : Nat} (hr : v.Kept id k r)
    (ht : r.status.isTerminal = true) (hkm : k ≤ m) (hm : v.StartsBatch i m)
    (hn : v.StartsBatch i n) : ¬ m < n := by
  intro hlt
  obtain ⟨hi, e, job, phase, hat, hstarts⟩ := hm
  obtain ⟨_, e', job', phase', hat', hstarts'⟩ := hn
  have hid := h.run_eq hat
  subst hid
  have hstep : ∀ l phase, k ≤ l → phase.startsBatch = true ∨ phase.mayWrite = false →
      (v.next e job l phase).1.mayWrite = false := by
    intro l phase hl hphase
    exact (e.step_takes job _ _ _ phase).mayWrite (hr.of_le ht hl) ht hphase
  obtain ⟨phase'', hat'', hnot⟩ := (hat.moves hi).exists_of_le (hstep m phase hkm (.inl hstarts))
    (fun l phase hl _ _ _ hphase => hstep l phase (by omega) (.inr hphase)) hlt
  obtain ⟨_, _, rfl⟩ := hat''.unique hat'
  rw [mayWrite_of_startsBatch hstarts'] at hnot
  cases hnot

/-- Once a run is no longer processing, its execution starts at most one more batch. -/
theorem StartsBatch.unique (h : v.Executes i id) {j k : Nat} {r' : StoredRun} (hr : v.Kept id j r)
    (hprocessing : r.status = .processing) (hjk : j ≤ k) (hr' : v.Kept id k r')
    (hleft : r'.status ≠ .processing) (hkm : k ≤ m) (hkn : k ≤ n) (hm : v.StartsBatch i m)
    (hn : v.StartsBatch i n) : m = n := by
  have ht : r'.status.isTerminal = true := by
    have hp : r.status ≠ .pending := by simp [hprocessing]
    obtain ⟨_, hr'', hpending⟩ := hr.not_pending hp hjk
    obtain rfl := hr'.unique hr''
    cases hstatus : r'.status with
    | pending => exact (hpending hstatus).elim
    | processing => exact (hleft hstatus).elim
    | completed => rfl
    | failed => rfl
  have := StartsBatch.not_lt h hr' ht hkm hm hn
  have := StartsBatch.not_lt h hr' ht hkn hn hm
  omega

/-! ### Executions that go on -/

def told : Call σ ω → Option ((Nat × Nat) × Option RunResult)
  | .execute _ _ (.done result) => some ((0, 0), some result)
  | .execute _ _ phase => some (phase.rank, none)
  | _ => none

def leapDay : Timestamp := .midnight ⟨2024, 2, 29, by decide, by decide, by decide⟩

/-- Two executions of one pending run by turns; each would write two rows one at a time. -/
def twice : Interleaving Bool Unit Unit where
  start := {
    store := ⟨[⟨"run", none, none, .pending, 0, none, none, leapDay.stored, leapDay.stored⟩], true⟩
    state := ()
    calls := fun _ => .execute
      ⟨Services.answering ⟨["id"], [[.text "1"], [.text "2"]]⟩, ⟨none⟩, ⟨1, 100, 8000⟩⟩
      { run := "run"
        pipeline := {
          nodes := [
            ⟨"orders", .source, .object [("connection", .text "sheets"),
              ("table", .text "orders")]⟩,
            ⟨"out", .sink, .object []⟩]
          edges := [⟨"orders", "out"⟩]
          sink := ⟨"result", [], .append⟩
          policy := .nullOut }
        connections := [⟨"sheets", .excel, "", none, "", "", none, none, none⟩] }
      .claim }
  fresh _ := rfl
  turns n := (n % 2 == 0, leapDay)

end TablePipeline.Interleaving
