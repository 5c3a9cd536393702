import Mathlib.Logic.Function.Basic
import TablePipeline.Proofs.Execution.Steps
import TablePipeline.Proofs.Run.Sweeping

/-!
# Executions beside others

Any number of calls share the store of runs and the services: executions, looks at one run and
sweeps. One call at a time takes one step, in any order; a call that is never given a turn again
has stopped for good. The order of turns is without end, so one that does end goes on with calls
that are done.
-/

set_option autoImplicit false

namespace TablePipeline

variable {ι σ ω : Type}

/-- A call beside others, with the point that it has come to. -/
inductive Call (σ ω : Type)
  | execute (e : Engine σ ω) (job : Job) (phase : Execution ω)
  | reconcile (c : Reconciler) (id : String) (now : Timestamp) (phase : Reconciling)
  | sweep (c : Reconciler) (now : Timestamp) (phase : Sweeping)

namespace Call

def Fresh : Call σ ω → Prop
  | execute _ _ phase => phase = .claim
  | reconcile _ _ _ phase => phase = .look
  | sweep _ _ phase => phase = .list

def step (clock : Timestamp) (store : RunStore) (state : σ) :
    Call σ ω → Call σ ω × RunStore × σ
  | execute e job phase =>
    let next := e.step job clock store state phase
    (execute e job next.1, next.2.1, next.2.2)
  | reconcile c id now phase =>
    let next := c.step id now clock store phase
    (reconcile c id now next.1, next.2, state)
  | sweep c now phase =>
    let next := c.sweepStep now clock store phase
    (sweep c now next.1, next.2, state)

theorem step_evolves (clock : Timestamp) (store : RunStore) (state : σ) (call : Call σ ω) :
    store.Evolves (call.step clock store state).2.1 := by
  cases call with
  | execute e job phase => exact (e.step_takes job clock store state phase).evolves
  | reconcile c id now phase => exact c.step_evolves id now clock store phase
  | sweep c now phase => exact c.sweepStep_evolves now clock store phase

end Call

/-- All calls with what they share. -/
structure World (ι σ ω : Type) where
  store : RunStore
  state : σ
  calls : ι → Call σ ω

def World.step [DecidableEq ι] (w : World ι σ ω) (i : ι) (clock : Timestamp) : World ι σ ω :=
  let next := (w.calls i).step clock w.store w.state
  ⟨next.2.1, next.2.2, Function.update w.calls i next.1⟩

/-- Calls that have not begun, and the order in which they take turns, each at a time of its own. -/
structure Interleaving (ι σ ω : Type) where
  start : World ι σ ω
  fresh : ∀ i, (start.calls i).Fresh
  turns : Nat → ι × Timestamp

namespace Interleaving

variable [DecidableEq ι]

def world (v : Interleaving ι σ ω) : Nat → World ι σ ω
  | 0 => v.start
  | n + 1 => (v.world n).step (v.turns n).1 (v.turns n).2

variable (v : Interleaving ι σ ω)

def Kept (id : String) (n : Nat) (r : StoredRun) : Prop := (v.world n).store.find? id = some r

def At (i : ι) (e : Engine σ ω) (job : Job) (n : Nat) (phase : Execution ω) : Prop :=
  (v.world n).calls i = .execute e job phase

def Executes (i : ι) (id : String) : Prop := ∃ e job, v.At i e job 0 .claim ∧ job.run = id

/-- A turn lets an execution past its claim. -/
def LetIn (i : ι) (n : Nat) : Prop :=
  ∃ e job, v.At i e job n .claim ∧ v.At i e job (n + 1) .gather

def Completes (i : ι) (n : Nat) (s : RunSuccess) : Prop :=
  ∃ e job load, v.At i e job n (.complete load s.rowsWritten) ∧ v.At i e job (n + 1) (.done (.ok s))

def Returns (i : ι) (n : Nat) (result : RunResult) : Prop :=
  ∃ e job, v.At i e job n (.done result)

def StartsBatch (i : ι) (n : Nat) : Prop :=
  (v.turns n).1 = i ∧ ∃ e job phase, v.At i e job n phase ∧ phase.startsBatch = true

/-- A turn of a look at one run, alone or within a sweep, fails the run it saw. -/
def Reaps (c : Reconciler) (id : String) (seen : RunRecord) (n : Nat) : Prop :=
  ∃ i now,
    ((v.world n).calls i = .reconcile c id now (.fail seen) ∧
      (v.world (n + 1)).calls i = .reconcile c id now .reload) ∨
    ∃ rest reaped, (v.world n).calls i = .sweep c now (.visit (.fail seen) id rest reaped) ∧
      (v.world (n + 1)).calls i = .sweep c now (.visit .reload id rest reaped)

variable {v} {i j : ι} {e : Engine σ ω} {job : Job} {id : String} {m n : Nat}
  {r : StoredRun} {phase : Execution ω}

/-! ### What is kept of a run -/

theorem world_evolves (n : Nat) : (v.world n).store.Evolves (v.world (n + 1)).store :=
  Call.step_evolves _ _ _ _

/-- A run that has ended is kept as it is from then on. -/
theorem Kept.of_le (h : v.Kept id m r) (ht : r.status.isTerminal = true) (hmn : m ≤ n) :
    v.Kept id n r := by
  induction hmn with
  | refl => exact h
  | step _ ih =>
    obtain ⟨r', hr', hmoves⟩ := world_evolves _ id r ih
    obtain rfl := hmoves.eq_of_isTerminal ht
    exact hr'

theorem Kept.not_pending (h : v.Kept id m r) (hp : r.status ≠ .pending) (hmn : m ≤ n) :
    ∃ r', v.Kept id n r' ∧ r'.status ≠ .pending := by
  induction hmn with
  | refl => exact ⟨r, h, hp⟩
  | step _ ih =>
    obtain ⟨r', hr', hp'⟩ := ih
    obtain ⟨r'', hr'', hmoves⟩ := world_evolves _ id r' hr'
    exact ⟨r'', hr'', hmoves.not_pending hp'⟩

theorem Kept.unique {r' : StoredRun} (h : v.Kept id n r) (h' : v.Kept id n r') : r = r' :=
  Option.some.inj (h.symm.trans h')

/-! ### Where an execution stands -/

def next (v : Interleaving ι σ ω) (e : Engine σ ω) (job : Job) (n : Nat) (phase : Execution ω) :
    Execution ω × RunStore × σ :=
  e.step job (v.turns n).2 (v.world n).store (v.world n).state phase

theorem At.unique {e' : Engine σ ω} {job' : Job} {phase' : Execution ω}
    (h : v.At i e job n phase) (h' : v.At i e' job' n phase') :
    e = e' ∧ job = job' ∧ phase = phase' := by
  cases h.symm.trans h'
  exact ⟨rfl, rfl, rfl⟩

theorem At.stays (h : v.At i e job n phase) (hi : (v.turns n).1 ≠ i) :
    v.At i e job (n + 1) phase := by
  unfold At
  exact (Function.update_of_ne (Ne.symm hi) ..).trans h

theorem At.world_succ (h : v.At i e job n phase) (hi : (v.turns n).1 = i) :
    v.world (n + 1) = ⟨(v.next e job n phase).2.1, (v.next e job n phase).2.2,
      Function.update (v.world n).calls i (.execute e job (v.next e job n phase).1)⟩ := by
  unfold At at h
  rw [world, World.step, hi, h]
  rfl

theorem At.moves (h : v.At i e job n phase) (hi : (v.turns n).1 = i) :
    v.At i e job (n + 1) (v.next e job n phase).1 := by
  unfold At
  rw [h.world_succ hi]
  exact Function.update_self ..

theorem At.succ (h : v.At i e job n phase) :
    v.At i e job (n + 1) phase ∨
      (v.turns n).1 = i ∧ v.At i e job (n + 1) (v.next e job n phase).1 := by
  by_cases hi : (v.turns n).1 = i
  · exact .inr ⟨hi, h.moves hi⟩
  · exact .inl (h.stays hi)

/-- What each turn of an execution keeps holds of it at all later moments. -/
theorem At.exists_of_le {P : Execution ω → Prop} (h : v.At i e job m phase) (hP : P phase)
    (hstep : ∀ k phase, m ≤ k → k < n → (v.turns k).1 = i → v.At i e job k phase → P phase →
      P (v.next e job k phase).1) (hmn : m ≤ n) :
    ∃ phase, v.At i e job n phase ∧ P phase := by
  induction hmn with
  | refl => exact ⟨phase, h, hP⟩
  | @step n hmn ih =>
    obtain ⟨phase', h', hP'⟩ := ih fun k phase hk hlt => hstep k phase hk (Nat.lt_succ_of_lt hlt)
    rcases h'.succ with hstays | ⟨hi, hmoves⟩
    · exact ⟨phase', hstays, hP'⟩
    · exact ⟨_, hmoves, hstep n phase' hmn (Nat.lt_succ_self n) hi h' hP'⟩

theorem At.exists_at (h : v.At i e job m phase) (hmn : m ≤ n) : ∃ phase, v.At i e job n phase := by
  obtain ⟨phase', h', _⟩ := h.exists_of_le (P := fun _ => True) trivial
    (fun _ _ _ _ _ _ _ => trivial) hmn
  exact ⟨phase', h'⟩

/-- A turn that changes the phase of an execution is its own. -/
theorem At.turn (h : v.At i e job n phase) {phase' : Execution ω}
    (h' : v.At i e job (n + 1) phase') (hne : phase' ≠ phase) :
    (v.turns n).1 = i ∧ (v.next e job n phase).1 = phase' := by
  rcases h.succ with hstays | ⟨hi, hmoves⟩
  · exact (hne (h'.unique hstays).2.2).elim
  · exact ⟨hi, (hmoves.unique h').2.2⟩

end Interleaving

end TablePipeline
