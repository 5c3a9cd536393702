import Mathlib.Logic.Relation
import TablePipeline.Proofs.Run.Changes
import TablePipeline.Run.Sweep

/-!
# Sweeping in steps

A sweep uses the store once to list the runs that have not ended and up to three times for each of
them. Cut into these uses it can be followed while others use the store in between; with nobody
else around the steps give what the sweep gives.
-/

set_option autoImplicit false

namespace TablePipeline

inductive Sweeping
  | list
  /-- One run is looked at; `rest` is left, `reaped` was failed. -/
  | visit (phase : Reconciling) (id : String) (rest reaped : List String)
  | done (result : Except StoreFault (List String))

namespace Sweeping

def next (reaped : List String) : List String → Sweeping
  | [] => done (.ok reaped)
  | id :: rest => visit .look id rest reaped

/-- Where a sweep stands when the look at one run has come to a phase. -/
def after (id : String) (rest reaped : List String) : Reconciling → Sweeping
  | .done (.ok outcome) => next (if outcome.isChange then reaped ++ [id] else reaped) rest
  | .done (.error _) => next reaped rest
  | phase => visit phase id rest reaped

end Sweeping

namespace Reconciling

/-- How many uses of the store are left at most. -/
def rank : Reconciling → Nat
  | look => 3
  | fail _ => 2
  | reload => 1
  | done _ => 0

theorem eq_done_of_rank {phase : Reconciling} (h : phase.rank = 0) :
    ∃ result, phase = .done result := by
  cases phase with
  | done result => exact ⟨result, rfl⟩
  | _ => cases h

end Reconciling

namespace Reconciler

variable (c : Reconciler) (id : String) (now clock : Timestamp) (store : RunStore)

def sweepStep : Sweeping → Sweeping × RunStore
  | .list =>
    match store.active with
    | .ok records => (.next [] (records.map (·.id)), store)
    | .error e => (.done (.error e), store)
  | .visit phase id rest reaped =>
    let next := c.step id now clock store phase
    (.after id rest reaped next.1, next.2)
  | .done result => (.done result, store)

theorem step_evolves (phase : Reconciling) : store.Evolves (c.step id now clock store phase).2 := by
  cases phase with
  | look =>
    simp only [step]
    split <;> exact .refl store
  | fail seen =>
    simp only [step]
    split
    · rename_i h
      exact RunStore.change_evolves h
    · rename_i h
      exact RunStore.change_evolves h
    · exact .refl store
  | reload =>
    simp only [step]
    split <;> exact .refl store
  | done result => exact .refl store

theorem sweepStep_evolves (x : Sweeping) : store.Evolves (c.sweepStep now clock store x).2 := by
  cases x with
  | list =>
    simp only [sweepStep]
    split <;> exact .refl store
  | visit phase id rest reaped => exact c.step_evolves id now clock store phase
  | done result => exact .refl store

theorem rank_judge (found : Option RunRecord) : (c.judge now found).rank ≤ 2 := by
  unfold judge
  split
  · exact Nat.zero_le _
  · split
    · exact Nat.zero_le _
    · split
      · exact Nat.le_refl _
      · exact Nat.zero_le _

theorem rank_step (phase : Reconciling) :
    (c.step id now clock store phase).1.rank ≤ phase.rank - 1 := by
  cases phase with
  | look =>
    simp only [step]
    split
    · exact c.rank_judge now _
    · exact Nat.zero_le _
  | fail seen =>
    simp only [step]
    split
    · exact Nat.le_refl _
    · exact Nat.zero_le _
    · exact Nat.zero_le _
  | reload =>
    simp only [step]
    split <;> exact Nat.zero_le _
  | done result => exact Nat.zero_le _

/-- Steps of a sweep with nothing else in between. -/
abbrev SweepsTo (c : Reconciler) (now clock : Timestamp) :
    Sweeping × RunStore → Sweeping × RunStore → Prop :=
  Relation.ReflTransGen fun p q => c.sweepStep now clock p.2 p.1 = q

theorem sweepsTo_after (rest reaped : List String) (phase : Reconciling) :
    c.SweepsTo now clock (.after id rest reaped phase, store)
      (.after id rest reaped (c.step id now clock store phase).1,
        (c.step id now clock store phase).2) := by
  cases phase with
  | done result => exact .refl
  | _ => exact .single rfl

/-- The look at one run takes a sweep on to the next one, as its outcome says. It uses the store
three times at most. -/
theorem sweepsTo_reconcile (rest reaped : List String) :
    c.SweepsTo now clock (.visit .look id rest reaped, store)
      (.after id rest reaped (.done (c.reconcile id now clock store).1),
        (c.reconcile id now clock store).2) := by
  have h₁ := c.sweepsTo_after id now clock store rest reaped .look
  have hrank₁ : (c.step id now clock store .look).1.rank ≤ 3 - 1 :=
    c.rank_step id now clock store .look
  unfold reconcile
  dsimp only
  generalize c.step id now clock store .look = look at *
  have h₂ := c.sweepsTo_after id now clock look.2 rest reaped look.1
  have hrank₂ := c.rank_step id now clock look.2 look.1
  generalize c.step id now clock look.2 look.1 = fail at *
  have h₃ := c.sweepsTo_after id now clock fail.2 rest reaped fail.1
  have hrank₃ := c.rank_step id now clock fail.2 fail.1
  generalize c.step id now clock fail.2 fail.1 = reload at *
  obtain ⟨result, hresult⟩ := Reconciling.eq_done_of_rank (by omega : reload.1.rank = 0)
  rw [hresult] at h₃ ⊢
  exact h₁.trans (h₂.trans h₃)

theorem sweepsTo_reconcileAll (ids reaped : List String) :
    c.SweepsTo now clock (.next reaped ids, store)
      (.done (.ok (reaped ++ (c.reconcileAll now clock ids store).1)),
        (c.reconcileAll now clock ids store).2) := by
  induction ids generalizing reaped store with
  | nil =>
    rw [reconcileAll, List.append_nil]
    exact .refl
  | cons id ids ih =>
    apply (c.sweepsTo_reconcile id now clock store ids reaped).trans
    rw [reconcileAll]
    dsimp only
    generalize c.reconcile id now clock store = looked
    obtain ⟨result, store₁⟩ := looked
    cases result with
    | error e => exact ih store₁ reaped
    | ok outcome =>
      apply (ih store₁ _).trans
      dsimp only
      split
      · rw [List.append_assoc]
        exact .refl
      · exact .refl

/-- With nobody else around the steps of a sweep give what the sweep gives. -/
theorem sweepsTo_sweep :
    match c.sweep now clock store with
    | .ok (reaped, store') => c.SweepsTo now clock (.list, store) (.done (.ok reaped), store')
    | .error e => c.SweepsTo now clock (.list, store) (.done (.error e), store) := by
  unfold sweep
  cases hactive : store.active with
  | error e =>
    refine .single ?_
    dsimp only [sweepStep]
    rw [hactive]
  | ok records =>
    refine .head (b := (.next [] (records.map (·.id)), store)) ?_
      (c.sweepsTo_reconcileAll now clock store _ [])
    dsimp only [sweepStep]
    rw [hactive]

variable {c id now clock store}

/-- A run that was reaped is kept as failed with the words of the reconciler. -/
theorem step_fail {seen : RunRecord} (h : (c.step id now clock store (.fail seen)).1 = .reload) :
    ∃ r, (c.step id now clock store (.fail seen)).2.find? id = some r ∧ r.status = .failed ∧
      r.errorKind = some (c.timeoutFailure seen).kind ∧
      r.errorMessage = some (c.timeoutFailure seen).message := by
  simp only [step] at h ⊢
  split at h
  · rename_i store' hchange
    obtain ⟨_, _, _, r, _, _, hr⟩ | ⟨hb, _⟩ := RunStore.change_eq_ok hchange
    · exact ⟨_, hr, rfl, rfl, rfl⟩
    · cases hb
  · cases h
  · cases h

end Reconciler

end TablePipeline
