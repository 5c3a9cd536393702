import TablePipeline.Failure
import TablePipeline.Run.Store

/-!
# Abandoned runs

A run that has not ended and was not updated for longer than a threshold is failed. The change is
bound to the status and the time that were looked at, so a run that moves in between is left alone.
Looking at a run, failing it and reloading it are three uses of the store.
-/

set_option autoImplicit false

namespace TablePipeline

inductive ReconcileOutcome
  | notFound
  | terminal (status : RunStatus)
  | fresh
  /-- The run was failed; its record is as it is now kept. -/
  | reaped (record : RunRecord)
  deriving DecidableEq, Repr

def ReconcileOutcome.isChange : ReconcileOutcome → Bool
  | reaped _ => true
  | _ => false

/-- How long a run may be idle, in nanoseconds. -/
structure Reconciler where
  staleAfter : Nat
  deriving DecidableEq, Repr

/-- Where a look at one run stands. -/
inductive Reconciling
  | look
  | fail (seen : RunRecord)
  | reload
  | done (result : Except StoreFault ReconcileOutcome)

namespace Reconciler

def ofSeconds (seconds : Nat) : Reconciler := ⟨seconds * 1000000000⟩

def staleSeconds (c : Reconciler) : Nat := c.staleAfter / 1000000000

/-- Twelve minutes. -/
def standard : Reconciler := ofSeconds 720

def isStale (c : Reconciler) (record : RunRecord) (now : Timestamp) : Bool :=
  (c.staleAfter : Int) < now.nanosSince record.updatedAt

def timeoutFailure (c : Reconciler) (record : RunRecord) : RunFailure where
  kind := FailureKind.staleTimeout.name
  message := "run timed out: no progress for more than " ++ Digits.text (c.staleSeconds / 60) ++
    " minutes while " ++ record.status.name ++ " (last update " ++ record.updatedAt.rfc3339 ++ ")"

def timeoutChange (c : Reconciler) (record : RunRecord) : RunChange :=
  { RunChange.fail record.status (c.timeoutFailure record) none with
    observed := some record.updatedAt }

/-- What a run that was found calls for. -/
def judge (c : Reconciler) (now : Timestamp) : Option RunRecord → Reconciling
  | none => .done (.ok .notFound)
  | some r =>
    if r.status.isTerminal then .done (.ok (.terminal r.status))
    else if c.isStale r now then .fail r
    else .done (.ok .fresh)

/-- One use of the store. Staleness is judged by `now`, the change is dated by `clock`. -/
def step (c : Reconciler) (id : String) (now clock : Timestamp) (store : RunStore) :
    Reconciling → Reconciling × RunStore
  | .look =>
    match store.fetch id with
    | .ok found => (c.judge now found, store)
    | .error e => (.done (.error e), store)
  | .fail seen =>
    match store.change id (c.timeoutChange seen) clock with
    | .ok (true, store) => (.reload, store)
    | .ok (false, store) => (.done (.ok .fresh), store)
    | .error e => (.done (.error e), store)
  | .reload =>
    match store.fetch id with
    | .ok (some r) => (.done (.ok (.reaped r)), store)
    | .ok none => (.done (.ok .notFound), store)
    | .error e => (.done (.error e), store)
  | .done r => (.done r, store)

/-- All uses of the store for one run, with nothing else in between. -/
def reconcile (c : Reconciler) (id : String) (now clock : Timestamp) (store : RunStore) :
    Except StoreFault ReconcileOutcome × RunStore :=
  let (p, store) := c.step id now clock store .look
  let (p, store) := c.step id now clock store p
  let (p, store) := c.step id now clock store p
  match p with
  | .done r => (r, store)
  | _ => (.ok .fresh, store)

/-- Looks at some runs in turn and gives the ids of those that were failed. A run whose record
cannot be read is passed over. -/
def reconcileAll (c : Reconciler) (now clock : Timestamp) :
    List String → RunStore → List String × RunStore
  | [], store => ([], store)
  | id :: ids, store =>
    let (result, store) := c.reconcile id now clock store
    let (rest, store) := c.reconcileAll now clock ids store
    match result with
    | .ok outcome => (if outcome.isChange then id :: rest else rest, store)
    | .error _ => (rest, store)

/-- Looks at every run that has not ended. -/
def sweep (c : Reconciler) (now clock : Timestamp) (store : RunStore) :
    Except StoreFault (List String × RunStore) := do
  let records ← store.active
  return c.reconcileAll now clock (records.map (·.id)) store

end Reconciler

end TablePipeline
