import TablePipeline.Proofs.Run.Regular
import TablePipeline.Proofs.Run.Sweeping

/-!
# What a sweep reaps

With nobody else around a sweep fails just the runs that were idle for too long, and the next one
finds nothing to do. A run that moves after it was looked at is left as it is.
-/

set_option autoImplicit false

namespace TablePipeline

def StoredRun.timedOut (r : StoredRun) (message : String) (clock : Timestamp) : StoredRun :=
  { r with
    status := .failed
    errorKind := some FailureKind.staleTimeout.name
    errorMessage := some message
    updatedAt := clock.stored }

namespace Reconciler

/-- Whether a run that is kept is pending or processing and was idle for longer than the
threshold. -/
def abandoned (c : Reconciler) (now : Timestamp) (r : StoredRun) : Bool :=
  (r.status == .pending || r.status == .processing) &&
    (StoredRun.readTime r.updatedAt).toOption.any fun t =>
      (c.staleAfter : Int) < now.nanosSince t

def reap (c : Reconciler) (clock : Timestamp) (r : StoredRun) : StoredRun :=
  match r.record with
  | .ok seen => r.timedOut (c.timeoutFailure seen).message clock
  | .error _ => r

variable (c : Reconciler) {s : RunStore} {id : String} {r : StoredRun} {seen : RunRecord}
  (now clock : Timestamp)

theorem reap_id (r : StoredRun) : (c.reap clock r).id = r.id := by
  unfold reap
  split <;> rfl

theorem apply_timeoutChange (r : StoredRun) (seen : RunRecord) :
    r.apply (c.timeoutChange seen) clock = r.timedOut (c.timeoutFailure seen).message clock := rfl

theorem reap_eq (hs : s.Regular) (hr : r ∈ s.runs) :
    ∃ message, c.reap clock r = r.timedOut message clock := by
  obtain ⟨seen, hseen, _⟩ := hs.record hr
  unfold reap
  rw [hseen]
  exact ⟨_, rfl⟩

theorem abandoned_reap (hs : s.Regular) (hr : r ∈ s.runs) :
    c.abandoned now (c.reap clock r) = false := by
  obtain ⟨message, hreap⟩ := c.reap_eq clock hs hr
  rw [hreap]
  rfl

/-! ### The look at one run -/

/-- A run calls for being failed just if it is abandoned. -/
theorem judge_record (hs : s.Regular) (hr : r ∈ s.runs) (hseen : r.record = .ok seen) :
    (c.abandoned now r = true ∧ c.judge now (some seen) = .fail seen) ∨
      (c.abandoned now r = false ∧ ∃ outcome : ReconcileOutcome, outcome.isChange = false ∧
        c.judge now (some seen) = .done (.ok outcome)) := by
  obtain ⟨hstatus, htime, -⟩ := hs.seen hr hseen
  unfold abandoned judge isStale
  rw [htime, ← hstatus]
  simp only [Except.toOption, Option.any_some]
  by_cases hstale : (c.staleAfter : Int) < now.nanosSince seen.updatedAt
  · cases seen.status <;> simp [hstale, RunStatus.isTerminal, ReconcileOutcome.isChange]
  · cases seen.status <;> simp [hstale, RunStatus.isTerminal, ReconcileOutcome.isChange]

/-- The change of a run that was looked at applies to it as long as its status and the text of its
last update stay. -/
theorem accepts_timeoutChange (hs : s.Regular) (hr : r ∈ s.runs) (hseen : r.record = .ok seen)
    (r' : StoredRun) : r'.accepts (c.timeoutChange seen) = true ↔
      r'.status = r.status ∧ r'.updatedAt = r.updatedAt := by
  obtain ⟨hstatus, -, hstored⟩ := hs.seen hr hseen
  rw [RunStore.accepts_iff]
  simp [timeoutChange, RunChange.fail, hstatus, hstored]

theorem legal_timeoutChange (hs : s.Regular) (hr : r ∈ s.runs) (hseen : r.record = .ok seen)
    (habandoned : c.abandoned now r = true) :
    (c.timeoutChange seen).start.canBecome (c.timeoutChange seen).target = true := by
  obtain ⟨hstatus, -⟩ := hs.seen hr hseen
  have hactive := (Bool.and_eq_true_iff.mp habandoned).1
  rw [Bool.or_eq_true, beq_iff_eq, beq_iff_eq] at hactive
  unfold timeoutChange RunChange.fail
  dsimp only
  rw [hstatus]
  rcases hactive with h | h <;> rw [h] <;> rfl

/-- The first look at a run finds it abandoned or ends. -/
theorem step_look (hs : s.Regular) (id : String) :
    (∃ r seen, s.find? id = some r ∧ r.record = .ok seen ∧ c.abandoned now r = true ∧
        c.step id now clock s .look = (.fail seen, s)) ∨
      ((s.find? id).any (c.abandoned now) = false ∧
        ∃ outcome : ReconcileOutcome, outcome.isChange = false ∧
          c.step id now clock s .look = (.done (.ok outcome), s)) := by
  rcases hs.fetch id with ⟨hnone, hfetch⟩ | ⟨r, seen, hr, hseen, hfetch⟩
  · refine .inr ⟨by rw [hnone, Option.any_none], .notFound, rfl, ?_⟩
    simp only [step, hfetch, judge]
  · have hmem := (hs.find?_eq_some.mp hr).1
    rcases c.judge_record now hs hmem hseen with ⟨h, hjudge⟩ | ⟨h, outcome, hsame, hjudge⟩
    · refine .inl ⟨r, seen, hr, hseen, h, ?_⟩
      simp only [step, hfetch, hjudge]
    · refine .inr ⟨by rw [hr, Option.any_some, h], outcome, hsame, ?_⟩
      simp only [step, hfetch, hjudge]

/-- A run that moved since it was looked at is left as it is. -/
theorem step_fail_of_ne (hs : s.Regular) (hr : s.find? id = some r) (hseen : r.record = .ok seen)
    (habandoned : c.abandoned now r = true) {s' : RunStore} {r' : StoredRun}
    (hopen : s'.isOpen = true) (hr' : s'.find? id = some r')
    (hne : ¬ (r'.status = r.status ∧ r'.updatedAt = r.updatedAt)) :
    c.step id now clock s' (.fail seen) = (.done (.ok .fresh), s') := by
  have hmem := (hs.find?_eq_some.mp hr).1
  have hrefused : r'.accepts (c.timeoutChange seen) = false := by
    rw [Bool.eq_false_iff, ne_eq, c.accepts_timeoutChange hs hmem hseen]
    exact hne
  have hchange : s'.change id (c.timeoutChange seen) clock = .ok (false, s') := by
    unfold RunStore.change RunStore.use
    rw [c.legal_timeoutChange now hs hmem hseen habandoned, hopen, hr']
    simp [hrefused, bind, Except.bind, pure, Except.pure]
  simp only [step, hchange]

theorem update_congr {p q : StoredRun → Bool} {f g : StoredRun → StoredRun}
    (h : ∀ r, s.find? id = some r → (if p r then f r else r) = if q r then g r else r)
    (hs : s.Regular) : s.update id p f = s.update id q g := by
  unfold RunStore.update
  congr 1
  refine List.map_congr_left fun r hr => ?_
  by_cases hid : r.id = id
  · simp only [hid, beq_self_eq_true, Bool.true_and]
    exact h r (hs.find?_eq_some.mpr ⟨hr, hid⟩)
  · simp [hid]

theorem update_eq_self {p : StoredRun → Bool} {f : StoredRun → StoredRun} (hs : s.Regular)
    (h : (s.find? id).any p = false) : s.update id p f = s := by
  rw [update_congr (q := fun _ => false) (g := f) ?_ hs]
  · simp [RunStore.update]
  · intro r hr
    rw [hr, Option.any_some] at h
    rw [h]

/-- All uses of the store for one run fail it if it is abandoned, and do nothing otherwise. -/
theorem reconcile_eq (hs : s.Regular) (hclock : clock.FourDigitYear) (id : String) :
    ∃ outcome : ReconcileOutcome,
      c.reconcile id now clock s = (.ok outcome, s.update id (c.abandoned now) (c.reap clock)) ∧
        outcome.isChange = (s.find? id).any (c.abandoned now) := by
  unfold reconcile
  rcases c.step_look now clock hs id with
    ⟨r, seen, hr, hseen, habandoned, hlook⟩ | ⟨hnone, outcome, hsame, hlook⟩
  · have hmem := (hs.find?_eq_some.mp hr).1
    have haccepts := (c.accepts_timeoutChange hs hmem hseen r).mpr ⟨rfl, rfl⟩
    obtain ⟨s', hchange, _, hr'⟩ := RunStore.Holds.change ⟨hs.isOpen, hr⟩ clock
      (c.legal_timeoutChange now hs hmem hseen habandoned) haccepts
    obtain ⟨_, _, hupdate, _⟩ | ⟨hfalse, _⟩ := RunStore.change_eq_ok hchange
    · have hregular : s'.Regular := by
        rw [hupdate]
        exact (hs.update hclock id _ (f := (·.apply (c.timeoutChange seen) clock))
          fun _ _ => ⟨rfl, rfl, rfl⟩).1
      have hs' : s' = s.update id (c.abandoned now) (c.reap clock) := by
        rw [hupdate]
        refine update_congr (fun r' hr' => ?_) hs
        obtain rfl := Option.some.inj (hr.symm.trans hr')
        rw [haccepts, habandoned, if_pos rfl, if_pos rfl, apply_timeoutChange, reap, hseen]
      have hfail : c.step id now clock s (.fail seen) = (.reload, s') := by
        simp only [step, hchange]
      obtain ⟨hnone, _⟩ | ⟨_, reaped, _, _, hfetch⟩ := hregular.fetch id
      · rw [hr'] at hnone
        cases hnone
      · have hreload : c.step id now clock s' .reload = (.done (.ok (.reaped reaped)), s') := by
          simp only [step, hfetch]
        refine ⟨.reaped reaped, ?_, by rw [hr, Option.any_some, habandoned]; rfl⟩
        rw [hlook, ← hs']
        dsimp only
        rw [hfail]
        dsimp only
        rw [hreload]
    · cases hfalse
  · refine ⟨outcome, ?_, hsame.trans hnone.symm⟩
    rw [update_eq_self hs hnone, hlook]
    rfl

/-! ### The look at every run -/

theorem reap_keeps (hs : s.Regular) (hr : r ∈ s.runs) :
    (c.reap clock r).id = r.id ∧ (c.reap clock r).createdAt = r.createdAt ∧
      (c.reap clock r).updatedAt = clock.stored := by
  obtain ⟨message, hreap⟩ := c.reap_eq clock hs hr
  rw [hreap]
  exact ⟨rfl, rfl, rfl⟩

/-- A look at runs of different ids fails those of them that are abandoned and gives their ids. -/
theorem reconcileAll_eq (hs : s.Regular) (hclock : clock.FourDigitYear) {ids : List String}
    (hids : ids.Nodup) : c.reconcileAll now clock ids s =
      (ids.filter fun id => (s.find? id).any (c.abandoned now),
        { s with runs := s.runs.map fun r =>
          if ids.contains r.id && c.abandoned now r then c.reap clock r else r }) := by
  induction ids generalizing s with
  | nil => simp [reconcileAll]
  | cons id ids ih =>
    obtain ⟨hid, hids⟩ := List.nodup_cons.mp hids
    obtain ⟨outcome, hreconcile, hchange⟩ := c.reconcile_eq now clock hs hclock id
    have hs₁ := (hs.update hclock id (c.abandoned now) fun r hr => c.reap_keeps clock hs hr).1
    have hothers : ∀ other ∈ ids,
        ((s.update id (c.abandoned now) (c.reap clock)).find? other).any (c.abandoned now) =
          (s.find? other).any (c.abandoned now) := by
      intro other hother
      have hne : (other == id) = false := beq_false_of_ne (ne_of_mem_of_not_mem hother hid)
      rw [RunStore.find?_update (c.reap_id clock)]
      simp [hne]
    have hruns : (s.update id (c.abandoned now) (c.reap clock)).runs.map (fun r =>
          if ids.contains r.id && c.abandoned now r then c.reap clock r else r) =
        s.runs.map fun r =>
          if (id :: ids).contains r.id && c.abandoned now r then c.reap clock r else r := by
      unfold RunStore.update
      rw [List.map_map]
      refine List.map_congr_left fun r hr => ?_
      cases habandoned : c.abandoned now r with
      | false => simp [habandoned]
      | true =>
        by_cases heq : r.id = id
        · simp [habandoned, heq, c.abandoned_reap now clock hs hr]
        · simp [habandoned, heq]
    rw [reconcileAll, hreconcile]
    dsimp only
    rw [ih hs₁ hids, hchange, hruns, List.filter_congr hothers, List.filter_cons]
    rfl

def swept (s : RunStore) : RunStore :=
  { s with runs := s.runs.map fun r => if c.abandoned now r then c.reap clock r else r }

theorem regular_swept (hs : s.Regular) (hclock : clock.FourDigitYear) :
    (c.swept now clock s).Regular := by
  refine hs.map hclock fun r hr => ?_
  obtain ⟨hid, hcreated, hupdated⟩ := c.reap_keeps clock hs hr
  split
  · exact ⟨hid, hcreated, .inr hupdated⟩
  · exact ⟨rfl, rfl, .inl rfl⟩

theorem not_abandoned_of_mem_swept (hs : s.Regular) (hr : r ∈ (c.swept now clock s).runs) :
    c.abandoned now r = false := by
  obtain ⟨r₀, hr₀, rfl⟩ := List.mem_map.mp hr
  split
  · exact c.abandoned_reap now clock hs hr₀
  · rename_i hnot
    exact Bool.eq_false_iff.mpr hnot

theorem forall₂_swept (hs : s.Regular) :
    List.Forall₂ (fun r r' => if c.abandoned now r then ∃ message, r' = r.timedOut message clock
      else r' = r) s.runs (c.swept now clock s).runs := by
  refine List.forall₂_map_right_iff.mpr (List.forall₂_same.mpr fun r hr => ?_)
  split
  · exact c.reap_eq clock hs hr
  · rfl

/-- Ids differ, so the run that is found under an id is the one that has it. -/
theorem sweep_eq (hs : s.Regular) (hclock : clock.FourDigitYear) :
    ∃ reaped, c.sweep now clock s = .ok (reaped, c.swept now clock s) ∧
      reaped.Perm ((s.runs.filter (c.abandoned now)).map (·.id)) := by
  obtain ⟨records, hactive, hids⟩ := hs.active
  have hdue : ∀ r ∈ s.runs, (s.find? r.id).any (c.abandoned now) = c.abandoned now r := by
    intro r hr
    rw [hs.find?_eq_some.mpr ⟨hr, rfl⟩, Option.any_some]
  have hlisted : ∀ r ∈ s.runs, c.abandoned now r = true → r ∈ s.activeRuns := by
    intro r hr habandoned
    have hstatus := (Bool.and_eq_true_iff.mp habandoned).1
    rw [Bool.or_eq_true, beq_iff_eq, beq_iff_eq] at hstatus
    exact (RunStore.Regular.mem_activeRuns s r).mpr ⟨hr, hstatus⟩
  have hall := c.reconcileAll_eq now clock hs hclock hs.nodup_activeRuns
  refine ⟨(s.activeRuns.map (·.id)).filter fun id => (s.find? id).any (c.abandoned now), ?_, ?_⟩
  · have hruns : (s.runs.map fun r => if (s.activeRuns.map (·.id)).contains r.id &&
          c.abandoned now r then c.reap clock r else r) =
        s.runs.map fun r => if c.abandoned now r then c.reap clock r else r := by
      refine List.map_congr_left fun r hr => ?_
      cases habandoned : c.abandoned now r with
      | false => simp
      | true =>
        have hmem := List.mem_map_of_mem (f := (·.id)) (hlisted r hr habandoned)
        rw [List.contains_iff_mem.mpr hmem, Bool.true_and]
    unfold sweep swept
    rw [hactive]
    dsimp only [bind, Except.bind, pure, Except.pure]
    rw [hids, hall, hruns]
  · refine (List.perm_ext_iff_of_nodup (hs.nodup_activeRuns.filter _)
      (hs.ids.sublist (List.filter_sublist.map _))).mpr fun id => ?_
    rw [List.mem_filter, List.mem_map, List.mem_map]
    constructor
    · rintro ⟨⟨r, hr, rfl⟩, hany⟩
      have hr := ((RunStore.Regular.mem_activeRuns s r).mp hr).1
      exact ⟨r, List.mem_filter.mpr ⟨hr, hdue r hr ▸ hany⟩, rfl⟩
    · rintro ⟨r, hr, rfl⟩
      obtain ⟨hr, habandoned⟩ := List.mem_filter.mp hr
      exact ⟨⟨r, hlisted r hr habandoned, rfl⟩, (hdue r hr).trans habandoned⟩

/-! ### A sweep that finds nothing to do -/

/-- A sweep that has failed no run and is not about to. -/
def Idle : Sweeping → Prop
  | .list => True
  | .visit phase _ _ reaped => phase = .look ∧ reaped = []
  | .done result => result = .ok []

theorem idle_next (ids : List String) : Idle (.next [] ids) := by
  cases ids with
  | nil => rfl
  | cons id ids => exact ⟨rfl, rfl⟩

theorem idle_step (hs : s.Regular) (hnone : ∀ r ∈ s.runs, c.abandoned now r = false)
    {x : Sweeping} (hx : Idle x) :
    (c.sweepStep now clock s x).2 = s ∧ Idle (c.sweepStep now clock s x).1 := by
  cases x with
  | list =>
    obtain ⟨records, hactive, _⟩ := hs.active
    simp only [sweepStep, hactive]
    exact ⟨trivial, idle_next _⟩
  | visit phase id rest reaped =>
    obtain ⟨rfl, rfl⟩ := hx
    rcases c.step_look now clock hs id with
      ⟨r, _, hr, _, habandoned, _⟩ | ⟨_, outcome, hsame, hlook⟩
    · rw [hnone r (hs.find?_eq_some.mp hr).1] at habandoned
      cases habandoned
    · simp only [sweepStep, hlook, Sweeping.after, hsame, Bool.false_eq_true, if_false]
      exact ⟨trivial, idle_next rest⟩
  | done result => exact ⟨rfl, hx⟩

theorem idle_of_sweepsTo (hs : s.Regular) (hnone : ∀ r ∈ s.runs, c.abandoned now r = false)
    {x : Sweeping × RunStore} (hx : c.SweepsTo now clock (.list, s) x) : x.2 = s ∧ Idle x.1 := by
  induction hx with
  | refl => exact ⟨rfl, trivial⟩
  | tail _ hstep ih =>
    obtain ⟨hstore, hidle⟩ := ih
    rw [← hstep, hstore]
    exact c.idle_step now clock hs hnone hidle

/-- With nobody else around a sweep fails just the pending and processing runs that were idle for
longer than the threshold, keeps the rest of them and all other runs, and gives the ids of those it
failed; the next sweep at the same time gives none and never comes to change the store. And a run
whose status or last update is no longer what the reconciler saw is left as it is, whatever
uses of the store have made it so. -/
theorem sweep_reaps (hs : s.Regular) (hclock : clock.FourDigitYear) :
    (∃ reaped s', c.sweep now clock s = .ok (reaped, s') ∧
      List.Forall₂ (fun r r' => if c.abandoned now r then ∃ message, r' = r.timedOut message clock
        else r' = r) s.runs s'.runs ∧
      reaped.Perm ((s.runs.filter (c.abandoned now)).map (·.id)) ∧
      ∀ later : Timestamp, c.sweep now later s' = .ok ([], s') ∧
        ∀ x, c.SweepsTo now later (.list, s') x → x.2 = s' ∧
          ∀ seen id rest reaped, x.1 ≠ .visit (.fail seen) id rest reaped) ∧
    ∀ id seen (uses : List (StoreUse × Timestamp)) (later : Timestamp),
      (c.step id now clock s .look).1 = .fail seen →
      ((s.after uses).find? id).map (fun r => (r.status, r.updatedAt)) ≠
        (s.find? id).map (fun r => (r.status, r.updatedAt)) →
      c.step id now later (s.after uses) (.fail seen) = (.done (.ok .fresh), s.after uses) := by
  refine ⟨?alone, ?moved⟩
  case alone =>
    obtain ⟨reaped, hsweep, hreaped⟩ := c.sweep_eq now clock hs hclock
    have hs' := c.regular_swept now clock hs hclock
    have hnone : ∀ r ∈ (c.swept now clock s).runs, c.abandoned now r = false :=
      fun r hr => c.not_abandoned_of_mem_swept now clock hs hr
    refine ⟨reaped, c.swept now clock s, hsweep, c.forall₂_swept now clock hs, hreaped,
      fun later => ?_⟩
    have hidle {x : Sweeping × RunStore}
        (hx : c.SweepsTo now later (.list, c.swept now clock s) x) :=
      c.idle_of_sweepsTo now later hs' hnone hx
    refine ⟨?_, fun x hx => ⟨(hidle hx).1, fun seen id rest reaped hphase => ?_⟩⟩
    · have hsecond := c.sweepsTo_sweep now later (c.swept now clock s)
      split at hsecond
      · rename_i reaped s' heq
        obtain ⟨rfl, hids⟩ := hidle hsecond
        rw [heq, Except.ok.inj hids]
      · cases (hidle hsecond).2
    · have hphase := hphase ▸ (hidle hx).2
      cases hphase.1
  case moved =>
    intro id seen uses later hlook hmoved
    rcases c.step_look now clock hs id with
      ⟨r, _, hr, hseen, habandoned, hfail⟩ | ⟨_, _, _, hdone⟩
    · rw [hfail] at hlook
      obtain rfl := Reconciling.fail.inj hlook
      obtain ⟨r', hr', _⟩ := RunStore.find?_after hr uses
      refine c.step_fail_of_ne now later hs hr hseen habandoned
        ((RunStore.isOpen_after s uses).trans hs.isOpen) hr' fun ⟨hstatus, htime⟩ => hmoved ?_
      rw [hr', hr, Option.map_some, Option.map_some, hstatus, htime]
    · rw [hdone] at hlook
      cases hlook

/-- The seconds of a day are written as numerals below; each of them asks for this. -/
theorem neZero_secondsOfDay : @NeZero Nat (@Zero.ofOfNat0 Nat (instOfNatNat 0)) 86400 :=
  ⟨Nat.succ_ne_zero _⟩

attribute [local instance] neZero_secondsOfDay

/-- One run is taken up and left alone, a later one waits, and a third one ends. -/
def leftAlone : List (StoreUse × Timestamp) :=
  [(.create "idle" none none, RunStore.second 0), (.change "idle" .begin, RunStore.second 1),
    (.progress "idle" 5, RunStore.second 2), (.create "waiting" none none, RunStore.second 500),
    (.create "ended" none none, RunStore.second 3), (.change "ended" .begin, RunStore.second 4),
    (.change "ended" (.complete 7), RunStore.second 5)]

theorem fourDigitYear_second (n : Fin 86400) : (RunStore.second n).FourDigitYear :=
  show 0 ≤ RunStore.day.year ∧ RunStore.day.year ≤ 9999 by decide

theorem regular_leftAlone : (RunStore.empty.after leftAlone).Regular :=
  RunStore.regular_empty.after (by decide) (by simp [leftAlone, fourDigitYear_second])

/-- After a thousand seconds the first run is reaped alone, and only once; had it reported more rows
after it was looked at, it would be left as it is. -/
theorem sweep_reaps_leftAlone :
    (∃ s', standard.sweep (RunStore.second 1000) (RunStore.second 1001)
        (RunStore.empty.after leftAlone) = .ok (["idle"], s') ∧
      standard.sweep (RunStore.second 1000) (RunStore.second 1002) s' = .ok ([], s')) ∧
    ∃ seen, (standard.step "idle" (RunStore.second 1000) (RunStore.second 1001)
        (RunStore.empty.after leftAlone) .look).1 = .fail seen ∧
      standard.step "idle" (RunStore.second 1000) (RunStore.second 1002)
          ((RunStore.empty.after leftAlone).after [(.progress "idle" 9, RunStore.second 1001)])
          (.fail seen) =
        (.done (.ok .fresh),
          (RunStore.empty.after leftAlone).after [(.progress "idle" 9, RunStore.second 1001)]) := by
  obtain ⟨⟨reaped, s', hsweep, _, hreaped, hsecond⟩, hmoved⟩ := sweep_reaps standard
    (RunStore.second 1000) (RunStore.second 1001) regular_leftAlone (fourDigitYear_second 1001)
  have hidle : ((RunStore.empty.after leftAlone).runs.filter
      (standard.abandoned (RunStore.second 1000))).map (·.id) = ["idle"] := by decide +kernel
  rw [hidle, List.perm_singleton] at hreaped
  refine ⟨⟨s', by rw [hsweep, hreaped], (hsecond _).1⟩, ?_⟩
  rcases standard.step_look (RunStore.second 1000) (RunStore.second 1001) regular_leftAlone "idle"
    with ⟨_, seen, _, _, _, hlook⟩ | ⟨hnone, _⟩
  · have hlook := congrArg Prod.fst hlook
    exact ⟨seen, hlook, hmoved "idle" seen _ _ hlook (by decide +kernel)⟩
  · exact absurd hnone (by decide +kernel)

end Reconciler

end TablePipeline
