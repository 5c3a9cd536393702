import TablePipeline.Proofs.Run.Lifecycle
import TablePipeline.Proofs.Run.StoredTime

/-!
# Stores whose runs can be read

An open store keeps its runs under ids of their own and with times that it can read back. It stays
so along uses that make runs under new ids and happen in years of four digits.
-/

set_option autoImplicit false

namespace TablePipeline

/-- A text that the store writes for a time of a year of four digits. -/
def Timestamp.IsStored (text : String) : Prop := ∃ t : Timestamp, t.FourDigitYear ∧ text = t.stored

theorem StoredRun.record_of_times {r : StoredRun} (hcreated : Timestamp.IsStored r.createdAt)
    (hupdated : Timestamp.IsStored r.updatedAt) :
    ∃ seen, r.record = .ok seen ∧ seen.id = r.id ∧ seen.status = r.status ∧
      readTime r.updatedAt = .ok seen.updatedAt ∧ seen.updatedAt.stored = r.updatedAt := by
  obtain ⟨t, ht, hcreated⟩ := hcreated
  obtain ⟨u, hu, hupdated⟩ := hupdated
  obtain ⟨t', ht', _⟩ := readTime_stored ht
  obtain ⟨u', hu', hstored⟩ := readTime_stored hu
  rw [← hcreated] at ht'
  rw [← hupdated] at hu' hstored
  unfold record
  rw [ht', hu']
  exact ⟨_, rfl, rfl, rfl, rfl, hstored⟩

theorem StoredRun.record_id {r : StoredRun} {seen : RunRecord} (h : r.record = .ok seen) :
    seen.id = r.id := by
  obtain ⟨_, _, h⟩ := Outcome.bind_eq_ok.mp h
  obtain ⟨_, _, h⟩ := Outcome.bind_eq_ok.mp h
  obtain rfl := Outcome.pure_eq_ok.mp h
  rfl

def StoreUse.created? : StoreUse → Option String
  | create id _ _ => some id
  | change _ _ | progress _ _ => none

namespace RunStore

/-- An open store whose runs have ids of their own and times that it can read back. -/
structure Regular (s : RunStore) : Prop where
  isOpen : s.isOpen = true
  ids : (s.runs.map (·.id)).Nodup
  times : ∀ r ∈ s.runs, Timestamp.IsStored r.createdAt ∧ Timestamp.IsStored r.updatedAt

namespace Regular

variable {s : RunStore} {id : String} {r : StoredRun} {now : Timestamp}

theorem use (h : s.Regular) : s.use = .ok () := if_pos h.isOpen

theorem record (h : s.Regular) (hr : r ∈ s.runs) :
    ∃ seen, r.record = .ok seen ∧ seen.id = r.id ∧ seen.status = r.status ∧
      StoredRun.readTime r.updatedAt = .ok seen.updatedAt ∧
      seen.updatedAt.stored = r.updatedAt :=
  StoredRun.record_of_times (h.times r hr).1 (h.times r hr).2

/-- Whoever reads a run of a regular store sees its status and its last update. -/
theorem seen {seen : RunRecord} (h : s.Regular) (hr : r ∈ s.runs) (hseen : r.record = .ok seen) :
    seen.status = r.status ∧ StoredRun.readTime r.updatedAt = .ok seen.updatedAt ∧
      seen.updatedAt.stored = r.updatedAt := by
  obtain ⟨_, hrecord, -, hupdate⟩ := h.record hr
  obtain rfl := Except.ok.inj (hseen.symm.trans hrecord)
  exact hupdate

theorem find?_eq_some (h : s.Regular) : s.find? id = some r ↔ r ∈ s.runs ∧ r.id = id := by
  constructor
  · intro hr
    have hid := List.find?_some hr
    exact ⟨List.mem_of_find?_eq_some hr, beq_iff_eq.mp hid⟩
  · rintro ⟨hr, rfl⟩
    have hsome : (s.find? r.id).isSome := List.find?_isSome.mpr ⟨r, hr, beq_self_eq_true r.id⟩
    obtain ⟨r', hr'⟩ := Option.isSome_iff_exists.mp hsome
    have hid := List.find?_some hr'
    rw [hr', List.inj_on_of_nodup_map h.ids (List.mem_of_find?_eq_some hr') hr (beq_iff_eq.mp hid)]

theorem fetch (h : s.Regular) (id : String) :
    (s.find? id = none ∧ s.fetch id = .ok none) ∨
      ∃ r seen, s.find? id = some r ∧ r.record = .ok seen ∧ s.fetch id = .ok (some seen) := by
  unfold RunStore.fetch
  rw [h.use]
  cases hfind : s.find? id with
  | none => exact .inl ⟨rfl, rfl⟩
  | some r =>
    obtain ⟨seen, hseen, _⟩ := h.record (h.find?_eq_some.mp hfind).1
    refine .inr ⟨r, seen, rfl, hseen, ?_⟩
    rw [Option.mapM_some, hseen]
    rfl

theorem mem_activeRuns (s : RunStore) (r : StoredRun) :
    r ∈ s.activeRuns ↔ r ∈ s.runs ∧ (r.status = .pending ∨ r.status = .processing) := by
  unfold activeRuns
  rw [List.mem_mergeSort, List.mem_append, List.mem_filter, List.mem_filter, beq_iff_eq, beq_iff_eq]
  exact and_or_left.symm

theorem nodup_activeRuns (h : s.Regular) : (s.activeRuns.map (·.id)).Nodup := by
  have hruns : s.runs.Nodup := h.ids.of_map _
  have hactive : s.activeRuns.Nodup := by
    refine (List.mergeSort_perm _ _).nodup_iff.mpr (List.Nodup.append (hruns.filter _)
      (hruns.filter _) fun r hpending hprocessing => ?_)
    have hp := beq_iff_eq.mp (List.mem_filter.mp hpending).2
    have hq := beq_iff_eq.mp (List.mem_filter.mp hprocessing).2
    rw [hp] at hq
    cases hq
  refine (List.nodup_map_iff_inj_on hactive).mpr fun r hr r' hr' hid => ?_
  exact List.inj_on_of_nodup_map h.ids ((mem_activeRuns s r).mp hr).1
    ((mem_activeRuns s r').mp hr').1 hid

theorem active (h : s.Regular) :
    ∃ records, s.active = .ok records ∧ records.map (·.id) = s.activeRuns.map (·.id) := by
  obtain ⟨records, hrecords⟩ := Outcome.mapM_ok_of_forall fun r hr =>
    (h.record ((mem_activeRuns s r).mp hr).1).imp fun _ => And.left
  refine ⟨records, ?_, ?_⟩
  · unfold RunStore.active
    rw [h.use]
    exact hrecords
  · have hids : List.Forall₂ (· = ·) (s.activeRuns.map (·.id)) (records.map (·.id)) := by
      rw [List.forall₂_map_left_iff, List.forall₂_map_right_iff]
      exact (Outcome.mapM_eq_ok.mp hrecords).imp fun _ _ hseen => (StoredRun.record_id hseen).symm
    rw [List.forall₂_eq_eq_eq] at hids
    exact hids.symm

/-! ### Uses that keep a store regular -/

theorem ids_map {f : StoredRun → StoredRun} (hf : ∀ r ∈ s.runs, (f r).id = r.id) :
    (s.runs.map f).map (·.id) = s.runs.map (·.id) := by
  rw [List.map_map]
  exact List.map_congr_left hf

/-- Runs that keep their ids and get a new time at most. -/
theorem map (h : s.Regular) {f : StoredRun → StoredRun} (hnow : now.FourDigitYear)
    (hf : ∀ r ∈ s.runs, (f r).id = r.id ∧ (f r).createdAt = r.createdAt ∧
      ((f r).updatedAt = r.updatedAt ∨ (f r).updatedAt = now.stored)) :
    ({ s with runs := s.runs.map f } : RunStore).Regular where
  isOpen := h.isOpen
  ids := by
    rw [ids_map fun r hr => (hf r hr).1]
    exact h.ids
  times := by
    intro r' hr'
    obtain ⟨r, hr, rfl⟩ := List.mem_map.mp hr'
    obtain ⟨_, hcreated, hupdated⟩ := hf r hr
    rw [hcreated]
    refine ⟨(h.times r hr).1, ?_⟩
    rcases hupdated with hsame | hnew
    · rw [hsame]
      exact (h.times r hr).2
    · exact ⟨now, hnow, hnew⟩

theorem update (h : s.Regular) (hnow : now.FourDigitYear) (id : String) (p : StoredRun → Bool)
    {f : StoredRun → StoredRun} (hf : ∀ r ∈ s.runs,
      (f r).id = r.id ∧ (f r).createdAt = r.createdAt ∧ (f r).updatedAt = now.stored) :
    (s.update id p f).Regular ∧ (s.update id p f).runs.map (·.id) = s.runs.map (·.id) := by
  have hkept : ∀ r ∈ s.runs, (if r.id == id && p r then f r else r).id = r.id ∧
      (if r.id == id && p r then f r else r).createdAt = r.createdAt ∧
      ((if r.id == id && p r then f r else r).updatedAt = r.updatedAt ∨
        (if r.id == id && p r then f r else r).updatedAt = now.stored) := by
    intro r hr
    obtain ⟨hid, hcreated, hupdated⟩ := hf r hr
    split
    · exact ⟨hid, hcreated, .inr hupdated⟩
    · exact ⟨rfl, rfl, .inl rfl⟩
  exact ⟨h.map hnow hkept, ids_map fun r hr => (hkept r hr).1⟩

/-- A use in a year of four digits that makes no run under an id that is taken. -/
theorem apply (h : s.Regular) {u : StoreUse} (hnow : now.FourDigitYear)
    (hnew : ∀ id ∈ u.created?, id ∉ s.runs.map (·.id)) :
    (u.apply s now).Regular ∧
      (u.apply s now).runs.map (·.id) = s.runs.map (·.id) ++ u.created?.toList := by
  cases u with
  | create id pipelineId table =>
    have hstored : Timestamp.IsStored now.stored := ⟨now, hnow, rfl⟩
    obtain ⟨seen, hseen, _⟩ := StoredRun.record_of_times
      (r := ⟨id, pipelineId, table, .pending, 0, none, none, now.stored, now.stored⟩) hstored
      hstored
    have happly : (StoreUse.create id pipelineId table).apply s now = { s with runs := s.runs ++
        [⟨id, pipelineId, table, .pending, 0, none, none, now.stored, now.stored⟩] } := by
      simp only [StoreUse.apply, RunStore.create, h.use, hseen, bind, Except.bind, pure,
        Except.pure]
    rw [happly]
    refine ⟨⟨h.isOpen, ?_, ?_⟩, List.map_append⟩
    · rw [List.map_append]
      exact List.nodup_append'.mpr ⟨h.ids, List.nodup_singleton _, by simpa using hnew id rfl⟩
    · intro r hr
      rcases List.mem_append.mp hr with hr | hr
      · exact h.times r hr
      · obtain rfl := List.mem_singleton.mp hr
        exact ⟨hstored, hstored⟩
  | change id c =>
    simp only [StoreUse.apply, StoreUse.created?, Option.toList_none, List.append_nil]
    split
    · rename_i hs'
      obtain ⟨_, _, rfl, _⟩ | ⟨_, rfl⟩ := change_eq_ok hs'
      · exact h.update hnow id _ (f := (·.apply c now)) fun _ _ => ⟨rfl, rfl, rfl⟩
      · exact ⟨h, rfl⟩
    · exact ⟨h, rfl⟩
  | progress id rows =>
    simp only [StoreUse.apply, StoreUse.created?, Option.toList_none, List.append_nil]
    split
    · rename_i hs'
      obtain ⟨_, rfl, _⟩ | ⟨_, rfl⟩ := progress_eq_ok hs'
      · exact h.update hnow id _ (f := (·.progress rows now)) fun _ _ => ⟨rfl, rfl, rfl⟩
      · exact ⟨h, rfl⟩
    · exact ⟨h, rfl⟩

theorem after (h : s.Regular) {uses : List (StoreUse × Timestamp)}
    (hnew : (s.runs.map (·.id) ++ uses.filterMap (·.1.created?)).Nodup)
    (hyears : ∀ u ∈ uses, u.2.FourDigitYear) : (s.after uses).Regular := by
  induction uses generalizing s with
  | nil => exact h
  | cons u uses ih =>
    have hlist : (u :: uses).filterMap (·.1.created?) =
        u.1.created?.toList ++ uses.filterMap (·.1.created?) := by
      cases hu : u.1.created? <;> simp [hu]
    rw [hlist, ← List.append_assoc] at hnew
    obtain ⟨happly, hids⟩ := h.apply (hyears u List.mem_cons_self) (u := u.1) fun id hid hmem =>
      (List.nodup_append'.mp hnew.of_append_left).2.2 hmem (Option.mem_toList.mpr hid)
    refine ih happly ?_ fun v hv => hyears v (List.mem_cons_of_mem u hv)
    rw [hids]
    exact hnew

end Regular

theorem regular_empty : empty.Regular := ⟨rfl, List.nodup_nil, by simp [empty]⟩

end RunStore

end TablePipeline
