import TablePipeline.Proofs.Outcome
import TablePipeline.Run.Store

/-!
# How a kept run may change

Whatever the store is used for, a run that is kept moves only along the changes its status allows.
So a run that has ended stays as it is, and one that was taken up is never pending again.
-/

set_option autoImplicit false

namespace TablePipeline

namespace StoredRun

/-- One use of the store leaves a run alone, reports its progress or changes its status. -/
inductive Moves (r : StoredRun) : StoredRun → Prop
  | same : Moves r r
  | progress (rows : Nat) (now : Timestamp) (h : r.status = .processing) :
    Moves r (r.progress rows now)
  | change (c : RunChange) (now : Timestamp) (h : r.status = c.start)
    (hlegal : c.start.canBecome c.target = true) : Moves r (r.apply c now)

variable {r r' : StoredRun}

theorem Moves.eq_of_isTerminal (h : r.Moves r') (ht : r.status.isTerminal = true) : r' = r := by
  cases h with
  | same => rfl
  | progress rows now hp =>
    rw [hp] at ht
    cases ht
  | change c now hs hlegal =>
    rw [hs] at ht
    rw [RunStatus.canBecome_of_isTerminal ht] at hlegal
    cases hlegal

theorem not_pending_of_canBecome {s t : RunStatus} (h : s.canBecome t = true) : t ≠ .pending := by
  rintro rfl
  cases s <;> cases h

theorem Moves.not_pending (h : r.Moves r') (hp : r.status ≠ .pending) : r'.status ≠ .pending := by
  cases h with
  | same => exact hp
  | progress rows now _ => exact hp
  | change c now _ hlegal => exact not_pending_of_canBecome hlegal

theorem accepts_status {c : RunChange} (h : r.accepts c = true) : r.status = c.start := by
  unfold accepts at h
  rw [Bool.and_eq_true, beq_iff_eq] at h
  exact h.1

end StoredRun

namespace RunStore

variable {s s' : RunStore} {id : String} {r : StoredRun}

/-- A change of the runs of one id changes the run that is found under it, and no other one. -/
theorem find?_update {f : StoredRun → StoredRun} (hf : ∀ r, (f r).id = r.id) (s : RunStore)
    (id other : String) (p : StoredRun → Bool) :
    (s.update id p f).find? other =
      (s.find? other).map fun r => if other == id && p r then f r else r := by
  have hid (r : StoredRun) : (if r.id == id && p r then f r else r).id = r.id := by
    split
    · exact hf r
    · rfl
  unfold find? update
  dsimp only
  rw [List.find?_map]
  have hsame :
      (fun r : StoredRun => r.id == other) ∘ (fun r => if r.id == id && p r then f r else r) =
        fun r => r.id == other := by
    funext r
    rw [Function.comp_apply, hid r]
  rw [hsame]
  cases hfind : s.runs.find? (·.id == other) with
  | none => rfl
  | some r =>
    have hr := List.find?_some hfind
    rw [beq_iff_eq] at hr
    rw [Option.map_some, Option.map_some, hr]

/-- A change either happens to the run that is found, or leaves the store as it is. -/
theorem change_eq_ok {c : RunChange} {now : Timestamp} {b : Bool}
    (h : s.change id c now = .ok (b, s')) :
    (b = true ∧ c.start.canBecome c.target = true ∧
        s' = s.update id (·.accepts c) (·.apply c now) ∧
        ∃ r, s.find? id = some r ∧ r.status = c.start ∧ s'.find? id = some (r.apply c now)) ∨
      b = false ∧ s' = s := by
  unfold change at h
  split at h
  · cases h
  · rename_i hlegal
    obtain ⟨_, _, h⟩ := Outcome.bind_eq_ok.mp h
    split at h
    · rename_i r hfind
      split at h
      · rename_i ha
        obtain ⟨rfl, rfl⟩ := Prod.mk.inj (Outcome.pure_eq_ok.mp h)
        refine .inl ⟨rfl, by simpa using hlegal, rfl, r, hfind, StoredRun.accepts_status ha, ?_⟩
        rw [find?_update (f := (·.apply c now)) (fun _ => rfl), hfind, Option.map_some,
          beq_self_eq_true, ha]
        rfl
      · obtain ⟨rfl, rfl⟩ := Prod.mk.inj (Outcome.pure_eq_ok.mp h)
        exact .inr ⟨rfl, rfl⟩
    · obtain ⟨rfl, rfl⟩ := Prod.mk.inj (Outcome.pure_eq_ok.mp h)
      exact .inr ⟨rfl, rfl⟩

/-- A report of progress either reaches a processing run, or leaves the store as it is. -/
theorem progress_eq_ok {rows : Nat} {now : Timestamp} {b : Bool}
    (h : s.progress id rows now = .ok (b, s')) :
    (b = true ∧ s' = s.update id (·.status == .processing) (·.progress rows now) ∧
        ∃ r, s.find? id = some r ∧ r.status = .processing) ∨
      b = false ∧ s' = s := by
  obtain ⟨_, _, h⟩ := Outcome.bind_eq_ok.mp h
  split at h
  · rename_i r hfind
    split at h
    · rename_i hp
      obtain ⟨rfl, rfl⟩ := Prod.mk.inj (Outcome.pure_eq_ok.mp h)
      exact .inl ⟨rfl, rfl, r, hfind, beq_iff_eq.mp hp⟩
    · obtain ⟨rfl, rfl⟩ := Prod.mk.inj (Outcome.pure_eq_ok.mp h)
      exact .inr ⟨rfl, rfl⟩
  · obtain ⟨rfl, rfl⟩ := Prod.mk.inj (Outcome.pure_eq_ok.mp h)
    exact .inr ⟨rfl, rfl⟩

/-- Every run of one store is found in the other one after at most one move. -/
def Evolves (s s' : RunStore) : Prop :=
  ∀ id r, s.find? id = some r → ∃ r', s'.find? id = some r' ∧ r.Moves r'

theorem Evolves.refl (s : RunStore) : s.Evolves s := fun _ r hr => ⟨r, hr, .same⟩

theorem change_evolves {c : RunChange} {now : Timestamp} {b : Bool}
    (h : s.change id c now = .ok (b, s')) : s.Evolves s' := by
  obtain ⟨_, hlegal, rfl, _⟩ | ⟨_, rfl⟩ := change_eq_ok h
  · intro other r hr
    rw [find?_update (f := (·.apply c now)) (fun _ => rfl), hr, Option.map_some]
    refine ⟨_, rfl, ?_⟩
    split
    · rename_i hp
      rw [Bool.and_eq_true] at hp
      exact .change c now (StoredRun.accepts_status hp.2) hlegal
    · exact .same
  · exact .refl s'

theorem progress_evolves {rows : Nat} {now : Timestamp} {b : Bool}
    (h : s.progress id rows now = .ok (b, s')) : s.Evolves s' := by
  obtain ⟨_, rfl, _⟩ | ⟨_, rfl⟩ := progress_eq_ok h
  · intro other r hr
    rw [find?_update (f := (·.progress rows now)) (fun _ => rfl), hr, Option.map_some]
    refine ⟨_, rfl, ?_⟩
    split
    · rename_i hp
      rw [Bool.and_eq_true, beq_iff_eq, beq_iff_eq] at hp
      exact .progress rows now hp.2
    · exact .same
  · exact .refl s'

theorem change_of_isTerminal {c : RunChange} {now : Timestamp} {b : Bool}
    (hr : s.find? id = some r) (ht : r.status.isTerminal = true)
    (h : s.change id c now = .ok (b, s')) : b = false := by
  obtain ⟨_, hlegal, _, r', hr', hstart, _⟩ | ⟨hb, _⟩ := change_eq_ok h
  · obtain rfl := Option.some.inj (hr.symm.trans hr')
    rw [← hstart, RunStatus.canBecome_of_isTerminal ht] at hlegal
    cases hlegal
  · exact hb

theorem progress_of_isTerminal {rows : Nat} {now : Timestamp} {b : Bool}
    (hr : s.find? id = some r) (ht : r.status.isTerminal = true)
    (h : s.progress id rows now = .ok (b, s')) : b = false := by
  obtain ⟨_, _, r', hr', hp⟩ | ⟨hb, _⟩ := progress_eq_ok h
  · obtain rfl := Option.some.inj (hr.symm.trans hr')
    rw [hp] at ht
    cases ht
  · exact hb

/-! ### Changes that happen -/

def Holds (s : RunStore) (id : String) (r : StoredRun) : Prop :=
  s.isOpen = true ∧ s.find? id = some r

theorem Holds.change (h : s.Holds id r) {c : RunChange} (now : Timestamp)
    (hlegal : c.start.canBecome c.target = true) (ha : r.accepts c = true) :
    ∃ s', s.change id c now = .ok (true, s') ∧ s'.Holds id (r.apply c now) := by
  obtain ⟨hopen, hr⟩ := h
  refine ⟨s.update id (·.accepts c) (·.apply c now), ?_, hopen, ?_⟩
  · simp [RunStore.change, use, hopen, hlegal, hr, ha, bind, Except.bind, pure, Except.pure]
  · rw [find?_update (f := (·.apply c now)) (fun _ => rfl), hr, Option.map_some,
      beq_self_eq_true, ha]
    rfl

theorem Holds.progress (h : s.Holds id r) (rows : Nat) (now : Timestamp)
    (hp : r.status = .processing) :
    ∃ s', s.progress id rows now = .ok (true, s') ∧ s'.Holds id (r.progress rows now) := by
  obtain ⟨hopen, hr⟩ := h
  have hprocessing : (r.status == .processing) = true := beq_iff_eq.mpr hp
  refine ⟨s.update id (·.status == .processing) (·.progress rows now), ?_, hopen, ?_⟩
  · simp [RunStore.progress, use, hopen, hr, hprocessing, bind, Except.bind, pure, Except.pure]
  · rw [find?_update (f := (·.progress rows now)) (fun _ => rfl), hr, Option.map_some,
      beq_self_eq_true, hprocessing]
    rfl

end RunStore

end TablePipeline
