import Mathlib.Data.List.Destutter
import TablePipeline.Proofs.Run.Changes
import TablePipeline.Proofs.Run.StoredTime

/-!
# The life of a run

However the store is used, by calls with any ids, changes and counts, each run goes along one of the
paths from pending to its end and stays as it is from there. A change tells that it happened just if
the run is kept otherwise afterwards, and for each status that happens at most once.
-/

set_option autoImplicit false

namespace TablePipeline

namespace RunStatus

/-- The statuses that a run may go through, in order; none for a run that was never made. -/
def paths : List (List RunStatus) :=
  [[], [pending], [pending, failed], [pending, processing], [pending, processing, completed],
    [pending, processing, failed]]

/-- How many changes lie behind a status at least. -/
def rank : RunStatus → Nat
  | pending => 0
  | processing => 1
  | completed | failed => 2

theorem rank_lt_of_canBecome {s t : RunStatus} (h : s.canBecome t = true) : s.rank < t.rank := by
  cases s <;> cases t <;> simp_all [canBecome, rank]

/-- Along a path the rank grows, so it has at most three statuses. -/
theorem mem_paths {path : List RunStatus} (hchain : path.IsChain fun s t => s.canBecome t = true)
    (hhead : ∀ s ∈ path.head?, s = pending) : path ∈ paths := by
  match path with
  | [] => decide
  | [s] =>
    obtain rfl := hhead s rfl
    decide
  | [s, t] =>
    obtain rfl := hhead s rfl
    have ht := (List.isChain_cons_cons.mp hchain).1
    cases t <;> simp_all [canBecome, paths]
  | [s, t, u] =>
    obtain rfl := hhead s rfl
    obtain ⟨ht, hrest⟩ := List.isChain_cons_cons.mp hchain
    have hu := (List.isChain_cons_cons.mp hrest).1
    cases t <;> cases u <;> simp_all [canBecome, paths]
  | s :: t :: u :: v :: rest =>
    obtain ⟨ht, hrest⟩ := List.isChain_cons_cons.mp hchain
    obtain ⟨hu, hrest⟩ := List.isChain_cons_cons.mp hrest
    have hv := (List.isChain_cons_cons.mp hrest).1
    have := rank_lt_of_canBecome ht
    have := rank_lt_of_canBecome hu
    have := rank_lt_of_canBecome hv
    have hle : v.rank ≤ 2 := by cases v <;> decide
    omega

end RunStatus

theorem StoredRun.Moves.status {r r' : StoredRun} (h : r.Moves r') :
    r.status = r'.status ∨ r.status.canBecome r'.status = true := by
  cases h with
  | same => exact .inl rfl
  | progress rows now _ => exact .inl rfl
  | change c now hs hlegal =>
    rw [hs]
    exact .inr hlegal

theorem StoredRun.Moves.rank_le {r r' : StoredRun} (h : r.Moves r') :
    r.status.rank ≤ r'.status.rank := by
  rcases h.status with heq | hlegal
  · rw [heq]
  · exact Nat.le_of_lt (RunStatus.rank_lt_of_canBecome hlegal)

/-! ### Uses of the store -/

/-- A use of the store that may change what it keeps. -/
inductive StoreUse
  | create (id : String) (pipelineId table : Option String)
  | change (id : String) (change : RunChange)
  | progress (id : String) (rows : Nat)

namespace StoreUse

def id : StoreUse → String
  | create id _ _ | change id _ | progress id _ => id

/-- The store after a use; one that fails leaves it as it is. -/
def apply (s : RunStore) (now : Timestamp) : StoreUse → RunStore
  | create id pipelineId table =>
    match s.create id pipelineId table now with
    | .ok (_, s') => s'
    | .error _ => s
  | change id c =>
    match s.change id c now with
    | .ok (_, s') => s'
    | .error _ => s
  | progress id rows =>
    match s.progress id rows now with
    | .ok (_, s') => s'
    | .error _ => s

end StoreUse

namespace RunStore

def after (s : RunStore) (uses : List (StoreUse × Timestamp)) : RunStore :=
  uses.foldl (fun s u => u.1.apply s u.2) s

/-- The statuses with which a run is kept, at first and after each of some uses. -/
def statuses (id : String) : RunStore → List (StoreUse × Timestamp) → List RunStatus
  | s, [] => ((s.find? id).map (·.status)).toList
  | s, u :: us => ((s.find? id).map (·.status)).toList ++ statuses id (u.1.apply s u.2) us

def Makes (s : RunStore) (id : String) (c : RunChange) (now : Timestamp) : Prop :=
  ∃ s', s.change id c now = .ok (true, s')

/-- The `i`-th of some uses of an empty store makes a change of a run from a status. -/
def MakesAt (uses : List (StoreUse × Timestamp)) (id : String) (start : RunStatus) (i : Nat) :
    Prop :=
  ∃ c now, uses[i]? = some (.change id c, now) ∧ c.start = start ∧
    (empty.after (uses.take i)).Makes id c now

variable {s s' : RunStore} {id other : String} {r : StoredRun} {c : RunChange} {now : Timestamp}
  {u : StoreUse}

theorem create_eq_ok {pipelineId table : Option String} {record : RunRecord}
    (h : s.create id pipelineId table now = .ok (record, s')) :
    ∃ run : StoredRun, run.id = id ∧ run.status = .pending ∧ run.updatedAt = now.stored ∧
      s' = { s with runs := s.runs ++ [run] } := by
  obtain ⟨_, _, h⟩ := Outcome.bind_eq_ok.mp h
  obtain ⟨_, _, h⟩ := Outcome.bind_eq_ok.mp h
  obtain ⟨_, rfl⟩ := Prod.mk.inj (Outcome.pure_eq_ok.mp h)
  exact ⟨_, rfl, rfl, rfl, rfl⟩

theorem find?_append_run (s : RunStore) (run : StoredRun) (id : String) :
    ({ s with runs := s.runs ++ [run] } : RunStore).find? id =
      (s.find? id).or (if run.id = id then some run else none) := by
  unfold find?
  rw [List.find?_append]
  by_cases hid : run.id = id <;> simp [hid]

/-- A use does nothing, puts a pending run behind the others, or moves runs of its id. -/
theorem apply_cases (s : RunStore) (u : StoreUse) (now : Timestamp) :
    u.apply s now = s ∨
      (∃ run : StoredRun, run.id = u.id ∧ run.status = .pending ∧ run.updatedAt = now.stored ∧
        u.apply s now = { s with runs := s.runs ++ [run] }) ∨
      ∃ p f, (∀ r : StoredRun, (f r).id = r.id ∧ (f r).updatedAt = now.stored) ∧
        (∀ r, p r = true → r.Moves (f r)) ∧ u.apply s now = s.update u.id p f := by
  cases u with
  | create id pipelineId table =>
    simp only [StoreUse.apply]
    split
    · rename_i h
      obtain ⟨run, hid, hpending, htime, rfl⟩ := create_eq_ok h
      exact .inr (.inl ⟨run, hid, hpending, htime, rfl⟩)
    · exact .inl rfl
  | change id c =>
    simp only [StoreUse.apply]
    split
    · rename_i h
      obtain ⟨_, hlegal, rfl, _⟩ | ⟨_, rfl⟩ := change_eq_ok h
      · refine .inr (.inr ⟨(·.accepts c), (·.apply c now), fun r => ⟨rfl, rfl⟩, ?_, rfl⟩)
        intro r hr
        exact .change c now (StoredRun.accepts_status hr) hlegal
      · exact .inl rfl
    · exact .inl rfl
  | progress id rows =>
    simp only [StoreUse.apply]
    split
    · rename_i h
      obtain ⟨_, rfl, _⟩ | ⟨_, rfl⟩ := progress_eq_ok h
      · refine .inr (.inr
          ⟨(·.status == .processing), (·.progress rows now), fun r => ⟨rfl, rfl⟩, ?_, rfl⟩)
        intro r hr
        exact .progress rows now (beq_iff_eq.mp hr)
      · exact .inl rfl
    · exact .inl rfl

theorem isOpen_apply (s : RunStore) (u : StoreUse) (now : Timestamp) :
    (u.apply s now).isOpen = s.isOpen := by
  rcases s.apply_cases u now with h | ⟨_, _, _, _, h⟩ | ⟨_, _, _, _, h⟩
  · rw [h]
  · rw [h]
  · rw [h]
    rfl

theorem find?_apply_other (s : RunStore) (now : Timestamp) (h : other ≠ u.id) :
    (u.apply s now).find? other = s.find? other := by
  rcases s.apply_cases u now with heq | ⟨run, hid, _, _, heq⟩ | ⟨p, f, hf, _, heq⟩
  · rw [heq]
  · rw [heq, find?_append_run, if_neg (by rw [hid]; exact Ne.symm h), Option.or_none]
  · rw [heq, find?_update fun r => (hf r).1]
    simp [h]

theorem apply_evolves (s : RunStore) (u : StoreUse) (now : Timestamp) :
    s.Evolves (u.apply s now) := by
  rcases s.apply_cases u now with heq | ⟨run, _, _, _, heq⟩ | ⟨p, f, hf, hmoves, heq⟩
  · rw [heq]
    exact .refl s
  · intro id r hr
    rw [heq, find?_append_run, hr]
    exact ⟨r, rfl, .same⟩
  · intro id r hr
    rw [heq, find?_update fun r => (hf r).1, hr, Option.map_some]
    refine ⟨_, rfl, ?_⟩
    split
    · rename_i hp
      exact hmoves r (Bool.and_eq_true_iff.mp hp).2
    · exact .same

theorem pending_of_find?_apply (hnone : s.find? id = none)
    (hr : (u.apply s now).find? id = some r) : r.status = .pending := by
  rcases s.apply_cases u now with heq | ⟨run, _, hpending, _, heq⟩ | ⟨p, f, hf, _, heq⟩
  · rw [heq, hnone] at hr
    cases hr
  · rw [heq, find?_append_run, hnone, Option.none_or] at hr
    split at hr
    · obtain rfl := Option.some.inj hr
      exact hpending
    · cases hr
  · rw [heq, find?_update fun r => (hf r).1, hnone] at hr
    cases hr

/-! ### Runs along many uses -/

theorem after_append (s : RunStore) (early late : List (StoreUse × Timestamp)) :
    s.after (early ++ late) = (s.after early).after late := List.foldl_append

theorem isOpen_after (s : RunStore) (uses : List (StoreUse × Timestamp)) :
    (s.after uses).isOpen = s.isOpen := by
  induction uses generalizing s with
  | nil => rfl
  | cons u uses ih =>
    have hrest := ih (u.1.apply s u.2)
    rw [isOpen_apply] at hrest
    exact hrest

/-- Along many uses the rank of a run never falls, and one that has ended stays as it is. -/
theorem find?_after (hr : s.find? id = some r) (uses : List (StoreUse × Timestamp)) :
    ∃ r', (s.after uses).find? id = some r' ∧ r.status.rank ≤ r'.status.rank ∧
      (r.status.isTerminal = true → r' = r) := by
  induction uses generalizing s r with
  | nil => exact ⟨r, hr, Nat.le_refl _, fun _ => rfl⟩
  | cons u uses ih =>
    obtain ⟨r₁, hr₁, hmoves⟩ := s.apply_evolves u.1 u.2 id r hr
    obtain ⟨r₂, hr₂, hrank, hstays⟩ := ih hr₁
    refine ⟨r₂, hr₂, Nat.le_trans hmoves.rank_le hrank, fun ht => ?_⟩
    obtain rfl := hmoves.eq_of_isTerminal ht
    exact hstays ht

theorem updatedAt_after (uses : List (StoreUse × Timestamp)) :
    ∀ r ∈ (empty.after uses).runs, ∃ t : Timestamp, r.updatedAt = t.stored := by
  suffices h : ∀ s : RunStore, (∀ r ∈ s.runs, ∃ t : Timestamp, r.updatedAt = t.stored) →
      ∀ r ∈ (s.after uses).runs, ∃ t : Timestamp, r.updatedAt = t.stored from
    h empty (by simp [empty])
  induction uses with
  | nil => exact fun s h => h
  | cons u uses ih =>
    intro s h
    apply ih (u.1.apply s u.2)
    rcases s.apply_cases u.1 u.2 with heq | ⟨run, _, _, htime, heq⟩ | ⟨p, f, hf, _, heq⟩
    · rw [heq]
      exact h
    · rw [heq]
      intro r hr
      rcases List.mem_append.mp hr with hr | hr
      · exact h r hr
      · obtain rfl := List.mem_singleton.mp hr
        exact ⟨u.2, htime⟩
    · rw [heq]
      intro r hr
      obtain ⟨r₀, hr₀, rfl⟩ := List.mem_map.mp hr
      split
      · exact ⟨u.2, (hf r₀).2⟩
      · exact h r₀ hr₀

/-! ### The statuses of a run -/

theorem statuses_eq (id : String) (s : RunStore) (uses : List (StoreUse × Timestamp)) :
    (∀ r, s.find? id = some r → (statuses id s uses).head? = some r.status) ∧
      (s.find? id = none → ∀ x ∈ (statuses id s uses).head?, x = .pending) ∧
      (statuses id s uses).IsChain fun a b => a = b ∨ a.canBecome b = true := by
  induction uses generalizing s with
  | nil =>
    cases hfind : s.find? id <;> simp [statuses, hfind]
  | cons u uses ih =>
    obtain ⟨hsome, hnone, hchain⟩ := ih (u.1.apply s u.2)
    rw [statuses]
    cases hfind : s.find? id with
    | none =>
      refine ⟨fun r hr => (by cases hr), fun _ x hx => ?_, by simpa using hchain⟩
      have hx : x ∈ (statuses id (u.1.apply s u.2) uses).head? := by simpa using hx
      cases hnext : (u.1.apply s u.2).find? id with
      | none => exact hnone hnext x hx
      | some r =>
        rw [hsome r hnext] at hx
        obtain rfl := Option.some.inj hx
        exact pending_of_find?_apply hfind hnext
    | some r =>
      obtain ⟨r', hr', hmoves⟩ := s.apply_evolves u.1 u.2 id r hfind
      refine ⟨fun r₀ hr₀ => ?_, fun h => (by cases h), ?_⟩
      · obtain rfl := Option.some.inj hr₀
        rfl
      · have hhead := hsome r' hr'
        obtain ⟨rest, hrest⟩ := List.head?_eq_some_iff.mp hhead
        rw [hrest] at hchain ⊢
        exact List.isChain_cons_cons.mpr ⟨hmoves.status, hchain⟩

/-- Without repeats, steps that stay or go on are steps that go on. -/
theorem destutter_isChain {α : Type} [DecidableEq α] {S : α → α → Prop} {l : List α}
    (h : l.IsChain fun a b => a = b ∨ S a b) :
    (l.destutter (· ≠ ·)).IsChain S ∧ (l.destutter (· ≠ ·)).head? = l.head? := by
  cases l with
  | nil => exact ⟨.nil, rfl⟩
  | cons a l =>
    suffices hrest : ∃ rest, l.destutter' (· ≠ ·) a = a :: rest ∧ (a :: rest).IsChain S by
      obtain ⟨rest, heq, hchain⟩ := hrest
      rw [List.destutter, heq]
      exact ⟨hchain, rfl⟩
    induction l generalizing a with
    | nil => exact ⟨[], rfl, .singleton a⟩
    | cons b l ih =>
      obtain ⟨hab, hl⟩ := List.isChain_cons_cons.mp h
      obtain ⟨rest, heq, hchain⟩ := ih b hl
      rcases eq_or_ne a b with rfl | hne
      · rw [List.destutter'_cons_neg _ (by simp)]
        exact ⟨rest, heq, hchain⟩
      · rw [List.destutter'_cons_pos _ hne, heq]
        exact ⟨b :: rest, rfl, List.isChain_cons_cons.mpr ⟨hab.resolve_left hne, hchain⟩⟩

theorem destutter_statuses (id : String) (uses : List (StoreUse × Timestamp)) :
    (statuses id empty uses).destutter (· ≠ ·) ∈ RunStatus.paths := by
  obtain ⟨_, hnone, hchain⟩ := statuses_eq id empty uses
  obtain ⟨hpath, hhead⟩ := destutter_isChain hchain
  apply RunStatus.mem_paths hpath
  rw [hhead]
  exact hnone rfl

/-! ### When a change is made -/

theorem accepts_iff {r : StoredRun} :
    r.accepts c = true ↔
      r.status = c.start ∧ ∀ o, c.observed = some o → r.updatedAt = o.stored := by
  unfold StoredRun.accepts
  rw [Bool.and_eq_true, beq_iff_eq]
  cases c.observed <;> simp

theorem makes_iff_accepts (s : RunStore) (id : String) (c : RunChange) (now : Timestamp) :
    s.Makes id c now ↔ s.isOpen = true ∧ c.start.canBecome c.target = true ∧
      ∃ r, s.find? id = some r ∧ r.accepts c = true := by
  constructor
  · rintro ⟨s', h⟩
    unfold change use at h
    split at h
    · cases h
    · rename_i hlegal
      obtain ⟨_, huse, h⟩ := Outcome.bind_eq_ok.mp h
      have hopen : s.isOpen = true := by
        by_contra hclosed
        rw [if_neg hclosed] at huse
        cases huse
      split at h
      · rename_i r hr
        split at h
        · rename_i ha
          exact ⟨hopen, by simpa using hlegal, r, hr, ha⟩
        · cases (Prod.mk.inj (Outcome.pure_eq_ok.mp h)).1
      · cases (Prod.mk.inj (Outcome.pure_eq_ok.mp h)).1
  · rintro ⟨hopen, hlegal, r, hr, ha⟩
    obtain ⟨s', hs', _⟩ := Holds.change ⟨hopen, hr⟩ now hlegal ha
    exact ⟨s', hs'⟩

/-- In a store that uses have led to, a change is made just of a run that is kept in its start and
was not touched since the time that was observed. -/
theorem makes_iff (uses : List (StoreUse × Timestamp)) (id : String) (c : RunChange)
    (now : Timestamp) :
    (empty.after uses).Makes id c now ↔ c.start.canBecome c.target = true ∧
      ∃ (r : StoredRun) (t : Timestamp), (empty.after uses).find? id = some r ∧
        r.status = c.start ∧ r.updatedAt = t.stored ∧ ∀ o, c.observed = some o → t.SameMicro o := by
  have hopen : (empty.after uses).isOpen = true := isOpen_after empty uses
  have htimes := updatedAt_after uses
  rw [makes_iff_accepts]
  generalize empty.after uses = s at *
  constructor
  · rintro ⟨_, hlegal, r, hr, ha⟩
    obtain ⟨hstart, hobserved⟩ := accepts_iff.mp ha
    obtain ⟨t, ht⟩ := htimes r (List.mem_of_find?_eq_some hr)
    refine ⟨hlegal, r, t, hr, hstart, ht, fun o ho => ?_⟩
    exact Timestamp.stored_eq_iff.mp (ht.symm.trans (hobserved o ho))
  · rintro ⟨hlegal, r, t, hr, hstart, ht, hobserved⟩
    refine ⟨hopen, hlegal, r, hr, accepts_iff.mpr ⟨hstart, fun o ho => ?_⟩⟩
    exact ht.trans (Timestamp.stored_eq_iff.mpr (hobserved o ho))

theorem Makes.find?_apply (h : s.Makes id c now) :
    ∃ r, s.find? id = some r ∧ r.status = c.start ∧ c.start.canBecome c.target = true ∧
      ((StoreUse.change id c).apply s now).find? id = some (r.apply c now) := by
  obtain ⟨s', hs'⟩ := h
  obtain ⟨_, hlegal, _, r, hr, hstart, hr'⟩ | ⟨hb, _⟩ := change_eq_ok hs'
  · refine ⟨r, hr, hstart, hlegal, ?_⟩
    simp only [StoreUse.apply, hs']
    exact hr'
  · cases hb

/-- A change is made just if the run is kept otherwise afterwards. -/
theorem makes_iff_ne (s : RunStore) (id : String) (c : RunChange) (now : Timestamp) :
    s.Makes id c now ↔ ((StoreUse.change id c).apply s now).find? id ≠ s.find? id := by
  constructor
  · intro h heq
    obtain ⟨r, hr, hstart, hlegal, hr'⟩ := h.find?_apply
    rw [hr', hr] at heq
    have hsame : c.target = c.start := by
      rw [← hstart, ← Option.some.inj heq]
      rfl
    rw [hsame, RunStatus.canBecome_irrefl] at hlegal
    cases hlegal
  · intro hne
    by_contra hnot
    apply hne
    simp only [StoreUse.apply]
    split
    · rename_i b s' h
      cases b with
      | true => exact (hnot ⟨s', h⟩).elim
      | false =>
        obtain ⟨hb, _⟩ | ⟨_, rfl⟩ := change_eq_ok h
        · cases hb
        · rfl
    · rfl

/-- The first change raised the rank of the run, which only grows until the second one. -/
theorem MakesAt.not_lt {uses : List (StoreUse × Timestamp)} {start : RunStatus} {i j : Nat}
    (hi : MakesAt uses id start i) (hj : MakesAt uses id start j) : ¬ i < j := by
  intro hlt
  obtain ⟨c, now, hc, hstart, hmakes⟩ := hi
  obtain ⟨c', now', _, hstart', hmakes'⟩ := hj
  obtain ⟨r, _, _, hlegal, hr⟩ := hmakes.find?_apply
  obtain ⟨r', hr', hstatus', _, _⟩ := hmakes'.find?_apply
  have hsplit : uses.take j = uses.take (i + 1) ++ (uses.take j).drop (i + 1) := by
    have hfront : uses.take (i + 1) = (uses.take j).take (i + 1) := by
      rw [List.take_take, Nat.min_eq_left hlt]
    rw [hfront, List.take_append_drop]
  have htake : empty.after (uses.take (i + 1)) =
      (StoreUse.change id c).apply (empty.after (uses.take i)) now := by
    rw [List.take_add_one, hc, after_append]
    rfl
  rw [hsplit, after_append, htake] at hr'
  obtain ⟨r₂, hr₂, hrank, _⟩ := find?_after hr ((uses.take j).drop (i + 1))
  obtain rfl := Option.some.inj (hr'.symm.trans hr₂)
  have hgrows := RunStatus.rank_lt_of_canBecome hlegal
  have htarget : c.target.rank ≤ r'.status.rank := hrank
  rw [hstatus', hstart', ← hstart] at htarget
  omega

/-- A run goes along one of the paths and is frozen at its end; a use touches the run of its id
alone; a change tells that it was made just if it changed the run, which it does just where it is
legal and the run is as it expects; and of each run one change at most is made from a status. -/
theorem lifecycle (uses : List (StoreUse × Timestamp)) (id : String) :
    (statuses id empty uses).destutter (· ≠ ·) ∈ RunStatus.paths ∧
    (∀ early late r, uses = early ++ late → (empty.after early).find? id = some r →
      r.status.isTerminal = true → (empty.after uses).find? id = some r) ∧
    (∀ (u : StoreUse) now, id ≠ u.id →
      (u.apply (empty.after uses) now).find? id = (empty.after uses).find? id) ∧
    (∀ c now, ((empty.after uses).Makes id c now ↔
        ((StoreUse.change id c).apply (empty.after uses) now).find? id ≠
          (empty.after uses).find? id) ∧
      ((empty.after uses).Makes id c now ↔ c.start.canBecome c.target = true ∧
        ∃ (r : StoredRun) (t : Timestamp), (empty.after uses).find? id = some r ∧
          r.status = c.start ∧ r.updatedAt = t.stored ∧
          ∀ o, c.observed = some o → t.SameMicro o)) ∧
    ∀ start i j, MakesAt uses id start i → MakesAt uses id start j → i = j := by
  refine ⟨destutter_statuses id uses, ?frozen, ?others, ?made, ?once⟩
  case frozen =>
    rintro early late r rfl hr ht
    obtain ⟨r', hr', _, hstays⟩ := find?_after hr late
    rw [after_append, hr', hstays ht]
  case others =>
    intro u now hid
    exact find?_apply_other _ now hid
  case made =>
    intro c now
    exact ⟨makes_iff_ne _ id c now, makes_iff uses id c now⟩
  case once =>
    intro start i j hi hj
    have := hi.not_lt hj
    have := hj.not_lt hi
    omega

def day : Date := ⟨2025, 7, 21, by decide, by decide, by decide⟩

def second (n : Fin 86400) : Timestamp :=
  { Timestamp.midnight day with
    second := n
    second_lt := n.isLt
    leap_second := fun h => absurd h (by decide) }

/-- A run is made, taken up, reported and completed; the same change comes once more. -/
def twiceCompleted : List (StoreUse × Timestamp) :=
  [(.create "run" none none, second 0), (.change "run" .begin, second 1),
    (.progress "run" 2, second 2), (.change "run" (.complete 2), second 3),
    (.change "run" (.complete 7), second 4)]

/-- The run is completed once and keeps the rows of that. -/
theorem lifecycle_twiceCompleted :
    MakesAt twiceCompleted "run" .processing 3 ∧ ¬ MakesAt twiceCompleted "run" .processing 4 ∧
      ∃ r, (empty.after twiceCompleted).find? "run" = some r ∧ r.status = .completed ∧
        r.rowsWritten = 2 ∧
        ((StoreUse.progress "other" 5).apply (empty.after twiceCompleted) (second 5)).find? "run" =
          some r := by
  obtain ⟨_, frozen, others, _, once⟩ := lifecycle twiceCompleted "run"
  have hmakes : (empty.after (twiceCompleted.take 3)).Makes "run" (.complete 2) (second 3) := by
    obtain ⟨_, _, _, made, _⟩ := lifecycle (twiceCompleted.take 3) "run"
    exact (made _ _).1.mpr (by decide +kernel)
  have hthird : MakesAt twiceCompleted "run" .processing 3 :=
    ⟨.complete 2, second 3, rfl, rfl, hmakes⟩
  refine ⟨hthird, fun hfourth => ?_, ?_⟩
  · exact absurd (once _ _ _ hthird hfourth) (by decide)
  · have hrun : ((empty.after (twiceCompleted.take 4)).find? "run").map
        (fun r => (r.status, r.rowsWritten)) = some (.completed, 2) := by decide +kernel
    obtain ⟨r, hr, hkept⟩ := Option.map_eq_some_iff.mp hrun
    obtain ⟨hstatus, hrows⟩ := Prod.mk.inj hkept
    have hended : r.status.isTerminal = true := by
      rw [hstatus]
      rfl
    have hlast := frozen (twiceCompleted.take 4) (twiceCompleted.drop 4) r rfl hr hended
    exact ⟨r, hlast, hstatus, hrows, (others _ _ (by decide)).trans hlast⟩

end RunStore

end TablePipeline
