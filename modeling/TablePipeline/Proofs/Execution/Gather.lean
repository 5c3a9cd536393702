import TablePipeline.Execution.Gather
import TablePipeline.Proofs.Frame.Results

/-!
# Gathering without a failure over a reference

Services answer the queries of a plan as their layouts expect, and what they report themselves is
never about a reference. Then only the steps in memory could fail over one, and nothing crashes.
-/

set_option autoImplicit false

namespace TablePipeline

variable {σ ω α β : Type}

/-- Every answer to a query of the node over its connection fits its layout. -/
def Services.Answers (s : Services σ ω) (a : Access) (node : PlanNode) : Prop :=
  ∀ q ∈ node.queries, ∀ c, Connection.find? a.connections q.connection = some c →
    ∀ state result state', s.query c q.fragment state = (.ok result, state') →
      Layout.Fits q.layout result

/-- What sources report is about connections and queries, never about a reference. -/
structure Services.ReportOwnFaults (s : Services σ ω) : Prop where
  connect : ∀ c password state f state', s.connect c password state = (.error (.failed f), state') →
    f.kind ≠ .unresolvedReference
  query : ∀ c fragment state f state', s.query c fragment state = (.error f, state') →
    f.kind ≠ .unresolvedReference

/-- An early end that tells something else than a reference. -/
def Halt.SparesReferences : Halt → Prop
  | .failure f => f.kind ≠ .unresolvedReference
  | .crash => False

namespace Services

def answering (result : RowSet) : Services Unit Unit where
  reaches _ := true
  connect _ _ s := (.ok (), s)
  query _ _ s := (.ok result, s)
  disconnect _ s := (.ok (), s)
  openWriter _ s := (.ok (), s)
  writeBatch w rows s := (.ok rows.length, w, s)
  finish _ s := (.ok (), s)

theorem answering_reportOwnFaults (result : RowSet) : (answering result).ReportOwnFaults where
  connect c password state f state' h := by cases h
  query c fragment state f state' h := by cases h

theorem answering_answers {result : RowSet} {a : Access} {node : PlanNode}
    (h : ∀ q ∈ node.queries, Layout.Fits q.layout result) :
    (answering result).Answers a node := by
  intro q hq c _ state result' state' hquery
  cases hquery
  exact h q hq

theorem leave_eq_ok {s : Services σ ω} {r : Except Halt Frame × Gathering σ} {f : Frame}
    {w : Warnings} (h : (s.leave r).1 = .ok (f, w)) : r.1 = .ok f := by
  obtain ⟨(_ | _) | f', g⟩ := r
  · cases h
  · cases h
  · exact congrArg Except.ok (Prod.mk.inj (Except.ok.inj h)).1

end Services

theorem SecretError.toFailure_kind (e : SecretError) :
    e.toFailure.kind ≠ .unresolvedReference := by
  cases e <;> exact fun h => by cases h

theorem Connection.id_of_find? {connections : List Connection} {id : String} {c : Connection}
    (h : find? connections id = some c) : c.id = id := by
  unfold find? at h
  have hid := List.find?_some h
  exact beq_iff_eq.mp hid

theorem Connection.password_yields (c : Connection) (vault : Vault) :
    Yields (c.password vault) fun _ => True := by
  unfold password
  split
  · trivial
  · rename_i blob _
    split
    · trivial
    · cases vault.openText blob with
      | ok secret => trivial
      | error e => exact e.toFailure_kind

namespace Services

theorem logIn_yields {s : Services σ ω} (hs : s.ReportOwnFaults) (timeoutMillis : Nat)
    (c : Connection) (password : Option Secret) (state : σ) :
    Yields (s.logIn timeoutMillis c password state).1 fun _ => True := by
  unfold logIn
  split
  · trivial
  · rename_i f state' h
    exact hs.connect c password state f state' h
  · exact fun h => by cases h

theorem openSession_yields {s : Services σ ω} (hs : s.ReportOwnFaults) (vault : Vault)
    (timeoutMillis : Nat) (c : Connection) (state : σ) :
    Yields (s.openSession vault timeoutMillis c state).1 fun _ => True := by
  have hp := c.password_yields vault
  unfold openSession
  split
  · exact fun h => by cases h
  · split
    · rename_i f h
      rw [h] at hp
      exact hp
    · exact logIn_yields hs timeoutMillis c _ state

end Services

namespace Gather

def Within (a : Access) (g : Gathering σ) : Prop :=
  ∀ c ∈ g.sessions, Connection.find? a.connections c.id = some c

/-- Whatever happened before, the results have a property and nothing ends over a reference or in a
crash. -/
def Yields (a : Access) (x : Gather σ α) (P : α → Prop) : Prop :=
  ∀ g, Within a g → Outcome.Ends P Halt.SparesReferences (x.run g).1 ∧ Within a (x.run g).2

theorem ends_of_yields {x : Except Failure α} {P : α → Prop} (h : TablePipeline.Yields x P) :
    Outcome.Ends P Halt.SparesReferences (x.mapError .failure) := by
  cases x with
  | ok a => exact h
  | error f => exact h

theorem run_bind (x : Gather σ α) (f : α → Gather σ β) (g : Gathering σ) :
    (x >>= f).run g = match x.run g with
      | (.ok a, g') => (f a).run g'
      | (.error e, g') => (.error e, g') := by
  show StateT.run (ExceptT.run (x >>= f)) g = _
  rw [ExceptT.run_bind, StateT.run_bind]
  cases hg : x.run g with
  | mk result g' =>
    have hrun : StateT.run (ExceptT.run x) g = (result, g') := hg
    rw [hrun]
    cases result with
    | ok a => rfl
    | error e => rfl

theorem run_outside (act : σ → Except Failure α × σ) (g : Gathering σ) :
    (outside act).run g =
      ((act g.state).1.mapError .failure, { g with state := (act g.state).2 }) := rfl

variable {a : Access}

theorem Yields.bind {x : Gather σ α} {f : α → Gather σ β} {P : α → Prop} {Q : β → Prop}
    (h : x.Yields a P) (hf : ∀ r, P r → (f r).Yields a Q) : (x >>= f).Yields a Q := by
  intro g hg
  obtain ⟨hx, hg'⟩ := h g hg
  rw [run_bind]
  cases hrun : x.run g with
  | mk result g' =>
    rw [hrun] at hx hg'
    cases result with
    | ok r => exact hf r hx g' hg'
    | error e => exact ⟨hx, hg'⟩

theorem ofExcept_yields {x : Except Halt α} {P : α → Prop}
    (h : Outcome.Ends P Halt.SparesReferences x) : (ofExcept x : Gather σ α).Yields a P :=
  fun _ hg => ⟨h, hg⟩

theorem outside_yields {act : σ → Except Failure α × σ} {P : α → Prop}
    (h : ∀ state, TablePipeline.Yields (act state).1 P) : (outside act).Yields a P :=
  fun g hg => ⟨ends_of_yields (h g.state), hg⟩

theorem warned_yields {rule : Warnings → Except Failure (α × Warnings)} {P : α → Prop}
    (h : ∀ w, TablePipeline.Yields (rule w) fun result => P result.1) :
    (warned rule : Gather σ α).Yields a P := by
  intro g hg
  have hw := h g.warnings
  rw [warned, ExceptT.run_mk]
  cases hr : rule g.warnings with
  | ok result =>
    rw [hr] at hw
    exact ⟨hw, hg⟩
  | error f =>
    rw [hr] at hw
    exact ⟨hw, hg⟩

theorem session_found (s : Services σ ω) (id : String) {g : Gathering σ} (hg : Within a g) :
    Within a ((session s a id).run g).2 ∧ ∀ c, ((session s a id).run g).1 = .ok c →
      Connection.find? a.connections id = some c := by
  rw [session, ExceptT.run_mk]
  split
  · rename_i c hc
    have hid := List.find?_some hc
    rw [beq_iff_eq] at hid
    have hfound := hg c (List.mem_of_find?_eq_some hc)
    rw [hid] at hfound
    exact ⟨hg, fun d hd => Except.ok.inj hd ▸ hfound⟩
  · split
    · exact ⟨hg, fun d hd => by cases hd⟩
    · rename_i c hc
      split
      · refine ⟨fun d hd => ?_, fun d hd => Except.ok.inj hd ▸ hc⟩
        rcases List.mem_append.mp hd with hd | hd
        · exact hg d hd
        · obtain rfl := List.mem_singleton.mp hd
          rwa [Connection.id_of_find? hc]
      · exact ⟨hg, fun d hd => by cases hd⟩

theorem session_yields {s : Services σ ω} (hs : s.ReportOwnFaults) (a : Access) (id : String) :
    (session s a id).Yields a fun c => Connection.find? a.connections id = some c := by
  intro g hg
  obtain ⟨hwithin, hfound⟩ := session_found s id hg
  refine ⟨?_, hwithin⟩
  cases hresult : ((session s a id).run g).1 with
  | ok c => exact hfound c hresult
  | error f =>
    rw [session, ExceptT.run_mk] at hresult
    split at hresult
    · cases hresult
    · split at hresult
      · obtain rfl := Except.error.inj hresult
        exact fun h => by cases h
      · rename_i c _
        have hopen := Services.openSession_yields hs a.vault a.timeoutMillis c g.state
        split at hresult
        · cases hresult
        · rename_i f' state h
          obtain rfl := Except.error.inj hresult
          rw [h] at hopen
          exact hopen

end Gather

end TablePipeline
