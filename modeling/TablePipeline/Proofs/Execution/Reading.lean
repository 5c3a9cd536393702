import TablePipeline.Execution.Engine
import TablePipeline.Execution.Memory
import TablePipeline.Proofs.Execution.Gather

/-!
# Gathering only reads

A part of the state that connecting, asking and leaving sources never touch is the same after the
rows of a job were gathered. The tables of a warehouse in memory are such a part.
-/

set_option autoImplicit false

namespace TablePipeline

variable {σ ω α β ρ : Type} {s : Services σ ω} {π : σ → ρ}

/-- The services read without touching a part of their state. -/
structure Services.Keeps (s : Services σ ω) (π : σ → ρ) : Prop where
  connect : ∀ c password state, π (s.connect c password state).2 = π state
  query : ∀ c fragment state, π (s.query c fragment state).2 = π state
  disconnect : ∀ c state, π (s.disconnect c state).2 = π state

/-- Beside a warehouse, sources only touch what reading the warehouse touches. -/
theorem Services.keeps_of_sheets {τ σ' : Type} {s : Services (σ' × τ) ω} {sources : Sources τ}
    {read : Sql.Fragment → σ' → Except WarehouseError RowSet × σ'} {π : σ' → ρ}
    (hs : s.toSources = sources.withSheets read) (hread : ∀ f w, π (read f w).2 = π w) :
    s.Keeps fun x => π x.1 := by
  constructor
  · intro c password x
    rw [hs]
    unfold Sources.withSheets
    dsimp only
    split <;> rfl
  · intro c f x
    rw [hs]
    unfold Sources.withSheets
    dsimp only
    split
    · exact hread f x.1
    · rfl
  · intro c x
    rw [hs]
    unfold Sources.withSheets
    dsimp only
    split <;> rfl

theorem MemoryWarehouse.services_keeps {τ : Type} (sources : Sources τ) :
    (services sources).Keeps Prod.fst := by
  have hs : (services sources).toSources = sources.withSheets fun f w => (w.query f.sql, w) := rfl
  exact Services.keeps_of_sheets (π := fun w : MemoryWarehouse => w) hs fun _ _ => rfl

namespace Services

theorem Keeps.logIn (h : s.Keeps π) (timeoutMillis : Nat) (c : Connection)
    (password : Option Secret) (state : σ) :
    π (s.logIn timeoutMillis c password state).2 = π state := by
  have hconnect := h.connect c password state
  unfold Services.logIn
  split <;> rename_i heq <;> rw [heq] at hconnect <;> exact hconnect

theorem Keeps.openSession (h : s.Keeps π) (vault : Vault) (timeoutMillis : Nat) (c : Connection)
    (state : σ) : π (s.openSession vault timeoutMillis c state).2 = π state := by
  unfold Services.openSession
  split
  · rfl
  · split
    · rfl
    · exact h.logIn timeoutMillis c _ state

theorem Keeps.closeAll (h : s.Keeps π) (sessions : List Connection) (state : σ) :
    π (s.closeAll sessions state) = π state := by
  induction sessions generalizing state with
  | nil => rfl
  | cons c cs ih => exact (ih _).trans (h.disconnect c state)

theorem Keeps.leave (h : s.Keeps π) (r : Except Halt Frame × Gathering σ) :
    π (s.leave r).2 = π r.2.state := by
  obtain ⟨(_ | _) | _, g⟩ := r
  · exact h.closeAll g.sessions g.state
  · rfl
  · exact h.closeAll g.sessions g.state

end Services

namespace Gather

def Keeps (π : σ → ρ) (x : Gather σ α) : Prop := ∀ g, π (x.run g).2.state = π g.state

theorem Keeps.bind {x : Gather σ α} {f : α → Gather σ β} (hx : x.Keeps π)
    (hf : ∀ a, (f a).Keeps π) : (x >>= f).Keeps π := by
  intro g
  have hg := hx g
  rw [run_bind]
  cases hrun : x.run g with
  | mk result g' =>
    rw [hrun] at hg
    cases result with
    | ok a => exact (hf a g').trans hg
    | error e => exact hg

theorem ofExcept_keeps (x : Except Halt α) : (ofExcept x : Gather σ α).Keeps π := fun _ => rfl

theorem warned_keeps (rule : Warnings → Except Failure (α × Warnings)) :
    (warned rule : Gather σ α).Keeps π := by
  intro g
  rw [warned, ExceptT.run_mk]
  cases rule g.warnings <;> rfl

theorem session_keeps (h : s.Keeps π) (a : Access) (id : String) : (session s a id).Keeps π := by
  intro g
  rw [session, ExceptT.run_mk]
  split
  · rfl
  · split
    · rfl
    · rename_i c _
      have hopen := h.openSession a.vault a.timeoutMillis c g.state
      split <;> rename_i heq <;> rw [heq] at hopen <;> exact hopen

theorem rows_keeps (h : s.Keeps π) (a : Access) (node : PlanNode) : (rows s a node).Keeps π := by
  induction node with
  | query q =>
    refine (session_keeps h a q.connection).bind fun c => ?_
    exact Keeps.bind (fun g => h.query c q.fragment g.state) fun _ => ofExcept_keeps _
  | join left right rule hl hr =>
    exact Keeps.bind hl fun _ => Keeps.bind hr fun _ => ofExcept_keeps _
  | filter input conditions ih => exact Keeps.bind ih fun _ => ofExcept_keeps _
  | cast input rule ih => exact Keeps.bind ih fun _ => warned_keeps _
  | arithmetic input rule type? ih => exact Keeps.bind ih fun _ => warned_keeps _
  | condition input rule ih => exact Keeps.bind ih fun _ => warned_keeps _

end Gather

theorem Services.Keeps.gather (h : s.Keeps π) (a : Access) (plan : Plan) (maxWarnings : Nat)
    (state : σ) : π (s.gather a plan maxWarnings state).2 = π state := by
  have hrows := Gather.rows_keeps h a plan.root ⟨state, [], .empty maxWarnings⟩
  exact (h.leave _).trans hrows

theorem Engine.load_keeps {e : Engine σ ω} (h : e.services.Keeps π) (job : Job) (state : σ) :
    π (e.load job state).2 = π state := by
  unfold load
  split
  · rfl
  · rename_i p _
    have hgather := h.gather ⟨job.connections, e.vault, e.config.connectTimeoutMillis⟩ p
      e.config.maxWarnings state
    split <;> rename_i heq <;> rw [heq] at hgather <;> exact hgather

end TablePipeline
