import TablePipeline.Proofs.Execution.Writing

/-!
# Services over a richer state

Services that do over a state what others do over a part of it serve an execution in the same way:
it goes through the same steps and leaves the same behind, seen through that part.
-/

set_option autoImplicit false

namespace TablePipeline

variable {σ τ ω α β : Type} {π : τ → σ}

/-- What the services `t` do is, seen through `π`, what the services `s` do. -/
structure Services.Shows (t : Services τ ω) (π : τ → σ) (s : Services σ ω) : Prop where
  reaches : t.reaches = s.reaches
  connect : ∀ c password x, (t.connect c password x).map id π = s.connect c password (π x)
  query : ∀ c fragment x, (t.query c fragment x).map id π = s.query c fragment (π x)
  disconnect : ∀ c x, (t.disconnect c x).map id π = s.disconnect c (π x)
  openWriter : ∀ target x, (t.openWriter target x).map id π = s.openWriter target (π x)
  writeBatch : ∀ w rows x,
    (t.writeBatch w rows x).map id (Prod.map id π) = s.writeBatch w rows (π x)
  finish : ∀ w x, (t.finish w x).map id π = s.finish w (π x)

namespace Services.Shows

variable {t : Services τ ω} {s : Services σ ω} (h : t.Shows π s)
include h

theorem logIn (timeoutMillis : Nat) (c : Connection) (password : Option Secret) (x : τ) :
    (t.logIn timeoutMillis c password x).map id π = s.logIn timeoutMillis c password (π x) := by
  unfold Services.logIn
  rw [← h.connect]
  rcases t.connect c password x with ⟨(_ | _) | _, x'⟩ <;> rfl

theorem openSession (vault : Vault) (timeoutMillis : Nat) (c : Connection) (x : τ) :
    (t.openSession vault timeoutMillis c x).map id π =
      s.openSession vault timeoutMillis c (π x) := by
  unfold Services.openSession
  rw [h.reaches]
  split
  · rfl
  · split
    · rfl
    · exact h.logIn timeoutMillis c _ x

theorem closeAll (sessions : List Connection) (x : τ) :
    π (t.closeAll sessions x) = s.closeAll sessions (π x) := by
  induction sessions generalizing x with
  | nil => rfl
  | cons c cs ih =>
    have hc := congrArg Prod.snd (h.disconnect c x)
    exact (ih _).trans (congrArg (s.closeAll cs) hc)

end Services.Shows

def Gathering.view (π : τ → σ) (g : Gathering τ) : Gathering σ :=
  ⟨π g.state, g.sessions, g.warnings⟩

namespace Gather

/-- What is gathered as `y` is, seen through `π`, gathered as `x`. -/
def Shows (y : Gather τ α) (π : τ → σ) (x : Gather σ α) : Prop :=
  ∀ g, x.run (g.view π) = (y.run g).map id (Gathering.view π)

theorem Shows.bind {y : Gather τ α} {x : Gather σ α} {f : α → Gather τ β} {k : α → Gather σ β}
    (h : y.Shows π x) (hf : ∀ a, (f a).Shows π (k a)) : (y >>= f).Shows π (x >>= k) := by
  intro g
  rw [run_bind, run_bind, h g]
  rcases y.run g with ⟨_ | a, g'⟩
  · rfl
  · exact hf a g'

theorem ofExcept_shows (result : Except Halt α) :
    (ofExcept result : Gather τ α).Shows π (ofExcept result) := fun _ => rfl

theorem warned_shows (rule : Warnings → Except Failure (α × Warnings)) :
    (warned rule : Gather τ α).Shows π (warned rule) := by
  intro g
  have hwarnings : (g.view π).warnings = g.warnings := rfl
  rw [warned, warned, ExceptT.run_mk, ExceptT.run_mk, hwarnings]
  cases rule g.warnings <;> rfl

theorem outside_shows {act : τ → Except Failure α × τ} {act' : σ → Except Failure α × σ}
    (h : ∀ x, (act x).map id π = act' (π x)) : (outside act).Shows π (outside act') := by
  intro g
  have hact : act' (g.view π).state = (act g.state).map id π := (h g.state).symm
  rw [outside, outside, ExceptT.run_mk, ExceptT.run_mk, hact]
  rfl

theorem session_shows {t : Services τ ω} {s : Services σ ω} (h : t.Shows π s) (a : Access)
    (connection : String) : (session t a connection).Shows π (session s a connection) := by
  intro g
  have hsessions : (g.view π).sessions = g.sessions := rfl
  rw [session, session, ExceptT.run_mk, ExceptT.run_mk, hsessions]
  split
  · rfl
  · split
    · rfl
    · rename_i c _
      have hopen : s.openSession a.vault a.timeoutMillis c (g.view π).state =
          (t.openSession a.vault a.timeoutMillis c g.state).map id π :=
        (h.openSession a.vault a.timeoutMillis c g.state).symm
      rw [hopen]
      rcases t.openSession a.vault a.timeoutMillis c g.state with ⟨_ | _, x⟩ <;> rfl

theorem rows_shows {t : Services τ ω} {s : Services σ ω} (h : t.Shows π s) (a : Access)
    (node : PlanNode) : (rows t a node).Shows π (rows s a node) := by
  induction node with
  | query q =>
    refine (session_shows h a q.connection).bind fun c => ?_
    exact (outside_shows (h.query c q.fragment)).bind fun _ => ofExcept_shows _
  | join left right rule hl hr => exact hl.bind fun _ => hr.bind fun _ => ofExcept_shows _
  | filter input conditions ih => exact ih.bind fun _ => ofExcept_shows _
  | cast input rule ih => exact ih.bind fun _ => warned_shows _
  | arithmetic input rule type? ih => exact ih.bind fun _ => warned_shows _
  | condition input rule ih => exact ih.bind fun _ => warned_shows _

end Gather

theorem Services.Shows.leave {t : Services τ ω} {s : Services σ ω} (h : t.Shows π s)
    (r : Except Halt Frame × Gathering τ) :
    (t.leave r).map id π = s.leave (r.map id (Gathering.view π)) := by
  obtain ⟨(_ | _) | _, g⟩ := r
  · exact Prod.ext rfl (h.closeAll g.sessions g.state)
  · rfl
  · exact Prod.ext rfl (h.closeAll g.sessions g.state)

theorem Services.Shows.gather {t : Services τ ω} {s : Services σ ω} (h : t.Shows π s) (a : Access)
    (plan : Plan) (maxWarnings : Nat) (x : τ) :
    (t.gather a plan maxWarnings x).map id π = s.gather a plan maxWarnings (π x) := by
  have hrows := Gather.rows_shows h a plan.root ⟨x, [], .empty maxWarnings⟩
  dsimp only [Gathering.view] at hrows
  unfold Services.gather
  rw [hrows]
  exact h.leave _

namespace Engine

structure Shows (d : Engine τ ω) (π : τ → σ) (e : Engine σ ω) : Prop where
  services : d.services.Shows π e.services
  vault : d.vault = e.vault
  config : d.config = e.config

variable {d : Engine τ ω} {e : Engine σ ω}

theorem Shows.load (h : d.Shows π e) (job : Job) (x : τ) :
    (d.load job x).map id π = e.load job (π x) := by
  unfold Engine.load
  rw [h.vault, h.config]
  split
  · rfl
  · rw [← h.services.gather]
    rename_i p _
    generalize d.services.gather _ p _ x = gathered
    rcases gathered with ⟨_ | _, x'⟩ <;> rfl

theorem Shows.step (h : d.Shows π e) (job : Job) (now : Timestamp) (store : RunStore) (x : τ)
    (phase : Execution ω) :
    (d.step job now store x phase).map id (Prod.map id π) =
      e.step job now store (π x) phase := by
  cases phase with
  | done | crashed | refused => rfl
  | claim =>
    simp only [Engine.step]
    split <;> rfl
  | gather =>
    simp only [Engine.step]
    rw [← h.load]
    rcases d.load job x with ⟨(_ | _) | _, x'⟩ <;> rfl
  | openWriter load =>
    simp only [Engine.step]
    rw [← h.services.openWriter, h.config]
    rcases d.services.openWriter load.target x with ⟨_ | _, x'⟩ <;> rfl
  | write load writer batches number written =>
    cases batches with
    | nil => rfl
    | cons b bs =>
      simp only [Engine.step]
      rw [← h.services.writeBatch]
      rcases d.services.writeBatch writer b x with ⟨_ | _, writer', x'⟩ <;> rfl
  | report load writer batches number written =>
    simp only [Engine.step]
    split <;> rfl
  | close load writer result written =>
    simp only [Engine.step]
    rw [← h.services.finish]
    rcases d.services.finish writer x with ⟨_ | _, x'⟩ <;> cases result <;> rfl
  | complete load written =>
    simp only [Engine.step]
    split <;> rfl
  | fail failure written => rfl

theorem Shows.finishFrom (h : d.Shows π e) (job : Job) (now : Timestamp) (phase : Execution ω)
    (store : RunStore) (x : τ) :
    (d.finishFrom job now phase store x).map id (Prod.map id π) =
      e.finishFrom job now phase store (π x) := by
  fun_induction d.finishFrom job now phase store x with
  | case1 phase store x ending hend =>
    rw [finishFrom_of_end hend]
    rfl
  | case2 phase store x hnone next ih =>
    have hstep : e.step job now store (π x) phase = (next.1, next.2.1, π next.2.2) :=
      (h.step job now store x phase).symm
    rw [ih, finishFrom_of_step hnone hstep]

/-- Seen through a part of the state, an execution goes as it goes over that part alone. -/
theorem Shows.execute (h : d.Shows π e) (job : Job) (now : Timestamp) (store : RunStore) (x : τ) :
    (d.execute job now store x).map id (Prod.map id π) = e.execute job now store (π x) :=
  h.finishFrom job now .claim store x

end Engine

end TablePipeline
