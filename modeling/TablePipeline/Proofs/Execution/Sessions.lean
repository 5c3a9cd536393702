import TablePipeline.Proofs.Execution.Dialogue
import TablePipeline.Proofs.Execution.Steps
import TablePipeline.Proofs.Run.Lifecycle

/-!
# The sessions of a run

An execution tries each connection at most once and sends the queries of its plan in their order.
Every session that was opened is closed once, whatever has failed, and before anything is written.
Only a crash leaves them open.
-/

set_option autoImplicit false

namespace TablePipeline

variable {σ ω : Type}

/-- What a log tells of some queries until sessions are closed: connections are tried once each,
some sessions are opened, and queries are sent in order, each to a source with an open session. -/
structure Sends (connections : List Connection) (queries : List QueryPlan)
    (gathering : List LogEntry) (opened : List Connection) : Prop where
  gathers : ∀ x ∈ gathering, x.isGathering = true
  once : ((gathering.filterMap LogEntry.attempted?).map (·.id)).Nodup
  opened : gathering.filterMap LogEntry.opened? = opened
  connected : ∀ before c fragment after, gathering = before ++ .query c fragment :: after →
    .connect c true ∈ before
  inOrder : (gathering.filter LogEntry.isQuery).map some <+: queries.map (·.logged? connections)

def SendsAll (connections : List Connection) (queries : List QueryPlan)
    (gathering : List LogEntry) : Prop :=
  (gathering.filter LogEntry.isQuery).map some = queries.map (·.logged? connections)

theorem Dialogue.sends {connections sessions : List Connection} {queries : List QueryPlan}
    {entries : List LogEntry} {ending : Except Halt Unit}
    (h : Dialogue connections [] queries entries sessions ending) :
    Sends connections queries entries sessions where
  gathers := h.isGathering
  once := h.attempted_nodup.1
  opened := h.opened_eq.symm
  connected _ _ _ _ hentries := (h.query_after_connect hentries).resolve_left (by simp)
  inOrder := h.sent_prefix.1

/-- A crash comes with the answer to a query whose wildcard stands behind a fixed column, over one
of the sessions. -/
def CrashesAtLast (queries : List QueryPlan) (gathering : List LogEntry)
    (opened : List Connection) : Prop :=
  ∃ before c q, gathering = before ++ [.query c q.fragment] ∧ c ∈ opened ∧ q ∈ queries ∧ q.Overruns

/-- What the log tells when gathering the rows of some queries has ended: every session that was
opened was disconnected once, unless it crashed. -/
inductive GatheringLog (connections : List Connection) (queries : List QueryPlan) :
    Except Halt (Frame × Warnings) → List LogEntry → Prop
  | gathered {gathering : List LogEntry} {opened : List Connection} {result : Frame × Warnings}
    (hsends : Sends connections queries gathering opened)
    (hall : SendsAll connections queries gathering) :
    GatheringLog connections queries (.ok result) (gathering ++ opened.map .disconnect)
  | failed {gathering : List LogEntry} {opened : List Connection} {f : Failure}
    (hsends : Sends connections queries gathering opened) :
    GatheringLog connections queries (.error (.failure f)) (gathering ++ opened.map .disconnect)
  | crashed {gathering : List LogEntry} {opened : List Connection}
    (hsends : Sends connections queries gathering opened)
    (hlast : CrashesAtLast queries gathering opened) :
    GatheringLog connections queries (.error .crash) gathering

theorem Services.logged_gather (s : Services σ ω) (a : Access) (plan : Plan) (maxWarnings : Nat)
    (x : σ × List LogEntry) :
    ∃ entries, (s.logged.gather a plan maxWarnings x).2.2 = x.2 ++ entries ∧
      GatheringLog a.connections plan.root.queries (s.logged.gather a plan maxWarnings x).1
        entries := by
  obtain ⟨entries, hlog, hdialogue, _⟩ :=
    Gather.rows_converses s a plan.root ⟨x, [], .empty maxWarnings⟩ (by simp [Gather.Within])
  unfold gather
  generalize (Gather.rows s.logged a plan.root).run ⟨x, [], .empty maxWarnings⟩ = r
    at hlog hdialogue ⊢
  have hclosed (g : Gathering (σ × List LogEntry)) (h : g.state.2 = x.2 ++ entries) :
      (s.logged.closeAll g.sessions g.state).2 =
        x.2 ++ (entries ++ g.sessions.map .disconnect) := by
    rw [s.logged_closeAll, h, List.append_assoc]
  obtain ⟨(f | _) | frame, g⟩ := r
  · exact ⟨_, hclosed g hlog, .failed hdialogue.sends⟩
  · obtain ⟨before, c, q, hentries, hopen, hq, _, hover⟩ := hdialogue.ends_in_query
    exact ⟨_, hlog, .crashed hdialogue.sends ⟨before, c, q, hentries, hopen, hq, hover⟩⟩
  · exact ⟨_, hclosed g hlog, .gathered hdialogue.sends (hdialogue.sent_prefix.2 rfl)⟩

namespace Execution

/-- Whether nothing more is asked of the services. -/
def hasStopped : Execution ω → Bool
  | refused | fail _ _ | done _ | crashed => true
  | _ => false

/-- Whether the rows were gathered, or never will be for a failure. -/
def hasGathered : Execution ω → Bool
  | claim | gather | crashed => false
  | _ => true

theorem hasStopped_ofLoad (halt : Halt) :
    (ofLoad (.error halt) : Execution ω).hasStopped = true := by
  cases halt <;> rfl

end Execution

namespace Engine

variable (e : Engine σ ω) (job : Job)

def access : Access := ⟨job.connections, e.vault, e.config.connectTimeoutMillis⟩

/-- What the log of a job tells whose rows were gathered with the services in a state: nothing if
there is no plan; otherwise its queries, the end of every session that was opened, and then what is
written. -/
def KeepsSessions (state : σ) (log : List LogEntry) : Prop :=
  (∀ f, plan job = .error f → log = []) ∧
  ∀ p, plan job = .ok p →
    let gathered := (e.services.gather (e.access job) p e.config.maxWarnings state).1
    ∃ gathering writing, log = gathering ++ writing ∧
      GatheringLog job.connections p.root.queries gathered gathering ∧
      (∀ x ∈ writing, x.isWriting = true) ∧ (writing ≠ [] → gathered.isOk = true)

theorem load_of_plan {p : Plan} (hplan : plan job = .ok p) (state : σ) :
    (e.load job state).2 =
        (e.services.gather (e.access job) p e.config.maxWarnings state).2 ∧
      ((e.load job state).1.isOk = true →
        (e.services.gather (e.access job) p e.config.maxWarnings state).1.isOk = true) := by
  unfold load access
  rw [hplan]
  dsimp only
  rcases e.services.gather _ p e.config.maxWarnings state with ⟨_ | _, state'⟩
  · exact ⟨rfl, id⟩
  · exact ⟨rfl, fun _ => rfl⟩

/-- After a load only what is written may follow, and that only if the rows were gathered. -/
theorem keepsSessions_load (state : σ) (writing : List LogEntry)
    (hwriting : ∀ x ∈ writing, x.isWriting = true)
    (hload : writing ≠ [] → (e.logged.load job (state, [])).1.isOk = true) :
    e.KeepsSessions job state ((e.logged.load job (state, [])).2.2 ++ writing) := by
  constructor
  · intro f hf
    have hfails : e.logged.load job (state, []) = (.error (.failure f), state, []) := by
      unfold load
      rw [hf]
    rw [hfails] at hload ⊢
    exact not_imp_comm.mp hload (by simp [Except.isOk, Except.toBool])
  · intro p hp
    obtain ⟨gathering, hlog, hleaves⟩ :=
      e.services.logged_gather (e.access job) p e.config.maxWarnings (state, [])
    have hresult : (e.services.logged.gather (e.access job) p e.config.maxWarnings (state, [])).1 =
        (e.services.gather (e.access job) p e.config.maxWarnings state).1 :=
      congrArg Prod.fst (e.services.logged_shows.gather (e.access job) p e.config.maxWarnings _)
    obtain ⟨hstate, hok⟩ := e.logged.load_of_plan job hp (state, [])
    refine ⟨gathering, writing, ?_, hresult ▸ hleaves, hwriting, fun hne => ?_⟩
    · rw [hstate]
      exact congrArg (· ++ writing) hlog
    · rw [← hresult]
      exact hok (hload hne)

/-! ### Steps and turns -/

/-- What a step of an execution meets: the time, the store of runs and the state of the services as
others have left them. -/
structure Turn (σ : Type) where
  now : Timestamp
  store : RunStore
  state : σ

/-- The log of an execution from a phase on that takes some turns, whatever others do in between. -/
def logAlong : Execution ω → List LogEntry → List (Turn σ) → List LogEntry
  | _, log, [] => log
  | x, log, t :: ts =>
    let next := e.logged.step job t.now t.store (t.state, log) x
    logAlong next.1 next.2.2.2 ts

variable {x : Execution ω}

theorem step_stopped (h : x.hasStopped = true) (now : Timestamp) (store : RunStore) (state : σ) :
    (e.step job now store state x).1.hasStopped = true ∧
      (e.step job now store state x).2.2 = state := by
  cases x with
  | refused | fail | done | crashed => exact ⟨rfl, rfl⟩
  | _ => cases h

theorem logAlong_stopped (h : x.hasStopped = true) (log : List LogEntry)
    (turns : List (Turn σ)) : e.logAlong job x log turns = log := by
  induction turns generalizing x log with
  | nil => rfl
  | cons t ts ih =>
    obtain ⟨hnext, hstate⟩ := e.logged.step_stopped job h t.now t.store (t.state, log)
    rw [logAlong, ih hnext, hstate]

section Takes

variable {e job} {now : Timestamp} {store store' : RunStore} {y : Execution ω}

theorem Takes.hasGathered {state state' : σ} (h : e.Takes job now store state x y store' state')
    (hx : x.hasGathered = true) : y.hasGathered = true := by
  cases h with
  | claimed | notClaimed | claimFault | gathered | notGathered | gatherCrashed | crashed => cases hx
  | _ => rfl

/-- After the rows were gathered a step adds at most what it writes to the log: opening, writing and
closing ask the warehouse once each, all other steps ask nothing. -/
theorem Takes.writes {state state' : σ} {log log' : List LogEntry}
    (h : e.logged.Takes job now store (state, log) x y store' (state', log'))
    (hx : x.hasGathered = true) :
    ∃ entries, log' = log ++ entries ∧ ∀ entry ∈ entries, entry.isWriting = true := by
  cases h with
  | claimed | notClaimed | claimFault | gathered | notGathered | gatherCrashed | crashed => cases hx
  | @opened load _ _ h | @notOpened load _ _ h =>
    exact ⟨[.openWriter load.target], (congrArg (·.2.2) h).symm, by simp [LogEntry.isWriting]⟩
  | @batchWritten _ _ _ batch _ _ _ _ _ h | @batchFailed _ _ _ batch _ _ _ _ _ h =>
    exact ⟨[.writeBatch batch], (congrArg (·.2.2.2) h).symm, by simp [LogEntry.isWriting]⟩
  | closed h | notClosed h | closedAfter h =>
    exact ⟨[.finish], (congrArg (·.2.2) h).symm, by simp [LogEntry.isWriting]⟩
  | _ => exact ⟨[], (List.append_nil log).symm, by simp⟩

end Takes

theorem logAlong_writing (h : x.hasGathered = true) (log : List LogEntry)
    (turns : List (Turn σ)) :
    ∃ entries, e.logAlong job x log turns = log ++ entries ∧
      ∀ y ∈ entries, y.isWriting = true := by
  induction turns generalizing x log with
  | nil => exact ⟨[], (List.append_nil log).symm, by simp⟩
  | cons t ts ih =>
    have htakes := e.logged.step_takes job t.now t.store (t.state, log) x
    obtain ⟨entries, hlog, hwriting⟩ := htakes.writes h
    obtain ⟨entries', hlog', hwriting'⟩ := ih (htakes.hasGathered h) (log ++ entries)
    refine ⟨entries ++ entries', ?_, fun y hy => ?_⟩
    · rw [logAlong, hlog, hlog', List.append_assoc]
    · exact (List.mem_append.mp hy).elim (hwriting y) (hwriting' y)

/-- From the gathering of its rows on an execution keeps to its sessions. -/
theorem logAlong_gather (turn : Turn σ) (turns : List (Turn σ)) :
    e.KeepsSessions job turn.state (e.logAlong job .gather [] (turn :: turns)) := by
  have hload := e.keepsSessions_load job turn.state
  rw [logAlong, step_gather]
  dsimp only
  generalize e.logged.load job (turn.state, []) = r at hload ⊢
  obtain ⟨halt | load, state, log⟩ := r
  · rw [e.logAlong_stopped job (Execution.hasStopped_ofLoad halt), ← List.append_nil log]
    exact hload [] (List.forall_mem_nil _) fun h => (h rfl).elim
  · obtain ⟨entries, hlog, hwriting⟩ :=
      e.logAlong_writing job (x := .openWriter load) rfl log turns
    rw [Execution.ofLoad, hlog]
    exact hload entries hwriting fun _ => rfl

/-- An execution that claims its run goes on to gather, and one that does not has stopped. -/
theorem step_claim_cases (now : Timestamp) (store : RunStore) (state : σ) :
    (store.Makes job.run .begin now ∧
        ∃ store', e.step job now store state .claim = (.gather, store', state)) ∨
      (¬ store.Makes job.run .begin now ∧
        (e.step job now store state .claim).1.hasStopped = true ∧
        (e.step job now store state .claim).1.hasGathered = true ∧
        (e.step job now store state .claim).2.2 = state) := by
  unfold RunStore.Makes
  simp only [step]
  cases hchange : store.change job.run .begin now with
  | error fault => exact .inr ⟨by simp, rfl, rfl, rfl⟩
  | ok r =>
    obtain ⟨claimed, store'⟩ := r
    cases claimed with
    | true => exact .inl ⟨⟨store', rfl⟩, store', rfl⟩
    | false => exact .inr ⟨by simp, rfl, rfl, rfl⟩

theorem logAlong_claim (turn : Turn σ) (turns : List (Turn σ)) :
    (turn.store.Makes job.run .begin turn.now →
      e.logAlong job .claim [] (turn :: turns) = e.logAlong job .gather [] turns) ∧
    (¬ turn.store.Makes job.run .begin turn.now →
      e.logAlong job .claim [] (turn :: turns) = []) := by
  rw [logAlong]
  rcases e.logged.step_claim_cases job turn.now turn.store (turn.state, []) with
    ⟨hmakes, store', hstep⟩ | ⟨hrefused, hstopped, _, hstate⟩
  · rw [hstep]
    exact ⟨fun _ => rfl, fun h => (h hmakes).elim⟩
  · rw [e.logAlong_stopped job hstopped, hstate]
    exact ⟨fun h => (hrefused h).elim, fun _ => rfl⟩

theorem finishFrom_logged (now : Timestamp) (x : Execution ω) (store : RunStore)
    (y : σ × List LogEntry) :
    ∃ turns, (e.logged.finishFrom job now x store y).2.2.2 =
      e.logAlong job x y.2 (⟨now, store, y.1⟩ :: turns) := by
  fun_induction e.logged.finishFrom job now x store y with
  | case1 x store y ending hend =>
    refine ⟨[], ?_⟩
    cases x with
    | done | crashed => rfl
    | _ => cases hend
  | case2 x store y hnone next ih =>
    obtain ⟨turns, hturns⟩ := ih
    exact ⟨⟨now, next.2.1, next.2.2.1⟩ :: turns, hturns⟩

/-! ### Whole executions -/

/-- Past the gathering of its rows an execution returns. -/
theorem finishFrom_ne_crashed (h : x.hasGathered = true) (now : Timestamp) (store : RunStore)
    (state : σ) : (e.finishFrom job now x store state).1 ≠ .crashed := by
  fun_induction e.finishFrom job now x store state with
  | case1 x store state ending hend =>
    cases x with
    | done result =>
      obtain rfl := Option.some.inj hend
      rintro ⟨⟩
    | crashed => cases h
    | _ => cases hend
  | case2 x store state hnone next ih =>
    exact ih ((e.step_takes job now store state x).hasGathered h)

theorem finishFrom_gather_crashed (now : Timestamp) (store : RunStore) (state : σ) :
    (e.finishFrom job now .gather store state).1 = .crashed ↔
      (e.load job state).1 = .error .crash := by
  rw [finishFrom_of_step rfl step_gather]
  rcases (e.load job state).1 with (f | _) | load
  · refine iff_of_false (e.finishFrom_ne_crashed job rfl now store _) ?_
    rintro ⟨⟩
  · rw [finishFrom_of_end rfl]
    exact iff_of_true rfl rfl
  · refine iff_of_false (e.finishFrom_ne_crashed job rfl now store _) ?_
    rintro ⟨⟩

/-- An execution crashes just if it claims its run and gathering its rows crashes. -/
theorem execute_eq_crashed (now : Timestamp) (store : RunStore) (state : σ) :
    (e.execute job now store state).1 = .crashed ↔
      store.Makes job.run .begin now ∧ (e.load job state).1 = .error .crash := by
  rcases e.step_claim_cases job now store state with
    ⟨hmakes, store', hstep⟩ | ⟨hrefused, _, hgathered, _⟩
  · rw [execute, finishFrom_of_step rfl hstep, e.finishFrom_gather_crashed]
    exact (and_iff_right hmakes).symm
  · rw [execute, finishFrom_of_step rfl rfl]
    exact iff_of_false (e.finishFrom_ne_crashed job hgathered now _ _) fun h => hrefused h.1

/-- The log of an execution keeps to the sessions of its run: of one that goes on alone, and of one
with others in between, which may change the store of runs and the state of the services before each
of its turns. It is empty if the run is not claimed. Whatever has failed, the sessions are closed;
they stay open only if gathering the rows crashes, and then the execution returns nothing. -/
theorem execute_sessions :
    (∀ now store state,
      (e.logged.execute job now store (state, [])).map id (Prod.map id Prod.fst) =
          e.execute job now store state ∧
        ((e.execute job now store state).1 = .crashed ↔
          store.Makes job.run .begin now ∧ (e.load job state).1 = .error .crash) ∧
        (store.Makes job.run .begin now →
          e.KeepsSessions job state (e.logged.execute job now store (state, [])).2.2.2) ∧
        (¬ store.Makes job.run .begin now →
          (e.logged.execute job now store (state, [])).2.2.2 = [])) ∧
    ∀ (first : Turn σ) (turns : List (Turn σ)),
      (first.store.Makes job.run .begin first.now → ∀ second rest, turns = second :: rest →
        e.KeepsSessions job second.state (e.logAlong job .claim [] (first :: turns))) ∧
      (¬ first.store.Makes job.run .begin first.now →
        e.logAlong job .claim [] (first :: turns) = []) := by
  refine ⟨fun now store state => ⟨?same, ?crashed, ?claimed, ?refused⟩,
    fun first turns => ⟨?turns, ?none⟩⟩
  case same => exact e.logged_shows.execute job now store (state, [])
  case crashed => exact e.execute_eq_crashed job now store state
  case claimed =>
    intro hmakes
    rcases e.logged.step_claim_cases job now store (state, []) with
      ⟨_, store', hstep⟩ | ⟨hrefused, _⟩
    · obtain ⟨turns, hturns⟩ := e.finishFrom_logged job now .gather store' (state, [])
      rw [execute, finishFrom_of_step rfl hstep, hturns]
      exact e.logAlong_gather job ⟨now, store', state⟩ turns
    · exact (hrefused hmakes).elim
  case refused =>
    intro hrefused
    obtain ⟨turns, hturns⟩ := e.finishFrom_logged job now .claim store (state, [])
    rw [execute, hturns]
    exact (e.logAlong_claim job ⟨now, store, state⟩ turns).2 hrefused
  case turns =>
    rintro hmakes second rest rfl
    rw [(e.logAlong_claim job first _).1 hmakes]
    exact e.logAlong_gather job second rest
  case none => exact (e.logAlong_claim job first turns).2

def shop : Connection := ⟨"shop", .postgres, "", none, "", "", none, none, none⟩

def archive : Connection := ⟨"archive", .mysql, "", none, "", "", none, none, none⟩

def archivedOrders : Job where
  run := "run"
  pipeline := {
    nodes := [
      ⟨"people", .source, .object [("connection", .text "shop"), ("table", .text "people")]⟩,
      ⟨"orders", .source, .object [("connection", .text "archive"), ("table", .text "orders")]⟩,
      ⟨"both", .join, .object [("left", .text "people"), ("right", .text "orders"),
        ("leftColumn", .text "people.id"), ("rightColumn", .text "orders.person")]⟩,
      ⟨"out", .sink, .object []⟩]
    edges := [⟨"people", "both"⟩, ⟨"orders", "both"⟩, ⟨"both", "out"⟩]
    sink := ⟨"result", [], .append⟩
    policy := .nullOut }
  connections := [shop, archive]

/-- Sources that answer, of which one cannot be connected to. -/
def withoutArchive : Engine Unit Unit where
  services := {
    Services.answering ⟨["id"], [[.integer 1]]⟩ with
    connect := fun c _ s => (if c.id = "archive" then .error .unanswered else .ok (), s) }
  vault := ⟨none⟩
  config := .standard

def pendingTurn : Turn Unit where
  now := .midnight RunStore.day
  store := ⟨[⟨"run", none, none, .pending, 0, none, none, "", ""⟩], true⟩
  state := ()

/-- The second source fails when the first one was asked; its session is closed all the same. -/
theorem execute_sessions_withoutArchive :
    withoutArchive.logAlong archivedOrders .claim [] [pendingTurn, pendingTurn] =
        [.connect shop true,
          .query shop ⟨"SELECT \"people\".* FROM \"people\" \"people\"", []⟩,
          .connect archive false, .disconnect shop] ∧
      withoutArchive.KeepsSessions archivedOrders ()
        [.connect shop true,
          .query shop ⟨"SELECT \"people\".* FROM \"people\" \"people\"", []⟩,
          .connect archive false, .disconnect shop] ∧
      (plan archivedOrders).isOk = true ∧
      withoutArchive.KeepsSessions archivedOrders () (withoutArchive.logged.execute archivedOrders
        pendingTurn.now pendingTurn.store ((), [])).2.2.2 := by
  have hmakes : pendingTurn.store.Makes archivedOrders.run .begin pendingTurn.now := ⟨_, rfl⟩
  have hlog : withoutArchive.logAlong archivedOrders .claim [] [pendingTurn, pendingTurn] =
      [.connect shop true,
        .query shop ⟨"SELECT \"people\".* FROM \"people\" \"people\"", []⟩,
        .connect archive false, .disconnect shop] := by
    decide +kernel
  obtain ⟨halone, hturns⟩ := execute_sessions withoutArchive archivedOrders
  refine ⟨hlog, ?_, by decide +kernel, (halone _ _ _).2.2.1 hmakes⟩
  rw [← hlog]
  exact (hturns pendingTurn _).1 hmakes pendingTurn [] rfl

/-! ### Sessions that stay open -/

/-- Orders with a customer each; the columns of customers are declared, those of orders are open. -/
def customersWithOrders : Job where
  run := "run"
  pipeline := {
    nodes := [
      ⟨"customers", .source, .object [("connection", .text "shop"), ("table", .text "customers"),
        ("alias", .text "c"),
        ("columns", .list [.object [("name", .text "id"), ("type", .text "integer")]])]⟩,
      ⟨"orders", .source, .object [("connection", .text "shop"), ("table", .text "orders"),
        ("alias", .text "s")]⟩,
      ⟨"both", .join, .object [("left", .text "customers"), ("right", .text "orders"),
        ("leftColumn", .text "c.id"), ("rightColumn", .text "s.customer")]⟩,
      ⟨"out", .sink, .object []⟩]
    edges := [⟨"customers", "both"⟩, ⟨"orders", "both"⟩, ⟨"both", "out"⟩]
    sink := ⟨"result", [], .append⟩
    policy := .nullOut }
  connections := [shop]

/-- A shop without orders, which tells no columns of an empty answer. -/
def emptyShop : Engine Unit Unit where
  services := Services.answering .empty
  vault := ⟨none⟩
  config := .standard

def emptyShopLog : List LogEntry :=
  [.connect shop true,
    .query shop ⟨"SELECT \"c\".\"id\" AS \"__c0\", \"s\".* FROM \"customers\" \"c\" " ++
      "INNER JOIN \"orders\" \"s\" ON \"c\".\"id\" = \"s\".\"customer\"", []⟩]

theorem load_emptyShop :
    emptyShop.logged.load customersWithOrders ((), []) = (.error .crash, (), emptyShopLog) := by
  have hlog : (emptyShop.logged.load customersWithOrders ((), [])).2 = ((), emptyShopLog) := by
    decide +kernel
  have hhalts : (match (emptyShop.logged.load customersWithOrders ((), [])).1 with
      | .error halt => halt == .crash
      | .ok _ => false) = true := by
    decide +kernel
  revert hlog hhalts
  generalize emptyShop.logged.load customersWithOrders ((), []) = r
  obtain ⟨halt | load, state⟩ := r
  · rintro rfl hhalts
    rw [beq_iff_eq.mp hhalts]
  · rintro _ ⟨⟩

/-- The one query is answered without columns and rows. The session of the shop was opened and is
never closed, and the run is still processing. -/
theorem execute_crashes_emptyShop :
    ∃ store' r', emptyShop.logged.execute customersWithOrders pendingTurn.now pendingTurn.store
        ((), []) = (.crashed, store', (), emptyShopLog) ∧
      store'.find? "run" = some r' ∧ r'.status = .processing ∧
      .connect shop true ∈ emptyShopLog ∧ .disconnect shop ∉ emptyShopLog := by
  have hheld : pendingTurn.store.Holds customersWithOrders.run
      ⟨"run", none, none, .pending, 0, none, none, "", ""⟩ := ⟨rfl, rfl⟩
  obtain ⟨store', r', hend, hr', hprocessing⟩ :=
    execute_of_crash emptyShop.logged pendingTurn.now _ load_emptyShop hheld rfl
  exact ⟨store', r', hend, hr'.2, hprocessing, by decide, by decide⟩

end Engine

end TablePipeline
