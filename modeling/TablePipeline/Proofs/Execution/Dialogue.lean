import TablePipeline.Proofs.Execution.Logging
import TablePipeline.Proofs.Frame.EmptyResults

/-!
# Dialogues with sources

What is asked of sources while the rows of a plan are gathered: a connection is tried when a query
first needs it, its session serves the later queries too, and the first failure ends it all. A crash
comes with the answer to a query.
-/

set_option autoImplicit false

namespace TablePipeline

variable {σ ω α β : Type}

/-- What a query adds to the log, if its connection is defined. -/
def QueryPlan.logged? (connections : List Connection) (q : QueryPlan) : Option LogEntry :=
  (Connection.find? connections q.connection).map fun c => .query c q.fragment

/-- A fixed column of the query stands before its wildcard, so that an answer without columns and
rows leads out of range. -/
def QueryPlan.Overruns (q : QueryPlan) : Prop :=
  Layout.wildcardCount q.layout = 1 ∧ 0 < q.layout.findIdx Layout.isWildcard

theorem QueryPlan.overruns_of_crash {q : QueryPlan} {result : RowSet}
    (h : (Frame.ofResult q.layout result).mapError (·.toHalt) = .error .crash) : q.Overruns := by
  cases hresult : Frame.ofResult q.layout result with
  | ok f =>
    rw [hresult] at h
    cases h
  | error fault =>
    rw [hresult] at h
    cases fault with
    | outOfRange start length =>
      obtain ⟨_, hcount, hpos, rfl, _⟩ := Frame.empty_of_outOfRange hresult
      exact ⟨hcount, hpos⟩
    | _ => cases h

/-- What may be asked of sources from some open sessions on with some queries to send, the sessions
that are open in the end, and how it ends. -/
inductive Dialogue (connections : List Connection) :
    List Connection → List QueryPlan → List LogEntry → List Connection → Except Halt Unit → Prop
  | finish (sessions : List Connection) : Dialogue connections sessions [] [] sessions (.ok ())
  | stop (sessions : List Connection) (queries : List QueryPlan) (f : Failure) :
    Dialogue connections sessions queries [] sessions (.error (.failure f))
  | crash {sessions : List Connection} {q : QueryPlan} {queries : List QueryPlan} {c : Connection}
    (hopen : c ∈ sessions) (hc : Connection.find? connections q.connection = some c)
    (hover : q.Overruns) :
    Dialogue connections sessions (q :: queries) [.query c q.fragment] sessions (.error .crash)
  | refuse {sessions : List Connection} {q : QueryPlan} {queries : List QueryPlan} {c : Connection}
    (hnew : c.id ∉ sessions.map (·.id)) (f : Failure) :
    Dialogue connections sessions (q :: queries) [.connect c false] sessions
      (.error (.failure f))
  | enter {sessions sessions' : List Connection} {queries : List QueryPlan}
    {entries : List LogEntry} {ending : Except Halt Unit} {c : Connection}
    (hnew : c.id ∉ sessions.map (·.id))
    (rest : Dialogue connections (sessions ++ [c]) queries entries sessions' ending) :
    Dialogue connections sessions queries (.connect c true :: entries) sessions' ending
  | ask {sessions sessions' : List Connection} {q : QueryPlan} {queries : List QueryPlan}
    {entries : List LogEntry} {ending : Except Halt Unit} {c : Connection} (hopen : c ∈ sessions)
    (hc : Connection.find? connections q.connection = some c)
    (rest : Dialogue connections sessions queries entries sessions' ending) :
    Dialogue connections sessions (q :: queries) (.query c q.fragment :: entries) sessions' ending

namespace Dialogue

variable {connections sessions sessions' sessions'' : List Connection}
  {queries queries' : List QueryPlan} {entries entries' : List LogEntry}
  {ending ending' : Except Halt Unit}

/-- A dialogue whose queries were all answered goes on with further ones. -/
theorem append (h : Dialogue connections sessions queries entries sessions' (.ok ()))
    (h' : Dialogue connections sessions' queries' entries' sessions'' ending') :
    Dialogue connections sessions (queries ++ queries') (entries ++ entries') sessions''
      ending' := by
  generalize hanswered : Except.ok () = ending at h
  induction h with
  | finish sessions => exact h'
  | stop | crash | refuse => cases hanswered
  | enter hnew _ ih => exact .enter hnew (ih h' hanswered)
  | ask hopen hc _ ih => exact .ask hopen hc (ih h' hanswered)

/-- Where a dialogue ended early, later queries are not sent. -/
theorem stopped {halt : Halt}
    (h : Dialogue connections sessions queries entries sessions' (.error halt))
    (later : List QueryPlan) :
    Dialogue connections sessions (queries ++ later) entries sessions' (.error halt) := by
  generalize hending : Except.error halt = ending at h
  induction h with
  | finish => cases hending
  | stop sessions queries f => exact .stop sessions _ f
  | crash hopen hc hover => exact .crash hopen hc hover
  | refuse hnew f => exact .refuse hnew f
  | enter hnew _ ih => exact .enter hnew (ih hending)
  | ask hopen hc _ ih => exact .ask hopen hc (ih hending)

/-! ### What holds of each dialogue -/

theorem isGathering (h : Dialogue connections sessions queries entries sessions' ending) :
    ∀ x ∈ entries, x.isGathering = true := by
  induction h with
  | finish | stop => exact List.forall_mem_nil _
  | crash | refuse => exact List.forall_mem_singleton.mpr rfl
  | enter _ _ ih => exact List.forall_mem_cons.mpr ⟨rfl, ih⟩
  | ask _ _ _ ih => exact List.forall_mem_cons.mpr ⟨rfl, ih⟩

/-- No connection is tried twice, and none to which a session is open. -/
theorem attempted_nodup (h : Dialogue connections sessions queries entries sessions' ending) :
    ((entries.filterMap LogEntry.attempted?).map (·.id)).Nodup ∧
      ∀ c ∈ entries.filterMap LogEntry.attempted?, c.id ∉ sessions.map (·.id) := by
  induction h with
  | finish | stop | crash => exact ⟨List.nodup_nil, List.forall_mem_nil _⟩
  | refuse hnew => simpa [LogEntry.attempted?] using hnew
  | @enter sessions _ _ entries _ c hnew _ ih =>
    obtain ⟨hnodup, hfresh⟩ := ih
    have hrest : ∀ d ∈ entries.filterMap LogEntry.attempted?,
        d.id ∉ sessions.map (·.id) ∧ d.id ≠ c.id := by
      intro d hd
      have hd := hfresh d hd
      rw [List.map_append, List.mem_append, not_or] at hd
      exact ⟨hd.1, fun heq => hd.2 (List.mem_singleton.mpr heq)⟩
    refine ⟨List.nodup_cons.mpr ⟨fun hmem => ?_, hnodup⟩, fun d hd => ?_⟩
    · obtain ⟨d, hd, heq⟩ := List.mem_map.mp hmem
      exact (hrest d hd).2 heq
    · rcases List.mem_cons.mp hd with rfl | hd
      · exact hnew
      · exact (hrest d hd).1
  | ask _ _ _ ih => exact ih

/-- The sessions that are open in the end are those from before and those that were opened. -/
theorem opened_eq (h : Dialogue connections sessions queries entries sessions' ending) :
    sessions' = sessions ++ entries.filterMap LogEntry.opened? := by
  induction h with
  | finish | stop | crash | refuse => exact (List.append_nil _).symm
  | enter _ _ ih =>
    rw [ih, List.append_assoc]
    rfl
  | ask _ _ _ ih => exact ih

theorem logged?_eq {q : QueryPlan} {c : Connection}
    (hc : Connection.find? connections q.connection = some c) :
    q.logged? connections = some (.query c q.fragment) := by
  rw [QueryPlan.logged?, hc, Option.map_some]

/-- The queries are sent in their order, and all of them if all were answered. -/
theorem sent_prefix (h : Dialogue connections sessions queries entries sessions' ending) :
    (entries.filter LogEntry.isQuery).map some <+: queries.map (·.logged? connections) ∧
      (ending = .ok () →
        (entries.filter LogEntry.isQuery).map some = queries.map (·.logged? connections)) := by
  induction h with
  | finish => simp
  | stop => simp
  | crash _ hc _ =>
    rw [List.map_cons, logged?_eq hc]
    exact ⟨List.cons_prefix_cons.mpr ⟨rfl, List.nil_prefix⟩, nofun⟩
  | refuse => simp [LogEntry.isQuery]
  | enter _ _ ih => exact ih
  | ask _ hc _ ih =>
    rw [List.filter_cons_of_pos rfl, List.map_cons, List.map_cons, logged?_eq hc]
    exact ⟨(List.cons_prefix_cons.mpr ⟨rfl, ih.1⟩), fun hanswered => by rw [ih.2 hanswered]⟩

/-- A crash comes with the answer to a query, over a session that is open. -/
theorem ends_in_query
    (h : Dialogue connections sessions queries entries sessions' (.error .crash)) :
    ∃ before c q, entries = before ++ [.query c q.fragment] ∧ c ∈ sessions' ∧ q ∈ queries ∧
      Connection.find? connections q.connection = some c ∧ q.Overruns := by
  generalize hending : Except.error Halt.crash = ending at h
  induction h with
  | finish | stop | refuse => cases hending
  | @crash _ q _ c hopen hc hover => exact ⟨[], c, q, rfl, hopen, List.mem_cons_self, hc, hover⟩
  | @enter _ _ _ _ _ d _ _ ih =>
    obtain ⟨before, c, q, rfl, hrest⟩ := ih hending
    exact ⟨.connect d true :: before, c, q, rfl, hrest⟩
  | @ask _ _ p _ _ _ d _ _ _ ih =>
    obtain ⟨before, c, q, rfl, hopen, hq, hrest⟩ := ih hending
    exact ⟨.query d p.fragment :: before, c, q, rfl, hopen, List.mem_cons_of_mem p hq, hrest⟩

/-- Each query is sent over a session that was opened before. -/
theorem query_after_connect
    (h : Dialogue connections sessions queries entries sessions' ending)
    {before after : List LogEntry} {c : Connection} {fragment : Sql.Fragment}
    (hentries : entries = before ++ .query c fragment :: after) :
    c ∈ sessions ∨ .connect c true ∈ before := by
  induction h generalizing before with
  | finish | stop => simp at hentries
  | crash hopen =>
    cases before with
    | nil =>
      obtain ⟨rfl, _⟩ := LogEntry.query.inj (List.cons.inj hentries).1
      exact .inl hopen
    | cons => simp at hentries
  | refuse => cases before <;> simp at hentries
  | @enter _ _ _ _ _ d _ _ ih =>
    cases before with
    | nil => cases (List.cons.inj hentries).1
    | cons x before =>
      obtain ⟨rfl, htail⟩ := List.cons.inj hentries
      rcases ih htail with hmem | hmem
      · rcases List.mem_append.mp hmem with hmem | hmem
        · exact .inl hmem
        · obtain rfl := List.mem_singleton.mp hmem
          exact .inr List.mem_cons_self
      · exact .inr (List.mem_cons_of_mem _ hmem)
  | @ask _ _ q _ entries _ d hopen _ _ ih =>
    cases before with
    | nil =>
      obtain ⟨rfl, _⟩ := LogEntry.query.inj (List.cons.inj hentries).1
      exact .inl hopen
    | cons x before =>
      exact (ih (List.cons.inj hentries).2).imp_right (List.mem_cons_of_mem x)

end Dialogue

/-! ### Gathering is such a dialogue -/

namespace Gather

/-- From a moment on, what is gathered adds to the log a dialogue that sends some queries. -/
def ConversesFrom (a : Access) (queries : List QueryPlan) (x : Gather (σ × List LogEntry) α)
    (g : Gathering (σ × List LogEntry)) : Prop :=
  ∃ entries, (x.run g).2.state.2 = g.state.2 ++ entries ∧
    Dialogue a.connections g.sessions queries entries (x.run g).2.sessions
      ((x.run g).1.map fun _ => ()) ∧
    Within a (x.run g).2

def Converses (a : Access) (queries : List QueryPlan) (x : Gather (σ × List LogEntry) α) : Prop :=
  ∀ g, Within a g → ConversesFrom a queries x g

variable {a : Access} {queries queries' : List QueryPlan}

theorem Converses.bind {x : Gather (σ × List LogEntry) α}
    {f : α → Gather (σ × List LogEntry) β} (h : x.Converses a queries)
    (hf : ∀ r, (f r).Converses a queries') : (x >>= f).Converses a (queries ++ queries') := by
  intro g hg
  obtain ⟨entries, hlog, hdialogue, hwithin⟩ := h g hg
  unfold ConversesFrom
  rw [run_bind]
  rcases hrun : x.run g with ⟨e | r, g'⟩
  · rw [hrun] at hlog hdialogue hwithin
    exact ⟨entries, hlog, hdialogue.stopped queries', hwithin⟩
  · rw [hrun] at hlog hdialogue hwithin
    obtain ⟨entries', hlog', hdialogue', hwithin'⟩ := hf r g' hwithin
    refine ⟨entries ++ entries', ?_, hdialogue.append hdialogue', hwithin'⟩
    rw [hlog', hlog, List.append_assoc]

theorem ofExcept_converses (result : Except Failure α) :
    (ofExcept (result.mapError .failure) : Gather (σ × List LogEntry) α).Converses a [] := by
  intro g hg
  refine ⟨[], (List.append_nil _).symm, ?_, hg⟩
  cases result with
  | ok r => exact .finish g.sessions
  | error f => exact .stop g.sessions [] f

theorem warned_converses (rule : Warnings → Except Failure (α × Warnings)) :
    (warned rule : Gather (σ × List LogEntry) α).Converses a [] := by
  intro g hg
  refine ⟨[], ?_⟩
  rw [warned, ExceptT.run_mk, List.append_nil]
  cases rule g.warnings with
  | ok r => exact ⟨rfl, .finish g.sessions, hg⟩
  | error f => exact ⟨rfl, .stop g.sessions [] f, hg⟩

/-- A query is sent over the session of its connection, which is opened if it is not open yet. A
connection is known by its id, and no session has that of a new one. -/
theorem session_converses (s : Services σ ω) (q : QueryPlan)
    {k : Connection → Gather (σ × List LogEntry) α}
    (hk : ∀ c g, Within a g → c ∈ g.sessions →
      Connection.find? a.connections q.connection = some c → ConversesFrom a [q] (k c) g) :
    (session s.logged a q.connection >>= k).Converses a [q] := by
  intro g hg
  unfold ConversesFrom
  rw [run_bind, session, ExceptT.run_mk]
  cases hfound : g.sessions.find? (·.id == q.connection) with
  | some c =>
    have hid := List.find?_some hfound
    have hmem := List.mem_of_find?_eq_some hfound
    refine hk c g hg hmem ?_
    rw [← beq_iff_eq.mp hid]
    exact hg c hmem
  | none =>
    cases hc : Connection.find? a.connections q.connection with
    | none => exact ⟨[], (List.append_nil _).symm, .stop g.sessions [q] _, hg⟩
    | some c =>
      have hnew : c.id ∉ g.sessions.map (·.id) := by
        intro hmem
        obtain ⟨d, hd, hid⟩ := List.mem_map.mp hmem
        rw [Connection.id_of_find? hc] at hid
        exact List.find?_eq_none.mp hfound d hd (beq_iff_eq.mpr hid)
      have hopening := s.logged_openSession a.vault a.timeoutMillis c g.state
      dsimp only
      generalize s.logged.openSession a.vault a.timeoutMillis c g.state = opened at hopening ⊢
      rcases opened with ⟨f | _, state⟩
      · rcases hopening with hlog | hlog
        · exact ⟨[], hlog.trans (List.append_nil _).symm, .stop g.sessions [q] f, hg⟩
        · exact ⟨_, hlog, .refuse hnew f, hg⟩
      · have hwithin : Within a { g with state, sessions := g.sessions ++ [c] } := by
          intro d hd
          rcases List.mem_append.mp hd with hd | hd
          · exact hg d hd
          · obtain rfl := List.mem_singleton.mp hd
            rwa [Connection.id_of_find? hc]
        obtain ⟨entries, hlog, hdialogue, hwithin'⟩ :=
          hk c _ hwithin (List.mem_append_right _ List.mem_cons_self) hc
        refine ⟨.connect c true :: entries, ?_, .enter hnew hdialogue, hwithin'⟩
        rw [hlog]
        exact (congrArg (· ++ entries) hopening).trans (List.append_assoc ..)

/-- The rows of a node are gathered by sending its queries in their order. -/
theorem rows_converses (s : Services σ ω) (a : Access) (node : PlanNode) :
    (rows s.logged a node).Converses a node.queries := by
  induction node with
  | query q =>
    refine session_converses s q fun c g hg hopen hc => ?_
    refine ⟨[.query c q.fragment], ?_⟩
    have hlog : (s.logged.query c q.fragment g.state).2.2 =
        g.state.2 ++ [.query c q.fragment] := rfl
    rw [run_bind, run_outside]
    generalize s.logged.query c q.fragment g.state = asked at hlog ⊢
    rcases asked with ⟨f | result, state⟩
    · exact ⟨hlog, .ask hopen hc (.stop g.sessions [] f), hg⟩
    · refine ⟨hlog, ?_, hg⟩
      show Dialogue _ _ _ _ _ (((Frame.ofResult q.layout result).mapError (·.toHalt)).map _)
      cases hframe : (Frame.ofResult q.layout result).mapError (·.toHalt) with
      | ok f => exact .ask hopen hc (.finish g.sessions)
      | error halt =>
        cases halt with
        | failure f => exact .ask hopen hc (.stop g.sessions [] f)
        | crash => exact .crash hopen hc (QueryPlan.overruns_of_crash hframe)
  | join left right rule hl hr =>
    rw [PlanNode.queries, ← List.append_nil right.queries]
    exact hl.bind fun _ => hr.bind fun _ => ofExcept_converses _
  | filter input conditions ih =>
    rw [PlanNode.queries, ← List.append_nil input.queries]
    exact ih.bind fun _ => ofExcept_converses _
  | cast input rule ih =>
    rw [PlanNode.queries, ← List.append_nil input.queries]
    exact ih.bind fun _ => warned_converses _
  | arithmetic input rule type? ih =>
    rw [PlanNode.queries, ← List.append_nil input.queries]
    exact ih.bind fun _ => warned_converses _
  | condition input rule ih =>
    rw [PlanNode.queries, ← List.append_nil input.queries]
    exact ih.bind fun _ => warned_converses _

end Gather

end TablePipeline
