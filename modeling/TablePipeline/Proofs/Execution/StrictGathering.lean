import TablePipeline.Execution.Target
import TablePipeline.Proofs.Execution.Tracking
import TablePipeline.Proofs.Frame.OutputNames
import TablePipeline.Proofs.Frame.StrictSteps

/-!
# Gathering that stays within its rows

Gathering and the step to the target table are set beside their strict forms, in which every cell
that is read or written must be there. Gathering keeps each frame that it makes. When the answers to
the queries are rectangular, so are all frames, and no strict form ever stops at a cell that is not
there.
-/

set_option autoImplicit false

namespace TablePipeline

variable {σ ω α β : Type}

/-! ### The target table -/

open StrictStep (settled settled_bind lift_bind)

namespace Sink

/-- The type that the first value of a column suggests, with the rows read until there is one. -/
def strictSuggestedType? (i : Nat) : List Row → Strict (Option ColumnType)
  | [] => .ok none
  | row :: rows => do
    let v ← row.read i
    if v.isNull then strictSuggestedType? i rows else return v.sniff?

/-- Rows are read only where neither the pipeline nor the plan has a type. -/
def strictColumnType (schema : List (String × ColumnType)) (rows : List Row) (name : String)
    (column : PlanColumn) (i : Nat) : Strict ColumnType :=
  match schema.lookup name <|> column.type? with
  | some type => .ok type
  | none => do return (← strictSuggestedType? i rows).getD .text

def strictColumns (schema : List (String × ColumnType)) (f : Frame) : Strict (List TableColumn) :=
  ((OutputName.all f.columns).zip f.columns).zipIdx.mapM fun ((name, column), i) => do
    return ⟨name, ← strictColumnType schema f.rows name column i⟩

theorem strictSuggestedType?_eq {i : Nat} {rows : List Row} (h : ∀ row ∈ rows, i < row.length) :
    strictSuggestedType? i rows = .ok (suggestedType? rows i) := by
  induction rows with
  | nil => rfl
  | cons row rows ih =>
    obtain ⟨hrow, hrows⟩ := List.forall_mem_cons.mp h
    rw [strictSuggestedType?, Row.read_of_lt hrow, suggestedType?, List.map_cons]
    show (if (row.getD i .null).isNull then _ else _) = _
    cases hnull : (row.getD i .null).isNull with
    | true =>
      rw [if_pos rfl, List.find?_cons_of_neg (by rw [hnull]; exact Bool.false_ne_true)]
      exact ih hrows
    | false =>
      rw [if_neg Bool.false_ne_true, List.find?_cons_of_pos (by rw [hnull]; rfl)]
      rfl

theorem strictColumnType_eq {schema : List (String × ColumnType)} {rows : List Row} {i : Nat}
    (h : ∀ row ∈ rows, i < row.length) (name : String) (column : PlanColumn) :
    strictColumnType schema rows name column i = .ok (columnType schema rows name column i) := by
  unfold strictColumnType columnType
  cases schema.lookup name with
  | some type => rfl
  | none =>
    cases column.type? with
    | some type => rfl
    | none =>
      show (strictSuggestedType? i rows >>= _) = _
      rw [strictSuggestedType?_eq h]
      rfl

/-- There are as many names as columns, so each place of a name is one of a column. -/
theorem strictColumns_eq {f : Frame} (hf : f.Rectangular) (schema : List (String × ColumnType)) :
    strictColumns schema f = .ok (columns schema f) := by
  refine mapM_eq fun ((name, column), i) hmem => ?_
  have hi : i < f.columns.length := by
    have hlt := (List.getElem?_eq_some_iff.mp (List.mem_zipIdx_iff_getElem?.mp hmem)).1
    rwa [List.length_zip, OutputName.length_all, Nat.min_self] at hlt
  dsimp only
  rw [strictColumnType_eq fun row hrow => hf row hrow ▸ hi]
  rfl

end Sink

def Plan.strictTarget (plan : Plan) (f : Frame) (w : Warnings) :
    StrictStep (TableSpec × List Row × Warnings) := do
  let names := OutputName.all f.columns
  match plan.sink.schema.find? fun (name, _) => name ∉ names with
  | some (name, _) =>
    throw ⟨.unresolvedReference,
      "sink schema column '" ++ name ++ "' is not produced by the pipeline"⟩
  | none => pure ()
  let columns ← ExceptT.lift (Sink.strictColumns plan.sink.schema f)
  let (rows, w) ← settled (Sink.fitRows plan.policy columns 1 f.rows w)
  return (⟨plan.sink.table, columns, plan.sink.mode⟩, rows, w)

theorem Plan.strictTarget_eq {f : Frame} (hf : f.Rectangular) (plan : Plan) (w : Warnings) :
    plan.strictTarget f w = settled (plan.target f w) := by
  unfold strictTarget target
  dsimp only
  cases plan.sink.schema.find? fun entry => entry.1 ∉ OutputName.all f.columns with
  | some entry => rfl
  | none =>
    refine (lift_bind (Sink.strictColumns_eq hf _) _).trans ?_
    exact settled_bind fun _ _ => rfl

/-! ### The strict form of gathering -/

/-- Strict gathering, with the frames that were made so far. -/
abbrev StrictGather (σ α : Type) := ExceptT Halt (StateT (Gathering σ × List Frame) Strict) α

namespace StrictGather

/-- Gathers what reads no cell of a frame. -/
def unchecked (x : Gather σ α) : StrictGather σ α := ExceptT.mk fun (g, made) =>
  let (result, g) := x.run g
  .ok (result, g, made)

def stepped (x : StrictStep α) : StrictGather σ α := ExceptT.mk fun state => do
  return ((← x.run).mapError .failure, state)

def warned (rule : Warnings → StrictStep (α × Warnings)) : StrictGather σ α :=
  ExceptT.mk fun (g, made) => do
    match ← (rule g.warnings).run with
    | .ok (r, warnings) => return (.ok r, { g with warnings }, made)
    | .error f => return (.error (.failure f), g, made)

def record (f : Frame) : StrictGather σ Frame := ExceptT.mk fun (g, made) =>
  .ok (.ok f, g, made ++ [f])

def rows (s : Services σ ω) (a : Access) : PlanNode → StrictGather σ Frame
  | .query q => do
    record (← unchecked (Gather.rows s a (.query q)))
  | .join left right rule => do
    let l ← rows s a left
    let r ← rows s a right
    record (← stepped (l.strictJoin r rule))
  | .filter input conditions => do
    let f ← rows s a input
    record (← stepped (f.strictFilter conditions))
  | .cast input rule => do
    let f ← rows s a input
    record (← warned (f.strictCast rule))
  | .arithmetic input rule type? => do
    let f ← rows s a input
    record (← warned (f.strictArithmetic rule type?))
  | .condition input rule => do
    let f ← rows s a input
    record (← warned (f.strictCondition rule))

end StrictGather

/-- Strict gathering of a plan, with all frames that it makes. -/
def Services.strictGather (s : Services σ ω) (a : Access) (plan : Plan) (maxWarnings : Nat)
    (state : σ) : Strict ((Except Halt (Frame × Warnings) × σ) × List Frame) := do
  let (result, g, made) ←
    (StrictGather.rows s a plan.root).run.run (⟨state, [], .empty maxWarnings⟩, [])
  return (s.leave (result, g), made)

/-! ### Agreement -/

def Services.AnswersRectangular (s : Services σ ω) (a : Access) (node : PlanNode) : Prop :=
  ∀ q ∈ node.queries, ∀ c, Connection.find? a.connections q.connection = some c →
    ∀ state result state', s.query c q.fragment state = (.ok result, state') → result.Rectangular

namespace StrictGather

variable {a : Access} {P : α → List Frame → Prop}

theorem run_bind (x : StrictGather σ α) (k : α → StrictGather σ β)
    (state : Gathering σ × List Frame) :
    (x >>= k).run.run state = x.run.run state >>= fun
      | (.ok r, state) => (k r).run.run state
      | (.error e, state) => .ok (.error e, state) := by
  rw [ExceptT.run_bind, StateT.run_bind]
  refine congrArg (x.run.run state >>= ·) (funext fun (result, state) => ?_)
  cases result with
  | ok r => rfl
  | error e => rfl

/-- Over sessions of the access, the strict computation never stops at a cell that is not there. It
ends as the other one does, and keeps rectangular frames that go with its result. -/
def Agrees (a : Access) (x : StrictGather σ α) (y : Gather σ α) (P : α → List Frame → Prop) :
    Prop :=
  ∀ g made, Gather.Within a g → ∃ more, (∀ f ∈ more, f.Rectangular) ∧
    x.run.run (g, made) = .ok ((y.run g).1, (y.run g).2, made ++ more) ∧
    Gather.Within a (y.run g).2 ∧ ∀ r, (y.run g).1 = .ok r → P r more

theorem Agrees.mono {x : StrictGather σ α} {y : Gather σ α} {Q : α → List Frame → Prop}
    (h : Agrees a x y P) (hP : ∀ r more, P r more → Q r more) : Agrees a x y Q := by
  intro g made hg
  obtain ⟨more, hmore, hrun, hg', hr⟩ := h g made hg
  exact ⟨more, hmore, hrun, hg', fun r hok => hP r more (hr r hok)⟩

theorem Agrees.bind {x : StrictGather σ α} {y : Gather σ α} {k : α → StrictGather σ β}
    {l : α → Gather σ β} {Q : β → List Frame → Prop} (h : Agrees a x y P)
    (hk : ∀ r before, P r before → Agrees a (k r) (l r) fun b more => Q b (before ++ more)) :
    Agrees a (x >>= k) (y >>= l) Q := by
  intro g made hg
  obtain ⟨before, hbefore, hrun, hg', hr⟩ := h g made hg
  rw [run_bind, hrun, Gather.run_bind]
  cases hy : y.run g with
  | mk result g' =>
    rw [hy] at hg' hr
    cases result with
    | ok r =>
      obtain ⟨more, hmore, hrun, hg'', hb⟩ := hk r before (hr r rfl) g' (made ++ before) hg'
      refine ⟨before ++ more, ?_, ?_, hg'', hb⟩
      · exact fun f hf => (List.mem_append.mp hf).elim (hbefore f) (hmore f)
      · rw [← List.append_assoc]
        exact hrun
    | error e => exact ⟨before, hbefore, rfl, hg', fun b hb => by cases hb⟩

theorem agrees_unchecked {y : Gather σ α}
    (h : ∀ g, Gather.Within a g →
      Gather.Within a (y.run g).2 ∧ ∀ r, (y.run g).1 = .ok r → P r []) :
    Agrees a (unchecked y) y P := by
  intro g made hg
  refine ⟨[], List.forall_mem_nil _, ?_, h g hg⟩
  rw [List.append_nil]
  rfl

def Makes (a : Access) (x : StrictGather σ Frame) (y : Gather σ Frame) : Prop :=
  Agrees a (x >>= record) y fun f more => f.Rectangular ∧ more = [f]

theorem Agrees.makes {x : StrictGather σ Frame} {y : Gather σ Frame}
    (h : Agrees a x y fun f more => f.Rectangular ∧ more = []) : Makes a x y := by
  intro g made hg
  obtain ⟨more, hmore, hrun, hg', hf⟩ := h g made hg
  rw [run_bind, hrun]
  cases hy : y.run g with
  | mk result g' =>
    rw [hy] at hg' hf
    cases result with
    | ok f =>
      obtain ⟨hrect, rfl⟩ := hf f rfl
      refine ⟨[f], List.forall_mem_singleton.mpr hrect, ?_, hg', fun f' hok => ?_⟩
      · rw [List.append_nil]
        rfl
      · obtain rfl := Except.ok.inj hok
        exact ⟨hrect, rfl⟩
    | error e => exact ⟨more, hmore, rfl, hg', fun f hok => by cases hok⟩

theorem makes_stepped {x : StrictStep Frame} {y : Except Failure Frame} (h : x = settled y)
    (hy : ∀ f, y = .ok f → f.Rectangular) :
    Makes a (stepped x) (Gather.ofExcept (y.mapError .failure) : Gather σ Frame) := by
  refine Agrees.makes fun g made hg => ⟨[], List.forall_mem_nil _, ?_, hg, fun f hok =>
    ⟨hy f (Outcome.mapError_eq_ok.mp hok), rfl⟩⟩
  subst h
  rw [List.append_nil]
  rfl

theorem makes_warned {x : Warnings → StrictStep (Frame × Warnings)}
    {y : Warnings → Except Failure (Frame × Warnings)} (h : ∀ w, x w = settled (y w))
    (hy : ∀ w result, y w = .ok result → result.1.Rectangular) :
    Makes a (warned x) (Gather.warned y : Gather σ Frame) := by
  refine Agrees.makes fun g made hg => ?_
  refine ⟨[], List.forall_mem_nil _, ?run, ?within, fun f hok => ?result⟩
  case run =>
    rw [List.append_nil]
    show ((x g.warnings).run >>= _) = _
    rw [h, Gather.warned, ExceptT.run_mk]
    cases y g.warnings with
    | ok result => rfl
    | error e => rfl
  case within =>
    rw [Gather.warned, ExceptT.run_mk]
    cases y g.warnings with
    | ok result => exact hg
    | error e => exact hg
  case result =>
    rw [Gather.warned, ExceptT.run_mk] at hok
    cases hresult : y g.warnings with
    | ok result =>
      rw [hresult] at hok
      obtain rfl := Except.ok.inj hok
      exact ⟨hy _ _ hresult, rfl⟩
    | error e =>
      rw [hresult] at hok
      cases hok

theorem makes_query {s : Services σ ω} {q : QueryPlan}
    (h : s.AnswersRectangular a (.query q)) :
    Makes a (unchecked (Gather.rows s a (.query q))) (Gather.rows s a (.query q)) := by
  refine (agrees_unchecked fun g hg => ?_).makes
  obtain ⟨hwithin, hfound⟩ := Gather.session_found s q.connection hg
  rw [Gather.rows, Gather.run_bind]
  cases hsession : (Gather.session s a q.connection).run g with
  | mk result g' =>
    rw [hsession] at hwithin hfound
    cases result with
    | error e => exact ⟨hwithin, fun f hok => by cases hok⟩
    | ok c =>
      dsimp only
      rw [Gather.run_bind, Gather.run_outside]
      cases hquery : s.query c q.fragment g'.state with
      | mk answer state =>
        cases answer with
        | error e => exact ⟨hwithin, fun f hok => by cases hok⟩
        | ok result =>
          refine ⟨hwithin, fun f hok => ⟨?_, rfl⟩⟩
          have hrect := h q (List.mem_singleton_self q) c (hfound c rfl) _ _ _ hquery
          exact Frame.ofResult_rectangular hrect (Outcome.mapError_eq_ok.mp hok)

end StrictGather

def PlanNode.size : PlanNode → Nat
  | query _ => 1
  | join left right _ => left.size + right.size + 1
  | filter input _ => input.size + 1
  | cast input _ => input.size + 1
  | arithmetic input _ _ => input.size + 1
  | condition input _ => input.size + 1

namespace StrictGather

variable {s : Services σ ω} {a : Access}

/-- The frames of a node are one for each node below it, with its own as the last. -/
def Frames (node : PlanNode) (f : Frame) (frames : List Frame) : Prop :=
  f.Rectangular ∧ frames.length = node.size ∧ frames.getLast? = some f

/-- A step over the rows of a node adds one frame to those of the node. -/
theorem step_agrees {node next : PlanNode} {x : StrictGather σ Frame} {y : Gather σ Frame}
    {k : Frame → StrictGather σ Frame} {l : Frame → Gather σ Frame}
    (hsize : next.size = node.size + 1) (h : Agrees a x y (Frames node))
    (hk : ∀ f, f.Rectangular → Makes a (k f) (l f)) :
    Agrees a (x >>= fun f => k f >>= record) (y >>= l) (Frames next) := by
  refine h.bind fun f before ⟨hf, hlength, _⟩ => (hk f hf).mono fun g more ⟨hg, hmore⟩ => ?_
  subst hmore
  refine ⟨hg, ?_, List.getLast?_concat ..⟩
  rw [List.length_append, hlength, hsize, List.length_singleton]

/-- Along the tree the frames of the inputs are rectangular, so the strict step over them is the
plain one, and what it makes is rectangular again. -/
theorem rows_agrees (node : PlanNode) (h : s.AnswersRectangular a node) :
    Agrees a (rows s a node) (Gather.rows s a node) (Frames node) := by
  induction node with
  | query q =>
    refine (makes_query h).mono fun f more ⟨hf, hmore⟩ => ?_
    subst hmore
    exact ⟨hf, rfl, rfl⟩
  | join left right rule ihl ihr =>
    refine (ihl fun q hq => h q (List.mem_append_left _ hq)).bind fun f before hf => ?_
    refine (ihr fun q hq => h q (List.mem_append_right _ hq)).bind fun g behind hg => ?_
    refine (makes_stepped (Frame.strictJoin_eq hf.1 hg.1 rule) fun joined hjoined =>
      Frame.rectangular_of_join hf.1 hg.1 hjoined).mono fun joined more ⟨hjoined, hmore⟩ => ?_
    subst hmore
    refine ⟨hjoined, ?_, ?_⟩
    · rw [List.length_append, List.length_append, hf.2.1, hg.2.1, List.length_singleton,
        ← Nat.add_assoc]
      rfl
    · rw [← List.append_assoc]
      exact List.getLast?_concat ..
  | filter input conditions ih =>
    exact step_agrees rfl (ih h) fun f hf => makes_stepped (Frame.strictFilter_eq hf conditions)
      fun g hg => Frame.rectangular_of_filter hf hg
  | cast input rule ih =>
    exact step_agrees rfl (ih h) fun f hf => makes_warned (Frame.strictCast_eq hf rule)
      fun w result hresult => Frame.rectangular_of_cast hf hresult
  | arithmetic input rule type? ih =>
    exact step_agrees rfl (ih h) fun f hf => makes_warned (Frame.strictArithmetic_eq hf rule type?)
      fun w result hresult => Frame.rectangular_of_arithmetic hf hresult
  | condition input rule ih =>
    exact step_agrees rfl (ih h) fun f hf => makes_warned (Frame.strictCondition_eq hf rule)
      fun w result hresult => Frame.rectangular_of_condition hf hresult

end StrictGather

/-- When the answers to the queries of a plan are rectangular, gathering and the step to the target
table read and write only cells that are there: their strict forms never stop, and end as they do.
All frames on the way are rectangular; when the rows are gathered, there is one for each step and
query, and the last has these rows. -/
theorem Services.gather_withinRows (s : Services σ ω) (a : Access) (plan : Plan)
    (h : s.AnswersRectangular a plan.root) (maxWarnings : Nat) (state : σ) :
    ∃ frames, s.strictGather a plan maxWarnings state =
        .ok (s.gather a plan maxWarnings state, frames) ∧
      (∀ f ∈ frames, f.Rectangular) ∧
      ∀ f w, (s.gather a plan maxWarnings state).1 = .ok (f, w) →
        frames.length = plan.root.size ∧ frames.getLast? = some f ∧
          plan.strictTarget f w = settled (plan.target f w) := by
  obtain ⟨frames, hframes, hrun, _, hresult⟩ := StrictGather.rows_agrees plan.root h
    ⟨state, [], .empty maxWarnings⟩ [] fun c hc => absurd hc List.not_mem_nil
  refine ⟨frames, ?_, hframes, fun f w hok => ?_⟩
  · rw [strictGather, hrun]
    rfl
  · obtain ⟨hf, hlength, hlast⟩ := hresult _ (leave_eq_ok hok)
    exact ⟨hlength, hlast, plan.strictTarget_eq hf w⟩

/-- Two sources, a cast and a join over them make four frames. -/
theorem Services.gather_withinRows_peopleWithOrders :
    ∃ frames f w, (Services.answering ⟨["id", "name"], [[.text "1", .text "Ann"]]⟩).strictGather
        Graph.peopleWithOrdersAccess Graph.peopleWithOrdersPlan 5 () =
          .ok ((.ok (f, w), ()), frames) ∧
      (∀ f ∈ frames, f.Rectangular) ∧ frames.length = 4 ∧
      Graph.peopleWithOrdersPlan.strictTarget f w =
        settled (Graph.peopleWithOrdersPlan.target f w) := by
  have hrect : (Services.answering ⟨["id", "name"], [[.text "1", .text "Ann"]]⟩).AnswersRectangular
      Graph.peopleWithOrdersAccess Graph.peopleWithOrdersPlan.root := by
    intro q _ c _ state result state' hquery
    cases hquery
    simp [RowSet.Rectangular]
  have hsome : ((Services.answering ⟨["id", "name"], [[.text "1", .text "Ann"]]⟩).gather
      Graph.peopleWithOrdersAccess Graph.peopleWithOrdersPlan 5 ()).1.toOption.isSome := by
    decide +kernel
  obtain ⟨⟨f, w⟩, hgather⟩ := Option.isSome_iff_exists.mp hsome
  have hgather := Outcome.toOption_eq_some.mp hgather
  obtain ⟨frames, hstrict, hframes, hresult⟩ := gather_withinRows _ _ _ hrect 5 ()
  obtain ⟨hlength, _, htarget⟩ := hresult f w hgather
  refine ⟨frames, f, w, hstrict.trans ?_, hframes, hlength, htarget⟩
  exact congrArg (fun r => Except.ok (r, frames)) (Prod.ext hgather rfl)

end TablePipeline
