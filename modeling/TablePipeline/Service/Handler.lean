import TablePipeline.Run.Sweep
import TablePipeline.Service.Message
import TablePipeline.Service.Route

/-!
# Answering requests

A request is answered from the store of runs and the services of the engine. A path that leads
nowhere and a method that is not answered there come first, then the id in the path, then the body.
-/

set_option autoImplicit false

namespace TablePipeline.Service

/-- What a request meets: the time, an id that no run has yet, and a number used once. -/
structure Occasion where
  now : Timestamp
  freshId : String
  nonce : List UInt8

structure Handler (σ ω : Type) where
  engine : Engine σ ω
  reconciler : Reconciler

/-- What answering gives, and what it leaves. An execution that crashes gives no response. -/
abbrev Answer (σ : Type) := Option Response × RunStore × σ

def ofStoreFault (e : StoreFault) : Response := .fault 500 e.message

def ofSecretError (e : SecretError) : Response :=
  .fault (match e with
    | .keyMissing => 503
    | .decryption _ => 400
    | .encryption _ => 500) e.message

def runNotFound (id : String) : Response := .fault 404 ("run " ++ id ++ " not found")

def fetchRun (store : RunStore) (id : String) : Except Response RunRecord :=
  match store.fetch id with
  | .ok (some r) => .ok r
  | .ok none => .error (runNotFound id)
  | .error e => .error (ofStoreFault e)

def readId (segment : String) : Except Response String :=
  match (Route.segmentText? segment).bind RunId.read? with
  | some id => .ok id
  | none => .error (.plain 400)

namespace Handler

variable {σ ω : Type}

def testConnection (h : Handler σ ω) (r : Request) (store : RunStore) (state : σ) : Answer σ :=
  match r.read readTested with
  | .error response => (some response, store, state)
  | .ok c =>
    let (result, state) := h.engine.testConnection c state
    (some (.json 200 (testMembers result)), store, state)

def sealText (h : Handler σ ω) (o : Occasion) (r : Request) : Response :=
  match r.read readPlaintext with
  | .error response => response
  | .ok plain =>
    match h.engine.vault.sealText o.nonce plain with
    | .ok blob => .json 200 [("ciphertext", .text blob)]
    | .error e => ofSecretError e

def createRun (o : Occasion) (r : Request) (store : RunStore) : Response × RunStore :=
  match r.read NewRun.ofJson with
  | .error response => (response, store)
  | .ok new =>
    match store.create o.freshId new.pipelineId new.table o.now with
    | .ok (record, store) => (.json 201 (runMembers record), store)
    | .error e => (ofStoreFault e, store)

def endResponse? (id : String) : RunEnd → Option Response
  | .returned result => some (.json 200 (resultMembers id result))
  | .crashed => none

/-- Makes a run and executes it. -/
def runPipeline (h : Handler σ ω) (o : Occasion) (r : Request) (store : RunStore) (state : σ) :
    Answer σ :=
  match r.read Order.ofJson with
  | .error response => (some response, store, state)
  | .ok order =>
    match store.create o.freshId order.pipelineId (some order.pipeline.sink.table) o.now with
    | .error e => (some (ofStoreFault e), store, state)
    | .ok (record, store) =>
      let (ending, store, state) := h.engine.execute (order.job record.id) o.now store state
      (endResponse? record.id ending, store, state)

def executeRun (h : Handler σ ω) (o : Occasion) (id : String) (r : Request) (store : RunStore)
    (state : σ) : Answer σ :=
  match r.read Order.ofExecuteJson with
  | .error response => (some response, store, state)
  | .ok order =>
    match fetchRun store id with
    | .error response => (some response, store, state)
    | .ok _ =>
      let (ending, store, state) := h.engine.execute (order.job id) o.now store state
      (endResponse? id ending, store, state)

def reconcileRun (h : Handler σ ω) (o : Occasion) (id : String) (store : RunStore) :
    Response × RunStore :=
  let tell (changed : Bool) (record : RunRecord) : Response :=
    .json 200 [("changed", .bool changed), ("run", .ofMembers (runMembers record))]
  match h.reconciler.reconcile id o.now o.now store with
  | (.error e, store) => (ofStoreFault e, store)
  | (.ok .notFound, store) => (runNotFound id, store)
  | (.ok (.reaped record), store) => (tell true record, store)
  | (.ok _, store) =>
    match fetchRun store id with
    | .ok record => (tell false record, store)
    | .error response => (response, store)

def answer (h : Handler σ ω) (o : Occasion) (r : Request) (store : RunStore) (state : σ) :
    Route → Answer σ
  | .health => (some (.plain 200), store, state)
  | .testConnection => h.testConnection r store state
  | .sealText => (some (h.sealText o r), store, state)
  | .createRun =>
    let (response, store) := createRun o r store
    (some response, store, state)
  | .runPipeline => h.runPipeline o r store state
  | .showRun segment =>
    match readId segment >>= fetchRun store with
    | .ok record => (some (.json 200 (runMembers record)), store, state)
    | .error response => (some response, store, state)
  | .executeRun segment =>
    match readId segment with
    | .ok id => h.executeRun o id r store state
    | .error response => (some response, store, state)
  | .reconcileRun segment =>
    match readId segment with
    | .ok id =>
      let (response, store) := h.reconcileRun o id store
      (some response, store, state)
    | .error response => (some response, store, state)

def handle (h : Handler σ ω) (o : Occasion) (r : Request) (store : RunStore) (state : σ) :
    Answer σ :=
  match Route.ofPath? r.path with
  | none => (some (.plain 404), store, state)
  | some route =>
    if !route.answers r.method then (some (.plain 405), store, state)
    else
      let (response?, store, state) := h.answer o r store state route
      (response?.map fun response => if r.method = "HEAD" then response.head else response, store,
        state)

end Handler

end TablePipeline.Service
