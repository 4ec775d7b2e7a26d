import Tram.Controller.Operations

/-! # The manager and its workers

The manager hands an attempt to a worker in one `POST /agent/run`. The request travels, may be
admitted, and its reply may be lost or late: the manager then reports an error about an attempt
that a worker executes. Workers do not crash, and pipelines are registered and never updated or
deleted. -/

namespace Tram

open Controller

structure Assignment where
  runId : String
  pipelineName : String
  generation : Nat
  deriving DecidableEq, Repr

def Attempt.assignment (row : Attempt) : Assignment := ⟨row.runId, row.pipelineName, row.generation⟩

/-- Where the one request for an attempt is: on its way; admitted, with its thread running;
completed, with the completion in the worker's outbox; refused by the worker or lost before it
got there. -/
inductive Stage where
  | posted | executing | completed | lost
  deriving DecidableEq, Repr

structure Request where
  workerUrl : String
  assignment : Assignment
  stage : Stage
  deriving DecidableEq, Repr

/-- Who waits for a dispatch call to return: a batch thread or the drain of the queue. -/
inductive Caller where
  | thread | drain
  deriving DecidableEq, Repr

def Controller.awaiting (c : Controller) (caller : Caller) (runId : String) :
    Option (String × Assignment) :=
  match caller with
  | .thread =>
    (c.dispatches.lookup runId).bind fun d =>
      if d.phase = .sent then some (d.attemptId, ⟨runId, d.pipelineName, d.generation⟩) else none
  | .drain =>
    (c.drains.lookup runId).bind fun x =>
      (c.queuedRuns.lookup runId).map fun q => (x.1, ⟨runId, q.pipelineName, x.2⟩)

/-- What the caller continues with when its dispatch call returns. -/
def Caller.ends (caller : Caller) (runId : String) (outcome : DispatchOutcome) (now : Nat) :
    Op :=
  match caller with
  | .thread => .dispatchEnds runId outcome now
  | .drain => .drainEnds runId outcome now

def Controller.Op.isLocal : Op → Bool
  | .register _ _ | .triggerRun _ _ _ _ _ | .settleRefused _ _ | .leaveBatch _
  | .expireQueuedRun _ _ => true
  | .startSubmitted _ env | .fire _ _ env | .claimQueuedRun _ env => env.halt.isNone
  | _ => false

/-- The manager, and the requests for attempts by attempt id. -/
structure World where
  manager : Controller
  requests : Dict String Request

namespace World

def init (settings : Settings) : World := ⟨.init settings, ∅⟩

inductive Event where
  | acts (op : Op)
  | post (caller : Caller) (runId workerUrl : String)
  | admitted (attemptId : String)
  | lose (attemptId : String)
  | complete (attemptId : String)
  | returns (caller : Caller) (runId : String) (outcome : DispatchOutcome) (now : Nat)
  /-- The outbox delivers a completion, with the attempt's identity or without. -/
  | deliver (attemptId : String) (withIdentity : Bool) (status : String) (now : Nat)

def setStage (w : World) (attemptId : String) (fromStage toStage : Stage) : World :=
  { w with
    requests := Dict.modify w.requests attemptId fun q =>
      if q.stage = fromStage then { q with stage := toStage } else q }

/-- `DISPATCH_NO_CAPACITY` means no worker was chosen, `DISPATCH_ACCEPTED` that one said so. An
exception can come at any time. -/
def mayReturn (w : World) (attemptId : String) : DispatchOutcome → Bool
  | .noCapacity => (w.requests.lookup attemptId).isNone
  | .accepted _ _ =>
    (w.requests.lookup attemptId).any fun q => q.stage = .executing || q.stage = .completed
  | .failed _ => true

def completion (attemptId : String) (x : Assignment) (status : String) : Completion :=
  ⟨attemptId, x.generation, x.runId, x.pipelineName, status⟩

def delivery (withIdentity : Bool) (k : Completion) (now : Nat) : Op :=
  if withIdentity then .onAttemptRunComplete k now else .onWorkerRunComplete k now

def step (w : World) : Event → World
  | .acts op => if op.isLocal then { w with manager := w.manager.step op } else w
  | .post caller runId workerUrl =>
    match w.manager.awaiting caller runId with
    | some (attemptId, x) =>
      if (w.requests.lookup attemptId).isNone then
        { w with requests := w.requests.insert attemptId ⟨workerUrl, x, .posted⟩ }
      else w
    | none => w
  | .admitted attemptId => w.setStage attemptId .posted .executing
  | .lose attemptId => w.setStage attemptId .posted .lost
  | .complete attemptId => w.setStage attemptId .executing .completed
  | .returns caller runId outcome now =>
    match w.manager.awaiting caller runId with
    | some (attemptId, _) =>
      if w.mayReturn attemptId outcome then
        { w with manager := w.manager.step (caller.ends runId outcome now) }
      else w
    | none => w
  | .deliver attemptId withIdentity status now =>
    match w.requests.lookup attemptId with
    | some q =>
      if q.stage = .completed then
        { w with
          manager := w.manager.step
            (delivery withIdentity (completion attemptId q.assignment status) now) }
      else w
    | none => w

end World

end Tram
