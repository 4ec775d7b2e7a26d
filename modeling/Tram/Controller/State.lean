import Mathlib.Algebra.GroupWithZero.Nat
import Mathlib.Data.Finset.Erase
import Mathlib.Data.Finset.Insert
import Tram.Interfaces
import Tram.Persistence.Ledger

/-! # The state of the pipeline controller

A manager with a worker pool and a database: the tables of the database, and what the process
keeps in memory and loses when it dies. The stream half of the controller claims nothing in the
ledger and enters only through the run ids it keeps per pipeline. -/

namespace Tram

inductive Status where
  | stopped | scheduled | running | queued | error
  deriving DecidableEq, Repr

/-- `RunStatus(status)`; a text that is no status raises. -/
def RunStatus.ofString? : String → Option RunStatus
  | "pending" => some .pending
  | "running" => some .running
  | "success" => some .success
  | "failed" => some .failed
  | "aborted" => some .aborted
  | "partial" => some .partly
  | _ => none

def RunStatus.intentOutcome : RunStatus → IntentOutcome
  | .success => .success
  | .partly => .partly
  | .aborted => .aborted
  | _ => .failed

/-- `_status_from_intent_outcome` -/
def IntentOutcome.runStatus : IntentOutcome → RunStatus
  | .success => .success
  | .partly => .partly
  | .aborted => .aborted
  | _ => .failed

structure PipelineConfig where
  scheduleType : ScheduleType
  enabled : Bool
  yamlText : String
  deriving DecidableEq, Repr

/-- `PipelineState`; `configId` is the identity of the configuration object, which a dispatch
compares with `is`. -/
structure PipelineState where
  config : PipelineConfig
  configId : Nat
  status : Status
  deriving DecidableEq, Repr

/-- A row of `registered_pipelines`; deletion is soft. -/
structure SavedPipeline where
  config : PipelineConfig
  stopped : Bool
  deleted : Bool
  deriving DecidableEq, Repr

structure DesiredState where
  stopped : Bool
  generation : Nat
  deleted : Bool
  deriving DecidableEq, Repr

inductive QueuedStatus where
  | queued | dispatching | dispatched | expired | cancelled
  deriving DecidableEq, Repr

/-- A row of `queued_runs`, under its `run_id`. -/
structure QueuedRun where
  pipelineName : String
  yamlSnapshot : String
  status : QueuedStatus
  requestedAt : Nat
  expiresAt : Nat
  dispatchedAt : Option Nat
  terminalReason : Option String
  deriving DecidableEq, Repr

def QueuedRun.active (q : QueuedRun) : Bool := q.status = .queued || q.status = .dispatching

/-- `_ActiveBatchRun`, under its pipeline. -/
structure Lease where
  runId : String
  workerUrl : String
  attempt : Option (String × Nat)
  deriving DecidableEq, Repr

inductive DispatchOutcome where
  | accepted (workerUrl workerId : String)
  | noCapacity
  | failed (error : String)
  deriving DecidableEq, Repr

/-- How far a batch thread is past its claim: the dispatch call is under way; it was refused and
the attempt is retired; nothing is left but the `finally` of `_run_batch`. -/
inductive DispatchPhase where
  | sent
  | refused (outcome : DispatchOutcome)
  | leaving
  deriving DecidableEq, Repr

/-- The locals of `_execute_batch` after its claim, under the `run_id`. -/
structure BatchDispatch where
  pipelineName : String
  origin : Origin
  configId : Nat
  yamlText : String
  attemptId : String
  generation : Nat
  phase : DispatchPhase
  deriving DecidableEq, Repr

/-- A manual run in the thread pool that has not started, under its `run_id`. -/
structure SubmittedRun where
  pipelineName : String
  flush : Bool
  deriving DecidableEq, Repr

structure Settings where
  queueManualRuns : Bool
  queueTtl : Nat
  /-- 0 disables the bound. -/
  queueMaxCount : Nat
  queueMaxBytes : Nat
  deriving DecidableEq, Repr

structure Controller where
  settings : Settings
  -- in the database
  ledger : Ledger
  queuedRuns : Dict String QueuedRun
  history : Dict String RunStatus
  desired : Dict String DesiredState
  saved : Dict String SavedPipeline
  -- in memory
  pipelines : Dict String PipelineState
  schedulerJobs : Finset String
  activeBatchRuns : Dict String Lease
  batchDispatching : Dict String String
  streamRunIds : Dict String (List String)
  submitted : Dict String SubmittedRun
  dispatches : Dict String BatchDispatch
  /-- The queued runs the drain has claimed and not yet committed or reverted, each with the
  attempt registered for its dispatch. -/
  drains : Dict String (String × Nat)
  nextConfigId : Nat
  up : Bool
  /-- The run ids drawn so far. A UUID is never drawn twice. -/
  minted : Finset String

namespace Controller

def init (settings : Settings) : Controller :=
  ⟨settings, .empty, ∅, ∅, ∅, ∅, ∅, ∅, ∅, ∅, ∅, ∅, ∅, ∅, 0, true, ∅⟩

/-! ## The pipeline manager -/

variable (c : Controller)

def setStatus (name : String) (status : Status) : Controller :=
  { c with pipelines := Dict.modify c.pipelines name fun s => { s with status := status } }

/-- `manager.record_run`: the history keeps the first row of a run; a pipeline that is not
registered raises before anything is written. -/
def recordRun (name runId : String) (status : RunStatus) : Controller :=
  match c.pipelines.lookup name with
  | some _ => { c with history := Dict.setdefault c.history runId status }
  | none => c

def recordSkippedManualRun (name runId : String) : Controller :=
  c.recordRun name runId .failed

def maySchedule (name : String) : Bool :=
  match c.pipelines.lookup name with
  | none => false
  | some s => !(c.saved.lookup name).any (fun p => p.stopped && !p.deleted) && s.config.enabled

/-- `_do_schedule`. A stream pipeline starts its stream, which is not modelled. -/
def doSchedule (name : String) : Controller :=
  match c.pipelines.lookup name with
  | none => c
  | some s =>
    match s.config.scheduleType with
    | .interval | .cron =>
      { c.setStatus name .scheduled with schedulerJobs := insert name c.schedulerJobs }
    | .manual => c.setStatus name .stopped
    | .stream => c

def onRunComplete (name : String) (status : RunStatus) : Controller :=
  match c.pipelines.lookup name with
  | none => c
  | some s =>
    if s.status = .stopped then c
    else if status = .success then
      if name ∈ c.schedulerJobs then c.setStatus name .scheduled
      else if (s.config.scheduleType = .interval ∨ s.config.scheduleType = .cron) ∧ s.config.enabled then
        if c.maySchedule name then c.doSchedule name else c.setStatus name .stopped
      else c.setStatus name .stopped
    else c.setStatus name .error

def finalizeBatchResult (name runId : String) (status : RunStatus) : Controller :=
  match c.pipelines.lookup name with
  | none => c
  | some _ => (c.recordRun name runId status).onRunComplete name status

def pipelineGeneration (name : String) : Nat := ((c.desired.lookup name).map (·.generation)).getD 1

def ensureDesiredState (name : String) (stopped : Bool) : Controller :=
  { c with desired := Dict.setdefault c.desired name ⟨stopped, 1, false⟩ }

/-- `_set_desired_status` -/
def setDesiredStopped (name : String) (stopped : Bool) : Controller :=
  { c with desired := Dict.modify c.desired name fun d => { d with stopped := stopped } }

def bumpPipelineGeneration (name : String) (deleted : Bool) : Controller :=
  { c with
    desired := c.desired.insert name
      ⟨(c.desired.lookup name).any (·.stopped), c.pipelineGeneration name + 1, deleted⟩ }

/-- `save_pipeline`: the stopped flag of an earlier row stays. -/
def savePipeline (name : String) (config : PipelineConfig) : Controller :=
  { c with
    saved := c.saved.insert name ⟨config, (c.saved.lookup name).any (·.stopped), false⟩ }

/-- `stop_pipeline` and `start_pipeline_flag` of the database. -/
def setStoppedFlag (name : String) (stopped : Bool) : Controller :=
  { c with saved := Dict.modify c.saved name fun p => { p with stopped := stopped } }

def popBatchLeaseForRun (name runId : String) : Controller :=
  match c.activeBatchRuns.lookup name with
  | some lease =>
    if lease.runId = runId then { c with activeBatchRuns := c.activeBatchRuns.erase name } else c
  | none => c

def removeStreamRunId (name runId : String) : Controller :=
  match c.streamRunIds.lookup name with
  | some ids =>
    if ids = [] then c
    else if ids.filter (· ≠ runId) = [] then { c with streamRunIds := c.streamRunIds.erase name }
    else { c with streamRunIds := c.streamRunIds.insert name (ids.filter (· ≠ runId)) }
  | none => c

/-! ## The queue of manual runs -/

def updateQueuedRun (runId : String) (fromStatus : QueuedStatus)
    (set : QueuedRun → QueuedRun) : Controller :=
  { c with
    queuedRuns := Dict.modify c.queuedRuns runId fun q => if q.status = fromStatus then set q else q }

def queuedRunStatus (runId : String) : Option QueuedStatus :=
  (c.queuedRuns.lookup runId).map (·.status)

def claimQueuedRunRow (runId : String) : Controller :=
  c.updateQueuedRun runId .queued fun q => { q with status := .dispatching }

def revertQueuedRunRow (runId : String) : Controller :=
  c.updateQueuedRun runId .dispatching fun q => { q with status := .queued }

def markQueuedRunDispatched (runId : String) (now : Nat) : Controller :=
  c.updateQueuedRun runId .dispatching
    fun q => { q with status := .dispatched, dispatchedAt := some now }

def expireQueuedRunRow (runId : String) : Controller :=
  c.updateQueuedRun runId .queued fun q => { q with status := .expired }

/-- `get_active_queued_run_for_pipeline` is not `None`. -/
def hasActiveQueuedRun (name : String) : Bool :=
  c.queuedRuns.entries.any fun e => e.2.pipelineName == name && e.2.active

def terminalCancelQueuedRun (runId reason : String) : Controller :=
  { c with
    queuedRuns := Dict.modify c.queuedRuns runId fun q =>
      if q.active then { q with status := .cancelled, terminalReason := some reason } else q }

def terminalCancelPipelineQueued (name reason : String) (now : Nat) : Controller :=
  { c with
    queuedRuns := Dict.mapVal c.queuedRuns fun _ q =>
      if q.pipelineName = name ∧ q.active then
        { q with status := .cancelled, terminalReason := some reason }
      else q
    ledger := c.ledger.cancelPipelineIntents name now }

/-- `_reject_queue_over_capacity` raises. -/
def queueOverCapacity (yamlText : String) : Bool :=
  let waiting := c.queuedRuns.entries.filter fun e => e.2.status = .queued
  let bytes := (waiting.map fun e => e.2.yamlSnapshot.utf8ByteSize).sum
  (c.settings.queueMaxCount > 0 && waiting.length ≥ c.settings.queueMaxCount) ||
    (c.settings.queueMaxBytes > 0 && bytes + yamlText.utf8ByteSize > c.settings.queueMaxBytes)

inductive Enqueued where
  | queued | duplicate | rejected
  deriving DecidableEq, Repr

def enqueueManualRun (name runId yamlText : String) (now : Nat) :
    Enqueued × Controller :=
  if c.hasActiveQueuedRun name then (.duplicate, c.setStatus name .queued)
  else if c.queueOverCapacity yamlText then (.rejected, c)
  else
    let c₁ : Controller :=
      { c with
        queuedRuns := c.queuedRuns.insert runId
          ⟨name, yamlText, .queued, now, now + c.settings.queueTtl, none, none⟩
        ledger := c.ledger.ensureRunIntent runId
          { pipelineName := name
            origin := .queued
            flush := false
            requestedAt := now
            expiresAt := some (now + c.settings.queueTtl)
            requestedGeneration := c.pipelineGeneration name
            yamlSnapshot := some yamlText
            scheduleType :=
              ((c.pipelines.lookup name).map (·.config.scheduleType)).getD .manual
            finalOutcome := none
            finalAttemptId := none
            resolvedAt := none } }
    (.queued, c₁.setStatus name .queued)

end Controller

end Tram
