import Tram.Controller.State
import Tram.Lib.Run

/-! # The operations of the pipeline controller

Each operation of the source that touches the ledger, as a function on the controller. The
lifecycle lock makes an operation atomic; a batch thread gives the lock up while its dispatch
call is under way, so it has one function per locked or transactional part. A claim is three
transactions, and the process may die between them. -/

namespace Tram.Controller

/-! ## Claiming and dispatching a batch run -/

/-- The transaction of a claim after which the process dies. -/
inductive Halt where
  | afterFence | afterIntent | afterClaim
  deriving DecidableEq, Repr

inductive ClaimResult where
  | claimed (attemptId : String) (generation : Nat)
  | refused
  | raised (error : Ledger.DbError)
  | died
  deriving DecidableEq, Repr

/-- What the environment decides in a claim: the clock, the fence token drawn, an error of the
database, the death of the process. -/
structure ClaimEnv where
  now : Nat
  fenceToken : String
  fault : Option Ledger.DbError
  halt : Option Halt
  deriving DecidableEq, Repr

variable (c : Controller)

def crash : Controller :=
  { c with
    pipelines := ∅
    schedulerJobs := ∅
    activeBatchRuns := ∅
    batchDispatching := ∅
    streamRunIds := ∅
    submitted := ∅
    dispatches := ∅
    drains := ∅
    up := false }

def claimTransactions (l : Ledger) (intent : RunIntent) (req : Ledger.ClaimRequest) (env : ClaimEnv) :
    ClaimResult × Ledger :=
  let l₁ := l.ensureRunIntent req.runId intent
  if env.halt = some .afterIntent then (.died, l₁)
  else
    let (claim, l₂) := l₁.claimRun req env.fault
    match claim with
    | .error e => (.raised e, l₂)
    | .ok outcome =>
      if outcome.status = .lost ∨ outcome.status = .noIntent then (.refused, l₂)
      else if env.halt = some .afterClaim then (.died, l₂)
      else
        (.claimed outcome.attemptId req.generation,
          l₂.markAttemptDispatching outcome.attemptId req.runId req.generation env.now)

def batchRequest (name runId : String) (generation ordinal : Nat) (yamlText fenceToken : String) :
    Ledger.ClaimRequest :=
  ⟨name, .batch, name, runId, generation, ordinal, "", some yamlText, fenceToken⟩

def claimForDispatch (name runId : String) (origin : Origin) (flush : Bool)
    (yamlText : String) (scheduleType : ScheduleType) (ordinal : Nat) (env : ClaimEnv) :
    ClaimResult × Controller :=
  let generation := c.pipelineGeneration name
  let intent : RunIntent :=
    { pipelineName := name
      origin := origin
      flush := flush
      requestedAt := env.now
      expiresAt := none
      requestedGeneration := generation
      yamlSnapshot := some yamlText
      scheduleType := scheduleType
      finalOutcome := none
      finalAttemptId := none
      resolvedAt := none }
  let r := claimTransactions c.ledger intent
    (batchRequest name runId generation ordinal yamlText env.fenceToken) env
  (r.1, { c with ledger := r.2 })

/-- The claim phase of `_execute_batch`. -/
def claimBatch (name runId : String) (origin : Origin) (flush : Bool)
    (env : ClaimEnv) : Controller :=
  match c.pipelines.lookup name with
  | none => { c with schedulerJobs := c.schedulerJobs.erase name }
  | some s =>
    if s.status = .running ∨ s.status = .queued then
      if origin = .manual then c.recordSkippedManualRun name runId else c
    else
      match (c.setStatus name .running).claimForDispatch name runId origin flush
          s.config.yamlText s.config.scheduleType 1 env with
      | (.claimed attemptId generation, c₂) =>
        { c₂ with
          batchDispatching := c₂.batchDispatching.insert name runId
          dispatches := c₂.dispatches.insert runId
            ⟨name, origin, s.configId, s.config.yamlText, attemptId, generation, .sent⟩ }
      | (.refused, c₂) => if origin = .manual then c₂.recordSkippedManualRun name runId else c₂
      | (.raised _, c₂) => c₂
      | (.died, c₂) => c₂.crash

def retireOwnAttempt (runId : String) (d : BatchDispatch)
    (resolveOutcome : Option IntentOutcome) (now : Nat) : Controller :=
  { c with
    ledger := c.ledger.terminalizeAttempt d.attemptId runId d.pipelineName d.generation
      resolveOutcome none now }

def setPhase (runId : String) (phase : DispatchPhase) : Controller :=
  { c with dispatches := Dict.modify c.dispatches runId fun d => { d with phase := phase } }

def requeues (d : BatchDispatch) (outcome : DispatchOutcome) : Bool :=
  outcome = .noCapacity && d.origin = .manual && c.settings.queueManualRuns

/-- `_execute_batch` after an accepted dispatch: the compare-and-set under the lock. -/
def trackAccepted (runId : String) (d : BatchDispatch) (workerUrl workerId : String)
    (now : Nat) : Controller :=
  match c.pipelines.lookup d.pipelineName with
  | none => c.retireOwnAttempt runId d (some .aborted) now
  | some s =>
    if s.configId ≠ d.configId then c.retireOwnAttempt runId d none now
    else if (c.history.lookup runId).isSome then c
    else
      { c with
        ledger := (c.ledger.markAttemptRunning d.attemptId runId d.generation now).recordAttemptWorker
          d.attemptId runId d.generation workerId
        activeBatchRuns := c.activeBatchRuns.insert d.pipelineName
          ⟨runId, workerUrl, some (d.attemptId, d.generation)⟩ }

/-- The dispatch call of a batch thread returns. -/
def dispatchEnds (runId : String) (outcome : DispatchOutcome) (now : Nat) :
    Controller :=
  match c.dispatches.lookup runId with
  | none => c
  | some d =>
    if d.phase ≠ .sent then c
    else
      match outcome with
      | .accepted workerUrl workerId =>
        (c.trackAccepted runId d workerUrl workerId now).setPhase runId .leaving
      | _ =>
        (c.retireOwnAttempt runId d (if c.requeues d outcome then none else some .failed) now).setPhase
          runId (.refused outcome)

/-- A refused batch thread queues its run or records it as failed. -/
def settleRefused (runId : String) (now : Nat) : Controller :=
  match c.dispatches.lookup runId with
  | none => c
  | some d =>
    match d.phase with
    | .refused outcome =>
      let c₁ :=
        if c.requeues d outcome then
          match c.enqueueManualRun d.pipelineName runId d.yamlText now with
          | (.rejected, c') => c'.recordSkippedManualRun d.pipelineName runId
          | (_, c') => c'
        else c.finalizeBatchResult d.pipelineName runId .failed
      c₁.setPhase runId .leaving
    | _ => c

/-- The `finally` of `_run_batch`. -/
def leaveBatch (runId : String) : Controller :=
  match c.dispatches.lookup runId with
  | none => c
  | some d =>
    if d.phase ≠ .leaving then c
    else
      { c with
        dispatches := c.dispatches.erase runId
        batchDispatching :=
          if c.batchDispatching.lookup d.pipelineName = some runId then
            c.batchDispatching.erase d.pipelineName
          else c.batchDispatching }

/-- `trigger_run`; `healthy` is whether some worker is, `runId` the id it draws. -/
def triggerRun (name runId : String) (flush healthy : Bool) (now : Nat) : Controller :=
  match c.pipelines.lookup name with
  | none => c
  | some s =>
    if s.config.scheduleType = .stream ∨ s.status = .running then c
    else if c.settings.queueManualRuns ∧ c.hasActiveQueuedRun name then c.setStatus name .queued
    else if c.settings.queueManualRuns ∧ !healthy then
      (c.enqueueManualRun name runId s.config.yamlText now).2
    else { c with submitted := c.submitted.insert runId ⟨name, flush⟩ }

/-- A pool thread starts the submitted manual run. -/
def startSubmitted (runId : String) (env : ClaimEnv) : Controller :=
  match c.submitted.lookup runId with
  | none => c
  | some job =>
    { c with submitted := c.submitted.erase runId }.claimBatch job.pipelineName runId .manual
      job.flush env

def claimQueuedRun (runId : String) (env : ClaimEnv) : Controller :=
  match c.queuedRuns.lookup runId with
  | none => c
  | some row =>
    match c.pipelines.lookup row.pipelineName with
    | none => c
    | some s =>
      if row.status ≠ .queued ∨ (c.activeBatchRuns.lookup row.pipelineName).isSome ∨
          s.status = .running then c
      else
        let c₁ := c.claimQueuedRunRow runId
        if env.halt = some .afterFence then c₁.crash
        else
          match c₁.claimForDispatch row.pipelineName runId .queued false row.yamlSnapshot
              s.config.scheduleType (c₁.ledger.nextAttemptOrdinal runId) env with
          | (.claimed attemptId generation, c₂) =>
            { c₂ with drains := c₂.drains.insert runId (attemptId, generation) }
          | (.refused, c₂) => c₂.revertQueuedRunRow runId
          | (.raised _, c₂) => c₂
          | (.died, c₂) => c₂.crash

def commitQueuedDispatch (runId workerUrl workerId : String) (now : Nat) :
    Controller :=
  match c.queuedRuns.lookup runId with
  | none => c
  | some row =>
    if row.status ≠ .dispatching ∨ (c.pipelines.lookup row.pipelineName).isNone then c
    else
      let c₁ :=
        if (c.history.lookup runId).isSome then c
        else
          { c.setStatus row.pipelineName .running with
            activeBatchRuns := c.activeBatchRuns.insert row.pipelineName ⟨runId, workerUrl, none⟩ }
      let c₂ := c₁.markQueuedRunDispatched runId now
      match c₂.ledger.activeAttemptForRun runId with
      | none => c₂
      | some ⟨attemptId, a⟩ =>
        { c₂ with
          ledger := (c₂.ledger.markAttemptRunning attemptId runId a.generation now).recordAttemptWorker
            attemptId runId a.generation workerId }

def terminalizeActive (runId : String) (resolveOutcome : Option IntentOutcome)
    (cancelReason : Option String) (now : Nat) : Controller :=
  { c with ledger := c.ledger.terminalizeActive runId resolveOutcome cancelReason now }

/-- `revert_queued_claim`, with `_retire_cancelled_claim_attempt` where the row has left the
active view. -/
def revertQueuedClaim (runId : String) (now : Nat) : Controller :=
  match c.queuedRunStatus runId with
  | some .dispatching => (c.revertQueuedRunRow runId).terminalizeActive runId none none now
  | some .cancelled =>
    c.terminalizeActive runId (some .aborted) (some "dispatch_reverted_after_cancel") now
  | _ => c

def expireQueuedRun (runId : String) (now : Nat) : Controller :=
  match c.queuedRuns.lookup runId with
  | none => c
  | some row =>
    if row.status ≠ .queued then c
    else
      let c₁ := c.expireQueuedRunRow runId
      let owner := ((c₁.ledger.activeAttemptForRun runId).map (·.1)).getD ""
      let c₂ := { c₁ with ledger := c₁.ledger.resolveIntent runId .expired owner now }
      c₂.finalizeBatchResult row.pipelineName runId .failed

/-! ## Completions and lost runs -/

/-- The fields of a run-complete callback that decide what happens. -/
structure Completion where
  attemptId : String
  generation : Nat
  runId : String
  pipelineName : String
  status : String
  deriving DecidableEq, Repr

def Completion.runStatus (k : Completion) : RunStatus := (RunStatus.ofString? k.status).getD .failed

def onWorkerRunComplete (k : Completion) (now : Nat) : Controller :=
  let c₁ := (c.popBatchLeaseForRun k.pipelineName k.runId).removeStreamRunId k.pipelineName k.runId
  if (c.history.lookup k.runId).isSome then c₁
  else if (c₁.streamRunIds.lookup k.pipelineName).any (· ≠ []) then c₁
  else
    (c₁.terminalizeActive k.runId (some k.runStatus.intentOutcome) none now).finalizeBatchResult
      k.pipelineName k.runId k.runStatus

/-- The attempt is known and the callback names its run, pipeline and generation. -/
def IdentityMatches (k : Completion) : Prop :=
  ∃ a, c.ledger.attempts.lookup k.attemptId = some a ∧ a.runId = k.runId ∧
    a.pipelineName = k.pipelineName ∧ a.generation = k.generation

instance (c : Controller) (k : Completion) : Decidable (c.IdentityMatches k) :=
  match h : c.ledger.attempts.lookup k.attemptId with
  | none => isFalse (by simp [IdentityMatches, h])
  | some a => decidable_of_iff
      (a.runId = k.runId ∧ a.pipelineName = k.pipelineName ∧ a.generation = k.generation)
      (by simp [IdentityMatches, h])

def onAttemptRunComplete (k : Completion) (now : Nat) : Controller :=
  match c.ledger.attempts.lookup k.attemptId with
  | none => c
  | some a =>
    if a.runId ≠ k.runId ∨ a.pipelineName ≠ k.pipelineName ∨ a.generation ≠ k.generation then c
    else
      { c with
        ledger := c.ledger.terminalizeAttempt k.attemptId k.runId k.pipelineName k.generation
          (some k.runStatus.intentOutcome) none now }.onWorkerRunComplete k now

/-- What the worker's journal said when the reconciler asked about a lease. -/
inductive Verdict where
  | completed (attempt : Option (String × Nat)) (status : String)
  | lost
  deriving DecidableEq, Repr

/-- The last locked part of `mark_active_batch_run_lost`; `lease` is the lease read in the first
part, compared again here, and `runId` the id drawn when there is none. -/
def markActiveBatchRunLost (name : String) (lease : Option Lease) (runId : String)
    (verdict : Verdict) (now : Nat) : Controller :=
  if c.activeBatchRuns.lookup name ≠ lease then c
  else
    let runId := (lease.map (·.runId)).getD runId
    match verdict with
    | .completed attempt status =>
      match lease, attempt with
      | none, _ => c
      | some _, some (attemptId, generation) =>
        c.onAttemptRunComplete ⟨attemptId, generation, runId, name, status⟩ now
      | some _, none => c.onWorkerRunComplete ⟨"", 0, runId, name, status⟩ now
    | .lost =>
      if (c.batchDispatching.lookup name).isSome then c
      else
        match c.pipelines.lookup name with
        | none =>
          if lease.isNone then c else { c with activeBatchRuns := c.activeBatchRuns.erase name }
        | some s =>
          if lease.isNone ∧ s.status ≠ .running then c
          else
            let c₁ :=
              { c with activeBatchRuns := c.activeBatchRuns.erase name }.terminalizeActive runId
                (some .failed) (some "worker_lost") now
            if (c₁.history.lookup runId).isSome then c₁
            else c₁.finalizeBatchResult name runId .failed

def adoptActiveBatchRun (name runId workerUrl : String) : Controller :=
  match c.pipelines.lookup name with
  | none => c
  | some s =>
    if s.config.scheduleType = .stream then c
    else
      { c with activeBatchRuns := c.activeBatchRuns.insert name ⟨runId, workerUrl, none⟩ }.setStatus
        name .running

/-! ## The life of a pipeline -/

def registerConfig (name : String) (config : PipelineConfig) : Controller :=
  { c with
    pipelines := c.pipelines.insert name ⟨config, c.nextConfigId, .stopped⟩
    nextConfigId := c.nextConfigId + 1 }

def stopExecution (name : String) : Controller :=
  match c.pipelines.lookup name with
  | none => c
  | some _ => { c.setStatus name .stopped with schedulerJobs := c.schedulerJobs.erase name }

def register (name : String) (config : PipelineConfig) : Controller :=
  if (c.pipelines.lookup name).isSome then c
  else
    let c₁ := ((c.registerConfig name config).savePipeline name config).ensureDesiredState name
      (!config.enabled)
    if config.enabled then c₁.doSchedule name else c₁

def update (name : String) (config : PipelineConfig) (now : Nat) : Controller :=
  match c.pipelines.lookup name with
  | none => c
  | some s =>
    if s.config.yamlText = config.yamlText then c
    else
      let c₁ := ((c.stopExecution name).registerConfig name config).savePipeline name config
      let c₂ := (c₁.bumpPipelineGeneration name false).terminalCancelPipelineQueued name
        "pipeline_updated" now
      if (s.status = .scheduled ∨ s.status = .running) ∧ config.enabled ∧ c₂.maySchedule name then
        c₂.doSchedule name
      else c₂

def delete (name : String) (now : Nat) : Controller :=
  let c₁ := c.stopExecution name
  let c₂ :=
    { c₁ with activeBatchRuns := c₁.activeBatchRuns.erase name }.terminalCancelPipelineQueued name
      "pipeline_deleted" now
  let c₃ := { c₂ with ledger := c₂.ledger.pruneOrphanedRunIntents name now }
  if (c₃.pipelines.lookup name).isNone then c₃
  else
    { c₃ with
      pipelines := c₃.pipelines.erase name
      saved := Dict.modify c₃.saved name fun p =>
        { p with deleted := true } }.bumpPipelineGeneration name true

def startPipeline (name : String) : Controller :=
  match c.pipelines.lookup name with
  | none => c
  | some s =>
    if s.status = .running ∨ s.status = .scheduled then c
    else
      let c₁ := (c.setStoppedFlag name false).setDesiredStopped name false
      if !s.config.enabled ∨ s.config.scheduleType = .manual then c₁.setStatus name .stopped
      else c₁.doSchedule name

/-- `stop_pipeline`; `set_status` raises for a pipeline that is not registered. -/
def stopPipeline (name : String) (now : Nat) : Controller :=
  let c₁ := ((c.stopExecution name).setStoppedFlag name true).setDesiredStopped name true
  (c₁.terminalCancelPipelineQueued name "pipeline_stopped" now).setStatus name .stopped

def restartPipeline (name : String) (now : Nat) : Controller :=
  match c.pipelines.lookup name with
  | none => c
  | some s =>
    let c₁ :=
      if s.status = .running ∨ s.status = .scheduled then
        { c.setStatus name .stopped with schedulerJobs := c.schedulerJobs.erase name }
      else c
    let c₂ := (c₁.setStoppedFlag name false).terminalCancelPipelineQueued name
      "pipeline_restarted" now
    if s.config.enabled ∧ c₂.maySchedule name then c₂.doSchedule name else c₂.setStatus name .stopped

/-! ## Boot -/

/-- The classified reply to `GET /agent/attempts/{id}`; `noReply` is a worker that cannot be
reached or has no row. A completion carries the status decoded from its payload, if any. -/
inductive Evidence where
  | noReply
  | completed (status : Option String)
  | interrupted
  | tombstone
  | active (workerUrl : String)
  | unrecognized
  deriving DecidableEq, Repr

def completionOutcome (status : Option String) : IntentOutcome :=
  match status.bind RunStatus.ofString? with
  | some s => s.intentOutcome
  | none => .aborted

def resetOrphanDispatchingQueuedRuns : Controller :=
  { c with
    queuedRuns := Dict.mapVal c.queuedRuns fun runId q =>
      if q.status = .dispatching ∧ !c.ledger.hasActiveAttempt runId then { q with status := .queued }
      else q }

def settleAtBoot (e : Σ _ : String, Attempt) (outcome : IntentOutcome)
    (cancelReason : Option String) (queueReason : String) (now : Nat) : Controller :=
  { c with
    ledger := c.ledger.terminalizeAttempt e.1 e.2.runId e.2.pipelineName e.2.generation
      (some outcome) cancelReason now }.terminalCancelQueuedRun e.2.runId queueReason

def parkAtBoot (e : Σ _ : String, Attempt) (reason : String) : Controller :=
  { c with ledger := c.ledger.markAttemptUnknown e.1 e.2.runId e.2.generation reason }

/-- `_resolve_attempt_at_boot`, for the row as `_get_non_terminal_attempts` read it. -/
def resolveAttemptAtBoot (evidence : String → Evidence) (now : Nat) (c : Controller)
    (e : Σ _ : String, Attempt) : Controller :=
  if e.2.state = .claimed ∧ e.2.dispatchSentAt.isNone then
    c.settleAtBoot e .aborted (some "manager_lost_before_dispatch") "manager_lost_before_dispatch" now
  else
    match evidence e.1 with
    | .noReply => c.parkAtBoot e "boot_adoption_no_journal_evidence"
    | .completed status =>
      let outcome := completionOutcome status
      let c₁ := c.settleAtBoot e outcome none "boot_adoption_completed" now
      { c₁ with history := Dict.setdefault c₁.history e.2.runId outcome.runStatus }
    | .interrupted =>
      c.settleAtBoot e .aborted (some "boot_adoption_interrupted") "boot_adoption_interrupted" now
    | .tombstone =>
      c.settleAtBoot e .aborted (some "boot_adoption_tombstone") "boot_adoption_tombstone" now
    | .active workerUrl =>
      { c with
        activeBatchRuns := c.activeBatchRuns.insert e.2.pipelineName
          ⟨e.2.runId, workerUrl, some (e.1, e.2.generation)⟩ }
    | .unrecognized => c.parkAtBoot e "boot_adoption_unrecognized_journal_reply"

/-- `_get_non_terminal_attempts`. Each attempt is resolved by itself, so their order, which the
query fixes, does not matter. -/
def nonTerminalAttempts : List (Σ _ : String, Attempt) :=
  c.ledger.attempts.entries.filter fun e => e.2.state.inFlight

/-- The part of `_boot_load` that registers and schedules a saved pipeline. -/
def loadPipeline (e : Σ _ : String, SavedPipeline) : Controller :=
  if e.2.deleted then c
  else
    let c₁ := c.registerConfig e.1 e.2.config
    if e.2.stopped ∨ (c.desired.lookup e.1).any (fun d => d.deleted || d.stopped) ∨
        !e.2.config.enabled then c₁
    else c₁.doSchedule e.1

def boot (evidence : String → Evidence) (now : Nat) : Controller :=
  let c₁ := c.resetOrphanDispatchingQueuedRuns
  let c₂ := c₁.nonTerminalAttempts.foldl (resolveAttemptAtBoot evidence now) c₁
  { c₂.saved.entries.foldl loadPipeline c₂ with up := true }

/-! ## The controller as a machine -/

inductive Op where
  | register (name : String) (config : PipelineConfig)
  | update (name : String) (config : PipelineConfig) (now : Nat)
  | delete (name : String) (now : Nat)
  | startPipeline (name : String)
  | stopPipeline (name : String) (now : Nat)
  | restartPipeline (name : String) (now : Nat)
  | triggerRun (name runId : String) (flush healthy : Bool) (now : Nat)
  | startSubmitted (runId : String) (env : ClaimEnv)
  | fire (name runId : String) (env : ClaimEnv)
  | dispatchEnds (runId : String) (outcome : DispatchOutcome) (now : Nat)
  | settleRefused (runId : String) (now : Nat)
  | leaveBatch (runId : String)
  | claimQueuedRun (runId : String) (env : ClaimEnv)
  | drainEnds (runId : String) (outcome : DispatchOutcome) (now : Nat)
  | expireQueuedRun (runId : String) (now : Nat)
  | onWorkerRunComplete (k : Completion) (now : Nat)
  | onAttemptRunComplete (k : Completion) (now : Nat)
  | markActiveBatchRunLost (name : String) (lease : Option Lease) (runId : String)
      (verdict : Verdict) (now : Nat)
  | adoptActiveBatchRun (name runId workerUrl : String)
  | streamRuns (name : String) (runIds : List String)
  | pruneLedgerAudit (cutoff : Nat)
  | crash
  | boot (evidence : String → Evidence) (now : Nat)

/-- Draw a run id; the operation is not one that happens if the id was drawn before. -/
def withRunId (runId : String) (f : Controller → Controller) : Controller :=
  if runId ∈ c.minted then c else f { c with minted := insert runId c.minted }

/-- The drain's dispatch of a queued run it claimed returns. -/
def drainEnds (runId : String) (outcome : DispatchOutcome) (now : Nat) : Controller :=
  if (c.drains.lookup runId).isSome then
    let c₁ := { c with drains := c.drains.erase runId }
    match outcome with
    | .accepted workerUrl workerId => c₁.commitQueuedDispatch runId workerUrl workerId now
    | _ => c₁.revertQueuedClaim runId now
  else c

def stepUp : Op → Controller
  | .register name config => c.register name config
  | .update name config now => c.update name config now
  | .delete name now => c.delete name now
  | .startPipeline name => c.startPipeline name
  | .stopPipeline name now => c.stopPipeline name now
  | .restartPipeline name now => c.restartPipeline name now
  | .triggerRun name runId flush healthy now =>
    c.withRunId runId fun c => c.triggerRun name runId flush healthy now
  | .startSubmitted runId env => c.startSubmitted runId env
  | .fire name runId env => c.withRunId runId fun c => c.claimBatch name runId .scheduled false env
  | .dispatchEnds runId outcome now => c.dispatchEnds runId outcome now
  | .settleRefused runId now => c.settleRefused runId now
  | .leaveBatch runId => c.leaveBatch runId
  | .claimQueuedRun runId env => c.claimQueuedRun runId env
  | .drainEnds runId outcome now => c.drainEnds runId outcome now
  | .expireQueuedRun runId now => c.expireQueuedRun runId now
  | .onWorkerRunComplete k now => c.onWorkerRunComplete k now
  | .onAttemptRunComplete k now => c.onAttemptRunComplete k now
  | .markActiveBatchRunLost name lease runId verdict now =>
    c.withRunId runId fun c => c.markActiveBatchRunLost name lease runId verdict now
  | .adoptActiveBatchRun name runId workerUrl => c.adoptActiveBatchRun name runId workerUrl
  | .streamRuns name runIds => { c with streamRunIds := c.streamRunIds.insert name runIds }
  | .pruneLedgerAudit cutoff => { c with ledger := c.ledger.pruneLedgerAudit cutoff }
  | .crash => c.crash
  | .boot _ _ => c

/-- A controller that is down does nothing but boot. -/
def step (op : Op) : Controller :=
  if c.up then c.stepUp op
  else
    match op with
    | .boot evidence now => c.boot evidence now
    | _ => c

end Tram.Controller
