import Tram.Controller.Operations
import Tram.Persistence.Effects

/-! # What the operations leave alone

Statuses, leases and schedules change all the time; what decides who may claim a run does not. -/

namespace Tram.Controller

structure Core where
  ledger : Ledger
  queuedRuns : Dict String QueuedRun
  submitted : Dict String SubmittedRun
  dispatches : Dict String BatchDispatch
  drains : Dict String (String × Nat)
  minted : Finset String
  up : Bool

def core (c : Controller) : Core :=
  ⟨c.ledger, c.queuedRuns, c.submitted, c.dispatches, c.drains, c.minted, c.up⟩

variable (c : Controller)

section

variable (name : String)

@[simp] theorem core_setStatus (status : Status) : (c.setStatus name status).core = c.core := rfl

@[simp] theorem core_registerConfig (config : PipelineConfig) :
    (c.registerConfig name config).core = c.core := rfl

@[simp] theorem core_savePipeline (config : PipelineConfig) :
    (c.savePipeline name config).core = c.core := rfl

@[simp] theorem core_bumpPipelineGeneration (deleted : Bool) :
    (c.bumpPipelineGeneration name deleted).core = c.core := rfl

@[simp] theorem core_setStoppedFlag (stopped : Bool) : (c.setStoppedFlag name stopped).core = c.core := rfl

@[simp] theorem core_setDesiredStopped (stopped : Bool) :
    (c.setDesiredStopped name stopped).core = c.core := rfl

end

@[simp] theorem core_recordRun (name runId : String) (status : RunStatus) :
    (c.recordRun name runId status).core = c.core := by
  unfold recordRun
  split <;> rfl

@[simp] theorem core_recordSkippedManualRun (name runId : String) :
    (c.recordSkippedManualRun name runId).core = c.core := core_recordRun c name runId .failed

@[simp] theorem core_doSchedule (name : String) : (c.doSchedule name).core = c.core := by
  unfold doSchedule
  split
  · rfl
  · split <;> rfl

@[simp] theorem core_onRunComplete (name : String) (status : RunStatus) :
    (c.onRunComplete name status).core = c.core := by
  unfold onRunComplete
  split
  · rfl
  · split_ifs <;> simp

@[simp] theorem core_finalizeBatchResult (name runId : String) (status : RunStatus) :
    (c.finalizeBatchResult name runId status).core = c.core := by
  unfold finalizeBatchResult
  split <;> simp

@[simp] theorem core_popBatchLeaseForRun (name runId : String) :
    (c.popBatchLeaseForRun name runId).core = c.core := by
  unfold popBatchLeaseForRun
  split
  · split_ifs <;> rfl
  · rfl

@[simp] theorem core_removeStreamRunId (name runId : String) :
    (c.removeStreamRunId name runId).core = c.core := by
  unfold removeStreamRunId
  split
  · split_ifs <;> rfl
  · rfl

@[simp] theorem core_adoptActiveBatchRun (name runId workerUrl : String) :
    (c.adoptActiveBatchRun name runId workerUrl).core = c.core := by
  unfold adoptActiveBatchRun
  split
  · rfl
  · split_ifs <;> rfl

@[simp] theorem core_stopExecution (name : String) : (c.stopExecution name).core = c.core := by
  unfold stopExecution
  split <;> rfl

@[simp] theorem core_register (name : String) (config : PipelineConfig) :
    (c.register name config).core = c.core := by
  unfold register
  split_ifs
  · rfl
  · exact core_doSchedule _ name
  · rfl

@[simp] theorem core_startPipeline (name : String) : (c.startPipeline name).core = c.core := by
  unfold startPipeline
  split
  · rfl
  · split_ifs
    · rfl
    · rfl
    · exact core_doSchedule _ name

@[simp] theorem core_loadPipeline (e : Σ _ : String, SavedPipeline) :
    (c.loadPipeline e).core = c.core := by
  unfold loadPipeline
  split_ifs
  · rfl
  · rfl
  · exact core_doSchedule _ e.1

theorem core_foldl_loadPipeline (es : List (Σ _ : String, SavedPipeline)) :
    (es.foldl loadPipeline c).core = c.core := by
  induction es generalizing c with
  | nil => rfl
  | cons e es ih => exact (ih (c.loadPipeline e)).trans (core_loadPipeline c e)

theorem setPhase_enqueueManualRun (name r r' yamlText : String) (now : Nat)
    (phase : DispatchPhase) :
    (c.setPhase r' phase).enqueueManualRun name r yamlText now =
      ((c.enqueueManualRun name r yamlText now).1,
        (c.enqueueManualRun name r yamlText now).2.setPhase r' phase) := by
  have hactive : (c.setPhase r' phase).hasActiveQueuedRun name = c.hasActiveQueuedRun name := rfl
  have hover : (c.setPhase r' phase).queueOverCapacity yamlText = c.queueOverCapacity yamlText := rfl
  simp only [enqueueManualRun, hactive, hover]
  split_ifs <;> rfl

theorem setPhase_recordRun (name r r' : String) (status : RunStatus)
    (phase : DispatchPhase) :
    (c.setPhase r' phase).recordRun name r status = (c.recordRun name r status).setPhase r' phase := by
  have hpipe : (c.setPhase r' phase).pipelines = c.pipelines := rfl
  unfold recordRun
  rw [hpipe]
  split <;> rfl

theorem settleRefused_eq {c : Controller} {r : String} {d : BatchDispatch} {outcome : DispatchOutcome}
    (hd : c.dispatches.lookup r = some d) (hphase : d.phase = .refused outcome) (now : Nat) :
    c.settleRefused r now =
      if c.requeues d outcome then
        match (c.setPhase r .leaving).enqueueManualRun d.pipelineName r d.yamlText now with
        | (.rejected, c') => c'.recordSkippedManualRun d.pipelineName r
        | (_, c') => c'
      else (c.finalizeBatchResult d.pipelineName r .failed).setPhase r .leaving := by
  simp only [settleRefused, hd, hphase, setPhase_enqueueManualRun]
  split_ifs
  · generalize c.enqueueManualRun d.pipelineName r d.yamlText now = result
    obtain ⟨_ | _ | _, c'⟩ := result
    · rfl
    · rfl
    · exact (setPhase_recordRun ..).symm
  · rfl

theorem ledger_eq_of_core_eq {c c' : Controller} (h : c'.core = c.core) : c'.ledger = c.ledger :=
  congrArg Core.ledger h

end Tram.Controller
