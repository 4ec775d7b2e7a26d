import Tram.Controller.Operations

/-! # What a restart brings back

Operations on the life of a pipeline, from a fresh installation, among runs that come and go,
streams that set their pipeline's status, and restarts of the process. The last operation that
expressed an intention, to run or not to run, is what the next boot follows. -/

namespace Tram

open List Controller Dict

def ScheduleType.timed (t : ScheduleType) : Bool := t = .interval ∨ t = .cron

def Status.active (s : Status) : Bool := s = .running ∨ s = .scheduled

namespace Controller

/-- An operation of the controller, or a stream that sets the status of its pipeline. -/
inductive Event where
  | op (op : Op)
  | streamStatus (name : String) (status : Status)

def handle (c : Controller) : Event → Controller
  | .op op => c.step op
  | .streamStatus name status =>
    if (c.pipelines.lookup name).any (·.config.scheduleType = .stream) then c.setStatus name status else c

/-- The pipeline is meant to run, after the event: a registration means it if the configuration is
enabled, a start and a restart mean it, a stop and a deletion mean the contrary. An operation on a
name that is not registered, and a registration of one that is, raise. -/
def intention (c : Controller) (name : String) (before : Bool) : Event → Bool
  | .op (.register n config) =>
    if n = name ∧ c.up ∧ (c.pipelines.lookup n).isNone then config.enabled else before
  | .op (.startPipeline n) | .op (.restartPipeline n _) =>
    if n = name ∧ c.up ∧ (c.pipelines.lookup n).isSome then true else before
  | .op (.stopPipeline n _) | .op (.delete n _) =>
    if n = name ∧ c.up ∧ (c.pipelines.lookup n).isSome then false else before
  | _ => before

/-- The name is not registered again after its deletion; while its desired state is stopped, the
pipeline is not restarted, nor started when a run has set it running or put it back on its schedule. -/
def Plain (c : Controller) (name : String) : Event → Bool
  | .op (.register n _) => n = name → c.up → (c.pipelines.lookup n).isSome ∨ (c.saved.lookup n).isNone
  | .op (.startPipeline n) => n = name → (c.pipelines.lookup n).any (·.status.active) →
      ¬(c.desired.lookup n).any (·.stopped)
  | .op (.restartPipeline n _) => n = name → c.up → ¬(c.desired.lookup n).any (·.stopped)
  | _ => true

/-- `_boot_load` goes on to schedule the pipeline. A stream that is still alive is adopted, and a
placement restored, in the place of `_do_schedule`. -/
def schedulesAtBoot (c : Controller) (name : String) (p : SavedPipeline) : Bool :=
  ¬p.deleted ∧ ¬p.stopped ∧ ¬(c.desired.lookup name).any (fun d => d.deleted || d.stopped) ∧
    p.config.enabled

/-! ## Rows and configurations -/

/-- What is known of a name: its configuration in memory and its two rows. -/
structure Facts where
  up : Bool
  config : Option PipelineConfig
  saved : Option SavedPipeline
  desired : Option DesiredState

def facts (c : Controller) (name : String) : Facts :=
  ⟨c.up, (c.pipelines.lookup name).map (·.config), c.saved.lookup name, c.desired.lookup name⟩

section

variable (c : Controller) (n : String)

@[simp] theorem facts_setStatus (status : Status) : (c.setStatus n status).facts = c.facts := by
  funext name
  simp only [facts, setStatus, lookup_modify]
  split_ifs with h
  · rw [h, Option.map_map]
    rfl
  · rfl

@[simp] theorem facts_doSchedule : (c.doSchedule n).facts = c.facts := by
  unfold doSchedule
  split
  · rfl
  · split
    · exact facts_setStatus c n _
    · exact facts_setStatus c n _
    · exact facts_setStatus c n _
    · rfl

@[simp] theorem facts_stopExecution : (c.stopExecution n).facts = c.facts := by
  unfold stopExecution
  split
  · rfl
  · exact facts_setStatus c n .stopped

@[simp] theorem facts_terminalCancelPipelineQueued (reason : String) (now : Nat) :
    (c.terminalCancelPipelineQueued n reason now).facts = c.facts := rfl

variable (name : String)

@[simp] theorem facts_registerConfig (config : PipelineConfig) : (c.registerConfig n config).facts name =
      if name = n then { c.facts name with config := some config } else c.facts name := by
  simp only [registerConfig, facts, lookup_insert_ite]
  split_ifs <;> rfl

@[simp] theorem facts_savePipeline (config : PipelineConfig) : (c.savePipeline n config).facts name =
      if name = n then
        { c.facts name with saved := some ⟨config, (c.facts name).saved.any (·.stopped), false⟩ }
      else c.facts name := by
  simp only [savePipeline, facts, lookup_insert_ite]
  split_ifs with h
  · rw [h]
  · rfl

@[simp] theorem facts_ensureDesiredState (stopped : Bool) : (c.ensureDesiredState n stopped).facts name =
      if name = n then
        { c.facts name with desired := some ((c.facts name).desired.getD ⟨stopped, 1, false⟩) }
      else c.facts name := by
  simp only [ensureDesiredState, facts, lookup_setdefault]
  split_ifs with h
  · rw [h]
  · rfl

@[simp] theorem facts_bumpPipelineGeneration (deleted : Bool) :
    (c.bumpPipelineGeneration n deleted).facts name =
      if name = n then
        { c.facts name with
          desired := some ⟨(c.facts name).desired.any (·.stopped), c.pipelineGeneration n + 1, deleted⟩ }
      else c.facts name := by
  simp only [bumpPipelineGeneration, facts, lookup_insert_ite]
  split_ifs with h
  · rw [h]
  · rfl

@[simp] theorem facts_setStoppedFlag (stopped : Bool) : (c.setStoppedFlag n stopped).facts name =
      if name = n then
        { c.facts name with
          saved := (c.facts name).saved.map fun p => { p with stopped := stopped } }
      else c.facts name := by
  simp only [setStoppedFlag, facts, lookup_modify]
  split_ifs with h
  · rw [h]
  · rfl

@[simp] theorem facts_setDesiredStopped (stopped : Bool) : (c.setDesiredStopped n stopped).facts name =
      if name = n then
        { c.facts name with
          desired := (c.facts name).desired.map fun d => { d with stopped := stopped } }
      else c.facts name := by
  simp only [setDesiredStopped, facts, lookup_modify]
  split_ifs with h
  · rw [h]
  · rfl

end

/-! ## The agreement -/

/-- The rows agree with the intention, and a process that is up knows the pipelines that are not
deleted. -/
structure Agrees (f : Facts) (intent : Bool) : Prop where
  rows : ∀ p, f.saved = some p → p.deleted = false → ∃ d, f.desired = some d ∧ d.deleted = false ∧
    d.stopped = !intent ∧ (p.stopped = true → intent = false)
  unsaved : f.saved = none → f.desired = none
  config : f.config = if f.up then (f.saved.filter (!·.deleted)).map (·.config) else none

section Own

variable {c : Controller} {name : String} {intent : Bool} {p : SavedPipeline} {d : DesiredState}

theorem agrees_of_rows (hp : p.deleted = false) (hd : d.deleted = false) (hstopped : d.stopped = !intent)
    (hflag : p.stopped = true → intent = false) : Agrees ⟨true, some p.config, some p, some d⟩ intent where
  rows p' hp' _ := by
    cases hp'
    exact ⟨d, rfl, hd, hstopped, hflag⟩
  unsaved := nofun
  config := by simp [hp]

variable (h : Agrees (c.facts name) intent)
include h

theorem Agrees.registered {s : PipelineState} (hs : c.pipelines.lookup name = some s) :
    c.up = true ∧ ∃ p d, c.facts name = ⟨true, some p.config, some p, some d⟩ ∧
      p.deleted = false ∧ d.deleted = false ∧ d.stopped = !intent ∧ (p.stopped = true → intent = false) := by
  have hconfig := h.config
  have hknown : (c.facts name).config = some s.config := by simp [facts, hs]
  rw [hknown] at hconfig
  split_ifs at hconfig with hup
  obtain ⟨p, hp, hsame⟩ := Option.map_eq_some_iff.mp hconfig.symm
  obtain ⟨hp, hdeleted⟩ := Option.filter_eq_some_iff.mp hp
  have hthere : p.deleted = false := by simpa using hdeleted
  obtain ⟨d, hd, hrows⟩ := h.rows p hp hthere
  refine ⟨hup, p, d, ?_, hthere, hrows⟩
  rw [hsame, ← hup, ← hknown, ← hp, ← hd]

theorem Agrees.register (hup : c.up = true) (config : PipelineConfig)
    (hplain : c.Plain name (.op (.register name config)) = true) :
    Agrees ((c.register name config).facts name)
      (c.intention name intent (.op (.register name config))) := by
  unfold Controller.register
  cases hs : c.pipelines.lookup name with
  | some s => simpa [intention, hs] using h
  | none =>
    have hsaved : c.saved.lookup name = none := by simpa [Plain, hup, hs] using hplain
    have hdesired : c.desired.lookup name = none := h.unsaved hsaved
    have hnew : Agrees ((((c.registerConfig name config).savePipeline name config).ensureDesiredState
        name (!config.enabled)).facts name) config.enabled := by
      simp only [facts_ensureDesiredState, facts_savePipeline, facts_registerConfig, if_true]
      simp only [facts, hup, hsaved, hdesired]
      exact agrees_of_rows (p := ⟨config, false, false⟩) rfl rfl rfl nofun
    have hintent : c.intention name intent (.op (.register name config)) = config.enabled := by
      simp [intention, hup, hs]
    rw [hintent]
    cases hen : config.enabled <;> rw [hen] at hnew <;> simpa using hnew

theorem Agrees.update (config : PipelineConfig) (now : Nat) :
    Agrees ((c.update name config now).facts name) intent := by
  unfold Controller.update
  cases hs : c.pipelines.lookup name with
  | none => exact h
  | some s =>
    obtain ⟨-, p, d, hfacts, -, -, hstopped, hflag⟩ := h.registered hs
    have hnew : Agrees (((((c.stopExecution name).registerConfig name config).savePipeline name
        config).bumpPipelineGeneration name false).facts name) intent := by
      simp only [facts_bumpPipelineGeneration, facts_savePipeline, facts_registerConfig,
        facts_stopExecution, if_true, hfacts]
      exact agrees_of_rows (p := ⟨config, p.stopped, false⟩) rfl rfl hstopped hflag
    dsimp only
    split_ifs
    · exact h
    · rwa [facts_doSchedule]
    · exact hnew

theorem Agrees.delete (now : Nat) :
    Agrees ((c.delete name now).facts name) (c.intention name intent (.op (.delete name now))) := by
  unfold Controller.delete
  have hstop : (c.stopExecution name).facts name = c.facts name := by rw [facts_stopExecution]
  cases hs : c.pipelines.lookup name with
  | none =>
    have hintent : c.intention name intent (.op (.delete name now)) = intent := by simp [intention, hs]
    have hgone : (c.stopExecution name).pipelines.lookup name = none := by simp [stopExecution, hs]
    simp only [terminalCancelPipelineQueued, hgone, Option.isNone_none, if_true, hintent]
    exact hstop ▸ h
  | some s =>
    obtain ⟨-, p, d, hfacts, -⟩ := h.registered hs
    have hsaved : (c.stopExecution name).saved.lookup name = some p :=
      congrArg Facts.saved (hstop.trans hfacts)
    have hthere : ((c.stopExecution name).pipelines.lookup name).isNone = false := by
      have hconfig := congrArg Facts.config (hstop.trans hfacts)
      cases hl : (c.stopExecution name).pipelines.lookup name with
      | none => simp [facts, hl] at hconfig
      | some _ => rfl
    simp only [terminalCancelPipelineQueued, hthere, Bool.false_eq_true, if_false,
      facts_bumpPipelineGeneration, if_true]
    simp only [facts, lookup_modify, lookup_erase_ite, if_true, hsaved, Option.map_some,
      Option.map_none]
    refine ⟨fun p' hp' hp => ?_, fun hnone => ?_, by simp⟩
    · cases hp'
      cases hp
    · cases hnone

theorem Agrees.start (hup : c.up = true) (hplain : c.Plain name (.op (.startPipeline name)) = true) :
    Agrees ((c.startPipeline name).facts name) (c.intention name intent (.op (.startPipeline name))) := by
  unfold startPipeline
  cases hs : c.pipelines.lookup name with
  | none => simpa [intention, hs] using h
  | some s =>
    obtain ⟨-, p, d, hfacts, hdeleted, hdeleted', hstopped, -⟩ := h.registered hs
    have hintent : c.intention name intent (.op (.startPipeline name)) = true := by
      simp [intention, hup, hs]
    have hcleared : Agrees
        (((c.setStoppedFlag name false).setDesiredStopped name false).facts name) true := by
      simp only [facts_setDesiredStopped, facts_setStoppedFlag, if_true, hfacts, Option.map_some]
      exact agrees_of_rows (p := { p with stopped := false }) hdeleted hdeleted' rfl nofun
    rw [hintent]
    dsimp only
    split_ifs with hactive
    · -- the call returns already_running, and the desired state is running
      have hd : c.desired.lookup name = some d := congrArg Facts.desired hfacts
      have hrunning : d.stopped = false := by
        simpa [Plain, hs, hd, Status.active, hactive] using hplain
      have htrue : intent = true := by simpa [hrunning] using hstopped
      exact htrue ▸ h
    · rwa [facts_setStatus]
    · rwa [facts_doSchedule]

theorem Agrees.stop (hup : c.up = true) (now : Nat) :
    Agrees ((c.stopPipeline name now).facts name)
      (c.intention name intent (.op (.stopPipeline name now))) := by
  unfold stopPipeline
  simp only [facts_setStatus, facts_terminalCancelPipelineQueued, facts_setDesiredStopped,
    facts_setStoppedFlag, facts_stopExecution, if_true]
  cases hs : c.pipelines.lookup name with
  | none =>
    have hintent : c.intention name intent (.op (.stopPipeline name now)) = intent := by
      simp [intention, hs]
    have hnone : ((c.facts name).saved.filter (!·.deleted)).map (·.config) = none := by
      have hconfig := h.config
      simp only [facts, hup, hs] at hconfig
      exact hconfig.symm
    rw [hintent]
    refine ⟨fun p' hp' hthere => ?_, fun hsaved => ?_, ?_⟩
    · obtain ⟨p, hp, rfl⟩ := Option.map_eq_some_iff.mp hp'
      simp [hp, show p.deleted = false from hthere] at hnone
    · simp [h.unsaved (Option.map_eq_none_iff.mp hsaved)]
    · have hconfig := h.config
      cases hp : (c.facts name).saved with
      | none => simpa [hp] using hconfig
      | some p => cases hd : p.deleted <;> simpa [hp, hd, Option.filter_some] using hconfig
  | some s =>
    obtain ⟨-, p, d, hfacts, hdeleted, hdeleted', -, -⟩ := h.registered hs
    have hintent : c.intention name intent (.op (.stopPipeline name now)) = false := by
      simp [intention, hup, hs]
    simp only [hintent, hfacts, Option.map_some]
    exact agrees_of_rows (p := { p with stopped := true }) hdeleted hdeleted' rfl fun _ => rfl

theorem Agrees.restart (hup : c.up = true) (now : Nat)
    (hplain : c.Plain name (.op (.restartPipeline name now)) = true) :
    Agrees ((c.restartPipeline name now).facts name)
      (c.intention name intent (.op (.restartPipeline name now))) := by
  unfold restartPipeline
  cases hs : c.pipelines.lookup name with
  | none => simpa [intention, hs] using h
  | some s =>
    obtain ⟨-, p, d, hfacts, hdeleted, hdeleted', -, -⟩ := h.registered hs
    have hintent : c.intention name intent (.op (.restartPipeline name now)) = true := by
      simp [intention, hup, hs]
    -- only the flag is cleared; the other row says running already
    have hrunning : d.stopped = false := by
      have hd : c.desired.lookup name = some d := congrArg Facts.desired hfacts
      simpa [Plain, hup, hd] using hplain
    have hcleared : ∀ c' : Controller, c'.facts = c.facts →
        Agrees ((c'.setStoppedFlag name false).facts name) true := by
      intro c' hc'
      simp only [facts_setStoppedFlag, if_true, hc', hfacts, Option.map_some]
      exact agrees_of_rows (p := { p with stopped := false }) hdeleted hdeleted' hrunning nofun
    rw [hintent]
    dsimp only
    split_ifs
    all_goals simp only [facts_doSchedule, facts_setStatus, facts_terminalCancelPipelineQueued]
    · exact hcleared _ (facts_setStatus c name .stopped)
    · exact hcleared _ (facts_setStatus c name .stopped)
    · exact hcleared _ rfl
    · exact hcleared _ rfl

end Own

/-! ## Runs -/

/-- The event is one of a run: it changes no row and no configuration, unless the process dies. -/
def Rests (c c' : Controller) : Prop := c'.facts = c.facts ∨ c'.facts = c.crash.facts

section Runs

variable (c : Controller)

@[simp] theorem facts_recordRun (name runId : String) (status : RunStatus) :
    (c.recordRun name runId status).facts = c.facts := by
  unfold recordRun
  split <;> rfl

@[simp] theorem facts_finalizeBatchResult (name runId : String) (status : RunStatus) :
    (c.finalizeBatchResult name runId status).facts = c.facts := by
  unfold finalizeBatchResult onRunComplete
  split
  · rfl
  · split
    · simp
    · split_ifs <;> simp

@[simp] theorem facts_enqueueManualRun (name runId yamlText : String) (now : Nat) :
    (c.enqueueManualRun name runId yamlText now).2.facts = c.facts := by
  unfold enqueueManualRun
  split_ifs
  · exact facts_setStatus c name _
  · rfl
  · exact facts_setStatus _ name _

@[simp] theorem facts_popBatchLeaseForRun (name runId : String) :
    (c.popBatchLeaseForRun name runId).facts = c.facts := by
  unfold popBatchLeaseForRun
  split
  · split_ifs <;> rfl
  · rfl

@[simp] theorem facts_removeStreamRunId (name runId : String) :
    (c.removeStreamRunId name runId).facts = c.facts := by
  unfold removeStreamRunId
  split
  · split_ifs <;> rfl
  · rfl

@[simp] theorem facts_terminalizeActive (runId : String) (outcome : Option IntentOutcome)
    (reason : Option String) (now : Nat) : (c.terminalizeActive runId outcome reason now).facts = c.facts :=
  rfl

theorem facts_claimForDispatch (name runId : String) (origin : Origin) (flush : Bool) (yamlText : String)
    (scheduleType : ScheduleType) (ordinal : Nat) (env : ClaimEnv) :
    (c.claimForDispatch name runId origin flush yamlText scheduleType ordinal env).2.facts = c.facts := rfl

@[simp] theorem facts_onWorkerRunComplete (k : Completion) (now : Nat) :
    (c.onWorkerRunComplete k now).facts = c.facts := by
  unfold onWorkerRunComplete
  dsimp only
  split_ifs <;> simp

theorem facts_onAttemptRunComplete (k : Completion) (now : Nat) :
    (c.onAttemptRunComplete k now).facts = c.facts := by
  unfold onAttemptRunComplete
  split
  · rfl
  · split_ifs
    · rfl
    · exact facts_onWorkerRunComplete _ k now

theorem facts_crash (name : String) :
    c.crash.facts name = { c.facts name with up := false, config := none } := rfl

variable {c} in
theorem Rests.died {c' : Controller} (h : c'.facts = c.facts) : Rests c c'.crash :=
  .inr (funext fun name => by rw [facts_crash, facts_crash, h])

theorem Rests.claimBatch (name runId : String) (origin : Origin) (flush : Bool) (env : ClaimEnv) :
    Rests c (c.claimBatch name runId origin flush env) := by
  have hskip : ∀ {c' : Controller}, c'.facts = c.facts →
      (if origin = .manual then c'.recordSkippedManualRun name runId else c').facts = c.facts := by
    intro c' h
    split_ifs
    · exact (facts_recordRun c' name runId .failed).trans h
    · exact h
  unfold Controller.claimBatch
  split
  · exact .inl rfl
  · next s _ =>
    split
    · exact .inl (hskip rfl)
    · have hclaim := (facts_claimForDispatch (c.setStatus name .running) name runId origin flush
        s.config.yamlText s.config.scheduleType 1 env).trans (facts_setStatus c name .running)
      split <;> rename_i hr <;> rw [hr] at hclaim
      · exact .inl hclaim
      · exact .inl (hskip hclaim)
      · exact .inl hclaim
      · exact .died hclaim

theorem Rests.claimQueuedRun (runId : String) (env : ClaimEnv) : Rests c (c.claimQueuedRun runId env) := by
  unfold Controller.claimQueuedRun
  split
  · exact .inl rfl
  · next row _ =>
    split
    · exact .inl rfl
    · next s _ =>
      split
      · exact .inl rfl
      · dsimp only
        split
        · exact .died rfl
        · have hclaim := facts_claimForDispatch (c.claimQueuedRunRow runId) row.pipelineName runId .queued
            false row.yamlSnapshot s.config.scheduleType
            ((c.claimQueuedRunRow runId).ledger.nextAttemptOrdinal runId) env
          split <;> rename_i hr <;> rw [hr] at hclaim
          · exact .inl hclaim
          · exact .inl hclaim
          · exact .inl hclaim
          · exact .died hclaim

theorem facts_markActiveBatchRunLost (name : String) (lease : Option Lease) (runId : String)
    (verdict : Verdict) (now : Nat) :
    (c.markActiveBatchRunLost name lease runId verdict now).facts = c.facts := by
  unfold markActiveBatchRunLost
  split
  · rfl
  · cases verdict with
    | completed attempt status =>
      dsimp only
      split
      · rfl
      · exact facts_onAttemptRunComplete c _ now
      · exact facts_onWorkerRunComplete c _ now
    | lost =>
      dsimp only
      split
      · rfl
      · split
        · split_ifs <;> rfl
        · split
          · rfl
          · split_ifs
            · rfl
            · exact facts_finalizeBatchResult _ name _ .failed

theorem facts_drainEnds (runId : String) (outcome : DispatchOutcome) (now : Nat) :
    (c.drainEnds runId outcome now).facts = c.facts := by
  have hcommit : ∀ (c' : Controller) workerUrl workerId,
      (c'.commitQueuedDispatch runId workerUrl workerId now).facts = c'.facts := by
    intro c' workerUrl workerId
    unfold commitQueuedDispatch
    split
    · rfl
    · next row _ =>
      split
      · rfl
      · dsimp only
        split <;> split <;> first | rfl | exact facts_setStatus c' row.pipelineName .running
  have hrevert : ∀ c' : Controller, (c'.revertQueuedClaim runId now).facts = c'.facts := by
    intro c'
    unfold revertQueuedClaim
    split <;> rfl
  unfold drainEnds
  split
  · cases outcome with
    | accepted workerUrl workerId => exact hcommit _ workerUrl workerId
    | noCapacity => exact hrevert _
    | failed _ => exact hrevert _
  · rfl

theorem facts_dispatchEnds (runId : String) (outcome : DispatchOutcome) (now : Nat) :
    (c.dispatchEnds runId outcome now).facts = c.facts := by
  unfold dispatchEnds
  split
  · rfl
  · split
    · rfl
    · split
      · change (c.trackAccepted runId _ _ _ now).facts = c.facts
        unfold trackAccepted
        split
        · rfl
        · split_ifs <;> rfl
      · rfl

theorem facts_settleRefused (runId : String) (now : Nat) : (c.settleRefused runId now).facts = c.facts := by
  unfold settleRefused
  split
  · rfl
  · next d _ =>
    split
    · next outcome _ =>
      have hqueue := facts_enqueueManualRun c d.pipelineName runId d.yamlText now
      split
      · split <;> rename_i hr <;> rw [hr] at hqueue
        · exact (facts_recordRun _ d.pipelineName runId .failed).trans hqueue
        · exact hqueue
      · exact facts_finalizeBatchResult c d.pipelineName runId .failed
    · rfl

def Op.lifecycle : Op → Option String
  | .register n _ | .update n _ _ | .delete n _ | .startPipeline n | .stopPipeline n _
  | .restartPipeline n _ => some n
  | _ => none

theorem Rests.stepUp {op : Op} (h : op.lifecycle = none) : Rests c (c.stepUp op) := by
  have hmint : ∀ (runId : String) (f : Controller → Controller), (∀ c, Rests c (f c)) →
      Rests c (c.withRunId runId f) := by
    intro runId f hf
    unfold withRunId
    split
    · exact .inl rfl
    · exact hf { c with minted := insert runId c.minted }
  cases op with
  | register | update | delete | startPipeline | stopPipeline | restartPipeline => cases h
  | triggerRun name runId flush healthy now =>
    refine hmint runId _ fun c => .inl ?_
    unfold triggerRun
    split
    · rfl
    · split_ifs <;> first | rfl | simp
  | startSubmitted runId env =>
    simp only [Controller.stepUp, startSubmitted]
    split
    · exact .inl rfl
    · exact Rests.claimBatch { c with submitted := _ } _ runId .manual _ env
  | fire name runId env => exact hmint runId _ fun c => .claimBatch c name runId .scheduled false env
  | dispatchEnds runId outcome now => exact .inl (facts_dispatchEnds c runId outcome now)
  | settleRefused runId now => exact .inl (facts_settleRefused c runId now)
  | leaveBatch runId =>
    simp only [Controller.stepUp, leaveBatch]
    split
    · exact .inl rfl
    · split <;> exact .inl rfl
  | claimQueuedRun runId env => exact .claimQueuedRun c runId env
  | drainEnds runId outcome now => exact .inl (facts_drainEnds c runId outcome now)
  | expireQueuedRun runId now =>
    simp only [Controller.stepUp, expireQueuedRun]
    split
    · exact .inl rfl
    · split
      · exact .inl rfl
      · exact .inl (facts_finalizeBatchResult _ _ runId .failed)
  | onWorkerRunComplete k now => exact .inl (facts_onWorkerRunComplete c k now)
  | onAttemptRunComplete k now => exact .inl (facts_onAttemptRunComplete c k now)
  | markActiveBatchRunLost name lease runId verdict now =>
    exact hmint runId _ fun c => .inl (facts_markActiveBatchRunLost c name lease runId verdict now)
  | adoptActiveBatchRun name runId workerUrl =>
    simp only [Controller.stepUp, adoptActiveBatchRun]
    split
    · exact .inl rfl
    · split
      · exact .inl rfl
      · exact .inl (facts_setStatus _ name .running)
  | streamRuns | pruneLedgerAudit | boot => exact .inl rfl
  | crash => exact .inr rfl

theorem facts_stepUp_of_ne {op : Op} {n name : String} (hop : op.lifecycle = some n) (hne : name ≠ n) :
    (c.stepUp op).facts name = c.facts name := by
  have hstop := congrFun (facts_stopExecution c n) name
  have hset := congrFun (facts_setStatus c n .stopped) name
  cases op with
  | register _ config =>
    cases hop
    simp only [stepUp, register]
    split_ifs <;> simp [hne]
  | update _ config now =>
    cases hop
    simp only [stepUp, update]
    split
    · rfl
    · split_ifs <;> simp [hne]
  | delete _ now =>
    cases hop
    simp only [stepUp, delete]
    split
    · exact hstop
    · rw [facts_bumpPipelineGeneration, if_neg hne, ← hstop]
      simp [facts, lookup_modify, hne, terminalCancelPipelineQueued]
  | startPipeline =>
    cases hop
    simp only [stepUp, startPipeline]
    split
    · rfl
    · split_ifs <;> simp [hne]
  | stopPipeline _ now =>
    cases hop
    simp [stepUp, stopPipeline, hne]
  | restartPipeline _ now =>
    cases hop
    simp only [stepUp, restartPipeline]
    split
    · rfl
    · split_ifs
      all_goals simp only [facts_doSchedule, facts_setStatus, facts_terminalCancelPipelineQueued,
        facts_setStoppedFlag, if_neg hne]
      all_goals exact hset
  | _ => cases hop

end Runs

variable (c : Controller)

/-! ## The boot -/

theorem resolveAttemptAtBoot_rows (evidence : String → Evidence) (now : Nat)
    (e : Σ _ : String, Attempt) :
    let c' := resolveAttemptAtBoot evidence now c e
    c'.saved = c.saved ∧ c'.desired = c.desired ∧ c'.schedulerJobs = c.schedulerJobs ∧
      c'.pipelines = c.pipelines := by
  unfold resolveAttemptAtBoot
  split_ifs
  · exact ⟨rfl, rfl, rfl, rfl⟩
  · split <;> exact ⟨rfl, rfl, rfl, rfl⟩

theorem foldl_resolveAttemptAtBoot_rows (evidence : String → Evidence) (now : Nat)
    (es : List (Σ _ : String, Attempt)) :
    let c' := es.foldl (resolveAttemptAtBoot evidence now) c
    c'.saved = c.saved ∧ c'.desired = c.desired ∧ c'.schedulerJobs = c.schedulerJobs ∧
      c'.pipelines = c.pipelines := by
  induction es generalizing c with
  | nil => exact ⟨rfl, rfl, rfl, rfl⟩
  | cons e es ih =>
    obtain ⟨hsaved, hdesired, hjobs, hpipelines⟩ := resolveAttemptAtBoot_rows c evidence now e
    obtain ⟨hsaved', hdesired', hjobs', hpipelines'⟩ := ih (resolveAttemptAtBoot evidence now c e)
    exact ⟨hsaved'.trans hsaved, hdesired'.trans hdesired, hjobs'.trans hjobs, hpipelines'.trans hpipelines⟩

theorem facts_loadPipeline (e : Σ _ : String, SavedPipeline) (name : String) :
    (c.loadPipeline e).facts name =
      if name = e.1 ∧ e.2.deleted = false then { c.facts name with config := some e.2.config }
      else c.facts name := by
  unfold loadPipeline
  cases hd : e.2.deleted with
  | true => simp
  | false =>
    simp only [Bool.false_eq_true, if_false, and_true]
    split_ifs <;> simp_all

theorem jobs_doSchedule (name : String) (config : PipelineConfig) :
    ((c.registerConfig name config).doSchedule name).schedulerJobs =
      if config.scheduleType.timed then insert name c.schedulerJobs else c.schedulerJobs := by
  have hs : (c.registerConfig name config).pipelines.lookup name =
      some ⟨config, c.nextConfigId, .stopped⟩ := AList.lookup_insert _
  unfold doSchedule
  rw [hs]
  dsimp only
  cases config.scheduleType <;> rfl

theorem schedulesAtBoot_iff (name : String) (p : SavedPipeline) :
    c.schedulesAtBoot name p = true ↔
      p.deleted = false ∧ p.stopped = false ∧
        (c.desired.lookup name).any (fun d => d.deleted || d.stopped) = false ∧
        p.config.enabled = true := by
  simp [schedulesAtBoot]

/-- A saved pipeline gets a job exactly if the boot goes on to schedule it and it is timed. -/
theorem mem_jobs_loadPipeline (e : Σ _ : String, SavedPipeline) (name : String) :
    name ∈ (c.loadPipeline e).schedulerJobs ↔
      name ∈ c.schedulerJobs ∨
        e.1 = name ∧ c.schedulesAtBoot name e.2 = true ∧ e.2.config.scheduleType.timed = true := by
  unfold loadPipeline
  split_ifs with hdeleted hgate
  · have hnot : c.schedulesAtBoot name e.2 ≠ true := by simp [schedulesAtBoot, hdeleted]
    simp [hnot]
  · -- one of the three conditions of the boot fails
    have hnot : e.1 = name → c.schedulesAtBoot name e.2 ≠ true := by
      rintro rfl hall
      obtain ⟨-, hstopped, hdesired, henabled⟩ := (schedulesAtBoot_iff c e.1 e.2).mp hall
      simp [hstopped, hdesired, henabled] at hgate
    exact ⟨.inl, fun h => h.resolve_right fun ⟨heq, hall, _⟩ => hnot heq hall⟩
  · have hall : c.schedulesAtBoot e.1 e.2 = true := by
      refine (schedulesAtBoot_iff c e.1 e.2).mpr ⟨by simpa using hdeleted, ?_⟩
      simpa [not_or] using hgate
    rw [jobs_doSchedule]
    split_ifs with htimed
    · rw [Finset.mem_insert]
      constructor
      · rintro (rfl | hin)
        · exact .inr ⟨rfl, hall, htimed⟩
        · exact .inl hin
      · rintro (hin | ⟨rfl, _⟩)
        · exact .inr hin
        · exact .inl rfl
    · exact ⟨.inl, fun h => h.resolve_right fun hr => htimed hr.2.2⟩

theorem mem_jobs_foldl_loadPipeline (es : List (Σ _ : String, SavedPipeline)) (name : String) :
    name ∈ (es.foldl loadPipeline c).schedulerJobs ↔
      name ∈ c.schedulerJobs ∨ ∃ e ∈ es, e.1 = name ∧ c.schedulesAtBoot name e.2 = true ∧
        e.2.config.scheduleType.timed = true := by
  induction es generalizing c with
  | nil => simp
  | cons e es ih =>
    have hsame : ∀ p, (c.loadPipeline e).schedulesAtBoot name p = c.schedulesAtBoot name p := by
      intro p
      have hdesired : (c.loadPipeline e).desired.lookup name = c.desired.lookup name := by
        have hfacts := congrArg Facts.desired (facts_loadPipeline c e name)
        split_ifs at hfacts <;> exact hfacts
      simp only [schedulesAtBoot, hdesired]
    rw [foldl_cons, ih, mem_jobs_loadPipeline, or_assoc]
    simp only [hsame, mem_cons, or_and_right, exists_or, exists_eq_left]

theorem mem_jobs_boot (evidence : String → Evidence) (now : Nat) (name : String) :
    name ∈ (c.crash.boot evidence now).schedulerJobs ↔
      ∃ p, c.saved.lookup name = some p ∧ c.schedulesAtBoot name p = true ∧
        p.config.scheduleType.timed = true := by
  obtain ⟨hsaved, hdesired, hjobs, -⟩ :=
    foldl_resolveAttemptAtBoot_rows c.crash.resetOrphanDispatchingQueuedRuns evidence now
      c.crash.resetOrphanDispatchingQueuedRuns.nonTerminalAttempts
  have hsame : ∀ p, (c.crash.resetOrphanDispatchingQueuedRuns.nonTerminalAttempts.foldl
      (resolveAttemptAtBoot evidence now) c.crash.resetOrphanDispatchingQueuedRuns).schedulesAtBoot
        name p = c.schedulesAtBoot name p := by
    intro p
    unfold schedulesAtBoot
    rw [hdesired]
    rfl
  unfold boot
  rw [mem_jobs_foldl_loadPipeline, hjobs]
  simp only [hsame, hsaved]
  constructor
  · rintro (hin | ⟨⟨n, p⟩, he, rfl, hgo⟩)
    · exact absurd hin (Finset.notMem_empty name)
    · exact ⟨p, mem_entries.mp he, hgo⟩
  · rintro ⟨p, hp, hgo⟩
    exact .inr ⟨⟨name, p⟩, mem_entries.mpr hp, rfl, hgo⟩

theorem facts_foldl_loadPipeline {es : List (Σ _ : String, SavedPipeline)} (hkeys : es.NodupKeys)
    (name : String) :
    (es.foldl loadPipeline c).facts name = { c.facts name with
      config := ((es.dlookup name).filter (!·.deleted)).map (·.config) <|> (c.facts name).config } := by
  induction es generalizing c with
  | nil => rfl
  | cons e es ih =>
    obtain ⟨hnew, hrest⟩ := nodupKeys_cons.mp hkeys
    rw [foldl_cons, ih _ hrest, facts_loadPipeline]
    by_cases hname : name = e.1
    · subst hname
      rw [dlookup_eq_none.mpr hnew, dlookup_cons_eq]
      cases hd : e.2.deleted <;> simp [hd, Option.filter_some]
    · rw [dlookup_cons_ne es e hname]
      simp [hname]

variable {c} in
theorem Agrees.boot {name : String} {intent : Bool} (h : Agrees (c.facts name) intent) (hdown : c.up = false)
    (evidence : String → Evidence) (now : Nat) : Agrees ((c.boot evidence now).facts name) intent := by
  obtain ⟨hsaved, hdesired, -, hpipelines⟩ :=
    foldl_resolveAttemptAtBoot_rows c.resetOrphanDispatchingQueuedRuns evidence now
      c.resetOrphanDispatchingQueuedRuns.nonTerminalAttempts
  have hnone : (c.facts name).config = none := by
    rw [h.config, show (c.facts name).up = false from hdown]
    rfl
  unfold Controller.boot
  set c₂ := c.resetOrphanDispatchingQueuedRuns.nonTerminalAttempts.foldl (resolveAttemptAtBoot evidence now)
    c.resetOrphanDispatchingQueuedRuns
  have hrow : c₂.saved.entries.dlookup name = (c.facts name).saved := by rw [hsaved]; rfl
  have hknown : (c₂.facts name).saved = (c.facts name).saved := hrow
  have hstate : (c₂.facts name).desired = (c.facts name).desired := by simp only [facts, hdesired]; rfl
  have hempty : (c₂.facts name).config = none := by
    simp only [facts, hpipelines]
    exact hnone
  change Agrees { (c₂.saved.entries.foldl loadPipeline c₂).facts name with up := true } intent
  rw [facts_foldl_loadPipeline c₂ c₂.saved.nodupKeys name]
  simp only [hrow, hknown, hstate, hempty]
  exact ⟨h.rows, h.unsaved, by simp⟩

/-! ## The run -/

theorem intention_of_ne {c : Controller} {name : String} {intent : Bool} {op : Op}
    (h : op.lifecycle ≠ some name) : c.intention name intent (.op op) = intent := by
  cases op <;> simp_all [intention, Op.lifecycle]

theorem intention_of_down {c : Controller} {name : String} {intent : Bool} {op : Op} (h : c.up = false) :
    c.intention name intent (.op op) = intent := by
  cases op <;> simp [intention, h]

theorem Agrees.handle {c : Controller} {name : String} {intent : Bool} (h : Agrees (c.facts name) intent)
    (event : Event) (hplain : c.Plain name event = true) :
    Agrees ((c.handle event).facts name) (c.intention name intent event) := by
  cases event with
  | streamStatus n status =>
    unfold Controller.handle
    dsimp only
    split_ifs
    · rwa [facts_setStatus]
    · exact h
  | op op =>
    change Agrees ((c.step op).facts name) (c.intention name intent (.op op))
    cases hup : c.up with
    | false =>
      rw [intention_of_down hup]
      simp only [step, hup, Bool.false_eq_true, if_false]
      split
      · exact h.boot hup _ _
      · exact h
    | true =>
      simp only [step, hup, if_true]
      by_cases hop : op.lifecycle = some name
      · cases op with
        | register _ config => cases hop; exact h.register hup config hplain
        | update _ config now => cases hop; exact h.update config now
        | delete _ now => cases hop; exact h.delete now
        | startPipeline => cases hop; exact h.start hup hplain
        | stopPipeline _ now => cases hop; exact h.stop hup now
        | restartPipeline _ now => cases hop; exact h.restart hup now hplain
        | _ => cases hop
      · rw [intention_of_ne hop]
        cases hl : op.lifecycle with
        | some n =>
          rw [facts_stepUp_of_ne c hl fun heq => hop (by rw [hl, heq])]
          exact h
        | none =>
          rcases Rests.stepUp c hl with hrests | hrests <;> rw [hrests]
          · exact h
          · exact ⟨h.rows, h.unsaved, rfl⟩

/-- The controller, and what the operations on one name meant last. -/
structure Course where
  controller : Controller
  intention : Bool

namespace Course

def init (settings : Settings) : Course := ⟨.init settings, false⟩

def step (name : String) (h : Course) (event : Event) : Course :=
  ⟨h.controller.handle event, h.controller.intention name h.intention event⟩

end Course

theorem agrees_init (settings : Settings) (name : String) :
    Agrees ((init settings).facts name) false where
  rows := nofun
  unsaved _ := rfl
  config := rfl

theorem agrees_exec (settings : Settings) (name : String) {events : List Event}
    (hplain : Run.AllSteps (Course.step name) (fun h event => h.controller.Plain name event = true)
      (Course.init settings) events) :
    let h := Run.exec (Course.step name) (Course.init settings) events
    Agrees (h.controller.facts name) h.intention :=
  Run.AllSteps.invariant (I := fun h : Course => Agrees (h.controller.facts name) h.intention)
    (fun _ event h hp => h.handle event hp) (agrees_init settings name) hplain

/-- After any operations, runs and restarts in which the name is not registered again after a
deletion and, while its desired state is stopped, not restarted and not started during a run: the
boot of the next process schedules the pipeline, if it is registered, exactly if its configuration is
enabled and the last of its operations that meant something meant it to run. -/
theorem boot_follows_intention (settings : Settings) (name : String) (events : List Event)
    (evidence : String → Evidence) (now : Nat)
    (hplain : Run.AllSteps (Course.step name) (fun h event => h.controller.Plain name event = true)
      (Course.init settings) events) :
    let h := Run.exec (Course.step name) (Course.init settings) events
    ∀ p, h.controller.saved.lookup name = some p → p.deleted = false →
      (h.controller.schedulesAtBoot name p = true ↔ p.config.enabled = true ∧ h.intention = true) ∧
      (p.config.scheduleType.timed = true →
        (name ∈ (h.controller.crash.boot evidence now).schedulerJobs ↔
          p.config.enabled = true ∧ h.intention = true)) := by
  intro h p hp hdeleted
  obtain ⟨d, hd, hd', hstopped, hflag⟩ := (agrees_exec settings name hplain).rows p hp hdeleted
  change h.controller.desired.lookup name = some d at hd
  have hboot : h.controller.schedulesAtBoot name p = true ↔
      p.config.enabled = true ∧ h.intention = true := by
    rw [schedulesAtBoot_iff, hd, Option.any_some, hd', hstopped]
    constructor
    · rintro ⟨-, -, hrun, henabled⟩
      exact ⟨henabled, by simpa using hrun⟩
    · rintro ⟨henabled, hrun⟩
      have hclear : p.stopped = false := by
        cases hset : p.stopped with
        | false => rfl
        | true => cases hrun.symm.trans (hflag hset)
      exact ⟨hdeleted, hclear, by rw [hrun]; rfl, henabled⟩
  refine ⟨hboot, fun htimed => ?_⟩
  rw [mem_jobs_boot]
  constructor
  · rintro ⟨p', hp', hgo, -⟩
    cases hp.symm.trans hp'
    exact hboot.mp hgo
  · intro hgo
    exact ⟨p, hp, hboot.mpr hgo, htimed⟩

def hourly (yamlText : String) : PipelineConfig := ⟨.interval, true, yamlText⟩

def defaults : Settings := ⟨true, 3600, 0, 0⟩

/-- Stopped, run by hand, started again once the run has ended, and updated during a scheduled run: it
is scheduled after the restart. -/
def startedAgain : List Event :=
  [.op (.register "p" (hourly "1")), .op (.stopPipeline "p" 1), .op (.triggerRun "p" "r1" false true 2),
    .op (.startSubmitted "r1" ⟨2, "t", none, none⟩), .op (.dispatchEnds "r1" (.accepted "w" "w") 3),
    .op (.onWorkerRunComplete ⟨"", 0, "r1", "p", "success"⟩ 4), .op (.startPipeline "p"),
    .op (.fire "p" "r2" ⟨5, "t", none, none⟩), .op (.update "p" (hourly "2") 6)]

theorem boot_follows_intention_started :
    let h := Run.exec (Course.step "p") (Course.init defaults) startedAgain
    h.controller.saved.lookup "p" = some ⟨hourly "2", false, false⟩ ∧ h.intention = true ∧
      ("p" ∈ (h.controller.crash.boot (fun _ => .noReply) 7).schedulerJobs ↔
        (hourly "2").enabled = true ∧ h.intention = true) :=
  ⟨by decide +kernel, by decide +kernel,
    (boot_follows_intention defaults "p" startedAgain (fun _ => .noReply) 7 (by decide +kernel)
      ⟨hourly "2", false, false⟩ (by decide +kernel) rfl).2 rfl⟩

/-- An update with an enabled configuration does not bring a stopped pipeline back. -/
theorem update_keeps_stop :
    let events := [Event.op (.register "p" (hourly "1")), .op (.stopPipeline "p" 1),
      .op (.update "p" (hourly "2") 2)]
    let h := Run.exec (Course.step "p") (Course.init defaults) events
    h.controller.saved.lookup "p" = some ⟨hourly "2", true, false⟩ ∧ (hourly "2").enabled = true ∧
      "p" ∉ (h.controller.crash.boot (fun _ => .noReply) 3).schedulerJobs := by
  decide +kernel

end Controller
end Tram
