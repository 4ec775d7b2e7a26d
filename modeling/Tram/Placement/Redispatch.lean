import Tram.Placement.State

/-! # Redispatching a slot, and stopping a stream

`redispatch_broadcast_slot` holds the lifecycle lock twice, to claim and to commit, and talks to
the worker in between with the lock released. `_stop_stream` holds it throughout. The worker pool
is the manager's view of its workers; what runs on them is kept apart, by worker and run id. -/

namespace Tram.Placement

/-- What the pool knows of a worker's health. -/
structure Health where
  ok : Bool
  activeRuns : Nat
  deriving DecidableEq, Repr

structure Pool where
  workers : List String
  health : Dict String Health
  /-- `{run_id: worker_url}` -/
  assignments : Dict String String
  /-- `{worker_id: worker_url}` -/
  workerIds : Dict String String
  urlToWorkerId : Dict String String

/-- The runs on the workers: the pipeline of each, by worker and run id. -/
abbrev Runs := Dict (String × String) String

variable (m : Manager) (pool : Pool)

namespace Pool

def isWorkerHealthy (workerUrl : String) : Bool :=
  ((pool.health.lookup workerUrl).map (·.ok)).getD false

def healthyWorkers : List String :=
  (pool.health.entries.filter fun e => e.2.ok).map (·.1)

def assign (runId workerUrl : String) : Pool :=
  { pool with
    assignments := pool.assignments.insert runId workerUrl
    health := Dict.modify pool.health workerUrl fun h => { h with activeRuns := h.activeRuns + 1 } }

end Pool

/-! ## Redispatch -/

/-- The locals of a redispatch after its claim. -/
structure Claim where
  placementGroupId : String
  workerIndex : Nat
  restartCount : Nat
  newRunId : String
  pinnedWorkerId : Option String
  workerUrl : String
  pipelineName : String
  yamlText : String
  deriving DecidableEq, Repr

/-- The claim of `redispatch_broadcast_slot`; `none` is a return of False. -/
def claimRedispatch (placementGroupId : String) (index : Nat)
    (replacementWorkerUrl : Option String) : Option Claim := do
  let p ← m.broadcastPlacements.lookup placementGroupId
  let slot ← findSlot p.slots index
  let state ← m.pipelines.lookup p.pipelineName
  let workerUrl ← replacementWorkerUrl
    <|> slot.pinnedWorkerId.bind pool.workerIds.lookup
    <|> slot.workerUrl
  if workerUrl = "" then none
  else
    some
      { placementGroupId
        workerIndex := index
        restartCount := slot.restartCount + 1
        newRunId := restartRunId slot.runIdPrefix (slot.restartCount + 1)
        pinnedWorkerId := slot.pinnedWorkerId
        workerUrl
        pipelineName := p.pipelineName
        yamlText := state.yamlText }

theorem claimRedispatch_eq_some {m : Manager} {pool : Pool} {group : String} {index : Nat}
    {url : Option String} {c : Claim} (h : claimRedispatch m pool group index url = some c) :
    ∃ p slot state, m.broadcastPlacements.lookup group = some p ∧
      findSlot p.slots index = some slot ∧ m.pipelines.lookup p.pipelineName = some state ∧
      (url <|> slot.pinnedWorkerId.bind pool.workerIds.lookup <|> slot.workerUrl) =
        some c.workerUrl ∧
      c = ⟨group, index, slot.restartCount + 1, restartRunId slot.runIdPrefix (slot.restartCount + 1),
        slot.pinnedWorkerId, c.workerUrl, p.pipelineName, state.yamlText⟩ := by
  simp only [claimRedispatch, Option.bind_eq_bind, Option.bind_eq_some_iff] at h
  obtain ⟨p, hp, slot, hslot, state, hstate, workerUrl, hurl, h⟩ := h
  split_ifs at h
  cases h
  exact ⟨p, slot, state, hp, hslot, hstate, hurl, rfl⟩

def Claim.write (c : Claim) (pool : Pool) (now : Time) (s : Slot) : Slot :=
  { s with
    currentRunId := some c.newRunId
    workerUrl := some c.workerUrl
    workerId := (c.pinnedWorkerId <|> pool.urlToWorkerId.lookup c.workerUrl).getD ""
    dispatchedAt := some now
    status := .running
    restartCount := c.restartCount }

/-- The commit of `redispatch_broadcast_slot`. -/
def commitRedispatch (c : Claim) (now : Time) : Bool × Manager :=
  match m.broadcastPlacements.lookup c.placementGroupId with
  | none => (false, m)
  | some p =>
    match findSlot p.slots c.workerIndex with
    | none => (false, m)
    | some _ =>
      (true, m.commitSlots c.placementGroupId p (modifySlot c.workerIndex (c.write pool now) p.slots))

theorem commitRedispatch_snd (c : Claim) (now : Time) :
    (commitRedispatch m pool c now).2 = m ∨
      ∃ p, m.broadcastPlacements.lookup c.placementGroupId = some p ∧
        (commitRedispatch m pool c now).2 =
          m.commitSlots c.placementGroupId p (modifySlot c.workerIndex (c.write pool now) p.slots) := by
  unfold commitRedispatch
  cases hp : m.broadcastPlacements.lookup c.placementGroupId with
  | none => exact .inl rfl
  | some p =>
    cases hslot : findSlot p.slots c.workerIndex with
    | none => exact .inl (by simp [hslot])
    | some slot => exact .inr ⟨p, rfl, by simp [hslot]⟩

/-- `redispatch_broadcast_slot` when nothing comes in between; `dispatched` is the answer of
`dispatch_to_worker`. -/
def redispatchBroadcastSlot (placementGroupId : String) (index : Nat)
    (replacementWorkerUrl : Option String) (dispatched : Bool) (now : Time) : Bool × Manager :=
  match claimRedispatch m pool placementGroupId index replacementWorkerUrl with
  | none => (false, m)
  | some c => if dispatched then commitRedispatch m pool c now else (false, m)

/-- `/agent/stop` for a run, on a worker that can be reached. -/
def stopRunOnWorker (reached : String → Bool) (workerUrl runId : String) (runs : Runs) : Runs :=
  if reached workerUrl then runs.erase (workerUrl, runId) else runs

def stopRun (reached : String → Bool) (runs : Runs) (runId : String) : Runs :=
  match pool.assignments.lookup runId with
  | none => runs
  | some workerUrl => stopRunOnWorker reached workerUrl runId runs

/-- `stop_pipeline_runs`: each known worker is asked for its runs, and those of the pipeline are
stopped. -/
def stopPipelineRuns (reached : String → Bool) (pipelineName : String) (runs : Runs) :
    Runs :=
  pool.workers.foldl
    (fun runs workerUrl =>
      if reached workerUrl then
        Dict.retain runs fun run name => ¬ (run.1 = workerUrl ∧ name = pipelineName)
      else runs)
    runs

/-- `_stop_stream`, in manager mode. -/
def stopStream (reached : String → Bool) (name : String)
    (runs : Runs) : Manager × Runs :=
  let runs := ((m.streamRunIds.lookup name).getD []).foldl (stopRun pool reached) runs
  let m := { m with streamRunIds := m.streamRunIds.erase name }
  match m.activePlacementGroup.lookup name with
  | none => (m, runs)
  | some group =>
    let m := { m with activePlacementGroup := m.activePlacementGroup.erase name }
    let stopped := { m with broadcastPlacements := m.broadcastPlacements.erase group }
    (match m.broadcastPlacements.lookup group with
      | none => m
      | some p => stopped.persist group p.slots .stopped,
      stopPipelineRuns pool reached name runs)

/-- What `delete` does to a stream: it is stopped and deregistered. -/
def deleteStream (reached : String → Bool) (name : String)
    (runs : Runs) : Manager × Runs :=
  let (m, runs) := stopStream m pool reached name runs
  ({ m with pipelines := m.pipelines.erase name }, runs)

end Tram.Placement
