import Mathlib.Algebra.Order.Ring.Rat
import Tram.Placement.Redispatch

/-! # A pass of the placement reconciler

`PlacementReconciler.run_once` walks over copies of the placements. For each slot it finds out
whether its run is alive, by what the workers report and by the age of its last stats, and writes
what it finds back through the controller. A slot whose run is gone is redispatched, to another
worker if its own is down.

What the reconciler sees when it comes to a slot is an argument: other threads change the health
and the load of the workers while it walks. -/

namespace Tram.Placement

structure LiveItem where
  workerUrl : String
  workerId : Option String
  pipelineName : Option String
  runId : Option String
  configSha256 : Option String
  deriving DecidableEq, Repr

/-- What the reconciler sees when it comes to a slot: the pool, the load of its workers, the time of
the last stats of each run, the clock, and whether a dispatch to a worker succeeds. -/
structure Look where
  pool : Pool
  loadScore : String → ℚ
  stats : Dict String Time
  clock : Time
  dispatched : Bool

/-- What a pass is about to see, by placement and slot. `swap` is what the redispatches of a config
drift see, `configSha` the hash of a configuration. -/
structure Pass where
  now : Time
  statsInterval : Nat
  liveStreams : List LiveItem
  configSha : String → String
  look : String → Nat → Look
  swap : String → Nat → Look

def truthy (text : Option String) : Option String := text.filter (· ≠ "")

def seconds (n : Nat) : Time := 1000000 * n

def liveWorkerKey (item : LiveItem) : Option String :=
  truthy item.workerId <|> truthy (some item.workerUrl)

def liveByRunId (liveStreams : List LiveItem) : Dict String LiveItem :=
  liveStreams.foldl
    (fun d item => match truthy item.runId with
      | none => d
      | some runId => d.insert runId item)
    ∅

def liveByPipelineWorker (liveStreams : List LiveItem) : Dict (String × String) LiveItem :=
  liveStreams.foldl
    (fun d item => match truthy item.pipelineName, liveWorkerKey item with
      | some pipelineName, some workerKey => d.insert (pipelineName, workerKey) item
      | _, _ => d)
    ∅

namespace Pass

def findLiveSlot (pass : Pass) (p : BroadcastPlacement) (s : Slot) : Option LiveItem :=
  (truthy s.currentRunId).bind (liveByRunId pass.liveStreams).lookup <|>
    (truthy (some s.workerId) <|> truthy s.workerUrl).bind fun workerKey =>
      (liveByPipelineWorker pass.liveStreams).lookup (p.pipelineName, workerKey)

/-- Whether a live run has another configuration than the manager; `yamlText` is the pipeline's, if
it is registered. A hash that is missing or unknown is no drift. -/
def drifts (pass : Pass) (yamlText : Option String) (item : LiveItem) : Bool :=
  match truthy item.configSha256 with
  | none => false
  | some liveSha =>
    let expected := (yamlText.map pass.configSha).getD ""
    liveSha ≠ "unknown" && expected ≠ "" && liveSha ≠ expected

def slotDispatchTime (p : BroadcastPlacement) (s : Slot) : Time := s.dispatchedAt.getD p.startedAt

def awaitingFirstStats (pass : Pass) (p : BroadcastPlacement) (s : Slot) (stats : Option Time) :
    Bool :=
  stats.isNone && pass.now - slotDispatchTime p s < seconds (pass.statsInterval + 5)

/-- `is_stale` of the stats store -/
def isStale (pass : Pass) (clock timestamp : Time) : Bool :=
  clock - timestamp > seconds (pass.statsInterval * 3)

end Pass

/-- `_select_replacement_worker`; `others` are the copies of the other slots. -/
def selectReplacementWorker (look : Look) (target : TargetCount) (others : List Slot) (s : Slot) :
    Option String :=
  match truthy s.pinnedWorkerId with
  | some pinned =>
    (look.pool.workerIds.lookup pinned).filter fun url => url ≠ "" && look.pool.isWorkerHealthy url
  | none =>
    match (truthy s.workerUrl).filter look.pool.isWorkerHealthy with
    | some url => some url
    | none =>
      match target with
      | .all => none
      | .count _ =>
        let excluded := others.filterMap fun other => truthy other.workerUrl
        let candidates := look.pool.healthyWorkers.filter fun url => url ∉ excluded
        (candidates.mergeSort fun a b => look.loadScore a ≤ look.loadScore b).head?

/-! ## One slot -/

inductive Verdict where
  | drifted
  | live (item : LiveItem)
  | starting
  | stale (replacement : Option String)
  | alive
  deriving DecidableEq, Repr

namespace Pass

/-- The last stats of a slot's run. A run id that is missing is looked up as "None". -/
def slotStats (look : Look) (s : Slot) : Option Time :=
  if s.recordedRunId = "" then none else look.stats.lookup s.recordedRunId

def verdict (pass : Pass) (yamlText : Option String) (group : String) (p : BroadcastPlacement)
    (others : List Slot) (s : Slot) : Verdict :=
  match pass.findLiveSlot p s with
  | some item => if pass.drifts yamlText item then .drifted else .live item
  | none =>
    let look := pass.look group s.workerIndex
    let stats := slotStats look s
    if pass.awaitingFirstStats p s stats then .starting
    else if stats.all (pass.isStale look.clock) then
      .stale (selectReplacementWorker look p.targetCount others s)
    else .alive

end Pass

/-- `updates` of a live slot -/
def LiveItem.updates (item : LiveItem) (s : Slot) : Manager.SlotUpdate where
  currentRunId := (truthy item.runId).filter fun runId => s.currentRunId ≠ some runId
  workerUrl := (truthy (some item.workerUrl)).filter fun url => s.workerUrl ≠ some url
  workerId := (truthy item.workerId).filter fun workerId => s.workerId ≠ workerId
  status := if s.status = .running then none else some .running

def Manager.SlotUpdate.isEmpty (u : Manager.SlotUpdate) : Bool :=
  u.currentRunId.isNone && u.workerUrl.isNone && u.workerId.isNone && u.status.isNone

namespace Manager

def yamlOf (m : Manager) (name : String) : Option String := (m.pipelines.lookup name).map (·.yamlText)

/-- Write the update back and into the copy, if the controller takes it. -/
def writeBack (m : Manager) (group : String) (u : SlotUpdate) (s : Slot) : Manager × Slot :=
  if u.isEmpty then (m, s)
  else
    let updated := m.updatePlacementSlot group s.workerIndex u
    (updated.2, if updated.1 then u.apply s else s)

/-- Mark the slot, unless the copy has the status. -/
def mark (m : Manager) (group : String) (status : SlotStatus) (s : Slot) : Manager × Slot :=
  if s.status = status then (m, s)
  else m.writeBack group { status := some status } s

/-- A stale slot: it is marked and, with a worker to go to, redispatched. Its copy gets the new
status, not the new worker. -/
def replaceStale (m : Manager) (look : Look) (group : String) (replacement : Option String)
    (s : Slot) : Manager × Slot :=
  let (m, s) := m.mark group .stale s
  match truthy replacement with
  | none => (m, s)
  | some url =>
    let sent := redispatchBroadcastSlot m look.pool group s.workerIndex (some url) look.dispatched
      look.clock
    (sent.2, if sent.1 then { s with status := .running } else s)

/-- Redispatch the slots with the given numbers, each to its own worker. -/
def redispatchAll (m : Manager) (swap : Nat → Look) (group : String) (indices : List Nat) : Manager :=
  indices.foldl
    (fun m index =>
      (redispatchBroadcastSlot m (swap index).pool group index none (swap index).dispatched
        (swap index).clock).2)
    m

/-- `reconcile_placement_config_drift`, as far as the manager goes. -/
def reconcileConfigDrift (m : Manager) (swap : Nat → Look) (group : String) : Manager :=
  match m.broadcastPlacements.lookup group with
  | none => m
  | some p =>
    match m.pipelines.lookup p.pipelineName with
    | none => m
    | some state =>
      if state.mayRun then
        let slots := p.slots.map fun s => { s with status := .stale }
        ((m.setPlacement group { p with slots := slots }).persist group slots p.status).redispatchAll
          swap group (slots.map (·.workerIndex))
      else m

end Manager

/-- The state of the loop over the slots of one placement: the manager, the copies, and whether the
loop was left because of a drift. -/
structure Walk where
  manager : Manager
  copies : List Slot
  drifted : Bool

namespace Pass

/-- What the pass does with one slot that has not drifted: the manager and the slot's copy. -/
def act (pass : Pass) (m : Manager) (group : String) (s : Slot) : Verdict → Manager × Slot
  | .drifted => (m, s)
  | .live item => m.writeBack group (item.updates s) s
  | .starting => (m, s)
  | .stale replacement => m.replaceStale (pass.look group s.workerIndex) group replacement s
  | .alive => m.mark group .running s

/-- The loop over the slots: `done` are the copies the loop has passed. -/
def walk (pass : Pass) (group : String) (p : BroadcastPlacement) (m : Manager) (done : List Slot) :
    List Slot → Walk
  | [] => ⟨m, done, false⟩
  | s :: rest =>
    match pass.verdict (m.yamlOf p.pipelineName) group p (done ++ rest) s with
    | .drifted => ⟨m.reconcileConfigDrift (pass.swap group) group, done ++ s :: rest, true⟩
    | v =>
      let acted := pass.act m group s v
      pass.walk group p acted.1 (done ++ [acted.2]) rest

def nextStatus (pass : Pass) (p : BroadcastPlacement) (copies : List Slot) : Status :=
  let runs (s : Slot) : Bool := s.status = .running && (truthy s.currentRunId).isSome
  let resolved := if copies.all runs then Status.running else .degraded
  let next :=
    if p.status = .reconciling then
      if pass.now - p.startedAt > seconds (pass.statsInterval * 2) then resolved else p.status
    else resolved
  match p.targetCount with
  | .all => next
  | .count n => if copies.countP runs < n then .degraded else next

def reconcile (pass : Pass) (m : Manager) (group : String) (p : BroadcastPlacement) : Manager :=
  let walked := pass.walk group p m [] p.slots
  if walked.drifted then walked.manager
  else
    let next := pass.nextStatus p walked.copies
    if next = p.status then walked.manager
    else walked.manager.updateBroadcastPlacementStatus group next

/-- `run_once`, over copies of the placements it finds when it starts. -/
def runOnce (pass : Pass) (m : Manager) : Manager :=
  m.broadcastPlacements.entries.foldl (fun m e => pass.reconcile m e.1 e.2) m

end Pass

end Tram.Placement
