import Tram.Lib.Dict

/-! # Placements of streams on workers

A placement is a group of slots, each a run of one stream pipeline on one worker. The manager
keeps the placements in memory and writes each through to its row in `broadcast_placements`.
Everything here happens under the lifecycle lock, in one step. -/

namespace Tram.Placement

/-- Microseconds since the epoch. -/
abbrev Time := Int

inductive SlotStatus where
  | running | stale
  deriving DecidableEq, Repr

inductive Status where
  | running | degraded | reconciling | error | stopped
  deriving DecidableEq, Repr

/-- How many workers a placement wants. -/
inductive TargetCount where
  | all
  | count (n : Nat)
  deriving DecidableEq, Repr

structure Slot where
  workerIndex : Nat
  workerUrl : Option String
  workerId : String
  pinnedWorkerId : Option String
  runIdPrefix : String
  currentRunId : Option String
  dispatchedAt : Option Time
  status : SlotStatus
  restartCount : Nat
  deriving DecidableEq, Repr

structure BroadcastPlacement where
  placementGroupId : String
  pipelineName : String
  slots : List Slot
  targetCount : TargetCount
  startedAt : Time
  status : Status
  deriving DecidableEq, Repr

/-- A row of `broadcast_placements`; `stopped` says whether `stopped_at` is set. -/
structure Row where
  pipelineName : String
  slots : List Slot
  targetCount : TargetCount
  startedAt : Time
  status : Status
  stopped : Bool
  deriving DecidableEq, Repr

/-- A registered pipeline; `mayRun` is `_may_schedule`. -/
structure Pipeline where
  yamlText : String
  status : Status
  mayRun : Bool
  deriving DecidableEq, Repr

/-- What the controller keeps of stream pipelines. -/
structure Manager where
  pipelines : Dict String Pipeline
  broadcastPlacements : Dict String BroadcastPlacement
  activePlacementGroup : Dict String String
  streamRunIds : Dict String (List String)
  /-- `none`: there is no database. -/
  db : Option (Dict String Row)

/-- `str(slot.get("current_run_id", ""))`, which is "None" where there is none. -/
def Slot.recordedRunId (s : Slot) : String := s.currentRunId.getD "None"

/-- `_run_restart_count`: the number after the last "-r", if the id ends in it. -/
def runRestartCount (runId : String) : Nat :=
  let digits := runId.toList.reverse.takeWhile Char.isDigit
  match runId.toList.reverse.dropWhile Char.isDigit with
  | 'r' :: '-' :: _ => Nat.ofDigitChars 10 digits.reverse 0
  | _ => 0

def restartRunId (runIdPrefix : String) (n : Nat) : String := runIdPrefix ++ "-r" ++ toString n

/-- The run id prefix of a slot of a placement with `targetSlots` slots. -/
def slotRunId (placementGroupId : String) (targetSlots index : Nat) : String :=
  if targetSlots = 1 then placementGroupId else placementGroupId ++ "-w" ++ toString index

/-! ## The database -/

def modifySlot (index : Nat) (f : Slot → Slot) : List Slot → List Slot
  | [] => []
  | s :: slots => if s.workerIndex = index then f s :: slots else s :: modifySlot index f slots

def findSlot (slots : List Slot) (index : Nat) : Option Slot :=
  slots.find? fun s => s.workerIndex = index

/-- `update_broadcast_placement_status`, with the slots. -/
def Row.update (slots : List Slot) (status : Status) (row : Row) : Row :=
  { row with slots := slots, status := status, stopped := status = .stopped }

/-- The guards of `update_slot_run_id`: the row is active, and the slot holds the expected run id.
The last one is the WHERE clause, in which a run id that is NULL equals nothing. -/
def Row.accepts (row : Row) (index : Nat) (expectedRunId : String) : Bool :=
  !row.stopped && row.status ≠ .stopped &&
    (findSlot row.slots index).any (fun s => s.recordedRunId = expectedRunId) &&
    row.slots.any (fun s => s.workerIndex = index ∧ s.currentRunId = some expectedRunId)

def Slot.setRunId (currentRunId : String) (restartCount : Nat) (s : Slot) : Slot :=
  { s with currentRunId := some currentRunId, status := .running, restartCount := restartCount }

/-- `update_slot_run_id`: the number of rows updated, and the table. -/
def updateSlotRunId (rows : Dict String Row) (placementGroupId : String) (index : Nat)
    (currentRunId : String) (restartCount : Nat) (expectedRunId : String) :
    Nat × Dict String Row :=
  match rows.lookup placementGroupId with
  | none => (0, rows)
  | some row =>
    if row.accepts index expectedRunId then
      (1, rows.insert placementGroupId
        { row with slots := modifySlot index (Slot.setRunId currentRunId restartCount) row.slots })
    else (0, rows)

variable (m : Manager)

namespace Manager

/-- The write of a placement's slots and status to its row, if there is a database. -/
def persist (placementGroupId : String) (slots : List Slot) (status : Status) :
    Manager :=
  { m with db := m.db.map fun rows => Dict.modify rows placementGroupId (Row.update slots status) }

def setPlacement (placementGroupId : String) (p : BroadcastPlacement) : Manager :=
  { m with broadcastPlacements := m.broadcastPlacements.insert placementGroupId p }

/-- `manager.set_status`, for a pipeline that exists. -/
def setStatus (pipelineName : String) (status : Status) : Manager :=
  { m with pipelines := Dict.modify m.pipelines pipelineName fun p => { p with status := status } }

def syncStreamRunIdsFromSlots (pipelineName : String) (slots : List Slot) : Manager :=
  match slots.filterMap (·.currentRunId) with
  | [] => { m with streamRunIds := m.streamRunIds.erase pipelineName }
  | runIds => { m with streamRunIds := m.streamRunIds.insert pipelineName runIds }

def updateBroadcastPlacementStatus (placementGroupId : String) (status : Status) :
    Manager :=
  match m.broadcastPlacements.lookup placementGroupId with
  | none => m
  | some p =>
    ((m.setPlacement placementGroupId { p with status := status }).setStatus
      p.pipelineName status).persist placementGroupId p.slots status

/-- The end of an operation that changed the slots of a placement. -/
def commitSlots (placementGroupId : String) (p : BroadcastPlacement)
    (slots : List Slot) : Manager :=
  ((m.setPlacement placementGroupId { p with slots := slots }).syncStreamRunIdsFromSlots
    p.pipelineName slots).persist placementGroupId slots p.status

/-- What `update_placement_slot` writes; an absent argument leaves its field. -/
structure SlotUpdate where
  currentRunId : Option String := none
  workerUrl : Option String := none
  workerId : Option String := none
  status : Option SlotStatus := none

def SlotUpdate.apply (u : SlotUpdate) (s : Slot) : Slot :=
  { s with
    currentRunId := u.currentRunId <|> s.currentRunId
    workerUrl := u.workerUrl <|> s.workerUrl
    workerId := u.workerId.getD s.workerId
    status := u.status.getD s.status }

/-- `update_placement_slot`: whether the update was applied. -/
def updatePlacementSlot (placementGroupId : String) (index : Nat) (u : SlotUpdate) :
    Bool × Manager :=
  match m.broadcastPlacements.lookup placementGroupId with
  | none => (false, m)
  | some p =>
    match findSlot p.slots index with
    | none => (false, m)
    | some _ => (true, m.commitSlots placementGroupId p (modifySlot index u.apply p.slots))

end Manager

/-- One worker's answer to the dispatch of a slot, as `multi_dispatch` records it: the worker
chosen for it, its id, the id it is pinned to, and whether it took the run. -/
structure SlotDispatch where
  workerUrl : Option String
  workerId : String
  pinnedWorkerId : Option String
  accepted : Bool

/-- The slots of `multi_dispatch`, as `_record_broadcast_placement` stores them. -/
def dispatchSlots (placementGroupId : String) (now : Time) (dispatches : List SlotDispatch) :
    List Slot :=
  dispatches.zipIdx.map fun (d, index) =>
    let runId := slotRunId placementGroupId dispatches.length index
    let accepted := d.workerUrl.isSome && d.accepted
    { workerIndex := index
      workerUrl := d.workerUrl
      workerId := d.workerId
      pinnedWorkerId := d.pinnedWorkerId
      runIdPrefix := runId
      currentRunId := if accepted then some runId else none
      dispatchedAt := some now
      status := if accepted then .running else .stale
      restartCount := 0 }

namespace Manager

def recordBroadcastPlacement (p : BroadcastPlacement) : Manager :=
  let m := (m.setPlacement p.placementGroupId p).syncStreamRunIdsFromSlots p.pipelineName p.slots
  { m with
    activePlacementGroup := m.activePlacementGroup.insert p.pipelineName p.placementGroupId
    db := m.db.map fun rows =>
      let deactivate (group : String) (row : Row) : Row :=
        if row.pipelineName = p.pipelineName ∧ row.stopped = false ∧ row.status ≠ .stopped ∧
            group ≠ p.placementGroupId then
          { row with status := .stopped, stopped := true }
        else row
      (Dict.mapVal rows deactivate).insert p.placementGroupId
        ⟨p.pipelineName, p.slots, p.targetCount, p.startedAt, p.status, false⟩ }

def restoredSlots (now : Time) (slots : List Slot) : List Slot :=
  slots.map fun s => { s with dispatchedAt := s.dispatchedAt <|> some now }

/-- `_restore_broadcast_placement`, on a manager that starts again. -/
def restoreBroadcastPlacement (p : BroadcastPlacement) (now : Time) : Manager :=
  let slots := restoredSlots now p.slots
  let m := m.setPlacement p.placementGroupId { p with slots := slots, status := .reconciling }
  let m := { m with
    activePlacementGroup := m.activePlacementGroup.insert p.pipelineName p.placementGroupId }
  (m.syncStreamRunIdsFromSlots p.pipelineName slots).persist p.placementGroupId slots .reconciling

/-- A manager that starts again, with what it has in the database: a placement is restored from
its row. -/
def restart (placementGroupId : String) (now : Time) : Manager :=
  let fresh := { m with broadcastPlacements := ∅, activePlacementGroup := ∅, streamRunIds := ∅ }
  match m.db.bind (·.lookup placementGroupId) with
  | none => fresh
  | some row =>
    if row.stopped ∨ row.status = .stopped then fresh
    else
      fresh.restoreBroadcastPlacement
        ⟨placementGroupId, row.pipelineName, row.slots, row.targetCount, row.startedAt, row.status⟩
        now

end Manager

end Tram.Placement
