import Mathlib.Data.Finset.Card
import Tram.Interfaces
import Tram.Lib.Dict

/-! # The Kafka source's frontier tables

`KafkaSource` keeps, for every partition it owns, the ownership epoch, the completed frontier,
the out-of-order completions, the tombstones not yet bridged, the lowest offset read, the queue
of observed offsets, and the frontier waiting to be committed. This module is the bookkeeping of
`connectors/kafka/source.py`: the rebalance callbacks, the intake of a polled message, `ack`, the
frontier sweep and the two halves of a commit drain. Each function is the body of one
`with self._lock` block. -/

namespace Tram.Kafka

structure TopicPartition where
  topic : String
  partition : Nat
deriving DecidableEq, Repr

structure Message where
  key : TopicPartition
  offset : Int
  value : Option (List UInt8)
deriving DecidableEq, Repr

/-- The coordinates `read` puts into the meta of a yielded message. -/
structure Meta where
  kafkaTopic : Option String
  kafkaPartition : Option Nat
  kafkaOffset : Option Int
  kafkaEpoch : Option Nat
deriving DecidableEq, Repr

structure Config where
  enableAutoCommit : Bool
  ackManaged : Bool
deriving DecidableEq, Repr

/-- The tables guarded by `_lock`. `consumer` is the identity of the active consumer object. -/
structure Source where
  assignmentEpoch : Nat := 0
  partitionEpochs : Dict TopicPartition Nat := ∅
  assigned : List TopicPartition := []
  completed : Dict TopicPartition Int := ∅
  completedOoo : Dict TopicPartition (Finset Int) := ∅
  tombstoneOffsets : Dict TopicPartition (Finset Int) := ∅
  readMin : Dict TopicPartition Int := ∅
  observedOffsets : Dict TopicPartition (List Int) := ∅
  pendingCommits : Dict TopicPartition Int := ∅
  consumer : Option Nat := none

namespace Source

/-- `_partition_epochs.get(key, _assignment_epoch)`. -/
def epochOf (s : Source) (key : TopicPartition) : Nat :=
  (s.partitionEpochs.lookup key).getD s.assignmentEpoch

/-- `_completed.get(key, -1)`. -/
def frontierOf (s : Source) (key : TopicPartition) : Int := (s.completed.lookup key).getD (-1)

/-- `_pending_commits[key] = max(_pending_commits.get(key, -1), frontier)`. -/
def notePending (pending : Dict TopicPartition Int) (key : TopicPartition) (frontier : Int) :
    Dict TopicPartition Int :=
  pending.insert key (max ((pending.lookup key).getD (-1)) frontier)

/-- A new consumer session: everything but the epoch counter and the consumer is dropped. -/
def resetSessionState (s : Source) : Source :=
  { assignmentEpoch := s.assignmentEpoch + 1, consumer := s.consumer }

def forgetPartition (s : Source) (key : TopicPartition) : Source :=
  { s with
    partitionEpochs := s.partitionEpochs.erase key
    completed := s.completed.erase key
    completedOoo := s.completedOoo.erase key
    tombstoneOffsets := s.tombstoneOffsets.erase key
    readMin := s.readMin.erase key
    observedOffsets := s.observedOffsets.erase key
    pendingCommits := s.pendingCommits.erase key }

def bumpEpoch (s : Source) : Source := { s with assignmentEpoch := s.assignmentEpoch + 1 }

def onPartitionsRevoked (s : Source) (partitions : List TopicPartition) : Source :=
  let revoked := partitions.dedup
  let s := revoked.foldl forgetPartition s.bumpEpoch
  { s with assigned := s.assigned.filter (· ∉ revoked) }

/-- `_partition_epochs.setdefault(key, _assignment_epoch)`. -/
def ownPartition (s : Source) (key : TopicPartition) : Source :=
  { s with partitionEpochs := Dict.setdefault s.partitionEpochs key s.assignmentEpoch }

/-- The block `_on_partitions_assigned` and `_sync_assignment` share. -/
def takeAssignment (s : Source) (current : List TopicPartition) : Source :=
  let lost := s.assigned.filter (· ∉ current)
  let s := lost.foldl forgetPartition s.bumpEpoch
  let s := current.foldl ownPartition s
  { s with assigned := current }

def onPartitionsAssigned (s : Source) (partitions : List TopicPartition) : Source :=
  s.takeAssignment partitions.dedup

/-- `_sync_assignment`: nothing happens when the consumer's assignment is the recorded set. -/
def syncAssignment (s : Source) (assignment : List TopicPartition) : Source :=
  let current := assignment.dedup
  if current ⊆ s.assigned ∧ s.assigned ⊆ current then s else s.takeAssignment current

/-! ## The frontier sweep -/

/-- The locals of `_advance_decided_frontier` while its loop runs. -/
structure Sweep where
  frontier : Int
  ooo : Finset Int
  tombstones : Finset Int
  advanced : Bool

namespace Sweep

def decided (w : Sweep) (offset : Int) : Prop := offset ∈ w.ooo ∨ offset ∈ w.tombstones

instance (w : Sweep) (offset : Int) : Decidable (w.decided offset) :=
  inferInstanceAs (Decidable (_ ∨ _))

/-- One pass of the loop body that moves the frontier to `next`. -/
def take (w : Sweep) (next : Int) : Sweep :=
  { frontier := next, ooo := w.ooo.erase next, tombstones := w.tombstones.erase next,
    advanced := true }

/-- The loop with poll coverage: the head of the observed queue is the barrier. -/
def overObserved (w : Sweep) : List Int → Sweep × List Int
  | [] => (w, [])
  | next :: rest => if w.decided next then (w.take next).overObserved rest else (w, next :: rest)

/-- The loop without coverage: the next number is the barrier. Every pass discards a decided
offset, so the number of those bounds the passes. -/
def overNumbers (w : Sweep) : Nat → Sweep
  | 0 => w
  | fuel + 1 =>
    if w.decided (w.frontier + 1) then (w.take (w.frontier + 1)).overNumbers fuel else w

def run (w : Sweep) : Option (List Int) → Sweep × Option (List Int)
  | some observed => ((w.overObserved observed).1, some (w.overObserved observed).2)
  | none => (w.overNumbers (w.ooo.card + w.tombstones.card), none)

end Sweep

/-- `d[key] = v`, or `d.pop(key, None)` for a set that became empty. -/
def storeSet (d : Dict TopicPartition (Finset Int)) (key : TopicPartition) (v : Finset Int) :
    Dict TopicPartition (Finset Int) :=
  if v = ∅ then d.erase key else d.insert key v

/-- The tail of `_advance_decided_frontier`: the loop's locals go back into the tables. -/
def storeSweep (s : Source) (key : TopicPartition) (w : Sweep) (observed : Option (List Int)) :
    Source :=
  let s := { s with
    completedOoo := storeSet s.completedOoo key w.ooo
    tombstoneOffsets := storeSet s.tombstoneOffsets key w.tombstones
    observedOffsets := match observed with
      | some q => s.observedOffsets.insert key q
      | none => s.observedOffsets }
  if w.advanced then
    { s with
      completed := s.completed.insert key w.frontier
      pendingCommits := notePending s.pendingCommits key w.frontier }
  else s

/-- `_advance_decided_frontier`; `none` is the `KeyError` of a partition that was never read. -/
def advanceDecidedFrontier (s : Source) (key : TopicPartition) : Option Source :=
  match s.readMin.lookup key with
  | none => none
  | some readMin =>
    let start : Sweep :=
      { frontier := max (s.frontierOf key) (readMin - 1)
        ooo := (s.completedOoo.lookup key).getD ∅
        tombstones := (s.tombstoneOffsets.lookup key).getD ∅
        advanced := false }
    let swept := start.run (s.observedOffsets.lookup key)
    some (s.storeSweep key swept.1 swept.2)

/-! ## Intake, completion and commit -/

/-- The intake of one polled message: the read floor, and the observed queue. -/
def observe (s : Source) (m : Message) : Source :=
  let observed := (s.observedOffsets.lookup m.key).getD []
  let floor := observed.getLast?.getD (s.frontierOf m.key)
  { s with
    readMin := Dict.setdefault s.readMin m.key m.offset
    observedOffsets := s.observedOffsets.insert m.key
      (if m.offset > floor then observed ++ [m.offset] else observed) }

/-- A tombstone of the batch: recorded unless covered, and swept by managed readers. -/
def recordTombstone (cfg : Config) (s : Source) (m : Message) : Option Source :=
  if m.offset > s.frontierOf m.key then
    let s := { s with
      tombstoneOffsets := s.tombstoneOffsets.insert m.key
        (insert m.offset ((s.tombstoneOffsets.lookup m.key).getD ∅)) }
    if cfg.ackManaged ∧ ¬cfg.enableAutoCommit then s.advanceDecidedFrontier m.key else some s
  else some s

/-- The partition and offset an `ack` is about, unless one of its guards ignores the call:
auto-commit, missing coordinates, a stale epoch, or no active consumer. -/
def accepts (cfg : Config) (s : Source) (m : Meta) : Option (TopicPartition × Int) :=
  if cfg.enableAutoCommit then none else
  match m.kafkaTopic, m.kafkaPartition, m.kafkaOffset with
  | some topic, some partition, some offset =>
    if m.kafkaEpoch ≠ some (s.epochOf ⟨topic, partition⟩) then none
    else if s.consumer.isNone then none
    else some (⟨topic, partition⟩, offset)
  | _, _, _ => none

/-- The rest of `ack`, for an accepted completion. -/
def complete (s : Source) (key : TopicPartition) (offset : Int) : Source :=
  match s.readMin.lookup key with
  | none =>
    -- no read coverage: the first completion establishes the frontier
    if offset ≤ s.frontierOf key then s else
    { s with
      completed := s.completed.insert key offset
      pendingCommits := notePending s.pendingCommits key offset }
  | some readMin =>
    if offset ≤ max (s.frontierOf key) (readMin - 1) then s else
    let ooo := (s.completedOoo.lookup key).getD ∅
    if offset ∈ ooo then s else
    let s' := { s with completedOoo := s.completedOoo.insert key (insert offset ooo) }
    (s'.advanceDecidedFrontier key).getD s'

def ack (cfg : Config) (s : Source) (m : Meta) (_disposition : AckDisposition) : Source :=
  match s.accepts cfg m with
  | some (key, offset) => s.complete key offset
  | none => s

/-- First half of `_drain_pending_commits`: take the pending set, with the epochs it holds
under. -/
def capturePending (s : Source) : Source × Dict TopicPartition Int × (TopicPartition → Nat) :=
  ({ s with pendingCommits := ∅ }, s.pendingCommits, s.epochOf)

/-- After a failed commit: keep the captured frontiers for the next drain, unless the consumer
or the partition's epoch has changed. -/
def restorePending (s : Source) (consumer : Nat) (pending : Dict TopicPartition Int)
    (epochs : TopicPartition → Nat) : Source :=
  if s.consumer = some consumer then
    { s with
      pendingCommits := pending.entries.foldl (fun acc kf =>
        if epochs kf.1 = s.epochOf kf.1 then notePending acc kf.1 kf.2 else acc)
        s.pendingCommits }
  else s

/-- The legacy `_commit_batch` after its commit succeeded: committed offsets leave the queue. -/
def dropObserved (s : Source) (batchTps : List (TopicPartition × Int)) : Source :=
  { s with
    observedOffsets := batchTps.foldl (fun acc kf =>
      match acc.lookup kf.1 with
      | some observed => acc.insert kf.1 (observed.dropWhile (· ≤ kf.2))
      | none => acc) s.observedOffsets }

end Source

end Tram.Kafka
