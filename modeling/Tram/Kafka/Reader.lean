import Tram.Kafka.Source
import Tram.Lib.Run

/-! # The reader thread and its acknowledging workers

The reader thread polls, lets rebalance callbacks run inside the poll, reconciles the assignment,
drains pending commits, takes the batch in and then hands it over message by message. Worker threads
call `ack` with metas they were handed, in any order, any number of times, at any moment: also
between the capture of a drain, its `consumer.commit` and the handling of a failed commit, which are
separate steps here. The client library's part is in the guards. Rebalance callbacks run inside a
poll, so they need a batch that has been handed over and no commit in flight; and within one
ownership epoch a partition's offsets arrive in increasing order. -/

namespace Tram.Kafka

/-- What the outside of the source observes, newest first. -/
inductive Event
  | observed (key : TopicPartition) (epoch : Nat) (offset : Int) (payload : Bool)
  | acked (key : TopicPartition) (epoch : Nat) (offset : Int)
  /-- One `consumer.commit` call: each partition with its current ownership epoch and the
  frontier handed over. The group resumes at `frontier + 1`. -/
  | commit (offsets : List (TopicPartition × Option Nat × Int))
deriving DecidableEq

def Event.observedAt (key : TopicPartition) (epoch : Nat) : Event → Option Int
  | .observed k e o _ => if k = key ∧ e = epoch then some o else none
  | _ => none

/-- Where `_drain_pending_commits` stands between its two lock blocks. -/
inductive Drain
  | idle
  | captured (consumer : Nat) (pending : Dict TopicPartition Int) (epochs : TopicPartition → Nat)
  | failed (consumer : Nat) (pending : Dict TopicPartition Int) (epochs : TopicPartition → Nat)

def Drain.isIdle : Drain → Bool
  | .idle => true
  | _ => false

structure World where
  src : Source := {}
  /-- The polled messages not handed over yet, each with its batch epoch. -/
  todo : List (Message × Nat) := []
  batchTps : Dict TopicPartition Int := ∅
  batchEpoch : Nat := 0
  drain : Drain := .idle
  yielded : List Meta := []
  trace : List Event := []

inductive Op
  /-- A new consumer: `_reset_session_state()`, then `_consumer = consumer`. -/
  | resetSession (consumer : Nat)
  | revoked (partitions : List TopicPartition)
  | assigned (partitions : List TopicPartition)
  | sync (assignment : List TopicPartition)
  | poll (batch : List Message)
  /-- The generator is resumed for the next message of the batch. -/
  | resume
  /-- The generator is closed, or its consumer raised, in the middle of a batch. -/
  | abandon
  /-- The batch is handed over: the legacy commit of unmanaged readers. -/
  | endBatch (ok : Bool)
  | ack (m : Meta) (disposition : AckDisposition)
  | drain (consumer : Option Nat)
  | commit (ok : Bool)
  | restore
  /-- `close()` after its drain. -/
  | close

variable (cfg : Config) (w : World)

namespace World

/-- Nothing of the last batch is left and no commit is in flight: the reader may poll. -/
def mayPoll : Bool := w.todo.isEmpty && w.drain.isIdle

def rebalance (f : Source → Source) : World :=
  if w.mayPoll then { w with src := f w.src } else w

/-- What the client library may hand over next: a message of an assigned partition, beyond
everything that partition delivered in its ownership epoch. -/
def Deliverable (m : Message) : Prop :=
  m.key ∈ w.src.assigned ∧ 0 ≤ m.offset ∧
    ∀ ev ∈ w.trace, ∀ o ∈ ev.observedAt m.key (w.src.epochOf m.key), o < m.offset

instance (w : World) (m : Message) : Decidable (w.Deliverable m) :=
  inferInstanceAs (Decidable (_ ∧ _ ∧ _))

def intakeMessage (m : Message) : World :=
  if w.Deliverable m then
    { w with
      src := w.src.observe m
      batchTps := Source.notePending w.batchTps m.key m.offset
      todo := w.todo ++ [(m, w.src.epochOf m.key)]
      trace := .observed m.key (w.src.epochOf m.key) m.offset m.value.isSome :: w.trace }
  else w

def intake (batch : List Message) : World :=
  if w.mayPoll then
    batch.foldl intakeMessage { w with batchTps := ∅, batchEpoch := w.src.assignmentEpoch }
  else w

def metaOf (m : Message) (epoch : Nat) : Meta :=
  ⟨some m.key.topic, some m.key.partition, some m.offset, some epoch⟩

/-- The generator moves past the next message: a payload is yielded, a tombstone recorded. A
`KeyError` in the sweep would end the batch. -/
def resume : World :=
  match w.todo with
  | [] => w
  | (m, epoch) :: rest =>
    match m.value with
    | some _ => { w with todo := rest, yielded := metaOf m epoch :: w.yielded }
    | none =>
      match w.src.recordTombstone cfg m with
      | some src => { w with src := src, todo := rest }
      | none => { w with todo := [] }

/-- A worker may complete what `read` yielded; a meta without all coordinates is ignored. -/
def MayAck (m : Meta) : Prop :=
  (m.kafkaTopic = none ∨ m.kafkaPartition = none ∨ m.kafkaOffset = none ∨ m.kafkaEpoch = none) ∨
    m ∈ w.yielded

instance (w : World) (m : Meta) : Decidable (w.MayAck m) := inferInstanceAs (Decidable (_ ∨ _))

def ack (m : Meta) (disposition : AckDisposition) : World :=
  if w.MayAck m then
    { w with
      src := w.src.ack cfg m disposition
      trace := match w.src.accepts cfg m with
        | some (key, offset) => .acked key (w.src.epochOf key) offset :: w.trace
        | none => w.trace }
  else w

def commitCall (s : Source) (offsets : Dict TopicPartition Int) : Event :=
  .commit (offsets.entries.map fun kf => (kf.1, s.partitionEpochs.lookup kf.1, kf.2))

def beginDrain : Option Nat → World
  | none => w
  | some consumer =>
    if w.drain.isIdle ∧ w.src.pendingCommits.entries ≠ [] then
      let (src, pending, epochs) := w.src.capturePending
      { w with src := src, drain := .captured consumer pending epochs }
    else w

def commit (ok : Bool) : World :=
  match w.drain with
  | .captured consumer pending epochs =>
    { w with
      trace := commitCall w.src pending :: w.trace
      drain := if ok then .idle else .failed consumer pending epochs }
  | _ => w

def restore : World :=
  match w.drain with
  | .failed consumer pending epochs =>
    { w with src := w.src.restorePending consumer pending epochs, drain := .idle }
  | _ => w

/-- `_commit_batch`, reached by unmanaged readers without auto-commit only. -/
def endBatch (ok : Bool) : World :=
  if w.mayPoll ∧ ¬cfg.enableAutoCommit ∧ ¬cfg.ackManaged ∧ w.batchTps.entries ≠ [] ∧
      w.src.consumer.isSome ∧ w.batchEpoch = w.src.assignmentEpoch then
    { w with
      trace := commitCall w.src w.batchTps :: w.trace
      src := if ok then w.src.dropObserved (w.batchTps.entries.map fun kf => (kf.1, kf.2))
        else w.src }
  else w

end World

def step : Op → World
  | .resetSession consumer =>
    if w.drain.isIdle then
      { w with src := { w.src.resetSessionState with consumer := some consumer }, todo := [] }
    else w
  | .revoked partitions => w.rebalance (·.onPartitionsRevoked partitions)
  | .assigned partitions => w.rebalance (·.onPartitionsAssigned partitions)
  | .sync assignment => w.rebalance (·.syncAssignment assignment)
  | .poll batch => w.intake batch
  | .resume => w.resume cfg
  | .abandon => { w with todo := [] }
  | .endBatch ok => w.endBatch cfg ok
  | .ack m disposition => w.ack cfg m disposition
  | .drain consumer => w.beginDrain consumer
  | .commit ok => w.commit ok
  | .restore => w.restore
  | .close => if w.drain.isIdle then { w with src := { w.src with consumer := none } } else w

end Tram.Kafka
