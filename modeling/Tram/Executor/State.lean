import Tram.Interfaces
import Tram.Lib.Procedure
import Tram.Lib.Dict

/-! # What the executor keeps while a pipeline runs

A record is of any type: the executor only hands records on. Everything it asks of the outside
during one call of `_process_records` (transforms, conditions, serializers, sinks, the dead
letter queue, the clock, the other threads) is answered by an `Answers`, one answer for each
place of the call where the question can be asked. -/

namespace Tram.Executor

/-- `on_error`; `continues` is the source's "continue". -/
inductive OnError where
  | abort | continues | dlq | retry
  deriving DecidableEq, Repr

/-- Where a `TramError` comes from; the source tells them apart by how the text starts. -/
inductive Origin where
  | condition | transform | serializer | sinkWrite | parse | commit | source
  deriving DecidableEq, Repr

/-- An exception: a `TramError`, its subclass `_DLQDeliveryError`, or any other. -/
inductive Failure where
  | tram (origin : Origin) (text : String)
  | dlqDelivery (text : String)
  | other (text : String)
  deriving DecidableEq, Repr

/-- An exception of a plugin, which may or may not be a `TramError`. -/
structure Fault where
  isTram : Bool
  text : String
  deriving DecidableEq, Repr

def Fault.failure (f : Fault) (origin : Origin) : Failure :=
  if f.isTram then .tram origin f.text else .other f.text

/-! ## Delivery accounting -/

/-- `_source_unit_key(meta)`. -/
abbrev UnitKey := String × String

/-- What the executor reads off the meta of a chunk. -/
structure Meta where
  unit : Option UnitKey
  /-- `_stream_batch_broker` -/
  broker : Bool
  /-- `_broker_partition_frontier`: the partition and the offset in it. -/
  frontier : Option (String × Nat)
  batchEnd : Bool
  deriving DecidableEq, Repr

/-- The arguments of one `record_loss`. -/
structure Loss where
  recordsFailed : Nat
  dlqSucceeded : Nat
  dlqFailed : Nat
  deriving DecidableEq, Repr

/-- `_UnitOutcome`; `filtered` is left out, since nothing reads it. -/
structure UnitOutcome where
  info : Meta
  recordsIn : Nat
  delivered : Nat
  recordsFailed : Nat
  dlqSucceeded : Nat
  dlqFailed : Nat
  deriving DecidableEq, Repr

namespace UnitOutcome

def new (info : Meta) : UnitOutcome := ⟨info, 0, 0, 0, 0, 0⟩

def lose (u : UnitOutcome) (l : Loss) : UnitOutcome :=
  { u with
    recordsFailed := u.recordsFailed + l.recordsFailed
    dlqSucceeded := u.dlqSucceeded + l.dlqSucceeded
    dlqFailed := u.dlqFailed + l.dlqFailed }

def deliver (u : UnitOutcome) (recordsIn delivered : Nat) : UnitOutcome :=
  { u with recordsIn := u.recordsIn + recordsIn, delivered := u.delivered + delivered }

/-- `none`: undecided, the unit is never acknowledged. -/
def disposition (u : UnitOutcome) (onError : OnError) : Option AckDisposition :=
  if 0 < u.dlqFailed then none
  else if 0 < u.dlqSucceeded then some .dlq
  else if 0 < u.recordsFailed then if onError = .continues then some .dropped else none
  else if 0 < u.delivered then some .delivered
  else if 0 < u.recordsIn then some .filtered
  else none

theorem disposition_eq_filtered {u : UnitOutcome} {onError : OnError} :
    u.disposition onError = some .filtered ↔
      u.dlqFailed = 0 ∧ u.dlqSucceeded = 0 ∧ u.recordsFailed = 0 ∧ u.delivered = 0 ∧
        0 < u.recordsIn := by
  unfold disposition
  split_ifs <;> simp_all <;> omega

end UnitOutcome

/-- `_RunDeliveryAccounting`. -/
structure Delivery where
  units : Dict UnitKey UnitOutcome
  recordsFailed : Nat
  dlqSucceeded : Nat
  dlqFailed : Nat
  checkpointPending : Nat
  /-- The lowest undecided offset of each partition. -/
  brokerGaps : Dict String Nat
  deriving DecidableEq

namespace Delivery

def new : Delivery := ⟨∅, 0, 0, 0, 0, ∅⟩

/-- `register_unit`: a unit that is registered already keeps its outcome. -/
def registerUnit (d : Delivery) (key : UnitKey) (info : Meta) : Delivery :=
  { d with units := Dict.setdefault d.units key (.new info) }

/-- Change the outcome of a unit, when it is keyed and registered. -/
def onUnit (d : Delivery) (key : Option UnitKey) (f : UnitOutcome → UnitOutcome) : Delivery :=
  match key with
  | some k => { d with units := Dict.modify d.units k f }
  | none => d

def recordChunk (d : Delivery) (key : Option UnitKey) (recordsIn delivered : Nat) : Delivery :=
  d.onUnit key (·.deliver recordsIn delivered)

def recordLoss (d : Delivery) (key : Option UnitKey) (l : Loss) : Delivery :=
  let d := d.onUnit key (·.lose l)
  { d with
    recordsFailed := d.recordsFailed + l.recordsFailed
    dlqSucceeded := d.dlqSucceeded + l.dlqSucceeded
    dlqFailed := d.dlqFailed + l.dlqFailed }

def dropUnit (d : Delivery) (key : UnitKey) : Delivery := { d with units := d.units.erase key }

def recordCheckpointPending (d : Delivery) : Delivery :=
  { d with checkpointPending := d.checkpointPending + 1 }

def hasPendingCheckpoints (d : Delivery) : Bool := 0 < d.checkpointPending

def hasLoss (d : Delivery) : Bool := 0 < d.recordsFailed || 0 < d.dlqFailed

section Fields

variable (d : Delivery) (key : Option UnitKey) (l : Loss) (m n : Nat)

@[simp] theorem recordChunk_recordsFailed :
    (d.recordChunk key m n).recordsFailed = d.recordsFailed := by cases key <;> rfl

@[simp] theorem recordChunk_dlqFailed : (d.recordChunk key m n).dlqFailed = d.dlqFailed := by
  cases key <;> rfl

@[simp] theorem recordLoss_recordsFailed :
    (d.recordLoss key l).recordsFailed = d.recordsFailed + l.recordsFailed := by cases key <;> rfl

@[simp] theorem recordLoss_dlqFailed :
    (d.recordLoss key l).dlqFailed = d.dlqFailed + l.dlqFailed := by cases key <;> rfl

end Fields

end Delivery

/-! ## The pipeline -/

section

variable (ρ : Type)

/-- `t.apply(records)`. A transform may keep a state of its own, so its answer depends on the
moment at which it is applied. -/
abbrev Transform := Nat → List ρ → Except String (List ρ)

/-- A sink's condition; `shown` is its `repr`. The evaluator knows functions such as `rand`, so
its answer too depends on the moment. -/
structure Condition where
  shown : String
  eval : Nat → ρ → Except String Bool

/-- A configured sink, with the field paths of its filename template (none without one). -/
structure Sink where
  sinkType : String
  condition : Option (Condition ρ)
  transforms : List (Transform ρ)
  fieldPaths : List String
  retryCount : Int
  cbThreshold : Int
  cbWindow : Nat

/-- The configuration of a pipeline. A policy "dlq" without a DLQ sink does not validate. -/
structure Pipeline where
  name : String
  onError : OnError
  dlqSink : Bool
  parallelSinks : Bool
  transforms : List (Transform ρ)
  sinks : List (Sink ρ)
  /-- `_lookup_record_field` -/
  lookupField : ρ → String → String
  dlqSink_of_dlq : onError = .dlq → dlqSink = true

end

/-- What the outside answers during one call of `_process_records`. Sinks are numbered as
configured, partitions within a sink, attempts within a partition. -/
structure Answers where
  /-- The moment the global transforms are given the nth record. -/
  transformAt : Nat → Nat
  /-- Whether the DLQ takes the envelope of the nth record. -/
  transformDlq : Nat → Bool
  /-- The moment a sink's condition is evaluated on the nth record. -/
  conditionAt : Nat → Nat → Nat
  sinkTransformAt : Nat → Nat
  sinkTransformDlq : Nat → Bool
  /-- What a thread of another chunk left of a sink's breaker just before it is read. -/
  raced : Nat → Option (Nat × Nat)
  checkedAt : Nat → Nat
  serialize : Nat → Nat → Option Fault
  /-- `none` is a write that succeeds. -/
  write : Nat → Nat → Nat → Option String
  trippedAt : Nat → Nat → Nat
  partitionDlq : Nat → Nat → Bool
  /-- Whether a thread of another chunk has recorded a loss when this call asks. -/
  lossElsewhere : Bool

def Answers.quiet : Answers where
  transformAt _ := 0
  transformDlq _ := true
  conditionAt _ _ := 0
  sinkTransformAt _ := 0
  sinkTransformDlq _ := true
  raced _ := none
  checkedAt _ := 0
  serialize _ _ := none
  write _ _ _ := none
  trippedAt _ _ := 0
  partitionDlq _ _ := true
  lossElsewhere := false

/-- Where losses are recorded: the unit they are accounted to, and whether there is an accounting
at all (`delivery is not None`). -/
structure Account where
  key : Option UnitKey
  tracked : Bool

structure Call extends Account where
  answers : Answers

/-- The stage an envelope comes from; only that of a chunk that cannot be parsed has its bytes. -/
inductive Stage where
  | parse (raw : List UInt8)
  | transform | sink
  deriving DecidableEq, Repr

def Stage.raw : Stage → Option (List UInt8)
  | .parse raw => some raw
  | _ => none

/-- What a run leaves outside, and the sinks it left out. `sink` is the sink an envelope's
records were meant for. -/
inductive Effect (ρ : Type) where
  | wrote (sink : Nat) (records : List ρ)
  | enveloped (sink : Option Nat) (stage : Stage) (records : List ρ)
  | skipped (sink : Nat) (records : List ρ)
  deriving DecidableEq, Repr

/-- A chunk processing call that returned False. -/
inductive Refusal where
  | unparsed (enveloped : Bool)
  | failed (failure : Failure)
  deriving DecidableEq, Repr

/-- The state of one run: the accounting, `_cb_state` (failures and the time the breaker stays
open until), `ctx.records_in`, the effects in order, the calls that returned False, the units
acknowledged to the source and the calls `source.finalize(meta, success)`. -/
structure State (ρ : Type) where
  delivery : Delivery
  breakers : Dict String (Nat × Nat)
  recordsIn : Nat
  effects : List (Effect ρ)
  refused : List Refusal
  acks : List (Meta × AckDisposition)
  finalized : List (Meta × Bool)
  deriving DecidableEq

abbrev Exec (ρ α : Type) := Procedure (State ρ) Failure α

variable {ρ : Type}

def State.new : State ρ := ⟨.new, ∅, 0, [], [], [], []⟩

def State.emit (s : State ρ) (e : Effect ρ) : State ρ := { s with effects := s.effects ++ [e] }

def State.onDelivery (s : State ρ) (f : Delivery → Delivery) : State ρ :=
  { s with delivery := f s.delivery }

def State.setBreaker (s : State ρ) (key : String) (e : Nat × Nat) : State ρ :=
  { s with breakers := s.breakers.insert key e }

def State.refuse (s : State ρ) (r : Refusal) : State ρ := { s with refused := s.refused ++ [r] }

def State.finalize (s : State ρ) (info : Meta) (success : Bool) : State ρ :=
  { s with finalized := s.finalized ++ [(info, success)] }

end Tram.Executor
