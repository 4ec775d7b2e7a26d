import Tram.Executor.Sink
import Tram.Lib.Run

/-! # Batch runs

The chunks of a source, processed one after the other or by a pool of threads, the barrier at the
end of each source unit, and the outcome of the run. What a source yields and what sinks and
source answer is part of the input; the threads are an interleaving of events, in which the
processing of one chunk is one event. -/

namespace Tram.Executor

variable {ρ : Type}

structure BatchJob (ρ : Type) extends Pipeline ρ where
  batchSize : Option Nat
  threadWorkers : Nat
  retryCount : Nat

/-! ## One chunk -/

/-- What the input serializer makes of a chunk. -/
inductive Content (ρ : Type) where
  | parsed (records : List ρ) (answers : Answers)
  | unparsed (text : String)
  /-- `parse_chunks`: the batches it yields, and what it raises after them. -/
  | batches (parts : List (List ρ × Answers)) (ending : Option Fault)

/-- A chunk, whether the DLQ takes its bytes should it be offered them, and whether a thread of
another chunk has recorded a loss when the handler asks. -/
structure Work (ρ : Type) where
  raw : List UInt8
  content : Content ρ
  taken : Bool
  lossElsewhere : Bool

variable (p : Pipeline ρ) (job : BatchJob ρ)

namespace BatchJob

/-- `batch_size and ctx.records_in >= batch_size` -/
def limitReached (s : State ρ) : Bool :=
  match job.batchSize with
  | none => false
  | some n => n ≠ 0 && n ≤ s.recordsIn

/-- The records of a batch that still fit, or `none` if there is no room at all. -/
def room (s : State ρ) (records : List ρ) : Option (List ρ) :=
  match job.batchSize with
  | none => some records
  | some n => if n ≤ s.recordsIn then none else some (records.take (n - s.recordsIn))

end BatchJob

/-- A chunk that cannot be parsed goes to the DLQ as it is. -/
def parseFailed {α : Type} (key : Option UnitKey) (raw : List UInt8) (text : String)
    (taken : Bool) : Exec ρ α := do
  lose p ⟨key, true⟩ none (.parse raw) [] 1 taken
    s!"DLQ delivery failed for unparseable chunk: {text}"
  .raise (.tram .parse s!"Parse error: {text}")

/-- The loop of `_process_chunk_incrementally`, which does not look at what `_process_records`
returns. -/
def processBatches (job : BatchJob ρ) (key : Option UnitKey) (ending : Option Fault) :
    List (List ρ × Answers) → Exec ρ Unit
  | [] =>
    match ending with
    | none => pure ()
    | some fault => .raise (fault.failure .serializer)
  | (records, answers) :: parts => do
    let s ← .get
    match job.room s records with
    | none => pure ()
    | some [] => processBatches job key ending parts
    | some (r :: rs) => do
      let _ ← processRecords job.toPipeline ⟨⟨key, true⟩, answers⟩ job.transforms true (r :: rs)
      let t ← .get
      if job.limitReached t then pure () else processBatches job key ending parts

/-- `_process_chunk_incrementally` without its handler. An exception that is no `TramError`,
whoever raised it, is taken for one of the parser. -/
def processIncrementally (key : Option UnitKey) (raw : List UInt8) (taken : Bool)
    (parts : List (List ρ × Answers)) (ending : Option Fault) : Exec ρ Bool := fun s =>
  match processBatches job key ending parts s with
  | (.ok (), t) => (.ok true, t)
  | (.error (.other text), t) => parseFailed job.toPipeline key raw text taken t
  | (.error f, t) => (.error f, t)

/-- The body of `_process_chunk` or, with `record_chunk_size`, of
`_process_chunk_incrementally`. -/
def chunkBody (key : Option UnitKey) (raw : List UInt8) (taken : Bool) :
    Content ρ → Exec ρ Bool
  | .parsed records answers =>
    processRecords job.toPipeline ⟨⟨key, true⟩, answers⟩ job.transforms true records
  | .unparsed text => parseFailed job.toPipeline key raw text taken
  | .batches parts ending => processIncrementally job key raw taken parts ending

def refusalOf (taken : Bool) : Failure → Refusal
  | .tram .parse _ => .unparsed (p.dlqSink && taken)
  | f => .failed f

def processChunk (key : Option UnitKey) (work : Work ρ) : Exec ρ Bool :=
  handling job.toPipeline true work.lossElsewhere (refusalOf job.toPipeline work.taken)
    (chunkBody job key work.raw work.taken work.content)

/-- The answers at a barrier: the failure of the sinks to commit, whether the manager has the
checkpoint of a delivered unit, and what the source raises when it is told. -/
structure Barrier where
  commit : Option String
  checkpointed : Bool
  finalized : Option Fault

/-- `_commit_sinks_receipts`: False only under "continue". -/
def commitSinks : Option String → Exec ρ Bool
  | none => pure true
  | some text => if p.onError = .continues then pure false else .raise (.tram .commit text)

def ackSourceUnit (info : Meta) (disposition : AckDisposition) : Exec ρ Unit :=
  .modify fun s => { s with acks := s.acks ++ [(info, disposition)] }

/-- The checkpoint gate and the acknowledgement. A delivered unit whose checkpoint is not
confirmed stays pending. -/
def decideUnit (info : Meta) (checkpointed : Bool) : Option AckDisposition → Exec ρ Unit
  | none => pure ()
  | some .delivered =>
    if checkpointed then ackSourceUnit info .delivered
    else .modify (·.onDelivery (·.recordCheckpointPending))
  | some disposition => ackSourceUnit info disposition

/-- `source.finalize(meta, success)`, which may raise. -/
def finalizeSource (info : Meta) (success : Bool) (fault : Option Fault) : Exec ρ Unit := do
  .modify (·.finalize info success)
  match fault with
  | none => pure ()
  | some fault => .raise (fault.failure .source)

/-- `_finalize_batch_source_unit`; `unit` is the outcome to use when the accounting no longer has
the unit, and `whole` is False when the read stopped inside it. -/
def finalizeBatchSourceUnit (key : UnitKey) (info : Meta)
    (unit : Option UnitOutcome) (whole : Bool) (b : Barrier) : Exec ρ Unit := do
  let committed ← commitSinks p b.commit
  let s ← .get
  .modify (·.onDelivery (·.dropUnit key))
  decideUnit info b.checkpointed
    (if committed && whole then
      (s.delivery.units.lookup key <|> unit).bind (·.disposition p.onError)
    else none)
  if whole then finalizeSource info committed b.finalized else pure ()

/-! ## One chunk after the other -/

/-- What the source yields next: a chunk, whether a stop is requested by then, and the answers at
the barriers before and after it. -/
structure Item (ρ : Type) where
  info : Meta
  stop : Bool
  work : Work ρ
  before : Barrier
  after : Barrier

/-- The current unit is still in the accounting, so there is no other outcome to fall back to. -/
def finishUnit (current : Option Meta) (whole : Bool) (b : Barrier) :
    Exec ρ Unit :=
  match current with
  | none => pure ()
  | some info =>
    match info.unit with
    | none => pure ()
    | some key => finalizeBatchSourceUnit p key info none whole b

def registerUnit (key : UnitKey) (info : Meta) : Exec ρ Unit :=
  .modify (·.onDelivery (·.registerUnit key info))

/-- The unit the next chunk belongs to; a chunk of another unit ends the current one. -/
def enterUnit (current : Option Meta) (info : Meta) (b : Barrier) :
    Exec ρ (Option Meta) :=
  match info.unit with
  | none => pure current
  | some key =>
    if current.bind (·.unit) = some key then pure (some info)
    else do
      finishUnit p current true b
      registerUnit key info
      pure (some info)

/-- A broker record is a unit of its own. -/
def leaveUnit (current : Option Meta) (info : Meta) (b : Barrier) :
    Exec ρ (Option Meta) :=
  if info.broker ∧ info.unit.isSome then do
    finishUnit p (some info) true b
    pure none
  else pure current

/-- The `except` of the sequential loop: the unit it is in has failed. No source raises when it is
told so. -/
def State.abandon (s : State ρ) (current : Option Meta) : State ρ :=
  match current with
  | none => s
  | some info => s.finalize info false

def abandoning {α : Type} (current : Option Meta) : Exec ρ α → Exec ρ α :=
  .onRaise (·.abandon current)

/-- `_run_batch_chunks_sequential`; `fault` is what the source raises after its last chunk. -/
def runBatchChunksSequential (job : BatchJob ρ) (fault : Option Fault) (last : Barrier) :
    Option Meta → List (Item ρ) → Exec ρ Unit
  | current, [] =>
    match fault with
    | none => finishUnit job.toPipeline current true last
    | some fault => abandoning current (.raise (fault.failure .source))
  | current, item :: items =>
    if item.stop then finishUnit job.toPipeline current true last
    else do
      let entered ← abandoning current (enterUnit job.toPipeline current item.info item.before)
      let left ← abandoning entered do
        let _ ← processChunk job item.info.unit item.work
        leaveUnit job.toPipeline entered item.info item.after
      let s ← .get
      if job.limitReached s then finishUnit job.toPipeline left false last
      else runBatchChunksSequential job fault last left items

end Tram.Executor
