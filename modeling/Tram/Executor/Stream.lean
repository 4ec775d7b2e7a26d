import Tram.Executor.Batch

/-! # Stream runs of a broker source

Records are parsed and transformed when they arrive and wait in a buffer; a flush writes the
whole buffer through the sink path of the batch executor and shares its outcome among the units
that contributed; a decision acknowledges the units that are through. A run is a sequence of such
steps in any order: the reader, the workers and the interval flusher run concurrently, and one
lock is held across each flush and each decision. -/

namespace Tram.Executor

variable {ρ : Type}

structure StreamJob (ρ : Type) extends Pipeline ρ where
  /-- `delivery.contract == "strict"` -/
  strict : Bool

/-- A flush as it concerned one unit: its survivors, the records they were flushed with, the
answers, the moments at which the conditions were evaluated again on the survivors, whether
`_process_records` swallowed an error, and how many of the records the cohort has as delivered. -/
structure Flushed (ρ : Type) where
  info : Meta
  survivors : List ρ
  records : List ρ
  answers : Answers
  recheck : Nat → Nat → Nat
  swallowed : Bool
  delivered : Nat

/-- The state of a stream run: `_StreamFlushBuffer` and what the run has besides. `taken` holds
the last outcome taken from the accounting for each key. The last four fields record what
happened: the units received, the survivors of each, the flushes they were in and the units
decided without an acknowledgement. -/
structure Stream (ρ : Type) where
  run : State ρ
  queue : List Meta
  records : List ρ
  buffered : Option Meta
  contributors : List (Meta × List ρ)
  completed : List Meta
  taken : Dict UnitKey UnitOutcome
  halted : Bool
  received : List Meta
  survived : List (Meta × List ρ)
  log : List (Flushed ρ)
  withheld : List Meta

def Stream.start (breakers : Dict String (Nat × Nat)) : Stream ρ :=
  ⟨{ State.new with breakers := breakers }, [], [], none, [], [], ∅, false, [], [], [], []⟩

def Meta.ofBroker (partition : String) (offset : Nat) : Meta :=
  ⟨some ("kafka", partition ++ "/" ++ toString offset), true, some (partition, offset), false⟩

variable (p : Pipeline ρ) (job : StreamJob ρ) (s : Stream ρ)

/-- The reader registers the unit of a broker record before any worker can see the record. Records
of other sources are not part of this machine. -/
def Stream.receive (info : Meta) : Stream ρ :=
  match info.broker, info.unit with
  | true, some key =>
    { s with
      run := s.run.onDelivery (·.registerUnit key info)
      queue := s.queue ++ [info]
      received := s.received ++ [info] }
  | _, _ => s

/-- `_StreamFlushBuffer.append`. The meta of the first records in the buffer is kept. -/
def Stream.append (info : Meta) (survivors : List ρ) : Stream ρ :=
  { s with
    contributors := if info.broker then s.contributors ++ [(info, survivors)] else s.contributors
    buffered := if survivors ≠ [] ∧ s.records = [] then some info else s.buffered
    records := s.records ++ survivors
    survived := s.survived ++ [(info, survivors)] }

/-- `record_chunk` on arrival: a broker record counts as one even if it parses to nothing. -/
def countArrival (info : Meta) (answers : Answers) (n : Nat) : Exec ρ Unit :=
  if info.broker then recordChunk ⟨⟨info.unit, true⟩, answers⟩ (max 1 n) 0 else pure ()

/-- The body of `_process_chunk` with a flush buffer: the records that survive the global
transforms. -/
def arrive (info : Meta) (raw : List UInt8) (taken : Bool) :
    Except String (List ρ × Answers) → Exec ρ (List ρ)
  | .error text => parseFailed p info.unit raw text taken
  | .ok (records, answers) => do
    countRecords true records.length
    countArrival info answers records.length
    applyGlobalTransforms p ⟨⟨info.unit, true⟩, answers⟩ p.transforms 0 records

/-- A worker processes the nth record that is waiting. After an error that is not raised again a
broker record contributes nothing to the next flush, but is still completed by it. -/
def Stream.process (n : Nat) (raw : List UInt8)
    (parsed : Except String (List ρ × Answers)) (taken lossElsewhere : Bool) : Stream ρ :=
  match s.queue[n]? with
  | none => s
  | some info =>
    let s := { s with queue := s.queue.eraseIdx n }
    match arrive p info raw taken parsed s.run with
    | (.ok survivors, t) => { s with run := t }.append info survivors
    | (.error f, t) =>
      if reraises p true lossElsewhere t.delivery f then { s with run := t }
      else if info.broker then
        { s with run := t.refuse (refusalOf p taken f) }.append info []
      else { s with run := t.refuse (refusalOf p taken f) }

/-! ## Flush -/

/-- `any(... for sink in sinks)`: whether some sink's condition lets one of the survivors
through. -/
def selected (moment : Nat → Nat → Nat) (survivors : List ρ) :
    Nat → List (Sink ρ) → Except Failure Bool
  | _, [] => .ok false
  | i, sink :: sinks =>
    match sink.select (moment i) survivors with
    | .error f => .error f
    | .ok [] => selected moment survivors (i + 1) sinks
    | .ok (_ :: _) => .ok true

def onUnit (key : Option UnitKey) (f : UnitOutcome → UnitOutcome) : Exec ρ Unit :=
  .modify (·.onDelivery (·.onUnit key f))

/-- If the flush delivered anything, all survivors of a unit of which a sink selects some count as
delivered. -/
def shareDelivery (moment : Nat → Nat → Nat) (delivered : Nat) (info : Meta)
    (survivors : List ρ) : Exec ρ Unit :=
  if delivered = 0 then pure ()
  else
    match selected moment survivors 0 p.sinks with
    | .error f => .raise f
    | .ok false => pure ()
    | .ok true => onUnit info.unit (·.deliver 0 survivors.length)

/-- The outcome of the flush, shared with one unit that had survivors in it. The losses belong to
every such unit. -/
def shareOutcome (moment : Nat → Nat → Nat) (cohort : Option UnitOutcome)
    (info : Meta) (survivors : List ρ) : Exec ρ Unit :=
  match cohort, survivors with
  | none, _ => pure ()
  | some _, [] => pure ()
  | some outcome, r :: rs => do
    onUnit info.unit
      (·.lose ⟨outcome.recordsFailed, outcome.dlqSucceeded, outcome.dlqFailed⟩)
    shareDelivery p moment outcome.delivered info (r :: rs)

/-- The contributors from the nth on; those still in the accounting are completed. -/
def settle (p : Pipeline ρ) (moment : Nat → Nat → Nat → Nat) (cohort : Option UnitOutcome) :
    Nat → List (Meta × List ρ) → Exec ρ (List (Nat × Meta × List ρ))
  | _, [] => pure []
  | n, (info, survivors) :: rest => do
    let s ← .get
    match info.unit.bind s.delivery.units.lookup with
    | none => settle p moment cohort (n + 1) rest
    | some _ => do
      shareOutcome p (moment n) cohort info survivors
      let infos ← settle p moment cohort (n + 1) rest
      pure ((n, info, survivors) :: infos)

def Meta.empty : Meta := ⟨none, false, none, false⟩

/-- `_flush_stream_buffer`, with the key drawn for the cohort: what it raises, and the stream after
it. If it raises, the contributors are not completed. -/
def Stream.flush (cohort : UnitKey) (answers : Answers)
    (moment : Nat → Nat → Nat → Nat) : Option Failure × Stream ρ :=
  let info := s.buffered.getD .empty
  let drained := { s with records := [], buffered := none, contributors := [] }
  match s.contributors with
  | [] =>
    if s.records = [] then (none, s)
    else
      let (result, t) := processRecords p ⟨⟨info.unit, true⟩, answers⟩ [] false s.records s.run
      (Procedure.raised result, { drained with run := t })
  | _ :: _ =>
    match processRecords p ⟨⟨some cohort, true⟩, answers⟩ [] false s.records
        (s.run.onDelivery (·.registerUnit cohort info)) with
    | (.error f, t) => (some f, { drained with run := t })
    | (.ok processed, t) =>
      let outcome := t.delivery.units.lookup cohort
      match settle p moment outcome 0 s.contributors (t.onDelivery (·.dropUnit cohort)) with
      | (.error f, u) => (some f, { drained with run := u })
      | (.ok entries, u) =>
        (none, { drained with
          run := u
          completed := s.completed ++ entries.map (·.2.1)
          log := s.log ++ entries.map fun (n, unit, survivors) =>
            ⟨unit, survivors, s.records, answers, moment n, !processed,
              (outcome.map (·.delivered)).getD 0⟩ })

/-! ## Decision -/

/-- What sinks and manager answer to a decision: the failure to commit, the durable identity of
each unit and which identities have their checkpoint. -/
structure Verdict where
  commit : Option String
  durable : Meta → String
  confirmed : String → Bool

def Verdict.quiet : Verdict := ⟨none, fun _ => "", fun _ => true⟩

/-- An undecided unit of the same partition lies before a completed one. -/
def Stream.deferred : Bool :=
  s.completed.any fun info =>
    s.run.delivery.units.entries.any fun e =>
      !(s.completed.any (·.unit = some e.1)) &&
        match info.frontier, e.2.info.frontier with
        | some (partition, offset), some (partition', offset') =>
          partition' = partition && offset' < offset
        | _, _ => false

def remember (taken : Dict UnitKey UnitOutcome) (key : UnitKey) :
    Option UnitOutcome → Dict UnitKey UnitOutcome
  | some outcome => taken.insert key outcome
  | none => taken

/-- The dispositions of the units, each taken from the accounting, or from the last outcome taken
under its key. -/
def takeDecisions (onError : OnError) : List Meta → Delivery → Dict UnitKey UnitOutcome →
    List (Meta × Option AckDisposition) × Delivery × Dict UnitKey UnitOutcome
  | [], d, taken => ([], d, taken)
  | info :: infos, d, taken =>
    match info.unit with
    | none => takeDecisions onError infos d taken
    | some key =>
      let outcome := d.units.lookup key <|> taken.lookup key
      let rest := takeDecisions onError infos (d.dropUnit key) (remember taken key outcome)
      ((info, outcome.bind (·.disposition onError)) :: rest.1, rest.2)

/-- The lowest offset of each partition that was not decided or not committed. -/
def noteGaps (committed : Bool) : List (Meta × Option AckDisposition) → Dict String Nat →
    Dict String Nat
  | [], gaps => gaps
  | (info, disposition) :: rest, gaps =>
    match info.frontier with
    | some (partition, offset) =>
      if committed = false ∨ disposition = none then
        noteGaps committed rest
          (gaps.insert partition (min offset ((gaps.lookup partition).getD offset)))
      else noteGaps committed rest gaps
    | none => noteGaps committed rest gaps

def behindGap (gaps : Dict String Nat) (info : Meta) : Bool :=
  match info.frontier with
  | none => false
  | some (partition, offset) =>
    match gaps.lookup partition with
    | none => false
    | some gap => gap ≤ offset

/-- A delivered unit whose checkpoint is not confirmed; only a strict pipeline minds. -/
def unconfirmed (strict : Bool) (v : Verdict) (decision : Meta × Option AckDisposition) : Bool :=
  strict && decision.2 = some .delivered && !(v.confirmed (v.durable decision.1))

/-- Whether the decided units may be acknowledged. -/
def mayAck (strict committed : Bool) (v : Verdict) (gaps : Dict String Nat) (pending : Nat)
    (decisions : List (Meta × Option AckDisposition)) : Bool :=
  committed && !(decisions.any (behindGap gaps ·.1)) &&
    !(strict && (0 < pending || decisions.any (·.2.isNone))) &&
    !(decisions.any (unconfirmed strict v))

def acknowledged (decisions : List (Meta × Option AckDisposition)) : List (Meta × AckDisposition) :=
  decisions.filterMap fun (info, disposition) => disposition.map (info, ·)

/-- `_finalize_stream_broker_units` once the sinks have answered. However often
`checkpoint_pending` is counted up on the way, it ends above zero if anything is held back. -/
def Stream.conclude (v : Verdict) (committed : Bool) :
    Stream ρ :=
  let (decisions, d, taken) := takeDecisions job.onError s.completed s.run.delivery s.taken
  let gaps := noteGaps committed decisions d.brokerGaps
  let ok := mayAck job.strict committed v gaps d.checkpointPending decisions
  { s with
    run := { s.run with
      delivery := { d with
        brokerGaps := gaps
        checkpointPending := if ok then d.checkpointPending else d.checkpointPending + 1 }
      acks := if ok then s.run.acks ++ acknowledged decisions else s.run.acks
      finalized := s.run.finalized ++ decisions.map fun (info, _) => (info, committed) }
    completed := []
    taken := taken
    withheld := s.withheld ++
      (decisions.filter fun decision => !ok || decision.2.isNone).map Prod.fst }

/-- `_finalize_stream_broker_units`; an exception ends the run. -/
def Stream.decide (v : Verdict) : Stream ρ :=
  if s.halted || s.completed.isEmpty || s.deferred then s
  else
    match commitSinks job.toPipeline v.commit s.run with
    | (.error _, t) => { s with run := t, completed := [], halted := true }
    | (.ok committed, t) => Stream.conclude job { s with run := t } v committed

inductive StreamEvent (ρ : Type) where
  | receive (info : Meta)
  | process (n : Nat) (raw : List UInt8) (parsed : Except String (List ρ × Answers))
      (taken lossElsewhere : Bool)
  | flush (cohort : UnitKey) (answers : Answers) (moment : Nat → Nat → Nat → Nat)
  | decide (verdict : Verdict)

def Stream.step : StreamEvent ρ → Stream ρ
  | .receive info => s.receive info
  | .process n raw parsed taken lossElsewhere =>
    s.process job.toPipeline n raw parsed taken lossElsewhere
  | .flush cohort answers moment => (s.flush job.toPipeline cohort answers moment).2
  | .decide verdict => s.decide job verdict

end Tram.Executor
