import Tram.Executor.BatchRun
import Tram.Executor.Stream

/-! # A whole stream run

The reader, the workers and the interval flusher of `stream_run`, each with its own way to handle
what a flush raises: the reader's exceptions end the run, a worker's wait in `worker_errors` until
the reader looks there, and the flusher's are logged. The chunks of file sources and of sources
without units are part of the run. With one thread the reader processes the chunks itself. -/

namespace Tram.Executor

variable {ρ : Type}

structure StreamConfig (ρ : Type) extends StreamJob ρ where
  threadWorkers : Nat
  /-- `stream_flush_records` -/
  flushRecords : Nat
  /-- `stream_flush_interval_s > 0` -/
  timed : Bool

def StreamConfig.threaded (cfg : StreamConfig ρ) : Bool := 1 < cfg.threadWorkers

namespace Stream

/-- Something is buffered, so that the flusher finds it due once the interval has elapsed. -/
def holds (s : Stream ρ) : Bool := !s.records.isEmpty || !s.contributors.isEmpty

def flushDue (cfg : StreamConfig ρ) (s : Stream ρ) (batchEnd elapsed : Bool) : Bool :=
  s.holds && (batchEnd || cfg.flushRecords ≤ s.records.length ||
    cfg.flushRecords ≤ s.contributors.length || (cfg.timed && elapsed))

/-- What `_process_chunk` returns for the nth chunk that is waiting: whether to flush now. -/
def processResult (cfg : StreamConfig ρ) (s : Stream ρ) (n : Nat) (raw : List UInt8)
    (parsed : Except String (List ρ × Answers)) (taken lossElsewhere elapsed : Bool) :
    Except Failure Bool :=
  match s.queue[n]? with
  | none => .ok false
  | some info =>
    let t := s.process cfg.toPipeline n raw parsed taken lossElsewhere
    -- the workers leave the end of a broker batch to the reader
    let batchEnd := info.batchEnd && !(info.broker && cfg.threaded)
    match arrive cfg.toPipeline info raw taken parsed s.run with
    | (.ok survivors, _) =>
      .ok ((!survivors.isEmpty || batchEnd || info.broker) && t.flushDue cfg batchEnd elapsed)
    | (.error f, u) =>
      if reraises cfg.toPipeline true lossElsewhere u.delivery f then .error f
      else .ok (info.broker && t.flushDue cfg batchEnd elapsed)

end Stream

/-! ## The run -/

inductive Trigger where
  | reader | worker | timer
  deriving DecidableEq, Repr

/-- Why the reader drains the buffer: a chunk of another source unit comes next, the batch of a
broker source ends, or the source is exhausted. -/
inductive Boundary where
  | unit (next : Meta)
  | batch
  | source

inductive Reader where
  | reading
  | chunk (info : Meta)
  | due (info : Meta)
  | drain (boundary : Boundary)
  | finalize (boundary : Boundary)
  | decide (last : Bool)
  | join
  | lastFlush
  | conclude
  | crashed (failure : Failure)
  | over (result : Except Failure RunStatus)

/-- The state of the run: `owed` counts the workers that have a flush to make for the chunk they
have processed, and `failed` records the flushes that raised. -/
structure StreamRun (ρ : Type) where
  stream : Stream ρ
  reader : Reader
  current : Option Meta
  owed : Nat
  workerErrors : List Failure
  failed : List (Trigger × Failure)

inductive RunEvent (ρ : Type) where
  | yields (info : Meta)
  /-- A stop or the deadline is observed with the next chunk. -/
  | stop
  | exhausted (fault : Option Fault)
  | process (n : Nat) (raw : List UInt8) (parsed : Except String (List ρ × Answers))
      (taken lossElsewhere elapsed : Bool)
  | flush (trigger : Trigger) (cohort : UnitKey) (answers : Answers) (moment : Nat → Nat → Nat → Nat)
  | finalize (barrier : Barrier)
  | decide (verdict : Verdict)
  | join
  /-- The end of `stream_run`, before or after its deadline. -/
  | conclude (late : Bool)

namespace StreamRun

def start (breakers : Dict String (Nat × Nat)) : StreamRun ρ := ⟨.start breakers, .reading, none, 0, [], []⟩

def afterLoop (cfg : StreamConfig ρ) : Reader := if cfg.threaded then .join else .lastFlush

def afterChunk (info : Meta) : Reader :=
  if info.broker ∧ info.batchEnd then .decide false else .reading

def hand (cfg : StreamConfig ρ) (r : StreamRun ρ) (info : Meta) : StreamRun ρ :=
  { r with
    stream := { r.stream with queue := r.stream.queue ++ [info] }
    reader := if cfg.threaded then .reading else .chunk info }

/-- A chunk of the current unit, which is registered with its first chunk. -/
def enter (cfg : StreamConfig ρ) (r : StreamRun ρ) (key : UnitKey) (info : Meta) : StreamRun ρ :=
  let run := match r.current with
    | none => r.stream.run.onDelivery (·.registerUnit key info)
    | some _ => r.stream.run
  { r with stream := { r.stream with run := run }, current := some info }.hand cfg info

def receive (cfg : StreamConfig ρ) (r : StreamRun ρ) (info : Meta) : StreamRun ρ :=
  { r with
    stream := r.stream.receive info
    reader :=
      if cfg.threaded then if info.batchEnd then .drain .batch else .reading else .chunk info }

def yields (cfg : StreamConfig ρ) (r : StreamRun ρ) (info : Meta) : StreamRun ρ :=
  match info.unit with
  | none => r.hand cfg info
  | some key =>
    if info.broker then r.receive cfg info
    else
      match r.current.bind (·.unit) with
      | none => r.enter cfg key info
      | some key' =>
        if key' = key then r.enter cfg key info else { r with reader := .drain (.unit info) }

/-- The reader raises what a worker has raised. -/
def checked (r : StreamRun ρ) (next : StreamRun ρ) : StreamRun ρ :=
  match r.workerErrors with
  | [] => next
  | f :: errors => { r with reader := .crashed f, workerErrors := errors }

def process (cfg : StreamConfig ρ) (r : StreamRun ρ) (n : Nat) (raw : List UInt8)
    (parsed : Except String (List ρ × Answers)) (taken lossElsewhere elapsed : Bool) : StreamRun ρ :=
  let n := if cfg.threaded then n else 0
  let stream := r.stream.process cfg.toPipeline n raw parsed taken lossElsewhere
  let result := r.stream.processResult cfg n raw parsed taken lossElsewhere elapsed
  if cfg.threaded then
    if r.owed < cfg.threadWorkers then
      match result with
      | .ok due => { r with stream := stream, owed := if due then r.owed + 1 else r.owed }
      | .error f => { r with stream := stream, workerErrors := r.workerErrors ++ [f] }
    else r
  else
    match r.reader with
    | .chunk info =>
      match result with
      | .ok due => { r with stream := stream, reader := if due then .due info else afterChunk info }
      | .error f => { r with stream := stream, reader := .crashed f }
    | _ => r

/-- Every chunk that was handed to the workers is processed, and flushed if it was due. -/
def idle (r : StreamRun ρ) : Bool := r.stream.queue.isEmpty && r.owed = 0

def readerFlush (r : StreamRun ρ) (stream : Stream ρ) (raised : Option Failure) (next : Reader) :
    StreamRun ρ :=
  match raised with
  | none => { r with stream := stream, reader := next }
  | some f => { r with stream := stream, reader := .crashed f, failed := r.failed ++ [(.reader, f)] }

def flush (cfg : StreamConfig ρ) (r : StreamRun ρ) (trigger : Trigger) (cohort : UnitKey)
    (answers : Answers) (moment : Nat → Nat → Nat → Nat) : StreamRun ρ :=
  let (raised, stream) := r.stream.flush cfg.toPipeline cohort answers moment
  match trigger with
  | .reader =>
    match r.reader with
    | .due info => r.readerFlush stream raised (afterChunk info)
    | .drain boundary =>
      -- `chunk_q.join()`
      if cfg.threaded && !r.idle then r
      else
        checked r <| r.readerFlush stream raised <|
          match boundary with
          | .batch => .decide false
          | boundary => .finalize boundary
    | .lastFlush => r.readerFlush stream raised (.decide true)
    -- the crash path only logs what its flush raises
    | .crashed f =>
      { r with
        stream := stream
        reader := .over (.error f)
        failed := r.failed ++ (raised.map (Trigger.reader, ·)).toList }
    | _ => r
  | .worker =>
    if r.owed = 0 then r
    else
      match raised with
      | none => { r with stream := stream, owed := r.owed - 1 }
      | some f =>
        { r with
          stream := stream
          owed := r.owed - 1
          workerErrors := r.workerErrors ++ [f]
          failed := r.failed ++ [(.worker, f)] }
  | .timer =>
    match r.reader with
    | .over _ => r
    | _ =>
      if cfg.timed && r.stream.holds then
        { r with
          stream := stream
          failed := r.failed ++ (raised.map (Trigger.timer, ·)).toList }
      else r

def finalize (cfg : StreamConfig ρ) (r : StreamRun ρ) (boundary : Boundary) (b : Barrier) :
    StreamRun ρ :=
  match finishUnit cfg.toPipeline r.current true b r.stream.run with
  | (.error f, s) => { r with stream := { r.stream with run := s }, reader := .crashed f }
  | (.ok (), s) =>
    let r := { r with stream := { r.stream with run := s } }
    match boundary with
    | .unit next =>
      match next.unit with
      | some key => { r with current := none }.enter cfg key next
      | none => { r with current := none }.hand cfg next
    | _ => { r with reader := afterLoop cfg }

def decide (cfg : StreamConfig ρ) (r : StreamRun ρ) (last : Bool) (v : Verdict) : StreamRun ρ :=
  let stream := r.stream.decide cfg.toStreamJob v
  if stream.halted then
    { r with stream := stream, reader := .crashed (.tram .commit (v.commit.getD "")) }
  else { r with stream := stream, reader := if last then .conclude else .reading }

def result (cfg : StreamConfig ρ) (r : StreamRun ρ) (late : Bool) : RunStatus :=
  if late then .aborted else batchOutcome cfg.onError r.stream.run.delivery false

def step (cfg : StreamConfig ρ) (r : StreamRun ρ) : RunEvent ρ → StreamRun ρ
  | .yields info =>
    match r.reader with
    | .reading => checked r (r.yields cfg info)
    | _ => r
  | .stop =>
    match r.reader with
    | .reading => checked r { r with reader := afterLoop cfg }
    | _ => r
  | .exhausted fault =>
    match r.reader with
    | .reading =>
      match fault with
      | some fault => { r with reader := .crashed (fault.failure .source) }
      | none => { r with reader := if r.current.isSome then .drain .source else afterLoop cfg }
    | _ => r
  | .process n raw parsed taken lossElsewhere elapsed =>
    r.process cfg n raw parsed taken lossElsewhere elapsed
  | .flush trigger cohort answers moment => r.flush cfg trigger cohort answers moment
  | .finalize b =>
    match r.reader with
    | .finalize boundary => r.finalize cfg boundary b
    | _ => r
  | .decide v =>
    match r.reader with
    | .decide last => r.decide cfg last v
    | _ => r
  -- the reader waits for its workers, but not for ever
  | .join =>
    match r.reader with
    | .join => checked r { r with reader := .lastFlush }
    | _ => r
  | .conclude late =>
    match r.reader with
    | .conclude => { r with reader := .over (.ok (r.result cfg late)) }
    | _ => r

end StreamRun

end Tram.Executor
