import Tram.Executor.Batch

/-! # Threads, attempts and the outcome of a batch run -/

namespace Tram.Executor

variable {ρ : Type}

/-! ## The threaded loop

The main thread reads and submits chunks, and drains the oldest one whenever the window is full
and at the end; the threads of the pool process the chunks in between. -/

structure Future (ρ : Type) where
  key : Option UnitKey
  work : Work ρ
  result : Option (Except Failure Bool)

/-- An entry of `units`: how many chunks of the unit are not yet drained, and whether all of them
have been submitted. -/
structure UnitEntry where
  key : UnitKey
  info : Meta
  remaining : Nat
  submitted : Bool

inductive Phase where
  | reading | draining | ended
  | raised (failure : Failure)

/-- `taken` holds the last outcome taken from the accounting for each key: the object a later
entry of the same key may still refer to. -/
structure Threads (ρ : Type) where
  run : State ρ
  inFlight : List (Future ρ)
  units : List UnitEntry
  taken : Dict UnitKey UnitOutcome
  phase : Phase

inductive Event (ρ : Type) where
  | submit (info : Meta) (work : Work ρ)
  | execute (n : Nat)
  | drain (barrier : Barrier)
  /-- `batch_size` is reached: the rest of the source is not read. -/
  | limit
  /-- The source is exhausted or a stop is requested, or the source raises. -/
  | close (fault : Option Fault)
  | finish

variable (job : BatchJob ρ) (t : Threads ρ)

def BatchJob.cap : Nat := max 1 (job.threadWorkers * 2)

def markSubmitted : List UnitEntry → List UnitEntry
  | [] => []
  | [u] => [{ u with submitted := true }]
  | u :: us => u :: markSubmitted us

def countSubmitted : List UnitEntry → List UnitEntry
  | [] => []
  | [u] => [{ u with remaining := u.remaining + 1 }]
  | u :: us => u :: countSubmitted us

def submit (info : Meta) (work : Work ρ) : Threads ρ :=
  let t := { t with inFlight := t.inFlight ++ [⟨info.unit, work, none⟩] }
  match info.unit with
  | none => t
  | some key =>
    if (t.units.getLast?.map (·.key)) = some key then { t with units := countSubmitted t.units }
    else
      { t with
        run := t.run.onDelivery (·.registerUnit key info)
        units := markSubmitted t.units ++ [⟨key, info, 1, info.broker⟩] }

def drainRaises (p : Pipeline ρ) (d : Delivery) : Failure → Bool
  | .tram _ _ => p.onError = .abort || (p.onError = .retry && d.hasLoss)
  | .dlqDelivery _ => p.onError = .abort || (p.onError = .retry && d.hasLoss)
  | .other _ => true

def retireUnit (u : UnitEntry) (us : List UnitEntry)
    (b : Barrier) : Threads ρ :=
  let taken := match t.run.delivery.units.lookup u.key with
    | some outcome => t.taken.insert u.key outcome
    | none => t.taken
  match finalizeBatchSourceUnit job.toPipeline u.key u.info (t.taken.lookup u.key) true b t.run with
  | (.ok (), s) => { t with run := s, units := us, taken := taken }
  | (.error f, s) => { t with run := s, units := us, taken := taken, phase := .raised f }

def countDrained (key : Option UnitKey) (b : Barrier) :
    Threads ρ :=
  match t.units with
  | [] => t
  | u :: us =>
    if key = some u.key then
      let u := { u with remaining := u.remaining - 1 }
      if u.remaining = 0 ∧ u.submitted then retireUnit job t u us b
      else { t with units := u :: us }
    else t

/-- `_drain_one`, once the oldest chunk in flight has its result. -/
def drainOne (b : Barrier) : Threads ρ :=
  match t.inFlight with
  | [] => t
  | fut :: rest =>
    match fut.result with
    | none => t
    | some (.ok _) => countDrained job { t with inFlight := rest } fut.key b
    | some (.error f) =>
      if drainRaises job.toPipeline t.run.delivery f then
        { t with inFlight := rest, phase := .raised f }
      else countDrained job { t with inFlight := rest } fut.key b

def execute (n : Nat) : Threads ρ :=
  match t.inFlight[n]? with
  | some ⟨key, work, none⟩ =>
    { t with
      run := (processChunk job key work t.run).2
      inFlight := t.inFlight.set n ⟨key, work, some (processChunk job key work t.run).1⟩ }
  | _ => t

def Threads.step : Event ρ → Threads ρ
  | .execute n => execute job t n
  | .submit info work =>
    match t.phase with
    | .reading => if t.inFlight.length < job.cap then submit t info work else t
    | _ => t
  | .drain b =>
    match t.phase with
    | .reading => if job.cap ≤ t.inFlight.length then drainOne job t b else t
    | .draining => drainOne job t b
    | _ => t
  | .limit =>
    match t.phase with
    | .reading =>
      if t.inFlight.length < job.cap ∧ job.limitReached t.run then { t with phase := .draining }
      else t
    | _ => t
  | .close fault =>
    match t.phase with
    | .reading =>
      if t.inFlight.length < job.cap then
        match fault with
        | none => { t with units := markSubmitted t.units, phase := .draining }
        | some fault => { t with phase := .raised (fault.failure .source) }
      else t
    | _ => t
  | .finish =>
    match t.phase with
    | .draining => if t.inFlight.isEmpty then { t with phase := .ended } else t
    | _ => t

def Threads.start (s : State ρ) : Threads ρ := ⟨s, [], [], ∅, .reading⟩

/-! ## Attempts -/

/-- What one attempt reads, as the loop that reads it sees it. -/
inductive Reading (ρ : Type) where
  | sequential (items : List (Item ρ)) (fault : Option Fault) (last : Barrier)
  | threaded (events : List (Event ρ))

/-- `_run_batch_chunks`; `none` if the loop is not over, or the other loop is configured. -/
def runBatchChunks (s : State ρ) :
    Reading ρ → Option (Except Failure Unit × State ρ)
  | .sequential items fault last =>
    if 1 < job.threadWorkers then none
    else some (runBatchChunksSequential job fault last none items s)
  | .threaded events =>
    if 1 < job.threadWorkers then
      let t := Run.exec (Threads.step job) (.start s) events
      match t.phase with
      | .ended => some (.ok (), t.run)
      | .raised f => some (.error f, t.run)
      | .reading => none
      | .draining => none
    else none

/-- One attempt: the loop, whether a stop was requested during it, the records a flush run closes
its windows with, the last commit and the source's completion error. -/
structure Attempt (ρ : Type) where
  reading : Reading ρ
  stopped : Bool
  flush : Option (List ρ × Answers)
  commit : Option String
  completionError : Option String

/-- `_route_stateful_flush_records`: outside the accounting, and what it raises is only logged. -/
def routeStatefulFlushRecords (p : Pipeline ρ) : Option (List ρ × Answers) → Exec ρ Unit
  | none => pure ()
  | some (records, answers) => fun s =>
    (.ok (), (processRecords p ⟨⟨none, false⟩, answers⟩ [] true records s).2)

def batchOutcome (onError : OnError) (d : Delivery) (commitFailed : Bool) : RunStatus :=
  if commitFailed then .partly
  else if (onError = .continues ∨ onError = .retry) ∧ d.hasLoss then .partly
  else if d.hasPendingCheckpoints then .partly
  else .success

def checkCompletion (a : Attempt ρ) (committed : Bool) : Exec ρ Unit :=
  match a.completionError with
  | some text => if committed ∧ a.stopped = false then .raise (.tram .source text) else pure ()
  | none => pure ()

def concludeAttempt (a : Attempt ρ) : Exec ρ RunStatus := do
  routeStatefulFlushRecords job.toPipeline a.flush
  let committed ← commitSinks job.toPipeline a.commit
  checkCompletion a committed
  let s ← .get
  pure (if a.stopped then .aborted else batchOutcome job.onError s.delivery (!committed))

def runAttempt (a : Attempt ρ) (s : State ρ) :
    Option (Except Failure RunStatus × State ρ) :=
  match runBatchChunks job s a.reading with
  | none => none
  | some (.error f, t) => some (.error f, t)
  | some (.ok (), t) => some (concludeAttempt job a t)

/-- `_batch_run_inner`, with the retries left. A `TramError` is retried under "retry" and makes the
run fail otherwise; any other exception leaves the executor. The breakers outlive an attempt, the
accounting does not. -/
def batchRun (job : BatchJob ρ) (breakers : Dict String (Nat × Nat)) :
    Nat → List (Attempt ρ) → Option (Except Failure RunStatus × State ρ)
  | _, [] => none
  | left, a :: attempts =>
    match runAttempt job a { State.new with breakers := breakers } with
    | none => none
    | some (.ok status, s) => some (.ok status, s)
    | some (.error (.other text), s) => some (.error (.other text), s)
    | some (.error _, s) =>
      match left with
      | 0 => some (.ok .failed, s)
      | left + 1 => batchRun job s.breakers left attempts

def BatchJob.retries : Nat := if job.onError = .retry then job.retryCount else 0

end Tram.Executor
