import Tram.Lib.Dict
import Tram.Lib.Run

/-! # The ClickHouse sink

Calls of `write`, `commit` and `close`, the timer and the executor's retries, interleaved at the
granularity of the two locks: a section under `_buffer_lock` is one step, and the flush lock is held
from `acquire` until the flush returns or raises. An insert delivers all its rows or none. -/

namespace Tram.ClickHouse

/-- An exception object, told from others by its number. -/
abbrev ErrorId := Nat

abbrev CallId := Nat

/-- The sink's configuration, the executor's `retry_count` for it, and `json.loads`, which is `none`
if it raises or what it returns cannot be appended to the buffer. -/
structure Config (δ ρ : Type) where
  batchSize : Int
  /-- `batch_timeout_seconds > 0` -/
  timed : Bool
  batchFlushOnStop : Bool
  retryCount : Nat
  parse : δ → Option (List ρ)

/-- A payload the executor writes: the attempts so far, and `_clickhouse_admitted_write` of the meta
that all its attempts share, which holds the payload and the error of the last flush. -/
structure Write (δ : Type) where
  data : δ
  attempt : Nat
  admitted : Option (δ × ErrorId)
  deriving DecidableEq

/-- The error to retry the delivery of, if this attempt's payload is already admitted. -/
def Write.retries {δ : Type} [DecidableEq δ] (w : Write δ) : Option ErrorId :=
  match w.admitted with
  | some (data, error) => if 0 < w.attempt ∧ data = w.data then some error else none
  | none => none

/-- Who flushes. A commit carries the number of rows that were admitted when it began. -/
inductive Caller (δ : Type) where
  | write (w : Write δ)
  | timer
  | commit (since : Nat)
  | close
  deriving DecidableEq

inductive Status where
  /-- In `_flush(observed_error=...)`. -/
  | flushing (observed : Option ErrorId)
  | returned
  | raised
  deriving DecidableEq

structure Call (δ : Type) where
  caller : Caller δ
  status : Status
  deriving DecidableEq

/-- Where the holder of the flush lock is in `_flush`. -/
inductive Phase (ρ : Type) where
  | entered
  | inserting (rows : List ρ)
  | confirmed (rows : List ρ)

/-- The sink and its table. `admissions` is the history of what `write` appended to the buffer. -/
structure Sink (δ ρ : Type) where
  buffer : List ρ
  holder : Option (CallId × Phase ρ)
  latchedError : Option ErrorId
  nextError : ErrorId
  closed : Bool
  /-- The timer waits to fire. -/
  scheduled : Bool
  calls : Dict CallId (Call δ)
  inserted : List ρ
  admissions : List (CallId × List ρ)

inductive Event (δ : Type) where
  | write (id : CallId) (data : δ)
  | retry (id : CallId)
  | timer (id : CallId)
  | commit (id : CallId) (late : Bool)
  | close (id : CallId)
  | latchedError
  | acquire (id : CallId)
  | snapshot
  | insert (succeeds : Bool)
  | drop

namespace Sink

variable {δ ρ : Type}

def new (cfg : Config δ ρ) : Sink δ ρ := ⟨[], none, none, 0, false, cfg.timed, ∅, [], []⟩

def admitted (s : Sink δ ρ) : List ρ := s.admissions.flatMap Prod.snd

def setCall (s : Sink δ ρ) (id : CallId) (caller : Caller δ) (status : Status) : Sink δ ρ :=
  { s with calls := s.calls.insert id ⟨caller, status⟩ }

/-- `write` under the buffer lock: the rows are appended, and flushed if there are enough. -/
def appendRows (cfg : Config δ ρ) (s : Sink δ ρ) (id : CallId) (w : Write δ) (rows : List ρ) : Sink δ ρ :=
  let s := { s with buffer := s.buffer ++ rows, admissions := s.admissions ++ [(id, rows)] }
  s.setCall id (.write w) (if cfg.batchSize ≤ s.buffer.length then .flushing none else .returned)

variable [DecidableEq δ]

/-- `write`, up to its flush. -/
def write (cfg : Config δ ρ) (s : Sink δ ρ) (id : CallId) (w : Write δ) : Sink δ ρ :=
  match cfg.parse w.data with
  | none => s.setCall id (.write w) .raised
  | some [] => s.setCall id (.write w) .returned
  | some rows =>
    match w.retries with
    | some error => s.setCall id (.write w) (.flushing (some error))
    | none => s.appendRows cfg id w rows

/-! ## `_flush` and its callers -/

/-- The call after its flush: the timer is scheduled again and `close` returns, whatever happened. -/
def settle (cfg : Config δ ρ) (s : Sink δ ρ) (id : CallId) (error : Option ErrorId) : Sink δ ρ :=
  let s := { s with holder := none }
  match s.calls.lookup id with
  | none => s
  | some ⟨.write w, _⟩ =>
    match error with
    | none => s.setCall id (.write { w with admitted := none }) .returned
    | some e => s.setCall id (.write { w with admitted := some (w.data, e) }) .raised
  | some ⟨.timer, _⟩ => { s with scheduled := cfg.timed && !s.closed }.setCall id .timer .returned
  | some ⟨.commit since, _⟩ =>
    s.setCall id (.commit since) (if error.isNone then .returned else .raised)
  | some ⟨.close, _⟩ => s.setCall id .close .returned

def acquire (s : Sink δ ρ) (id : CallId) : Sink δ ρ :=
  match s.holder, s.calls.lookup id with
  | none, some ⟨_, .flushing observed⟩ =>
    { s with
      holder := some (id, .entered)
      latchedError :=
        if observed.isSome ∧ s.latchedError = observed then none else s.latchedError }
  | _, _ => s

/-- The rows to insert are copied; without rows the flush is over. -/
def snapshot (cfg : Config δ ρ) (s : Sink δ ρ) : Sink δ ρ :=
  match s.holder with
  | some (id, .entered) =>
    match s.buffer with
    | [] => s.settle cfg id none
    | rows => { s with holder := some (id, .inserting rows) }
  | _ => s

def insert (cfg : Config δ ρ) (s : Sink δ ρ) (succeeds : Bool) : Sink δ ρ :=
  match s.holder with
  | some (id, .inserting rows) =>
    if succeeds then
      { s with inserted := s.inserted ++ rows, holder := some (id, .confirmed rows) }
    else
      { s with latchedError := some s.nextError, nextError := s.nextError + 1 }.settle cfg id
        (some s.nextError)
  | _ => s

/-- `del self._buffer[: len(rows)]` -/
def drop (cfg : Config δ ρ) (s : Sink δ ρ) : Sink δ ρ :=
  match s.holder with
  | some (id, .confirmed rows) => { s with buffer := s.buffer.drop rows.length }.settle cfg id none
  | _ => s

/-- `commit`, up to its flush. -/
def commit (s : Sink δ ρ) (id : CallId) (late : Bool) : Sink δ ρ :=
  match s.latchedError with
  | some _ => { s with latchedError := none }.setCall id (.commit s.admitted.length) .raised
  | none =>
    s.setCall id (.commit s.admitted.length) (if late then .raised else .flushing none)

/-- `close`, up to its flush. -/
def close (cfg : Config δ ρ) (s : Sink δ ρ) (id : CallId) : Sink δ ρ :=
  if s.closed then s.setCall id .close .returned
  else
    { s with closed := true, scheduled := false }.setCall id .close
      (if cfg.batchFlushOnStop then .flushing none else .returned)

/-- A step; a new call has a new number. -/
def step (cfg : Config δ ρ) (s : Sink δ ρ) : Event δ → Sink δ ρ
  | .write id data => if id ∈ s.calls then s else s.write cfg id ⟨data, 0, none⟩
  | .retry id =>
    match s.calls.lookup id with
    | some ⟨.write w, .raised⟩ =>
      if w.attempt < cfg.retryCount then s.write cfg id { w with attempt := w.attempt + 1 } else s
    | _ => s
  | .timer id =>
    if id ∈ s.calls ∨ s.scheduled = false then s
    else { s with scheduled := false }.setCall id .timer (.flushing none)
  | .commit id late => if id ∈ s.calls then s else s.commit id late
  | .close id => if id ∈ s.calls then s else s.close cfg id
  | .latchedError => { s with latchedError := none }
  | .acquire id => s.acquire id
  | .snapshot => s.snapshot cfg
  | .insert succeeds => s.insert cfg succeeds
  | .drop => s.drop cfg

end Sink

end Tram.ClickHouse
