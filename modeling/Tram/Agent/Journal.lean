import Tram.Agent.AuthTokens
import Tram.Lib.DateTime
import Tram.Lib.Dict

/-! # The worker journal

The SQLite store behind a worker: one definition per method of `WorkerJournal`, over the journal's
tables as lists of rows. Each method is one `BEGIN IMMEDIATE` transaction under the process lock,
so it is one step; `Call` holds what the method reads from outside (the clock, the health of the
file, whether the transaction commits), each of it arbitrary. Timestamps are stored as ISO text in
UTC, whose order as text is the order of the instants, and are modelled as instants. -/

namespace Tram.Agent

structure JournalConfig where
  clockSkewS : Int := 5
  maxTtlS : Int := 600
  auditRetentionS : Int := 604800
  replayRetentionS : Int := 86400

inductive Health
  | ok | unavailable | corrupt | quota
deriving DecidableEq, Repr

/-- What becomes of a transaction that reaches its `COMMIT`. -/
inductive Fate
  | commits
  /-- An error or a crash before the commit: everything is rolled back. -/
  | rollsBack
  /-- The commit is durable but the caller does not get the result. -/
  | loses
deriving DecidableEq, Repr

/-- What one call of a journal method finds outside the database. -/
structure Call where
  /-- The `now` argument, or the clock where the caller passes none. -/
  now : DateTime
  /-- The clock as read inside `admit`. -/
  clock : DateTime
  /-- The clock as read for the row's own timestamps. -/
  stamp : DateTime
  opens : Bool := true
  health : Health := .ok
  fate : Fate := .commits

inductive ReservationState
  | reserved | running | completed | interrupted
deriving DecidableEq, Repr

structure Reservation where
  attemptId : String
  runId : String
  pipelineName : String
  generation : Int
  slotId : String
  workerSession : String
  reservedAt : DateTime
  state : ReservationState
  threadStarted : Bool
deriving DecidableEq

structure Tombstone where
  attemptId : String
  runId : String
  reason : String
  revokedAt : DateTime
  sessionEpoch : Nat
deriving DecidableEq

structure StartAuthorization where
  attemptId : String
  runId : String
  sessionEpoch : Int
  tokenHash : String
  issuedAt : DateTime
  expiresAt : DateTime
deriving DecidableEq

structure Completion where
  attemptId : String
  runId : String
  resultJson : String
  completedAt : DateTime
  ackedAt : Option DateTime
deriving DecidableEq

inductive OutboxKind
  | runComplete
  | other (kind : String)
deriving DecidableEq, Repr

structure OutboxRow where
  seq : Nat
  attemptId : String
  kind : OutboxKind
  payloadJson : String
  createdAt : DateTime
  nextAttemptAt : DateTime
  attempts : Nat
  lastError : Option String
deriving DecidableEq

/-- The tables. `nextSeq` is the outbox's autoincrement. -/
structure Journal where
  sessionEpoch : Nat := 1
  reservations : List Reservation := []
  tombstones : List Tombstone := []
  authorizations : List StartAuthorization := []
  watermarks : Dict Nat Int := ∅
  completions : List Completion := []
  outbox : List OutboxRow := []
  nextSeq : Nat := 1

inductive JournalError
  | missingFields (fields : List String)
  | admissionClosed
  | conflict (attemptId : String)
  | noReservation
  | noOutboxRow
  | unavailable
  | typeError
  | overflow
  | database
deriving DecidableEq, Repr

inductive AdmissionResult
  | admitted (attemptId : String)
  | alreadyAdmitted (attemptId : String) (existing : Reservation)
  | revoked (attemptId : String) (reason : String) (revokedAt : DateTime)
  | refusedAuth (attemptId : Option String) (reason : Option String)
deriving DecidableEq

/-- The decision handed to `admit`: a valid one has to carry every field. -/
structure AuthorizationDecision where
  valid : Bool
  reason : Option String := none
  attemptId : Option String := none
  runId : Option String := none
  generation : Option Int := none
  slotId : Option String := none
  workerSession : Option String := none
  sessionEpoch : Option Int := none
  tokenHash : Option String := none
  issuedAt : Option DateTime := none
  expiresAt : Option DateTime := none

structure Authorized where
  attemptId : String
  runId : String
  generation : Int
  slotId : String
  workerSession : String
  sessionEpoch : Int
  tokenHash : String
  issuedAt : DateTime
  expiresAt : DateTime

def AuthorizationDecision.missing (auth : AuthorizationDecision) : List String :=
  [("attempt_id", auth.attemptId.isNone), ("run_id", auth.runId.isNone),
    ("generation", auth.generation.isNone), ("slot_id", auth.slotId.isNone),
    ("worker_session", auth.workerSession.isNone), ("session_epoch", auth.sessionEpoch.isNone),
    ("token_hash", auth.tokenHash.isNone), ("issued_at", auth.issuedAt.isNone),
    ("expires_at", auth.expiresAt.isNone)].filterMap fun f => if f.2 then some f.1 else none

def AuthorizationDecision.authorized? (auth : AuthorizationDecision) : Option Authorized :=
  return ⟨← auth.attemptId, ← auth.runId, ← auth.generation, ← auth.slotId, ← auth.workerSession,
    ← auth.sessionEpoch, ← auth.tokenHash, ← auth.issuedAt, ← auth.expiresAt⟩

/-- A transaction's result: an error and a rollback, or a value with the tables to commit; `none`
for a value returned after an explicit rollback. -/
abbrev Txn (α : Type) := Except JournalError (α × Option Journal)

variable (cfg : JournalConfig) (call : Call) (j : Journal)

namespace Journal

def finish {α : Type} (call : Call) : Txn α → Except JournalError α × Journal
  | .error e => (.error e, j)
  | .ok (a, j') =>
    match call.fate with
    | .commits => (.ok a, j'.getD j)
    | .rollsBack => (.error .database, j)
    | .loses => (.error .database, j'.getD j)

/-- `_txn`: run `fn` in one transaction, if the database opens. -/
def txn {α : Type} (call : Call) (fn : Journal → Except JournalError (α × Journal)) :
    Except JournalError α × Journal :=
  if call.opens then
    j.finish call ((fn j).map fun r => (r.1, some r.2))
  else (.error .unavailable, j)

def reservation? (attemptId : String) : Option Reservation :=
  j.reservations.find? (·.attemptId = attemptId)

def tombstone? (attemptId : String) : Option Tombstone :=
  j.tombstones.find? (·.attemptId = attemptId)

/-- `_advance_watermark_locked`: `MAX(existing, now_ms)`. -/
def advanceWatermark (epoch : Nat) (nowMs : Int) : Journal :=
  { j with
    watermarks := j.watermarks.insert epoch
      (match j.watermarks.lookup epoch with
        | some w => max w nowMs
        | none => nowMs) }

/-! ## Admission -/

/-- The insert into `start_authorizations`: a known attempt keeps its first token; a token hash in
use for another attempt is an integrity error, `none`. -/
def insertAuthorization (d : Authorized) : Option Journal :=
  if j.authorizations.any (·.attemptId = d.attemptId) then some j
  else if j.authorizations.any (·.tokenHash = d.tokenHash) then none
  else some { j with
    authorizations := j.authorizations ++
      [⟨d.attemptId, d.runId, d.sessionEpoch, d.tokenHash, d.issuedAt, d.expiresAt⟩] }

def newReservation (d : Authorized) (pipelineName : String) (call : Call) : Reservation :=
  ⟨d.attemptId, d.runId, pipelineName, d.generation, d.slotId, d.workerSession, call.stamp,
    .reserved, false⟩

def admitTxn (d : Authorized)
    (pipelineName : String) : Txn AdmissionResult :=
  let nowMs := call.clock.unixMs
  let j := j.advanceWatermark j.sessionEpoch nowMs
  let watermark := (j.watermarks.lookup j.sessionEpoch).getD nowMs
  if nowMs < watermark - cfg.clockSkewS * 1000 then .error .admissionClosed
  else match j.insertAuthorization d with
  | none => .error (.conflict d.attemptId)
  | some j =>
    match j.tombstone? d.attemptId with
    | some t => .ok (.revoked d.attemptId t.reason t.revokedAt, none)
    | none =>
      match j.reservation? d.attemptId with
      | some r =>
        if r.runId = d.runId ∧ r.generation = d.generation ∧ r.slotId = d.slotId then
          .ok (.alreadyAdmitted d.attemptId r, none)
        else .error (.conflict d.attemptId)
      | none =>
        .ok (.admitted d.attemptId,
          some { j with reservations := j.reservations ++ [newReservation d pipelineName call] })

def admitAttempt (auth : AuthorizationDecision)
    (pipelineName : String) : Except JournalError AdmissionResult × Journal :=
  if ¬auth.valid then (.ok (.refusedAuth auth.attemptId auth.reason), j)
  else match auth.authorized? with
  | none => (.error (.missingFields auth.missing), j)
  | some d =>
    if ¬call.opens ∨ call.health ≠ .ok then (.error .admissionClosed, j)
    else j.finish call (admitTxn cfg call j d pipelineName)

/-- The decision `validate_and_admit` builds for a token that passed the validator. -/
def decisionFor (digests : Digests) (j : Journal) (token workerSession : String) (claims : Claims)
    (issuedAt expiresAt : DateTime) : AuthorizationDecision :=
  { valid := true
    attemptId := some claims.attemptId
    runId := some claims.runId
    generation := some claims.generation
    slotId := some claims.slotId
    workerSession := some workerSession
    sessionEpoch := some j.sessionEpoch
    tokenHash := some (digests.sha256 token)
    issuedAt := some issuedAt
    expiresAt := some expiresAt }

/-- Why a valid token may still be refused: its row is of an older session epoch, or its row is
gone and the epoch's watermark has passed its validity window. -/
def retired? (digests : Digests) (j : Journal) (token : String)
    (claims : Claims) : Option String :=
  match j.authorizations.find? (·.tokenHash = digests.sha256 token) with
  | some row => if row.sessionEpoch ≠ j.sessionEpoch then some "old session epoch" else none
  | none =>
    match j.watermarks.lookup j.sessionEpoch with
    | some watermark =>
      if watermark ≥ (claims.issuedAtUnix + claims.ttlS + cfg.clockSkewS) * 1000 then
        some "token retired by watermark"
      else none
    | none => none

structure Presented where
  pipelineName : String
  workerSession : String
  currentSecret : String
  previousSecret : Option String

def Presented.request (args : Presented) : AuthTokens.Request :=
  ⟨args.workerSession, args.currentSecret, args.previousSecret, cfg.maxTtlS, cfg.clockSkewS,
    call.now.unix⟩

def validateAndAdmit (digests : Digests) (call : Call) (j : Journal)
    (token : String) (args : Presented) : Except JournalError AdmissionResult × Journal :=
  if ¬call.opens then (.error .unavailable, j)
  else match AuthTokens.validate digests (args.request cfg call) token with
  | .typeError => (.error .typeError, j)
  | .invalid refusal =>
    j.admitAttempt cfg call { valid := false, reason := some refusal.reason } args.pipelineName
  | .valid claims =>
    match j.retired? cfg digests token claims with
    | some reason => (.ok (.refusedAuth (some claims.attemptId) (some reason)), j)
    | none =>
      match DateTime.fromTimestamp? claims.issuedAtUnix,
          DateTime.fromTimestamp? (claims.issuedAtUnix + claims.ttlS) with
      | some issuedAt, some expiresAt =>
        j.admitAttempt cfg call (j.decisionFor digests token args.workerSession claims issuedAt expiresAt)
          args.pipelineName
      | _, _ => (.error .overflow, j)

def markRunning (attemptId : String) :
    Except JournalError Bool × Journal :=
  j.txn call fun j =>
    let due (r : Reservation) : Bool := r.attemptId = attemptId ∧ r.state = .reserved
    .ok (j.reservations.any due, { j with
      reservations := j.reservations.map fun r =>
        if due r then { r with state := .running, threadStarted := true } else r })

/-! ## Revocation and completion -/

def recordTombstone (attemptId runId reason : String) :
    Except JournalError Tombstone × Journal :=
  j.txn call fun j =>
    let row : Tombstone := ⟨attemptId, runId, reason, call.stamp, j.sessionEpoch⟩
    .ok (row, { j with
      tombstones := j.tombstones.filter (·.attemptId ≠ attemptId) ++ [row] })

/-- One `run-complete` row for every unacked completion that has none. -/
def respoolCompletions (attemptId : Option String) : Nat × Journal :=
  let due (c : Completion) : Bool := c.ackedAt.isNone ∧
    (attemptId.isNone ∨ attemptId = some c.attemptId) ∧
    ¬j.outbox.any fun o => o.attemptId = c.attemptId ∧ o.kind = .runComplete
  let rows := (j.completions.filter due).mapIdx fun i c =>
    (⟨j.nextSeq + i, c.attemptId, .runComplete, c.resultJson, call.stamp, call.stamp, 0, none⟩ :
      OutboxRow)
  (rows.length, { j with outbox := j.outbox ++ rows, nextSeq := j.nextSeq + rows.length })

/-- `_record_completion`: the first result of an attempt is kept. -/
def recordCompletionWith (enqueue : Bool) (call : Call) (j : Journal)
    (attemptId resultJson : String) (runId : Option String) : Except JournalError Unit × Journal :=
  j.txn call fun j =>
    match runId <|> (j.reservation? attemptId).map (·.runId) with
    | none => .error .noReservation
    | some runId =>
      let j := { j with
        reservations := j.reservations.map fun r =>
          if r.attemptId = attemptId then { r with state := .completed } else r
        completions := if j.completions.any (·.attemptId = attemptId) then j.completions
          else j.completions ++ [⟨attemptId, runId, resultJson, call.stamp, none⟩] }
      .ok ((), if enqueue then (j.respoolCompletions call (some attemptId)).2 else j)

def recordCompletion := recordCompletionWith false

def recordCompletionAndEnqueue := recordCompletionWith true

def respoolUnackedCompletions : Except JournalError Nat × Journal :=
  j.txn call fun j => .ok (j.respoolCompletions call none)

def enqueueOutbox (attemptId : String) (kind : OutboxKind)
    (payloadJson : String) : Except JournalError Nat × Journal :=
  j.txn call fun j => .ok (j.nextSeq, { j with
    outbox := j.outbox ++
      [⟨j.nextSeq, attemptId, kind, payloadJson, call.stamp, call.stamp, 0, none⟩]
    nextSeq := j.nextSeq + 1 })

def markAcked (attemptId : String) :
    Except JournalError Unit × Journal :=
  j.txn call fun j => .ok ((), { j with
    completions := j.completions.map fun c =>
      if c.attemptId = attemptId ∧ c.ackedAt.isNone then { c with ackedAt := some call.stamp } else c
    outbox := j.outbox.filter (·.attemptId ≠ attemptId) })

/-- Exponential backoff in seconds: 1, 2, 4, …, capped at 300. The delay is a float, so the power
of two overflows after 1024 failures. -/
def backoffS? (attempts : Nat) : Option Int :=
  if attempts ≤ 1024 then some (min (2 ^ (attempts - 1)) 300) else none

def recordOutboxFailure (seq : Nat) (lastError : String) :
    Except JournalError Unit × Journal :=
  j.txn call fun j =>
    match j.outbox.find? (·.seq = seq) with
    | none => .error .noOutboxRow
    | some row =>
      match (backoffS? (row.attempts + 1)).bind fun delay => call.stamp.subSeconds? (-delay) with
      | none => .error .overflow
      | some nextAt => .ok ((), { j with
          outbox := j.outbox.map fun o => if o.seq = seq then
            { o with attempts := row.attempts + 1, lastError := some lastError,
                     nextAttemptAt := nextAt } else o })

def markInterruptedOnBoot : Except JournalError Nat × Journal :=
  j.txn call fun j =>
    let live (r : Reservation) : Bool := r.state = .reserved ∨ r.state = .running
    .ok ((j.reservations.filter live).length, { j with
      reservations := j.reservations.map fun r =>
        if live r then { r with state := .interrupted } else r })

def advanceSessionEpoch : Except JournalError Nat × Journal :=
  j.txn call fun j => .ok (j.sessionEpoch + 1, { j with sessionEpoch := j.sessionEpoch + 1 })

def recoverClockLowering : Except JournalError Nat × Journal :=
  j.txn call fun j =>
    let epoch := j.sessionEpoch + 1
    .ok (epoch, { j with sessionEpoch := epoch }.advanceWatermark epoch call.clock.unixMs)

structure GcReport where
  authorizationsDeleted : Nat
  tombstonesDeleted : Nat
  watermarkMs : Int

/-- `gc_expired`: drop the authorizations that expired before `now - skew`, and the tombstones of
their attempts. -/
def gcExpired :
    Except JournalError GcReport × Journal :=
  j.txn call fun j =>
    match call.now.subSeconds? cfg.clockSkewS with
    | none => .error .overflow
    | some cutoff =>
      let j := j.advanceWatermark j.sessionEpoch call.now.unixMs
      let expired := j.authorizations.filter (·.expiresAt ≤ cutoff)
      let dead (t : Tombstone) : Bool := expired.any (·.attemptId = t.attemptId)
      .ok (⟨expired.length, (j.tombstones.filter dead).length, call.now.unixMs⟩, { j with
        authorizations := j.authorizations.filter (¬ ·.expiresAt ≤ cutoff)
        tombstones := j.tombstones.filter (¬dead ·) })

structure RetentionReport where
  completionsDeleted : Nat
  outboxDeleted : Nat
  tombstonesDeleted : Nat

/-- `cleanup_retention`: drop acked completions past the audit retention with their outbox rows,
and tombstones past the replay retention whose attempt has an expired authorization. -/
def cleanupRetention :
    Except JournalError RetentionReport × Journal :=
  j.txn call fun j =>
    match call.now.subSeconds? cfg.auditRetentionS, call.now.subSeconds? cfg.replayRetentionS,
        call.now.subSeconds? cfg.clockSkewS with
    | some auditCutoff, some replayCutoff, some resolvedCutoff =>
      let j := j.advanceWatermark j.sessionEpoch call.now.unixMs
      let old (c : Completion) : Bool := match c.ackedAt with
        | some at_ => at_ ≤ auditCutoff
        | none => false
      let stale (o : OutboxRow) : Bool := (j.completions.filter old).any (·.attemptId = o.attemptId)
      let resolved (t : Tombstone) : Bool := t.revokedAt ≤ replayCutoff ∧
        j.authorizations.any fun a => a.attemptId = t.attemptId ∧ a.expiresAt ≤ resolvedCutoff
      .ok (⟨(j.completions.filter old).length, (j.outbox.filter stale).length,
          (j.tombstones.filter resolved).length⟩, { j with
        completions := j.completions.filter (¬old ·)
        outbox := j.outbox.filter (¬stale ·)
        tombstones := j.tombstones.filter (¬resolved ·) })
    | _, _, _ => .error .overflow

end Journal

inductive JournalOp
  | admitAttempt (call : Call) (auth : AuthorizationDecision) (pipelineName : String)
  | validateAndAdmit (call : Call) (token : String) (args : Journal.Presented)
  | markRunning (call : Call) (attemptId : String)
  | recordTombstone (call : Call) (attemptId runId reason : String)
  | recordCompletion (call : Call) (attemptId resultJson : String) (runId : Option String)
  | recordCompletionAndEnqueue (call : Call) (attemptId resultJson : String) (runId : Option String)
  | respoolUnackedCompletions (call : Call)
  | enqueueOutbox (call : Call) (attemptId : String) (kind : OutboxKind) (payloadJson : String)
  | markAcked (call : Call) (attemptId : String)
  | recordOutboxFailure (call : Call) (seq : Nat) (lastError : String)
  | markInterruptedOnBoot (call : Call)
  | advanceSessionEpoch (call : Call)
  | recoverClockLowering (call : Call)
  | gcExpired (call : Call)
  | cleanupRetention (call : Call)
  /-- The process ends and another one opens the same database. -/
  | restart

/-- What a caller gets back: the admission outcome, or whether another method returned. -/
inductive JournalReply
  | admission (result : Except JournalError AdmissionResult)
  | done (result : Except JournalError Unit)

namespace Journal

def plain {α : Type} (r : Except JournalError α × Journal) : JournalReply × Journal :=
  (.done (r.1.map fun _ => ()), r.2)

def step (digests : Digests) (j : Journal) : JournalOp → JournalReply × Journal
  | .admitAttempt call auth pipelineName =>
    let r := j.admitAttempt cfg call auth pipelineName
    (.admission r.1, r.2)
  | .validateAndAdmit call token args =>
    let r := j.validateAndAdmit cfg digests call token args
    (.admission r.1, r.2)
  | .markRunning call attemptId => plain (j.markRunning call attemptId)
  | .recordTombstone call attemptId runId reason =>
    plain (j.recordTombstone call attemptId runId reason)
  | .recordCompletion call attemptId resultJson runId =>
    plain (j.recordCompletion call attemptId resultJson runId)
  | .recordCompletionAndEnqueue call attemptId resultJson runId =>
    plain (j.recordCompletionAndEnqueue call attemptId resultJson runId)
  | .respoolUnackedCompletions call => plain (j.respoolUnackedCompletions call)
  | .enqueueOutbox call attemptId kind payloadJson =>
    plain (j.enqueueOutbox call attemptId kind payloadJson)
  | .markAcked call attemptId => plain (j.markAcked call attemptId)
  | .recordOutboxFailure call seq lastError => plain (j.recordOutboxFailure call seq lastError)
  | .markInterruptedOnBoot call => plain (j.markInterruptedOnBoot call)
  | .advanceSessionEpoch call => plain (j.advanceSessionEpoch call)
  | .recoverClockLowering call => plain (j.recoverClockLowering call)
  | .gcExpired call => plain (j.gcExpired cfg call)
  | .cleanupRetention call => plain (j.cleanupRetention cfg call)
  | .restart => (.done (.ok ()), j)

end Journal
end Tram.Agent
