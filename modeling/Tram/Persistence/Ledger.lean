import Mathlib.Data.List.MinMax
import Tram.Lib.Dict
import Tram.Lib.Numeral

/-! # The manager's execution ledger

Three tables: the guards (one row per pipeline, free or held by an attempt), the attempts and
the run intents. Each function here is one transaction of the source. A conditional `UPDATE`
changes the row it names only when its fence matches; the number of rows changed is the
authority, so a transaction that needs it returns it. Instants are natural numbers. -/

namespace Tram

inductive AttemptState where
  | claimed | dispatching | running | stopping | unknown | terminal
  deriving DecidableEq, Repr

/-- `state IN ('claimed', 'dispatching', 'running')` -/
def AttemptState.inFlight : AttemptState → Bool
  | .claimed | .dispatching | .running => true
  | .stopping | .unknown | .terminal => false

inductive GuardKind where
  | batch | streamSlot
  deriving DecidableEq, Repr

inductive Origin where
  | manual | scheduled | queued
  deriving DecidableEq, Repr

inductive ScheduleType where
  | manual | interval | cron | stream
  deriving DecidableEq, Repr

/-- The domain of `run_intents.final_outcome`; `partly` is the source's "partial". -/
inductive IntentOutcome where
  | success | partly | failed | aborted | expired | superseded
  deriving DecidableEq, Repr

/-- The attempt that holds a guard. The three columns are set and cleared together. -/
structure Holder where
  runId : String
  attemptId : String
  generation : Nat
  deriving DecidableEq, Repr

/-- A row of `execution_guards`. -/
structure GuardRow where
  kind : GuardKind
  holder : Option Holder
  deriving DecidableEq, Repr

/-- A row of `execution_attempts`, under its `attempt_id`. -/
structure Attempt where
  runId : String
  pipelineName : String
  ordinal : Nat
  generation : Nat
  slotId : String
  workerId : Option String
  fenceToken : String
  state : AttemptState
  dispatchSentAt : Option Nat
  acceptedAt : Option Nat
  finishedAt : Option Nat
  uncertaintyReason : Option String
  cancelReason : Option String
  deriving DecidableEq, Repr

/-- A row of `run_intents`, under its `run_id`. -/
structure RunIntent where
  pipelineName : String
  origin : Origin
  flush : Bool
  requestedAt : Nat
  expiresAt : Option Nat
  requestedGeneration : Nat
  yamlSnapshot : Option String
  scheduleType : ScheduleType
  finalOutcome : Option IntentOutcome
  finalAttemptId : Option String
  resolvedAt : Option Nat
  deriving DecidableEq, Repr

structure Ledger where
  guards : Dict String GuardRow
  attempts : Dict String Attempt
  intents : Dict String RunIntent
  deriving DecidableEq

/-- `attempt_id = run_id + '-a' + N`, unpadded decimal. -/
def mintAttemptId (runId : String) (ordinal : Nat) : String := runId ++ "-a" ++ toString ordinal

theorem mintAttemptId_inj {r r' : String} {n n' : Nat}
    (h : mintAttemptId r n = mintAttemptId r' n') : r = r' ∧ n = n' := by
  have hchars : (r.toList ++ ['-']) ++ 'a' :: Nat.toDigits 10 n =
      (r'.toList ++ ['-']) ++ 'a' :: Nat.toDigits 10 n' := by
    simpa [mintAttemptId] using congrArg String.toList h
  obtain ⟨hstem, hnum⟩ := Numeral.append_toDigits_inj (by decide) hchars
  exact ⟨String.toList_injective (List.append_cancel_right hstem), hnum⟩

namespace Ledger

variable (l : Ledger)

/-- The holder of a guard; a guard with no row is free. -/
def holder? (guardKey : String) : Option Holder := (l.guards.lookup guardKey).bind (·.holder)

/-! ## Claims -/

inductive ClaimStatus where
  | claimed | alreadyHeld | lost | noIntent
  deriving DecidableEq, Repr

structure ClaimOutcome where
  status : ClaimStatus
  attemptId : String
  runId : String
  pipelineName : String
  ordinal : Nat
  generation : Nat
  slotId : String
  fenceToken : Option String
  deriving DecidableEq, Repr

/-- The arguments of `claim_run`; `fenceToken` is the UUID it draws. -/
structure ClaimRequest where
  guardKey : String
  guardKind : GuardKind
  pipelineName : String
  runId : String
  generation : Nat
  ordinal : Nat
  slotId : String
  yamlSnapshot : Option String
  fenceToken : String
  deriving DecidableEq, Repr

/-- `busy` is a lock that was not granted in time, `integrity` a violated key. -/
inductive DbError where
  | busy | operational | integrity
  deriving DecidableEq, Repr

def ClaimRequest.attemptId (req : ClaimRequest) : String := mintAttemptId req.runId req.ordinal

def ClaimRequest.outcome (req : ClaimRequest) (status : ClaimStatus) : ClaimOutcome where
  status := status
  attemptId := req.attemptId
  runId := req.runId
  pipelineName := req.pipelineName
  ordinal := req.ordinal
  generation := req.generation
  slotId := req.slotId
  fenceToken := if status = .claimed then some req.fenceToken else none

def ClaimRequest.holder (req : ClaimRequest) : Holder := ⟨req.runId, req.attemptId, req.generation⟩

def ClaimRequest.row (req : ClaimRequest) : Attempt where
  runId := req.runId
  pipelineName := req.pipelineName
  ordinal := req.ordinal
  generation := req.generation
  slotId := req.slotId
  workerId := none
  fenceToken := req.fenceToken
  state := .claimed
  dispatchSentAt := none
  acceptedAt := none
  finishedAt := none
  uncertaintyReason := none
  cancelReason := none

/-- `INSERT INTO execution_guards ... ON CONFLICT DO NOTHING` -/
def insertGuard (guardKey : String) (kind : GuardKind) : Ledger :=
  { l with guards := Dict.setdefault l.guards guardKey ⟨kind, none⟩ }

/-- `UPDATE execution_guards ... WHERE guard_key = :guard_key AND attempt_id IS NULL` -/
def acquireGuard (guardKey : String) (h : Holder) : Nat × Ledger :=
  match l.guards.lookup guardKey with
  | some g =>
    if g.holder.isNone then
      (1, { l with guards := l.guards.insert guardKey { g with holder := some h } })
    else (0, l)
  | none => (0, l)

/-- `UPDATE run_intents SET yaml_snapshot = COALESCE(:yaml_snapshot, yaml_snapshot) ...` -/
def claimIntent (runId : String) (yamlSnapshot : Option String) : Nat × Ledger :=
  match l.intents.lookup runId with
  | some i =>
    if i.finalOutcome.isNone then
      (1, { l with
        intents := l.intents.insert runId
          { i with yamlSnapshot := yamlSnapshot.or i.yamlSnapshot } })
    else (0, l)
  | none => (0, l)

/-- `INSERT INTO execution_attempts`; the keys are `attempt_id` and `(run_id, ordinal)`. -/
def insertAttempt (attemptId : String) (row : Attempt) : Except DbError Ledger :=
  if (l.attempts.lookup attemptId).isSome ||
      l.attempts.entries.any (fun e => e.2.runId == row.runId && e.2.ordinal == row.ordinal) then
    .error .integrity
  else .ok { l with attempts := l.attempts.insert attemptId row }

/-- The body of `claim_run`, inside the transaction. -/
def claimBody (req : ClaimRequest) (l : Ledger) : Except DbError (ClaimOutcome × Ledger) :=
  let l₁ := l.insertGuard req.guardKey req.guardKind
  let (acquired, l₂) := l₁.acquireGuard req.guardKey req.holder
  if acquired ≠ 1 then
    match l₂.holder? req.guardKey with
    | some h =>
      if h.attemptId = req.attemptId ∧ h.runId = req.runId then
        .ok (req.outcome .alreadyHeld, l₂)
      else .ok (req.outcome .lost, l₂)
    | none => .ok (req.outcome .lost, l₂)
  else
    let (claimed, l₃) := l₂.claimIntent req.runId req.yamlSnapshot
    if claimed ≠ 1 then .ok (req.outcome .noIntent, l₃)
    else
      match l₃.insertAttempt req.attemptId req.row with
      | .error e => .error e
      | .ok l₄ => .ok (req.outcome .claimed, l₄)

/-- `_in_claim_txn`: commit only on `CLAIMED`, roll back on every other outcome and on every
exception. `fault` is the error that `BEGIN`, a statement, `COMMIT` or `ROLLBACK` raised, if one
did; a `COMMIT` that raises has not committed and is rolled back. -/
def inClaimTxn (fault : Option DbError)
    (fn : Ledger → Except DbError (ClaimOutcome × Ledger)) : Except DbError ClaimOutcome × Ledger :=
  match fault with
  | some e => (.error e, l)
  | none =>
    match fn l with
    | .error e => (.error e, l)
    | .ok (outcome, l') => (.ok outcome, if outcome.status = .claimed then l' else l)

def claimRun (req : ClaimRequest) (fault : Option DbError) :
    Except DbError ClaimOutcome × Ledger :=
  l.inClaimTxn fault (claimBody req)

/-! ## Guards, attempts and intents -/

/-- `release_guard`: compared by identity. -/
def releaseGuard (guardKey attemptId runId : String) : Ledger :=
  { l with
    guards := Dict.modify l.guards guardKey fun g =>
      { g with holder := g.holder.filter fun h => !(h.attemptId = attemptId ∧ h.runId = runId) } }

/-- A conditional update of one attempt row. -/
def updateAttempt (attemptId : String) (fence : Attempt → Bool)
    (set : Attempt → Attempt) : Ledger :=
  { l with attempts := Dict.modify l.attempts attemptId fun a => if fence a then set a else a }

def transitionAttempt (attemptId runId : String) (fromState toState : AttemptState)
    (generation : Nat) : Ledger :=
  l.updateAttempt attemptId
    (fun a => a.runId = runId ∧ a.state = fromState ∧ a.generation = generation)
    fun a => { a with state := toState }

def resolveIntent (runId : String) (outcome : IntentOutcome) (attemptId : String)
    (now : Nat) : Ledger :=
  { l with
    intents := Dict.modify l.intents runId fun i =>
      if i.finalOutcome.isNone then
        { i with finalOutcome := some outcome, finalAttemptId := some attemptId, resolvedAt := some now }
      else i }

/-- `_ensure_run_intent`: insert, or refresh the generation of an unresolved row. -/
def ensureRunIntent (runId : String) (new : RunIntent) : Ledger :=
  { l with
    intents :=
      match l.intents.lookup runId with
      | none => l.intents.insert runId new
      | some i =>
        if i.finalOutcome.isNone then
          l.intents.insert runId { i with requestedGeneration := new.requestedGeneration }
        else l.intents }

def nextAttemptOrdinal (runId : String) : Nat :=
  ((l.attempts.entries.filter fun e => e.2.runId = runId).map fun e => e.2.ordinal).foldr max 0 + 1

/-- `_active_attempt_for_run`: the newest attempt of the run that is not terminal. -/
def activeAttemptForRun (runId : String) : Option (Σ _ : String, Attempt) :=
  (l.attempts.entries.filter fun e => e.2.runId = runId ∧ e.2.state ≠ .terminal).argmax
    fun e => e.2.ordinal

def markAttemptDispatching (attemptId runId : String) (generation now : Nat) : Ledger :=
  l.updateAttempt attemptId
    (fun a => a.runId = runId ∧ a.state = .claimed ∧ a.generation = generation)
    fun a => { a with state := .dispatching, dispatchSentAt := some now }

def markAttemptRunning (attemptId runId : String) (generation now : Nat) : Ledger :=
  l.updateAttempt attemptId
    (fun a => a.runId = runId ∧ a.state = .dispatching ∧ a.generation = generation)
    fun a => { a with state := .running, acceptedAt := some now }

def markAttemptUnknown (attemptId runId : String) (generation : Nat)
    (reason : String) : Ledger :=
  l.updateAttempt attemptId
    (fun a => a.runId = runId ∧ a.generation = generation ∧
      (a.state = .dispatching ∨ a.state = .running))
    fun a => { a with state := .unknown, uncertaintyReason := some reason }

def recordAttemptWorker (attemptId runId : String) (generation : Nat)
    (workerId : String) : Ledger :=
  l.updateAttempt attemptId (fun a => a.runId = runId ∧ a.generation = generation)
    fun a => { a with workerId := some workerId }

/-- `_terminalize_attempt`: three statements in one transaction, each with its own fence. The
release of the guard is not fenced on the state of the attempt. -/
def terminalizeAttempt (attemptId runId pipelineName : String) (generation : Nat)
    (resolveOutcome : Option IntentOutcome) (cancelReason : Option String) (now : Nat) : Ledger :=
  let l₁ := l.updateAttempt attemptId
    (fun a => a.runId = runId ∧ a.generation = generation ∧ a.state.inFlight)
    fun a =>
      { a with
        state := .terminal
        finishedAt := some now
        cancelReason := cancelReason.or a.cancelReason }
  let l₂ :=
    match resolveOutcome with
    | some outcome => l₁.resolveIntent runId outcome attemptId now
    | none => l₁
  l₂.releaseGuard pipelineName attemptId runId

def terminalizeActive (runId : String) (resolveOutcome : Option IntentOutcome)
    (cancelReason : Option String) (now : Nat) : Ledger :=
  match l.activeAttemptForRun runId with
  | none => l
  | some e =>
    l.terminalizeAttempt e.1 runId e.2.pipelineName e.2.generation resolveOutcome cancelReason now

def hasActiveAttempt (runId : String) : Bool :=
  l.attempts.entries.any fun e => e.2.runId == runId && e.2.state != .terminal

/-- The intent half of `_terminal_cancel_pipeline_queued`: unresolved intents of the pipeline
that no live attempt owns. -/
def cancelPipelineIntents (pipelineName : String) (now : Nat) : Ledger :=
  { l with
    intents := Dict.mapVal l.intents fun runId i =>
      if i.pipelineName = pipelineName ∧ i.finalOutcome.isNone ∧ !l.hasActiveAttempt runId then
        { i with finalOutcome := some .aborted, resolvedAt := some now }
      else i }

def pruneOrphanedRunIntents (pipelineName : String) (now : Nat) : Ledger :=
  { l with
    intents := Dict.mapVal l.intents fun _ i =>
      if i.pipelineName = pipelineName ∧ i.finalOutcome.isNone then
        { i with finalOutcome := some .aborted, resolvedAt := some now }
      else i }

/-- `_prune_ledger_audit`: terminal attempts and resolved intents older than the cutoff. -/
def pruneLedgerAudit (cutoff : Nat) : Ledger :=
  { l with
    attempts := Dict.retain l.attempts fun _ a =>
      !(a.state = .terminal && a.finishedAt.any (· < cutoff))
    intents := Dict.retain l.intents fun _ i =>
      !(i.finalOutcome.isSome && i.resolvedAt.any (· < cutoff)) }

def empty : Ledger := ⟨∅, ∅, ∅⟩

end Ledger

end Tram
