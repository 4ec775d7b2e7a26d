import Tram.Executor.SourceCalls

/-! # The barrier of a unit, call by call

`_finalize_batch_source_unit` with all it asks for and all it tells the source: the commits of the
sinks, the checkpoint gate, `source.ack` and `source.finalize`; and what an SFTP source does with
its file when it is told. The barrier of the loops is this one with the answers summed up. -/

namespace Tram.Executor

open Procedure (bind_run_error bind_run_ok get_run modify_run pure_run raise_run)

/-- `SinkCommitReceipt` -/
structure Receipt where
  sinkKey : String
  confirmed : Bool
  notes : String
  deriving DecidableEq, Repr

/-- A sink at the barrier: what `commit` returns or raises, and what `latched_error` does. A sink
need not have either method. -/
structure BarrierSink where
  commit : Option (Except String Receipt)
  latchedError : Option (Except String (Option String))

/-- The first loop of `_commit_sinks_receipts`. -/
def collectReceipts : List BarrierSink → Except String (List Receipt)
  | [] => .ok []
  | sink :: sinks =>
    match sink.commit with
    | none => collectReceipts sinks
    | some (.error text) => .error s!"Sink commit failed: {text}"
    | some (.ok receipt) =>
      match collectReceipts sinks with
      | .ok receipts => .ok (receipt :: receipts)
      | .error text => .error text

/-- The second loop. -/
def unconfirmedReceipt (receipts : List Receipt) : Option String :=
  (receipts.find? (!·.confirmed)).map fun r => s!"Sink commit unconfirmed: {r.sinkKey}: {r.notes}"

/-- The third loop. -/
def latchedFailure : List BarrierSink → Option String
  | [] => none
  | sink :: sinks =>
    match sink.latchedError with
    | some (.error text) => some s!"Sink latched_error check failed: {text}"
    | some (.ok (some text)) => some s!"Sink has a latched delivery failure: {text}"
    | some (.ok none) => latchedFailure sinks
    | none => latchedFailure sinks

/-- Why `_commit_sinks_receipts` has no receipts, if it has none. -/
def commitFailure (sinks : List BarrierSink) : Option String :=
  match collectReceipts sinks with
  | .error text => some text
  | .ok receipts => unconfirmedReceipt receipts <|> latchedFailure sinks

structure CheckpointResult where
  alreadyCommitted : Bool
  stateRevision : Option Nat
  deriving DecidableEq, Repr

/-- `_CheckpointGate`: whether the contract is strict and a client is wired, with the durable
identity of the unit and the manager's answer, an error being a `CheckpointError`. -/
structure CheckpointGate where
  strict : Bool
  client : Bool
  unitId : Option String
  answer : Except String CheckpointResult

variable (gate : CheckpointGate)

def CheckpointGate.confirms : Bool :=
  !gate.strict || (gate.client && gate.unitId.isSome && gate.answer.isOk)

/-! ## The barrier -/

inductive SourceCall where
  | ack (info : Meta) (disposition : AckDisposition)
  | finalize (info : Meta) (success : Bool)
  deriving DecidableEq, Repr

/-- What the barrier changes: the accounting, if there is one, with its state revision, whether
the transforms were put back to their committed state, and the calls on the source. -/
structure BarrierState where
  delivery : Option Delivery
  stateRevision : Nat
  restored : Bool
  calls : List SourceCall

def BarrierState.start (delivery : Option Delivery) (stateRevision : Nat) : BarrierState :=
  ⟨delivery, stateRevision, false, []⟩

/-- A call of `_finalize_batch_source_unit`; `finalized` is what the source raises when it is
told. -/
structure UnitBarrier where
  onError : OnError
  sinks : List BarrierSink
  key : UnitKey
  info : Meta
  unit : Option UnitOutcome
  finalizeSource : Bool
  checkpointer : Option CheckpointGate
  finalized : Option Fault

namespace UnitBarrier

abbrev Step (α : Type) := Procedure BarrierState Failure α

/-- `_commit_sinks_receipts`, with the policy of `_commit_failure`. -/
def commitSinksReceipts (onError : OnError) (sinks : List BarrierSink) : Step Bool :=
  match commitFailure sinks with
  | none => pure true
  | some text => if onError = .continues then pure false else .raise (.tram .commit text)

def takeUnit (key : UnitKey) : Step (Option UnitOutcome) := fun b =>
  match b.delivery with
  | none => (.ok none, b)
  | some d => (.ok (d.units.lookup key), { b with delivery := some (d.dropUnit key) })

/-- A checkpoint that cannot be confirmed: pending under the strict contract. -/
def unconfirmed : Step Bool := fun b =>
  (.ok (!gate.strict),
    if gate.strict then { b with delivery := b.delivery.map (·.recordCheckpointPending) } else b)

def confirmed (result : CheckpointResult) : Step Bool := fun b =>
  (.ok true,
    { b with
      stateRevision := if b.delivery.isSome then result.stateRevision.getD b.stateRevision
        else b.stateRevision
      restored := b.restored || result.alreadyCommitted })

def checkUnit : Step Bool :=
  if gate.client then
    match gate.unitId with
    | none => unconfirmed gate
    | some _ =>
      match gate.answer with
      | .error _ => unconfirmed gate
      | .ok result => confirmed result
  else unconfirmed gate

/-- `_ack_source_unit`: what the source raises is only logged. -/
def ackSourceUnit (info : Meta) (disposition : AckDisposition) : Step Unit :=
  .modify fun b => { b with calls := b.calls ++ [.ack info disposition] }

/-- The gate is asked for delivered units only. -/
def acknowledge (u : UnitBarrier) : Option AckDisposition → Step Unit
  | none => pure ()
  | some .delivered =>
    match u.checkpointer with
    | none => ackSourceUnit u.info .delivered
    | some gate => do
      let passed ← checkUnit gate
      if passed then ackSourceUnit u.info .delivered else pure ()
  | some disposition => ackSourceUnit u.info disposition

def answer (u : UnitBarrier) : Except Failure Unit :=
  match u.finalized with
  | none => .ok ()
  | some fault => .error (fault.failure .source)

def finalizeCall (u : UnitBarrier) (success : Bool) : Step Unit := fun b =>
  (u.answer, { b with calls := b.calls ++ [.finalize u.info success] })

/-- The barrier once it is known whether the sinks committed. -/
def afterCommit (u : UnitBarrier) (commitOk : Bool) : Step Unit := do
  let taken ← takeUnit u.key
  u.acknowledge
    (if commitOk && u.finalizeSource then (taken <|> u.unit).bind (·.disposition u.onError)
    else none)
  if u.finalizeSource then u.finalizeCall commitOk else pure ()

def finalizeBatchSourceUnit (u : UnitBarrier) : Step Unit := do
  let commitOk ← commitSinksReceipts u.onError u.sinks
  u.afterCommit commitOk

/-! ## What the barrier does -/

def outcome (u : UnitBarrier) (delivery : Option Delivery) : Option UnitOutcome :=
  delivery.bind (·.units.lookup u.key) <|> u.unit

def passes (u : UnitBarrier) : Bool := u.checkpointer.all (·.confirms)

def admitted (u : UnitBarrier) : Option AckDisposition → Option AckDisposition
  | none => none
  | some .delivered => if u.passes then some .delivered else none
  | some disposition => some disposition

def decision (u : UnitBarrier) (delivery : Option Delivery) : Option AckDisposition :=
  u.admitted ((u.outcome delivery).bind (·.disposition u.onError))

def offered (u : UnitBarrier) (commitOk : Bool) (delivery : Option Delivery) : Option AckDisposition :=
  if commitOk && u.finalizeSource then (u.outcome delivery).bind (·.disposition u.onError) else none

def callsMade (u : UnitBarrier) (delivery : Option Delivery) : List SourceCall :=
  if u.finalizeSource then
    match commitFailure u.sinks with
    | none => (u.decision delivery).toList.map (.ack u.info) ++ [.finalize u.info true]
    | some _ => if u.onError = .continues then [.finalize u.info false] else []
  else []

variable {u : UnitBarrier}

theorem checkUnit_cases :
    (gate.confirms = !gate.strict ∧ checkUnit gate = unconfirmed gate) ∨
      (gate.confirms = true ∧ ∃ result, checkUnit gate = confirmed result) := by
  unfold checkUnit
  split_ifs with hclient
  · cases hid : gate.unitId with
    | none => exact .inl ⟨by simp [CheckpointGate.confirms, hid], rfl⟩
    | some id =>
      cases hanswer : gate.answer with
      | error text =>
        exact .inl ⟨by simp [CheckpointGate.confirms, hanswer, Except.isOk, Except.toBool], rfl⟩
      | ok result =>
        refine .inr ⟨?_, result, rfl⟩
        simp [CheckpointGate.confirms, hclient, hid, hanswer, Except.isOk, Except.toBool]
  · exact .inl ⟨by simp [CheckpointGate.confirms, hclient], rfl⟩

theorem checkUnit_run (b : BarrierState) :
    ∃ t, checkUnit gate b = (.ok gate.confirms, t) ∧ t.calls = b.calls ∧
      t.delivery = if gate.confirms then b.delivery
        else b.delivery.map (·.recordCheckpointPending) := by
  rcases checkUnit_cases gate with ⟨hconfirms, hrun⟩ | ⟨hconfirms, result, hrun⟩
  · rw [hrun, hconfirms]
    refine ⟨_, rfl, ?_⟩
    cases gate.strict <;> exact ⟨rfl, rfl⟩
  · rw [hrun, hconfirms]
    exact ⟨_, rfl, rfl, rfl⟩

theorem acknowledge_run (o : Option AckDisposition) (b : BarrierState) :
    ∃ t, u.acknowledge o b = (.ok (), t) ∧
      t.calls = b.calls ++ (u.admitted o).toList.map (.ack u.info) ∧
      t.delivery = if o = some .delivered ∧ u.passes = false then
        b.delivery.map (·.recordCheckpointPending) else b.delivery := by
  cases o with
  | none => exact ⟨b, rfl, by simp [admitted], by simp⟩
  | some disposition =>
    cases disposition with
    | delivered =>
      cases hgate : u.checkpointer with
      | none =>
        have hpasses : u.passes = true := by simp [passes, hgate]
        refine ⟨{ b with calls := b.calls ++ [.ack u.info .delivered] }, ?_, ?_⟩
        · simp only [acknowledge, hgate]
          rfl
        · simp [admitted, hpasses]
      | some gate =>
        have hpasses : u.passes = gate.confirms := by simp [passes, hgate]
        obtain ⟨t, hrun, hcalls, hdelivery⟩ := checkUnit_run gate b
        simp only [acknowledge, hgate]
        rw [bind_run_ok hrun, hpasses]
        cases hconfirms : gate.confirms with
        | true =>
          refine ⟨_, rfl, ?_⟩
          simp [admitted, hpasses, hcalls, hdelivery, hconfirms]
        | false =>
          refine ⟨t, rfl, ?_⟩
          simp [admitted, hpasses, hcalls, hdelivery, hconfirms]
    | filtered | dlq | dropped => exact ⟨_, rfl, by simp [admitted], by simp⟩

theorem takeUnit_run (key : UnitKey) (b : BarrierState) :
    ∃ t, takeUnit key b = (.ok (b.delivery.bind (·.units.lookup key)), t) ∧ t.calls = b.calls ∧
      t.delivery = b.delivery.map (·.dropUnit key) := by
  unfold takeUnit
  cases hd : b.delivery with
  | none => exact ⟨b, rfl, rfl, hd⟩
  | some d => exact ⟨_, rfl, rfl, rfl⟩

theorem afterCommit_run (commitOk : Bool) (b : BarrierState) :
    ∃ t, u.afterCommit commitOk b = (if u.finalizeSource then u.answer else .ok (), t) ∧
      t.calls = b.calls ++ (u.admitted (u.offered commitOk b.delivery)).toList.map (.ack u.info) ++
        (if u.finalizeSource then [.finalize u.info commitOk] else []) ∧
      t.delivery = if u.offered commitOk b.delivery = some .delivered ∧ u.passes = false then
        (b.delivery.map (·.dropUnit u.key)).map (·.recordCheckpointPending)
        else b.delivery.map (·.dropUnit u.key) := by
  obtain ⟨v, htake, hcalls, hdelivery⟩ := takeUnit_run u.key b
  obtain ⟨w, hack, hacks, hpending⟩ := acknowledge_run (u := u) (u.offered commitOk b.delivery) v
  have hrun : u.afterCommit commitOk b = (if u.finalizeSource then u.finalizeCall commitOk
      else pure () : Step Unit) w := by
    rw [afterCommit, bind_run_ok htake]
    exact bind_run_ok hack _
  rw [hrun, ← hcalls, ← hdelivery, ← hacks, ← hpending]
  cases u.finalizeSource with
  | false => exact ⟨w, rfl, (List.append_nil _).symm, rfl⟩
  | true => exact ⟨_, rfl, rfl, rfl⟩

theorem finalizeBatchSourceUnit_calls (u : UnitBarrier) (b : BarrierState) :
    (u.finalizeBatchSourceUnit b).2.calls = b.calls ++ u.callsMade b.delivery := by
  unfold finalizeBatchSourceUnit callsMade commitSinksReceipts
  cases commitFailure u.sinks with
  | none =>
    obtain ⟨t, hrun, hcalls, -⟩ := afterCommit_run (u := u) true b
    rw [bind_run_ok (pure_run true b), hrun, hcalls]
    cases hwhole : u.finalizeSource <;> simp [offered, decision, admitted, hwhole]
  | some text =>
    obtain ⟨t, hrun, hcalls, -⟩ := afterCommit_run (u := u) false b
    by_cases hpolicy : u.onError = .continues
    · simp only [if_pos hpolicy]
      rw [bind_run_ok (pure_run false b), hrun, hcalls]
      split_ifs with hwhole <;> simp [offered, admitted, hwhole]
    · simp only [if_neg hpolicy]
      rw [bind_run_error (raise_run _ b)]
      simp

/-! ## The barrier of the loops -/

def barrier (u : UnitBarrier) : Barrier := ⟨commitFailure u.sinks, u.passes, u.finalized⟩

def acksOf (calls : List SourceCall) : List (Meta × AckDisposition) :=
  calls.filterMap fun
    | .ack info disposition => some (info, disposition)
    | .finalize _ _ => none

def finalizesOf (calls : List SourceCall) : List (Meta × Bool) :=
  calls.filterMap fun
    | .ack _ _ => none
    | .finalize info success => some (info, success)

variable {ρ : Type}

theorem decideUnit_run (info : Meta) (o : Option AckDisposition) (s : State ρ) :
    decideUnit info u.passes o s = (.ok (),
      { s with
        delivery := if o = some .delivered ∧ u.passes = false then s.delivery.recordCheckpointPending
          else s.delivery
        acks := s.acks ++ (u.admitted o).toList.map (Prod.mk info) }) := by
  cases o with
  | none => simp [decideUnit, admitted, pure_run]
  | some disposition =>
    cases disposition with
    | delivered =>
      cases hpasses : u.passes with
      | true => simp [decideUnit, admitted, hpasses, Executor.ackSourceUnit, modify_run]
      | false =>
        simp [decideUnit, admitted, hpasses, modify_run, State.onDelivery]
    | filtered | dlq | dropped => simp [decideUnit, admitted, Executor.ackSourceUnit, modify_run]

theorem finalizeSource_run (success : Bool) (s : State ρ) :
    (if u.finalizeSource then Executor.finalizeSource u.info success u.finalized
      else pure () : Exec ρ Unit) s =
      (if u.finalizeSource then u.answer else .ok (), { s with
        finalized := s.finalized ++ if u.finalizeSource then [(u.info, success)] else [] }) := by
  cases u.finalizeSource with
  | false => simp [pure_run]
  | true =>
    simp only [if_true, Executor.finalizeSource]
    rw [bind_run_ok (modify_run _ s)]
    cases hfault : u.finalized <;> simp [answer, hfault, pure_run, raise_run, State.finalize]

theorem afterCommit_refines (p : Pipeline ρ) (hpolicy : u.onError = p.onError) (commitOk : Bool)
    (revision : Nat) (s : State ρ) :
    (do
      let s ← .get
      .modify (·.onDelivery (·.dropUnit u.key))
      decideUnit u.info u.passes
        (if commitOk && u.finalizeSource then
          (s.delivery.units.lookup u.key <|> u.unit).bind (·.disposition p.onError)
        else none)
      if u.finalizeSource then Executor.finalizeSource u.info commitOk u.finalized
      else pure () : Exec ρ Unit) s =
      let r := u.afterCommit commitOk (.start (some s.delivery) revision)
      (r.1, { s with
        delivery := r.2.delivery.getD s.delivery
        acks := s.acks ++ acksOf r.2.calls
        finalized := s.finalized ++ finalizesOf r.2.calls }) := by
  obtain ⟨t, hrun, hcalls, hdelivery⟩ :=
    afterCommit_run (u := u) commitOk (.start (some s.delivery) revision)
  dsimp only
  rw [hrun, hcalls, hdelivery, bind_run_ok (get_run s),
    bind_run_ok (modify_run _ s), ← hpolicy]
  have hoffered : (if commitOk && u.finalizeSource then
      (s.delivery.units.lookup u.key <|> u.unit).bind (·.disposition u.onError) else none) =
        u.offered commitOk (some s.delivery) := rfl
  rw [hoffered, bind_run_ok (decideUnit_run _ _ _), finalizeSource_run]
  have hcalls : ∀ o : Option AckDisposition,
      acksOf ([] ++ o.toList.map (.ack u.info) ++
        (if u.finalizeSource then [.finalize u.info commitOk] else [])) =
        o.toList.map (Prod.mk u.info) ∧
      finalizesOf ([] ++ o.toList.map (.ack u.info) ++
        (if u.finalizeSource then [.finalize u.info commitOk] else [])) =
        if u.finalizeSource then [(u.info, commitOk)] else [] := by
    intro o
    cases o <;> cases u.finalizeSource <;> exact ⟨rfl, rfl⟩
  have hdelivery : ∀ pending : Prop, ∀ [Decidable pending],
      (if pending then ((some s.delivery).map (·.dropUnit u.key)).map (·.recordCheckpointPending)
        else (some s.delivery).map (·.dropUnit u.key)).getD s.delivery =
      if pending then (s.delivery.dropUnit u.key).recordCheckpointPending
        else s.delivery.dropUnit u.key := by
    intro pending _
    split_ifs <;> rfl
  rw [show (BarrierState.start (some s.delivery) revision).delivery = some s.delivery from rfl,
    hdelivery, show (BarrierState.start (some s.delivery) revision).calls = [] from rfl,
    (hcalls _).1, (hcalls _).2]
  rfl

/-- The barrier of the loops is this barrier: it raises the same, leaves the same accounting,
acknowledges the same units and tells the source of the same. -/
theorem finalizeBatchSourceUnit_refines (p : Pipeline ρ) (call : UnitBarrier) (revision : Nat)
    (s : State ρ) :
    let u := { call with onError := p.onError }
    let r := u.finalizeBatchSourceUnit (.start (some s.delivery) revision)
    Executor.finalizeBatchSourceUnit p u.key u.info u.unit u.finalizeSource u.barrier s =
        (r.1, { s with
          delivery := r.2.delivery.getD s.delivery
          acks := s.acks ++ acksOf r.2.calls
          finalized := s.finalized ++ finalizesOf r.2.calls }) := by
  intro u r
  have hpolicy : u.onError = p.onError := rfl
  cases hcommit : commitFailure u.sinks with
  | none =>
    have hr : r = u.afterCommit true (.start (some s.delivery) revision) := by
      simp only [r, finalizeBatchSourceUnit, commitSinksReceipts, hcommit]
      rfl
    rw [hr, ← afterCommit_refines p hpolicy]
    simp only [Executor.finalizeBatchSourceUnit, commitSinks, barrier, hcommit]
    rfl
  | some text =>
    by_cases hcontinue : p.onError = .continues
    · have hr : r = u.afterCommit false (.start (some s.delivery) revision) := by
        simp only [r, finalizeBatchSourceUnit, commitSinksReceipts, hcommit, hpolicy, if_pos hcontinue]
        rfl
      rw [hr, ← afterCommit_refines p hpolicy]
      simp only [Executor.finalizeBatchSourceUnit, commitSinks, barrier, hcommit, if_pos hcontinue]
      rfl
    · have hr : r = (.error (.tram .commit text), .start (some s.delivery) revision) := by
        simp only [r, finalizeBatchSourceUnit, commitSinksReceipts, hcommit, hpolicy, if_neg hcontinue]
        rfl
      rw [hr]
      simp only [Executor.finalizeBatchSourceUnit, commitSinks, barrier, hcommit, if_neg hcontinue]
      rw [bind_run_error (raise_run _ s)]
      simp [BarrierState.start, acksOf, finalizesOf]

end UnitBarrier
end Tram.Executor
