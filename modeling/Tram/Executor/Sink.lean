import Tram.Executor.State
import Tram.Lib.Grouping
import Tram.Lib.Numeral

/-! # From decoded records to the sinks

`_process_records`: the global transforms record by record, then each sink with its condition,
its own transforms, its circuit breaker, the partitions of its filename template and the attempts
of each partition. -/

namespace Tram.Executor

variable {ρ : Type}

def recordLoss (c : Account) (l : Loss) : Exec ρ Unit :=
  .modify fun s => if c.tracked then s.onDelivery (·.recordLoss c.key l) else s

variable (p : Pipeline ρ) (c : Call)

/-- What every failure does with the records it concerns. With a DLQ sink they go into an
envelope, which counts as one; without, `count` records are failed. An envelope that was not
taken is raised under "dlq" and "retry". -/
def lose (c : Account) (sink : Option Nat) (stage : Stage) (records : List ρ)
    (count : Nat) (taken : Bool) (text : String) : Exec ρ Unit :=
  if p.dlqSink then
    if taken then do
      .modify (·.emit (.enveloped sink stage records))
      recordLoss c ⟨0, 1, 0⟩
    else do
      recordLoss c ⟨0, 0, 1⟩
      if (p.onError = .dlq ∨ p.onError = .retry) ∧ c.tracked then .raise (.dlqDelivery text)
      else pure ()
  else recordLoss c ⟨count, 0, 0⟩

/-- A chain of transforms; a failure comes with the records the failing one was given. -/
def applyTransforms (now : Nat) :
    List (Transform ρ) → List ρ → Except (String × List ρ) (List ρ)
  | [], records => .ok records
  | t :: ts, records =>
    match t now records with
    | .ok out => applyTransforms now ts out
    | .error text => .error (text, records)

/-- `_apply_global_transforms`, from the nth record on. -/
def applyGlobalTransforms (p : Pipeline ρ) (c : Call) (transforms : List (Transform ρ)) :
    Nat → List ρ → Exec ρ (List ρ)
  | _, [] => pure []
  | n, record :: records =>
    match applyTransforms (c.answers.transformAt n) transforms [record] with
    | .ok out => do
      let rest ← applyGlobalTransforms p c transforms (n + 1) records
      pure (out ++ rest)
    | .error (text, _) =>
      if p.onError = .abort then .raise (.tram .transform s!"Transform error: {text}")
      else do
        lose p c.toAccount none .transform [record] 1 (c.answers.transformDlq n)
          s!"DLQ delivery failed for transform error: {text}"
        applyGlobalTransforms p c transforms (n + 1) records

/-- `_filter_by_condition`, from the nth record on. -/
def filterByCondition (cond : Condition ρ) (moment : Nat → Nat) :
    Nat → List ρ → Except Failure (List ρ)
  | _, [] => .ok []
  | n, record :: records =>
    match cond.eval (moment n) record with
    | .error text => .error (.tram .condition s!"Condition eval error: {cond.shown} — {text}")
    | .ok keep =>
      match filterByCondition cond moment (n + 1) records with
      | .error f => .error f
      | .ok kept => .ok (if keep then record :: kept else kept)

def Sink.select (sink : Sink ρ) (moment : Nat → Nat) (records : List ρ) :
    Except Failure (List ρ) :=
  match sink.condition with
  | none => .ok records
  | some cond => filterByCondition cond moment 0 records

def Pipeline.sinkCbKey (sink : Sink ρ) (i : Nat) : String :=
  p.name ++ ":" ++ sink.sinkType ++ ":" ++ toString i

/-- No two sinks of a pipeline share a breaker, whatever their types. -/
theorem Pipeline.sinkCbKey_inj {p : Pipeline ρ} {sink sink' : Sink ρ} {i j : Nat}
    (h : p.sinkCbKey sink i = p.sinkCbKey sink' j) : i = j := by
  have hchars : (p.name.toList ++ ':' :: sink.sinkType.toList) ++ ':' :: Nat.toDigits 10 i =
      (p.name.toList ++ ':' :: sink'.sinkType.toList) ++ ':' :: Nat.toDigits 10 j := by
    simpa [sinkCbKey] using congrArg String.toList h
  exact (Numeral.append_toDigits_inj (by decide) hchars).2

def State.breakerAt (s : State ρ) (p : Pipeline ρ) (c : Call) (i : Nat) (sink : Sink ρ) :
    Nat × Nat :=
  (c.answers.raced i).getD ((s.breakers.lookup (p.sinkCbKey sink i)).getD (0, 0))

def State.breakerOpen (s : State ρ) (p : Pipeline ρ) (c : Call) (i : Nat) (sink : Sink ρ) : Bool :=
  0 < sink.cbThreshold && c.answers.checkedAt i < (s.breakerAt p c i sink).2

def resetBreaker (i : Nat) (sink : Sink ρ) : Exec ρ Unit :=
  .modify fun s => if 0 < sink.cbThreshold then s.setBreaker (p.sinkCbKey sink i) (0, 0) else s

/-- One more failure; at the threshold the breaker opens. -/
def tripBreaker (i : Nat) (sink : Sink ρ) (now : Nat) : Exec ρ Unit :=
  .modify fun s =>
    if 0 < sink.cbThreshold then
      let failures := ((s.breakers.lookup (p.sinkCbKey sink i)).getD (0, 0)).1 + 1
      s.setBreaker (p.sinkCbKey sink i)
        (failures, if sink.cbThreshold ≤ failures then now + sink.cbWindow else 0)
    else s

def partitionRecords (sink : Sink ρ) (records : List ρ) : List (List ρ) :=
  if sink.fieldPaths = [] then [records]
  else (Grouping.groups (fun r => sink.fieldPaths.map (p.lookupField r)) records).map Prod.snd

/-- The attempts to write one partition: the text of the last exception if none succeeded. -/
def writeAttempts (write : Nat → Option String) : Nat → Nat → String → Option String
  | 0, _, last => some last
  | left + 1, attempt, _ =>
    match write attempt with
    | none => none
    | some text => writeAttempts write left (attempt + 1) text

/-- Whether, and with what text, the jth partition of sink `i` could not be written. -/
def partitionError (i : Nat) (sink : Sink ρ) (j : Nat) : Option String :=
  writeAttempts (c.answers.write i j) (sink.retryCount + 1).toNat 0 "None"

def partitionFailed (i : Nat) (sink : Sink ρ) (j : Nat)
    (part : List ρ) (text : String) : Exec ρ Unit := do
  tripBreaker p i sink (c.answers.trippedAt i j)
  lose p c.toAccount (some i) .sink part part.length (c.answers.partitionDlq i j)
    s!"DLQ delivery failed for sink error: {text}"
  if p.onError = .abort ∨
      (p.onError = .retry ∧ (p.dlqSink = false ∨ c.answers.partitionDlq i j = false)) then
    .raise (.tram .sinkWrite s!"Sink write error: {text}")
  else pure ()

/-- The partitions from the jth on; a partition that fails ends the sink. -/
def writePartitions (p : Pipeline ρ) (c : Call) (i : Nat) (sink : Sink ρ) :
    Nat → Nat → List (List ρ) → Exec ρ Nat
  | _, written, [] => pure written
  | j, written, part :: parts =>
    match c.answers.serialize i j with
    | some fault => .raise (fault.failure .serializer)
    | none =>
      match partitionError c i sink j with
      | none => do
        .modify (·.emit (.wrote i part))
        resetBreaker p i sink
        writePartitions p c i sink (j + 1) (written + part.length) parts
      | some text => do
        partitionFailed p c i sink j part text
        pure written

/-! ## Sinks -/

/-- An open breaker: all the records of the call are counted as failed. -/
def skipSink (i : Nat) (records : List ρ) : Exec ρ Nat := do
  recordLoss c.toAccount ⟨records.length, 0, 0⟩
  .modify (·.emit (.skipped i records))
  pure 0

/-- `_write_one_sink`: the number of records the sink wrote. -/
def writeOneSink (records : List ρ) (i : Nat) (sink : Sink ρ) :
    Exec ρ Nat :=
  match sink.select (c.answers.conditionAt i) records with
  | .error f => .raise f
  | .ok [] => pure 0
  | .ok (r :: rs) =>
    match applyTransforms (c.answers.sinkTransformAt i) sink.transforms (r :: rs) with
    | .error (text, before) =>
      if p.onError = .abort then .raise (.tram .transform s!"Transform error: {text}")
      else do
        lose p c.toAccount (some i) .transform before 1 (c.answers.sinkTransformDlq i)
          s!"DLQ delivery failed for sink transform error: {text}"
        pure 0
    | .ok [] => pure 0
    | .ok (o :: os) => do
      let s ← .get
      if s.breakerOpen p c i sink then skipSink c i records
      else writePartitions p c i sink 0 0 (partitionRecords p sink (o :: os))

/-- The sinks one after the other; the first that raises ends them. -/
def writeSinks (p : Pipeline ρ) (c : Call) (records : List ρ) :
    Nat → List (Sink ρ) → Exec ρ (List Nat)
  | _, [] => pure []
  | i, sink :: sinks => do
    let n ← writeOneSink p c records i sink
    let ns ← writeSinks p c records (i + 1) sinks
    pure (n :: ns)

/-- The sinks on a pool: each runs to its end, whatever the others raise. The call itself leaves at
the first future that raises, and the sinks after it may still be at work when it returns. -/
def runSinks (p : Pipeline ρ) (c : Call) (records : List ρ) :
    Nat → List (Sink ρ) → State ρ → List (Except Failure Nat) × State ρ
  | _, [], s => ([], s)
  | i, sink :: sinks, s =>
    let (r, t) := writeOneSink p c records i sink s
    let (rs, u) := runSinks p c records (i + 1) sinks t
    (r :: rs, u)

/-- The results of the futures in order. An exception that is no `TramError` becomes one. -/
def gather : List (Except Failure Nat) → Except Failure (List Nat)
  | [] => .ok []
  | .error (.other text) :: _ => .error (.tram .serializer s!"Sink write error: {text}")
  | .error f :: _ => .error f
  | .ok n :: rs =>
    match gather rs with
    | .ok ns => .ok (n :: ns)
    | .error f => .error f

theorem gather_ok (ns : List Nat) : gather (ns.map .ok) = .ok ns := by
  induction ns with
  | nil => rfl
  | cons n ns ih => simp [gather, ih]

def writeParallel (records : List ρ) : Exec ρ (List Nat) := fun s =>
  ((gather (runSinks p c records 0 p.sinks s).1), (runSinks p c records 0 p.sinks s).2)

/-- The sinks of the pipeline, on a pool if it is configured and there are several. -/
def fanOut (records : List ρ) : Exec ρ (List Nat) :=
  if p.parallelSinks ∧ 1 < p.sinks.length then writeParallel p c records
  else writeSinks p c records 0 p.sinks

section

variable {p : Pipeline ρ} {c : Call} {records : List ρ} {ns : List Nat} {s t : State ρ}

theorem runSinks_of_ok {i : Nat} {sinks : List (Sink ρ)}
    (h : writeSinks p c records i sinks s = (.ok ns, t)) :
    runSinks p c records i sinks s = (ns.map .ok, t) := by
  induction sinks generalizing i s ns with
  | nil => cases h; rfl
  | cons sink sinks ih =>
    obtain ⟨n, u, hone, h⟩ := Procedure.bind_ok h
    obtain ⟨ms, v, hrest, h⟩ := Procedure.bind_ok h
    cases h
    simp only [runSinks, hone, ih hrest, List.map_cons]

theorem fanOut_of_ok (h : writeSinks p c records 0 p.sinks s = (.ok ns, t)) :
    fanOut p c records s = (.ok ns, t) := by
  unfold fanOut
  split_ifs
  · simp only [writeParallel, runSinks_of_ok h, gather_ok]
  · exact h

end

def countRecords (countIn : Bool) (n : Nat) : Exec ρ Unit :=
  .modify fun s => if countIn then { s with recordsIn := s.recordsIn + n } else s

def recordChunk (recordsIn delivered : Nat) : Exec ρ Unit :=
  .modify fun s =>
    if c.tracked then s.onDelivery (·.recordChunk c.key recordsIn delivered) else s

/-- The body of `_process_records`. -/
def routeRecords (transforms : List (Transform ρ)) (countIn : Bool)
    (records : List ρ) : Exec ρ Unit := do
  countRecords countIn records.length
  let survivors ← applyGlobalTransforms p c transforms 0 records
  let counts ← fanOut p c survivors
  recordChunk c survivors.length (counts.foldl max 0)

/-- Whether the handler at the end of a chunk call raises again. -/
def reraises (tracked lossElsewhere : Bool) (d : Delivery) : Failure → Bool
  | .tram _ _ =>
    p.onError = .abort || (p.onError = .retry && tracked && (d.hasLoss || lossElsewhere))
  | .dlqDelivery _ => true
  | .other _ => true

/-- The handler: an error that is not raised again makes the call return False. -/
def handling (tracked lossElsewhere : Bool) (refusal : Failure → Refusal)
    (body : Exec ρ Bool) : Exec ρ Bool := fun s =>
  match body s with
  | (.ok b, t) => (.ok b, t)
  | (.error f, t) =>
    if reraises p tracked lossElsewhere t.delivery f then (.error f, t)
    else (.ok false, if tracked then t.refuse (refusal f) else t)

def processRecords (transforms : List (Transform ρ)) (countIn : Bool)
    (records : List ρ) : Exec ρ Bool :=
  handling p c.tracked c.answers.lossElsewhere .failed do
    routeRecords p c transforms countIn records
    pure true

end Tram.Executor
