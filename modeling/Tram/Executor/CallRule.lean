import Tram.Executor.BatchRun

/-! # A rule for what every call keeps

A relation between the ends of a stretch of a run, and what the stretch raised, holds of every call
of `_process_records` as soon as it holds of each of the few things the call does, one after the
other. Where only some of the sinks are written, only their breakers change. -/

namespace Tram.Executor

open List
open Procedure (Meets bind_run_ok raised)

variable {ρ : Type}

section

variable {c : Account} {s : State ρ}

def State.losing (s : State ρ) (c : Account) (l : Loss) : State ρ :=
  if c.tracked then s.onDelivery (·.recordLoss c.key l) else s

theorem recordLoss_run (c : Account) (l : Loss) (s : State ρ) :
    recordLoss c l s = (.ok (), s.losing c l) := rfl

@[simp] theorem State.losing_effects (l : Loss) : (s.losing c l).effects = s.effects := by
  unfold losing; split_ifs <;> rfl

@[simp] theorem State.losing_refused (l : Loss) : (s.losing c l).refused = s.refused := by
  unfold losing; split_ifs <;> rfl

@[simp] theorem State.losing_recordsFailed (l : Loss) : (s.losing c l).delivery.recordsFailed =
    s.delivery.recordsFailed + if c.tracked then l.recordsFailed else 0 := by
  unfold losing; split_ifs <;> simp [State.onDelivery]

@[simp] theorem State.losing_dlqFailed (l : Loss) : (s.losing c l).delivery.dlqFailed =
    s.delivery.dlqFailed + if c.tracked then l.dlqFailed else 0 := by
  unfold losing; split_ifs <;> simp [State.onDelivery]

theorem State.losing_untracked (l : Loss) (h : c.tracked = false) : s.losing c l = s := by
  simp [losing, h]

/-- The four ways a failure goes: into an envelope, into an envelope that was not taken, raised or
not, or without a DLQ sink. -/
theorem lose_cases (p : Pipeline ρ) (c : Account) (sink : Option Nat) (stage : Stage)
    (records : List ρ) (count : Nat) (taken : Bool) (text : String) (s : State ρ) :
    (p.dlqSink = true ∧ taken = true ∧ lose p c sink stage records count taken text s =
      (.ok (), (s.emit (.enveloped sink stage records)).losing c ⟨0, 1, 0⟩)) ∨
    (p.dlqSink = true ∧ taken = false ∧ (p.onError = .dlq ∨ p.onError = .retry) ∧
      c.tracked = true ∧ lose p c sink stage records count taken text s =
        (.error (.dlqDelivery text), s.losing c ⟨0, 0, 1⟩)) ∨
    (p.dlqSink = true ∧ taken = false ∧
      ¬ ((p.onError = .dlq ∨ p.onError = .retry) ∧ c.tracked = true) ∧
      lose p c sink stage records count taken text s = (.ok (), s.losing c ⟨0, 0, 1⟩)) ∨
    (p.dlqSink = false ∧ lose p c sink stage records count taken text s =
      (.ok (), s.losing c ⟨count, 0, 0⟩)) := by
  unfold lose
  cases hdlq : p.dlqSink with
  | false => exact .inr (.inr (.inr ⟨rfl, rfl⟩))
  | true =>
    cases taken with
    | true => exact .inl ⟨rfl, rfl, rfl⟩
    | false =>
      by_cases hraise : (p.onError = .dlq ∨ p.onError = .retry) ∧ c.tracked = true
      · refine .inr (.inl ⟨rfl, rfl, hraise.1, hraise.2, ?_⟩)
        rw [if_pos rfl, if_neg nofun, bind_run_ok (recordLoss_run c _ s), if_pos hraise]
        rfl
      · refine .inr (.inr (.inl ⟨rfl, rfl, hraise, ?_⟩))
        rw [if_pos rfl, if_neg nofun, bind_run_ok (recordLoss_run c _ s), if_neg hraise]
        rfl

end

section

variable {p : Pipeline ρ} {records : List ρ} {f : Failure} {moment : Nat → Nat} {sink : Sink ρ}

theorem ne_nil_of_mem_partitionRecords {part : List ρ} (hrecords : records ≠ [])
    (h : part ∈ partitionRecords p sink records) : part ≠ [] := by
  unfold partitionRecords at h
  split_ifs at h with hpaths
  · rwa [mem_singleton.mp h]
  · obtain ⟨g, hg, rfl⟩ := mem_map.mp h
    exact Grouping.ne_nil_of_mem_groups _ _ g hg

theorem filterByCondition_error {cond : Condition ρ} {n : Nat}
    (h : filterByCondition cond moment n records = .error f) : ∃ text, f = .tram .condition text := by
  induction records generalizing n with
  | nil => cases h
  | cons record records ih =>
    rw [filterByCondition] at h
    cases heval : cond.eval (moment n) record with
    | error text =>
      rw [heval] at h
      cases h
      exact ⟨_, rfl⟩
    | ok keep =>
      simp only [heval] at h
      cases hrest : filterByCondition cond moment (n + 1) records with
      | error f' =>
        simp only [hrest] at h
        cases h
        exact ih hrest
      | ok kept => simp [hrest] at h

theorem Sink.select_error (h : sink.select moment records = .error f) :
    ∃ text, f = .tram .condition text := by
  unfold Sink.select at h
  cases hcond : sink.condition with
  | none => simp [hcond] at h
  | some cond =>
    simp only [hcond] at h
    exact filterByCondition_error h

theorem raised_gather_ok (n : Nat) (rs : List (Except Failure Nat)) :
    raised (gather (.ok n :: rs)) = raised (gather rs) := by
  rw [gather]
  cases gather rs <;> rfl

variable {s t : State ρ} {tracked elsewhere : Bool} {body : Exec ρ Bool} {refusal : Failure → Refusal}

theorem handling_ok {b : Bool} (h : body s = (.ok b, t)) :
    handling p tracked elsewhere refusal body s = (.ok b, t) := by rw [handling, h]

theorem handling_error (h : body s = (.error f, t)) :
    handling p tracked elsewhere refusal body s =
      if reraises p tracked elsewhere t.delivery f then (.error f, t)
      else (.ok false, if tracked then t.refuse (refusal f) else t) := by rw [handling, h]

end

def Pipeline.Pooled (p : Pipeline ρ) : Prop := p.parallelSinks ∧ 1 < p.sinks.length

/-! ## The rule -/

/-- The relation has everything a call does, where the policy, the pool and the accounting are those
of the call and only breakers of the sinks in `own` change. -/
structure Rule (p : Pipeline ρ) (c : Call) (own : Nat → Prop)
    (R : State ρ → Option Failure → State ρ → Prop) : Prop extends Procedure.Sequential R where
  condition : ∀ s text, R s (some (.tram .condition text)) s
  serializer : ∀ s (fault : Fault), R s (some (fault.failure .serializer)) s
  aborted : p.onError = .abort → ∀ s f, R s (some f) s
  lose : p.onError ≠ .abort → ∀ sink stage records count taken text, stage.raw = none →
    Meets R (lose p c.toAccount sink stage records count taken text)
  breaker : ∀ s i sink e, own i → R s none (s.setBreaker (p.sinkCbKey sink i) e)
  failed : ∀ i sink j part text, own i → part ≠ [] → Meets R (partitionFailed p c i sink j part text)
  wrote : ∀ s i records, R s none (s.emit (.wrote i records))
  skipped : ∀ i records, Meets R (skipSink c i records)
  counted : ∀ s n, R s none { s with recordsIn := n }
  chunk : ∀ s m n, c.tracked = true → R s none (s.onDelivery (·.recordChunk c.key m n))
  -- on the pool the call raises what the first sink raised, or an error in its place
  overruled : p.Pooled → ∀ {s t u f g o}, R s (some f) t → R t o u →
    (g = f ∧ (∀ text, f ≠ .other text) ∨ ∃ text, g = .tram .serializer text) → R s (some g) u

namespace Rule

variable {p : Pipeline ρ} {c : Call} {own : Nat → Prop} {R : State ρ → Option Failure → State ρ → Prop}

section

variable (h : Rule p c own R) (i : Nat) (hi : own i) (sink : Sink ρ)
include h hi

theorem tripBreaker (now : Nat) : Meets R (tripBreaker p i sink now) := by
  refine .modify fun s => ?_
  split_ifs
  · exact h.breaker _ _ _ _ hi
  · exact h.refl s

theorem resetBreaker : Meets R (resetBreaker p i sink) := by
  refine .modify fun s => ?_
  split_ifs
  · exact h.breaker _ _ _ _ hi
  · exact h.refl s

theorem writePartitions (j written : Nat) (parts : List (List ρ)) (hparts : ∀ part ∈ parts, part ≠ []) :
    Meets R (writePartitions p c i sink j written parts) := by
  have := h.toSequential
  induction parts generalizing j written with
  | nil => exact .pure written
  | cons part parts ih =>
    rw [Executor.writePartitions]
    cases c.answers.serialize i j with
    | some fault => exact .raise fun s => h.serializer s fault
    | none =>
      cases partitionError c i sink j with
      | none =>
        exact .bind (.modify fun s => h.wrote s i part) fun _ => .bind (h.resetBreaker i hi sink) fun _ =>
          ih (j + 1) _ fun q hq => hparts q (mem_cons_of_mem _ hq)
      | some text =>
        exact .bind (h.failed i sink j part text hi (hparts part mem_cons_self)) fun _ => .pure written

end

section

variable (h : Rule p c own R)
include h

theorem writeOneSink (records : List ρ) (i : Nat) (hi : own i) (sink : Sink ρ) :
    Meets R (writeOneSink p c records i sink) := by
  have := h.toSequential
  unfold Executor.writeOneSink
  cases hselect : sink.select (c.answers.conditionAt i) records with
  | error f =>
    obtain ⟨text, rfl⟩ := Sink.select_error hselect
    exact .raise fun s => h.condition s text
  | ok selected =>
    cases selected with
    | nil => exact .pure 0
    | cons r rs =>
      cases htr : applyTransforms (c.answers.sinkTransformAt i) sink.transforms (r :: rs) with
      | error e =>
        simp only [htr]
        split_ifs with habort
        · exact .raise fun s => h.aborted habort s _
        · exact .bind (h.lose habort _ _ _ _ _ _ rfl) fun _ => .pure 0
      | ok out =>
        cases out with
        | nil => simp only [htr]; exact .pure 0
        | cons o os =>
          simp only [htr]
          refine .bind .get fun s => ?_
          split_ifs
          · exact h.skipped i records
          · exact h.writePartitions i hi sink 0 0 _ fun part hpart =>
              ne_nil_of_mem_partitionRecords (cons_ne_nil o os) hpart

theorem writeSinks (hown : ∀ i, own i) (records : List ρ) (i : Nat) (sinks : List (Sink ρ)) :
    Meets R (writeSinks p c records i sinks) := by
  have := h.toSequential
  induction sinks generalizing i with
  | nil => exact .pure []
  | cons sink sinks ih =>
    rw [Executor.writeSinks]
    exact .bind (h.writeOneSink records i (hown i) sink) fun n => .bind (ih (i + 1)) fun ns => .pure (n :: ns)

theorem runSinks (hpool : p.Pooled) (hown : ∀ i, own i) (records : List ρ) (i : Nat)
    (sinks : List (Sink ρ)) (s : State ρ) :
    R s (raised (gather (runSinks p c records i sinks s).1)) (runSinks p c records i sinks s).2 := by
  induction sinks generalizing i s with
  | nil => exact h.refl s
  | cons sink sinks ih =>
    have hone := h.writeOneSink records i (hown i) sink s
    have hrest := ih (i + 1) (Executor.writeOneSink p c records i sink s).2
    rw [Executor.runSinks]
    cases hr : (Executor.writeOneSink p c records i sink s).1 with
    | ok n =>
      rw [hr] at hone
      simp only [hr, raised_gather_ok]
      exact h.trans hone hrest
    | error f =>
      rw [hr] at hone
      simp only [hr]
      cases f with
      | tram | dlqDelivery => exact h.overruled hpool hone hrest (.inl ⟨rfl, by rintro _ ⟨⟩⟩)
      | other text => exact h.overruled hpool hone hrest (.inr ⟨_, rfl⟩)

theorem fanOut (hown : ∀ i, own i) (records : List ρ) : Meets R (fanOut p c records) := by
  unfold Executor.fanOut
  split_ifs with hpool
  · exact fun s => h.runSinks hpool hown records 0 p.sinks s
  · exact h.writeSinks hown records 0 p.sinks

theorem applyGlobalTransforms (transforms : List (Transform ρ)) (n : Nat) (records : List ρ) :
    Meets R (applyGlobalTransforms p c transforms n records) := by
  have := h.toSequential
  induction records generalizing n with
  | nil => exact .pure []
  | cons record records ih =>
    rw [Executor.applyGlobalTransforms]
    cases applyTransforms (c.answers.transformAt n) transforms [record] with
    | ok out => exact .bind (ih (n + 1)) fun rest => .pure (out ++ rest)
    | error failure =>
      split_ifs with habort
      · exact .raise fun s => h.aborted habort s _
      · exact .bind (h.lose habort _ _ _ _ _ _ rfl) fun _ => ih (n + 1)

theorem countRecords (countIn : Bool) (n : Nat) : Meets R (countRecords countIn n : Exec ρ Unit) := by
  refine .modify fun s => ?_
  split_ifs
  · exact h.counted s _
  · exact h.refl s

theorem recordChunk (m n : Nat) : Meets R (recordChunk c m n : Exec ρ Unit) := by
  refine .modify fun s => ?_
  split_ifs with ht
  · exact h.chunk s m n ht
  · exact h.refl s

theorem routeRecords (hown : ∀ i, own i) (transforms : List (Transform ρ)) (countIn : Bool)
    (records : List ρ) : Meets R (routeRecords p c transforms countIn records) := by
  have := h.toSequential
  exact .bind (h.countRecords countIn _) fun _ =>
    .bind (h.applyGlobalTransforms transforms 0 records) fun survivors =>
      .bind (h.fanOut hown survivors) fun _ => h.recordChunk _ _

end

end Rule

/-! ## Relations between states -/

/-- The relation has everything a call does to the state for the sinks in `own`. -/
structure Stepwise (p : Pipeline ρ) (c : Call) (own : Nat → Prop) (Q : State ρ → State ρ → Prop) :
    Prop where
  refl : ∀ s, Q s s
  trans : ∀ {s t u}, Q s t → Q t u → Q s u
  lose : ∀ sink stage records count taken text s, stage.raw = none →
    Q s (lose p c.toAccount sink stage records count taken text s).2
  breaker : ∀ s i sink e, own i → Q s (s.setBreaker (p.sinkCbKey sink i) e)
  wrote : ∀ s i records, Q s (s.emit (.wrote i records))
  skipped : ∀ s i records, Q s ((s.losing c.toAccount ⟨records.length, 0, 0⟩).emit (.skipped i records))
  counted : ∀ s n, Q s { s with recordsIn := n }
  chunk : ∀ s m n, Q s (s.onDelivery (·.recordChunk c.key m n))
  refused : ∀ s r, Q s (s.refuse r)

namespace Stepwise

variable {p : Pipeline ρ} {c : Call} {own : Nat → Prop} {Q : State ρ → State ρ → Prop}

variable (h : Stepwise p c own Q)
include h

theorem rule : Rule p c own fun s _ t => Q s t where
  refl := h.refl
  trans := h.trans
  condition s _ := h.refl s
  serializer s _ := h.refl s
  aborted _ s _ := h.refl s
  lose _ _ _ _ _ _ _ hstage s := h.lose _ _ _ _ _ _ s hstage
  breaker := h.breaker
  failed i sink j part text hi _ s := by
    have : Procedure.Sequential (ε := Failure) fun s (_ : Option Failure) t => Q s t := ⟨h.refl, h.trans⟩
    have hfailed : Meets (fun s _ t => Q s t) (partitionFailed p c i sink j part text) := by
      refine .bind (.modify fun s => ?_) fun _ => .bind (fun s => h.lose _ _ _ _ _ _ s rfl) fun _ => ?_
      · split_ifs
        · exact h.breaker _ _ _ _ hi
        · exact h.refl s
      · split_ifs
        · exact .raise h.refl
        · exact .pure ()
    exact hfailed s
  wrote := h.wrote
  skipped i records s := h.skipped s i records
  counted := h.counted
  chunk s m n _ := h.chunk s m n
  overruled _ _ _ _ _ _ _ hf ho _ := h.trans hf ho

theorem runSinks (hown : ∀ i, own i) (records : List ρ) (i : Nat) (sinks : List (Sink ρ)) (s : State ρ) :
    Q s (runSinks p c records i sinks s).2 := by
  induction sinks generalizing i s with
  | nil => exact h.refl s
  | cons sink sinks ih =>
    rw [Executor.runSinks]
    exact h.trans (h.rule.writeOneSink records i (hown i) sink s) (ih (i + 1) _)

theorem handling {tracked elsewhere : Bool} {refusal : Failure → Refusal} {body : Exec ρ Bool}
    (hbody : Meets (fun s _ t => Q s t) body) :
    Meets (fun s _ t => Q s t) (handling p tracked elsewhere refusal body) := by
  intro s
  have hs := hbody s
  rcases hrun : body s with ⟨f | b, t⟩ <;> rw [hrun] at hs
  · rw [handling_error hrun]
    split_ifs
    · exact hs
    · exact h.trans hs (h.refused t _)
    · exact hs
  · rw [handling_ok hrun]
    exact hs

theorem processRecords (hown : ∀ i, own i) (transforms : List (Transform ρ)) (countIn : Bool)
    (records : List ρ) :
    Meets (fun s _ t => Q s t) (processRecords p c transforms countIn records) := by
  have := h.rule.toSequential
  exact h.handling (.bind (h.rule.routeRecords hown transforms countIn records) fun _ => .pure true)

end Stepwise

section Chunks

variable {job : BatchJob ρ} {key : Option UnitKey} {own : Nat → Prop} {Q : State ρ → State ρ → Prop}

section

variable (h : ∀ answers, Stepwise job.toPipeline ⟨⟨key, true⟩, answers⟩ own Q) (hown : ∀ i, own i)
include h hown

theorem Stepwise.processBatches (ending : Option Fault) (parts : List (List ρ × Answers)) :
    Meets (fun s _ t => Q s t) (processBatches job key ending parts) := by
  have := (h .quiet).rule.toSequential
  induction parts with
  | nil =>
    cases ending with
    | none => exact .pure ()
    | some fault => exact .raise (h .quiet).refl
  | cons part parts ih =>
    obtain ⟨records, answers⟩ := part
    refine .bind .get fun s => ?_
    cases job.room s records with
    | none => exact .pure ()
    | some fitting =>
      cases fitting with
      | nil => exact ih
      | cons r rs =>
        refine .bind ((h answers).processRecords hown _ true (r :: rs)) fun _ => .bind .get fun t => ?_
        split_ifs
        · exact .pure ()
        · exact ih

theorem Stepwise.processChunk
    (hparse : ∀ raw taken text s,
      Q s (Executor.lose job.toPipeline ⟨key, true⟩ none (.parse raw) [] 1 taken text s).2)
    (work : Work ρ) : Meets (fun s _ t => Q s t) (processChunk job key work) := by
  have hcall := h .quiet
  have := hcall.rule.toSequential
  have hfailed : ∀ text, Meets (fun s _ t => Q s t)
      (parseFailed job.toPipeline key work.raw text work.taken : Exec ρ Bool) := fun text =>
    .bind (hparse work.raw work.taken _) fun _ => .raise hcall.refl
  refine hcall.handling ?_
  cases work.content with
  | parsed records answers => exact (h answers).processRecords hown _ true records
  | unparsed text => exact hfailed text
  | batches parts ending =>
    intro s
    have hs := Stepwise.processBatches h hown ending parts s
    rw [chunkBody, processIncrementally]
    cases hrun : Executor.processBatches job key ending parts s with
    | mk r t =>
      rw [hrun] at hs
      cases r with
      | ok _ => exact hs
      | error f =>
        cases f with
        | tram | dlqDelivery => exact hs
        | other text => exact h .quiet |>.trans hs (hfailed text t)

end

end Chunks

/-! ## Barriers -/

/-- The relation has what a barrier does apart from telling the source: it raises, and the
accounting gets a unit, loses one or leaves its checkpoint pending. -/
class AtBarriers (Q : State ρ → Option Failure → State ρ → Prop) : Prop extends
    Procedure.Sequential Q where
  raise : ∀ s f, Q s (some f) s
  register : ∀ s key info, Q s none (s.onDelivery (·.registerUnit key info))
  drop : ∀ s key, Q s none (s.onDelivery (·.dropUnit key))
  pend : ∀ s, Q s none (s.onDelivery (·.recordCheckpointPending))

/-- The relation has what the source is told of the unit. -/
structure Tells (Q : State ρ → Option Failure → State ρ → Prop) (info : Meta) : Prop where
  ack : ∀ s d, Q s none { s with acks := s.acks ++ [(info, d)] }
  finalize : ∀ s success, Q s none (s.finalize info success)

section Barriers

variable {p : Pipeline ρ} {current : Option Meta} {info : Meta} {whole : Bool}

theorem finishUnit_none (h : current.bind (·.unit) = none) (whole : Bool) (b : Barrier) :
    finishUnit p current whole b = pure () := by
  cases current with
  | none => rfl
  | some info =>
    rw [Option.bind_some] at h
    simp only [finishUnit, h]

theorem finishUnit_some {key : UnitKey} (h : info.unit = some key) (whole : Bool) (b : Barrier) :
    finishUnit p (some info) whole b = finalizeBatchSourceUnit p key info none whole b := by
  simp only [finishUnit, h]

variable {Q : State ρ → Option Failure → State ρ → Prop} [AtBarriers Q]

theorem commitSinks_meets (commit : Option String) : Meets Q (commitSinks p commit) := by
  cases commit with
  | none => exact .pure true
  | some text =>
    unfold commitSinks
    split_ifs
    · exact .pure false
    · exact .raise (AtBarriers.raise · _)

theorem decideUnit_meets (checkpointed : Bool) (d : Option AckDisposition)
    (h : d ≠ none → Tells Q info) : Meets Q (decideUnit info checkpointed d : Exec ρ Unit) := by
  match d with
  | none => exact .pure ()
  | some .delivered =>
    unfold decideUnit
    split_ifs
    · exact .modify ((h nofun).ack · _)
    · exact .modify AtBarriers.pend
  | some .filtered | some .dlq | some .dropped => exact .modify ((h nofun).ack · _)

theorem finalizeBatchSourceUnit_meets (h : whole = true → Tells Q info) (key : UnitKey)
    (unit : Option UnitOutcome) (b : Barrier) :
    Meets Q (finalizeBatchSourceUnit p key info unit whole b) := by
  refine .bind (commitSinks_meets b.commit) fun committed => .bind .get fun _ =>
    .bind (.modify (AtBarriers.drop · key)) fun _ =>
      .bind (decideUnit_meets b.checkpointed _ fun hd => h ?_) fun _ => ?_
  · cases whole with
    | true => rfl
    | false => simp at hd
  · split_ifs with hwhole
    · refine .bind (.modify ((h hwhole).finalize · committed)) fun _ => ?_
      cases b.finalized with
      | none => exact .pure ()
      | some fault => exact .raise (AtBarriers.raise · _)
    · exact .pure ()

theorem finishUnit_meets (h : whole = true → ∀ info, current = some info → Tells Q info)
    (b : Barrier) : Meets Q (finishUnit p current whole b) := by
  cases hkey : current.bind (·.unit) with
  | none =>
    rw [finishUnit_none hkey]
    exact .pure ()
  | some key =>
    obtain ⟨info, rfl, hunit⟩ := Option.bind_eq_some_iff.mp hkey
    rw [finishUnit_some hunit]
    exact finalizeBatchSourceUnit_meets (h · info rfl) key none b

theorem enterUnit_meets
    (h : ∀ a, current = some a → info.unit ≠ none → info.unit ≠ a.unit → Tells Q a)
    (b : Barrier) : Meets Q (enterUnit p current info b) := by
  unfold enterUnit
  cases hunit : info.unit with
  | none => exact .pure current
  | some key =>
    simp only []
    split_ifs with hsame
    · exact .pure (some info)
    · refine .bind (finishUnit_meets (fun _ a ha => h a ha (by simp [hunit]) fun heq => hsame ?_) b)
        fun _ => .bind (.modify (AtBarriers.register · key info)) fun _ => .pure (some info)
      rw [ha, Option.bind_some, ← heq, hunit]

theorem leaveUnit_meets (h : info.broker = true → Tells Q info) (current : Option Meta)
    (b : Barrier) : Meets Q (leaveUnit p current info b) := by
  unfold leaveUnit
  split_ifs with hbroker
  · refine .bind (finishUnit_meets (fun _ a ha => ?_) b) fun _ => .pure none
    cases ha
    exact h hbroker.1
  · exact .pure current

/-- The barrier of the oldest unit: the loop goes on without its entry, or raises. -/
theorem retireUnit_cases (job : BatchJob ρ) (t : Threads ρ) (u : UnitEntry) (us : List UnitEntry)
    (b : Barrier) (h : Tells Q u.info) :
    ∃ run taken phase o, retireUnit job t u us b = ⟨run, t.inFlight, us, taken, phase⟩ ∧
      Q t.run o run ∧ (phase = t.phase ∨ ∃ f, phase = .raised f) := by
  have hmeets : Meets Q (finalizeBatchSourceUnit job.toPipeline u.key u.info (t.taken.lookup u.key) true
      b) := finalizeBatchSourceUnit_meets (fun _ => h) _ _ _
  specialize hmeets t.run
  unfold retireUnit
  rcases hrun : finalizeBatchSourceUnit job.toPipeline u.key u.info (t.taken.lookup u.key) true b
      t.run with ⟨f | _, s⟩
  · rw [hrun] at hmeets
    exact ⟨s, _, _, _, rfl, hmeets, .inr ⟨f, rfl⟩⟩
  · rw [hrun] at hmeets
    exact ⟨s, _, _, _, rfl, hmeets, .inl rfl⟩

end Barriers

end Tram.Executor
