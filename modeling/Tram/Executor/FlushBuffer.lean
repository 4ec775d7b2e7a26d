import Mathlib.Algebra.Order.Field.Rat
import Mathlib.Data.List.Nodup
import Tram.Lib.Run

/-! # The flush buffer of a stream run

`_StreamFlushBuffer`, which stream workers append to and flushes drain. One timestamp serves the
records and the broker units that contributed: it is the time of the oldest record and, as long as
only units without records wait, of the oldest of these. Times are exact. -/

namespace Tram.Executor

open List

variable {ρ μ : Type}

/-- `record_threshold` and `interval_s`. -/
structure FlushPolicy where
  recordThreshold : Nat
  interval : ℚ

structure FlushBuffer (ρ μ : Type) where
  records : List ρ
  info : Option μ
  oldestAt : Option ℚ
  contributors : List (μ × List ρ)

structure Drained (ρ μ : Type) where
  records : List ρ
  info : Option μ
  contributors : List (μ × List ρ)

/-- A call of `append`, with the readings of the clock in it: for the contributor, for the records
and for the trigger. -/
structure Appended (ρ μ : Type) where
  records : List ρ
  info : μ
  broker : Bool
  batchEnd : Bool
  contributedAt : ℚ
  recordedAt : ℚ
  checkedAt : ℚ

namespace FlushBuffer

def empty : FlushBuffer ρ μ := ⟨[], none, none, []⟩

variable (policy : FlushPolicy) (b : FlushBuffer ρ μ)

def isEmpty : Bool := b.records.isEmpty && b.contributors.isEmpty

def elapsed (now : ℚ) : Bool :=
  policy.interval > 0 && now - b.oldestAt.getD 0 ≥ policy.interval

def contribute (a : Appended ρ μ) : FlushBuffer ρ μ :=
  if a.broker then
    { b with
      contributors := b.contributors ++ [(a.info, a.records)]
      oldestAt := b.oldestAt.or (some a.contributedAt) }
  else b

/-- The first records reset the timestamp. -/
def record (a : Appended ρ μ) : FlushBuffer ρ μ :=
  if a.records.isEmpty then b
  else if b.records.isEmpty then
    { b with records := a.records, info := some a.info, oldestAt := some a.recordedAt }
  else { b with records := b.records ++ a.records }

/-- `append`, with whether a flush is due. -/
def append (a : Appended ρ μ) :
    Bool × FlushBuffer ρ μ :=
  if a.records.isEmpty && !a.batchEnd && !a.broker then (false, b)
  else
    let b := (b.contribute a).record a
    if b.isEmpty then (false, b)
    else
      (a.batchEnd || b.records.length ≥ policy.recordThreshold ||
        b.contributors.length ≥ policy.recordThreshold || b.elapsed policy a.checkedAt, b)

def due (now : ℚ) : Bool :=
  !b.isEmpty && b.elapsed policy now

def drain : Option (Drained ρ μ) × FlushBuffer ρ μ :=
  if b.isEmpty then (none, b) else (some ⟨b.records, b.info, b.contributors⟩, empty)

theorem append_snd (a : Appended ρ μ) :
    (b.append policy a).2 = (b.contribute a).record a := by
  unfold append
  split_ifs with hnothing
  · obtain ⟨⟨hrecords, -⟩, hbroker⟩ : (a.records.isEmpty ∧ a.batchEnd = false) ∧ a.broker = false := by
      simpa using hnothing
    simp [contribute, record, hrecords, hbroker]
  · dsimp only
    split_ifs <;> rfl

theorem append_spec (a : Appended ρ μ) :
    (b.append policy a).2.records = b.records ++ a.records ∧
      (b.append policy a).2.contributors =
        b.contributors ++ (if a.broker then [(a.info, a.records)] else []) ∧
      (b.append policy a).2.oldestAt =
        (if b.records = [] then a.records.head?.map fun _ => a.recordedAt else none).or
          (b.oldestAt.or (if a.broker then some a.contributedAt else none)) := by
  rw [append_snd]
  unfold contribute record
  cases a.records with
  | nil => cases a.broker <;> simp
  | cons r rs => cases a.broker <;> cases hb : b.records <;> simp [hb]

end FlushBuffer

/-! ## Histories -/

inductive BufferCall (ρ μ : Type) where
  | append (a : Appended ρ μ)
  | drain

/-- The buffer, all records and contributors appended to it with their times, and all drains. -/
structure BufferHistory (ρ μ : Type) where
  buffer : FlushBuffer ρ μ
  recorded : List (ρ × ℚ)
  contributed : List ((μ × List ρ) × ℚ)
  drains : List (Drained ρ μ)

namespace BufferHistory

def init : BufferHistory ρ μ := ⟨.empty, [], [], []⟩

def step (policy : FlushPolicy) (h : BufferHistory ρ μ) : BufferCall ρ μ → BufferHistory ρ μ
  | .append a =>
    { h with
      buffer := (h.buffer.append policy a).2
      recorded := h.recorded ++ a.records.map (·, a.recordedAt)
      contributed := h.contributed ++
        if a.broker then [((a.info, a.records), a.contributedAt)] else [] }
  | .drain =>
    { h with
      buffer := h.buffer.drain.2
      drains := h.drains ++ h.buffer.drain.1.toList }

def drainedRecords (h : BufferHistory ρ μ) : List ρ := h.drains.flatMap (·.records)

def drainedContributors (h : BufferHistory ρ μ) : List (μ × List ρ) :=
  h.drains.flatMap (·.contributors)

/-- When the oldest record that was not drained was appended. -/
def oldestRecord (h : BufferHistory ρ μ) : Option ℚ :=
  (h.recorded.drop h.drainedRecords.length).head?.map (·.2)

def oldestContributor (h : BufferHistory ρ μ) : Option ℚ :=
  (h.contributed.drop h.drainedContributors.length).head?.map (·.2)

/-- What was drained and what is buffered is what was appended, and the timestamp is that of the
oldest record or, without one, of the oldest contributor. -/
structure Kept (h : BufferHistory ρ μ) : Prop where
  records : h.drainedRecords ++ h.buffer.records = h.recorded.map (·.1)
  contributors : h.drainedContributors ++ h.buffer.contributors = h.contributed.map (·.1)
  oldestAt : h.buffer.oldestAt = h.oldestRecord.or h.oldestContributor

variable {h : BufferHistory ρ μ} {policy : FlushPolicy}

theorem Kept.init : Kept (init : BufferHistory ρ μ) := ⟨rfl, rfl, rfl⟩

theorem head?_drop_append {α : Type} {xs ys : List (α × ℚ)} {drained buffered : List α}
    (h : drained ++ buffered = xs.map (·.1)) :
    ((xs ++ ys).drop drained.length).head?.map (·.2) =
      ((xs.drop drained.length).head?.map (·.2)).or (ys.head?.map (·.2)) := by
  have hle : drained.length ≤ xs.length := by
    have hlen := congrArg List.length h
    simp only [length_append, length_map] at hlen
    omega
  rw [drop_append_of_le_length hle, head?_append]
  cases (xs.drop drained.length).head? <;> rfl

theorem head?_drop_isNone {α : Type} {xs : List (α × ℚ)} {drained buffered : List α}
    (h : drained ++ buffered = xs.map (·.1)) :
    (xs.drop drained.length).head?.map (·.2) = none ↔ buffered = [] := by
  have hdrop := congrArg (List.drop drained.length) h
  rw [drop_left, ← map_drop] at hdrop
  rw [hdrop]
  simp

theorem Kept.append (hk : Kept h) (a : Appended ρ μ) : Kept (h.step policy (.append a)) := by
  obtain ⟨hrecords, hcontributors, holdest⟩ := h.buffer.append_spec policy a
  refine ⟨?_, ?_, ?_⟩
  · change h.drainedRecords ++ (h.buffer.append policy a).2.records = _
    rw [hrecords, ← append_assoc, hk.records]
    simp [step, Function.comp_def]
  · change h.drainedContributors ++ (h.buffer.append policy a).2.contributors = _
    rw [hcontributors, ← append_assoc, hk.contributors]
    cases hbroker : a.broker <;> simp [step, hbroker]
  · have hrecord : (h.step policy (.append a)).oldestRecord =
        h.oldestRecord.or ((a.records.map (·, a.recordedAt)).head?.map (·.2)) :=
      head?_drop_append hk.records
    have hcontributor : (h.step policy (.append a)).oldestContributor = h.oldestContributor.or
        ((if a.broker then [((a.info, a.records), a.contributedAt)] else []).head?.map (·.2)) :=
      head?_drop_append hk.contributors
    change (h.buffer.append policy a).2.oldestAt = _
    rw [holdest, hk.oldestAt, hrecord, hcontributor]
    -- records are buffered exactly if there is an oldest one
    have hnone : h.oldestRecord = none ↔ h.buffer.records = [] := head?_drop_isNone hk.records
    cases hold : h.oldestRecord with
    | none =>
      rw [if_pos (hnone.mp hold)]
      cases a.records <;> cases a.broker <;> simp
    | some t =>
      rw [if_neg fun hempty => by rw [hnone.mpr hempty] at hold; cases hold]
      simp

theorem Kept.drain (hk : Kept h) : Kept (h.step policy .drain) := by
  unfold step FlushBuffer.drain
  split_ifs with hempty
  · rw [Option.toList_none, append_nil]
    exact hk
  · generalize hh : BufferHistory.mk FlushBuffer.empty h.recorded h.contributed (h.drains ++
      (some (Drained.mk h.buffer.records h.buffer.info h.buffer.contributors)).toList) = h'
    have hrecords : h'.drainedRecords ++ [] = h'.recorded.map (·.1) := by
      rw [← hh, append_nil]
      exact Eq.trans (by simp [drainedRecords]) hk.records
    have hcontributors : h'.drainedContributors ++ [] = h'.contributed.map (·.1) := by
      rw [← hh, append_nil]
      exact Eq.trans (by simp [drainedContributors]) hk.contributors
    have hbuffer : h'.buffer = .empty := by rw [← hh]
    refine ⟨hbuffer ▸ hrecords, hbuffer ▸ hcontributors, ?_⟩
    rw [hbuffer, oldestRecord, (head?_drop_isNone hrecords).mpr rfl, oldestContributor,
      (head?_drop_isNone hcontributors).mpr rfl]
    rfl

theorem kept_exec (policy : FlushPolicy) (calls : List (BufferCall ρ μ)) :
    Kept (Run.exec (step policy) init calls) := by
  refine Run.exec_invariant (fun h call hk => ?_) Kept.init calls
  cases call with
  | append a => exact hk.append a
  | drain => exact hk.drain

theorem Kept.isEmpty (hk : Kept h) : h.buffer.isEmpty = h.buffer.oldestAt.isNone := by
  have hrecord : h.oldestRecord = none ↔ h.buffer.records = [] := head?_drop_isNone hk.records
  have hcontributor : h.oldestContributor = none ↔ h.buffer.contributors = [] :=
    head?_drop_isNone hk.contributors
  rw [Bool.eq_iff_iff, Option.isNone_iff_eq_none, hk.oldestAt, Option.or_eq_none_iff, hrecord,
    hcontributor]
  simp [FlushBuffer.isEmpty]

end BufferHistory

/-- In any interleaving of appends and drains: what was drained, followed by what is in the buffer,
is what was appended, in order; where the records are distinct, no two drains share one. A flush by
the interval is due exactly when one is configured, the buffer holds something and the interval has
elapsed since its oldest record was appended or, without records, its oldest contributor. -/
theorem flush_buffer_keeps_order (policy : FlushPolicy) (calls : List (BufferCall ρ μ)) (now : ℚ) :
    let h := Run.exec (BufferHistory.step policy) .init calls
    h.drainedRecords ++ h.buffer.records = h.recorded.map (·.1) ∧
    h.drainedContributors ++ h.buffer.contributors = h.contributed.map (·.1) ∧
    ((h.recorded.map (·.1)).Nodup → h.drains.Pairwise fun d d' => d.records.Disjoint d'.records) ∧
    (h.buffer.due policy now = true ↔ 0 < policy.interval ∧ h.buffer.isEmpty = false ∧
      ∃ t ∈ h.oldestRecord.or h.oldestContributor, policy.interval ≤ now - t) := by
  intro h
  have hk : h.Kept := BufferHistory.kept_exec policy calls
  refine ⟨hk.records, hk.contributors, fun hnodup => ?_, ?_⟩
  · rw [← hk.records, nodup_append] at hnodup
    have hdrains := hnodup.1
    unfold BufferHistory.drainedRecords at hdrains
    rw [nodup_flatMap] at hdrains
    exact hdrains.2
  · have hold := hk.oldestAt
    have hempty := hk.isEmpty
    unfold FlushBuffer.due FlushBuffer.elapsed
    rw [← hold]
    cases ht : h.buffer.oldestAt with
    | none | some => simp [hempty, ht]

def unitAt (t : ℚ) (records : List Nat) : BufferCall Nat Unit :=
  .append ⟨records, (), true, false, t, t, t⟩

theorem flush_buffer_keeps_order_drains :
    let h := Run.exec (BufferHistory.step ⟨100, 10⟩) .init
      [unitAt 0 [1], unitAt 1 [2], .drain, unitAt 2 [3], .drain]
    h.drains.map (·.records) = [[1, 2], [3]] ∧
    h.drains.Pairwise fun d d' => d.records.Disjoint d'.records :=
  ⟨by decide +kernel, (flush_buffer_keeps_order ⟨100, 10⟩
    [unitAt 0 [1], unitAt 1 [2], .drain, unitAt 2 [3], .drain] 0).2.2.1 (by decide +kernel)⟩

/-- A unit without records waits since 0. The first record, which comes at 9, starts the interval of
10 again. -/
theorem due_after_first_record :
    let h := Run.exec (BufferHistory.step ⟨100, 10⟩) .init [unitAt 0 [], unitAt 9 [1]]
    h.buffer.contributors = [((), []), ((), [1])] ∧ h.oldestContributor = some 0 ∧
      h.buffer.due ⟨100, 10⟩ 10 = false ∧ h.buffer.due ⟨100, 10⟩ 19 = true := by
  decide +kernel

end Tram.Executor
