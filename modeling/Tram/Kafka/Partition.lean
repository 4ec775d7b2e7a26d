import Tram.Kafka.Source

/-! # One partition at a time

The source spreads a partition's state over seven tables. `Source.partition` collects it, and the
lemmas here say what every operation does to that one record: the operations of a partition are
functions of its own record, and leave the records of the others alone. -/

namespace Tram.Kafka

open List

structure Partition where
  epoch : Option Nat := none
  completed : Option Int := none
  ooo : Finset Int := ∅
  tombstones : Finset Int := ∅
  readMin : Option Int := none
  observed : Option (List Int) := none
  pending : Option Int := none

namespace Partition

def frontier (p : Partition) : Int := p.completed.getD (-1)

def queue (p : Partition) : List Int := p.observed.getD []

def note (p : Partition) (frontier : Int) : Partition :=
  { p with pending := some (max (p.pending.getD (-1)) frontier) }

def storeSweep (p : Partition) (w : Source.Sweep) (observed : Option (List Int)) : Partition :=
  let p := { p with ooo := w.ooo, tombstones := w.tombstones, observed := observed <|> p.observed }
  if w.advanced then { p with completed := some w.frontier }.note w.frontier else p

def advance (p : Partition) (readMin : Int) : Partition :=
  let swept := Source.Sweep.run
    ⟨max p.frontier (readMin - 1), p.ooo, p.tombstones, false⟩ p.observed
  p.storeSweep swept.1 swept.2

def observe (p : Partition) (offset : Int) : Partition :=
  { p with
    readMin := some (p.readMin.getD offset)
    observed := some
      (if offset > p.queue.getLast?.getD p.frontier then p.queue ++ [offset] else p.queue) }

end Partition

namespace Source

variable (s : Source) (key k : TopicPartition)

def partition : Partition where
  epoch := s.partitionEpochs.lookup key
  completed := s.completed.lookup key
  ooo := (s.completedOoo.lookup key).getD ∅
  tombstones := (s.tombstoneOffsets.lookup key).getD ∅
  readMin := s.readMin.lookup key
  observed := s.observedOffsets.lookup key
  pending := s.pendingCommits.lookup key

@[simp] theorem partition_epoch : (s.partition key).epoch = s.partitionEpochs.lookup key := rfl
@[simp] theorem partition_readMin : (s.partition key).readMin = s.readMin.lookup key := rfl

theorem partition_resetSessionState : s.resetSessionState.partition key = {} := by
  simp [partition, resetSessionState]

@[simp] theorem partition_bumpEpoch : s.bumpEpoch.partition key = s.partition key := rfl

theorem partition_forgetPartition :
    (s.forgetPartition key).partition k = if k = key then {} else s.partition k := by
  simp only [partition, forgetPartition, Dict.lookup_erase_ite]
  split_ifs <;> rfl

theorem partition_forget_all (gone : List TopicPartition) :
    (gone.foldl forgetPartition s).partition k = if k ∈ gone then {} else s.partition k := by
  induction gone generalizing s with
  | nil => simp
  | cons g gone ih =>
    rw [foldl_cons, ih, partition_forgetPartition]
    by_cases hk : k ∈ gone <;> by_cases hg : k = g <;> simp [hk, hg]

theorem partition_ownPartition : (s.ownPartition key).partition k =
    if k = key then
      { s.partition k with epoch := some ((s.partition k).epoch.getD s.assignmentEpoch) }
    else s.partition k := by
  simp only [partition, ownPartition, Dict.lookup_setdefault]
  split_ifs with h
  · subst h; rfl
  · rfl

@[simp] theorem assignmentEpoch_forget_all (gone : List TopicPartition) :
    (gone.foldl forgetPartition s).assignmentEpoch = s.assignmentEpoch := by
  induction gone generalizing s with
  | nil => rfl
  | cons g gone ih => rw [foldl_cons, ih]; rfl

@[simp] theorem assigned_forget_all (gone : List TopicPartition) :
    (gone.foldl forgetPartition s).assigned = s.assigned := by
  induction gone generalizing s with
  | nil => rfl
  | cons g gone ih => rw [foldl_cons, ih]; rfl

@[simp] theorem assignmentEpoch_own_all (current : List TopicPartition) :
    (current.foldl ownPartition s).assignmentEpoch = s.assignmentEpoch := by
  induction current generalizing s with
  | nil => rfl
  | cons g current ih => rw [foldl_cons, ih]; rfl

theorem partition_own_all (current : List TopicPartition) :
    (current.foldl ownPartition s).partition k =
      if k ∈ current then
        { s.partition k with epoch := some ((s.partition k).epoch.getD s.assignmentEpoch) }
      else s.partition k := by
  induction current generalizing s with
  | nil => simp
  | cons g current ih =>
    rw [foldl_cons, ih, partition_ownPartition]
    have he : (s.ownPartition g).assignmentEpoch = s.assignmentEpoch := rfl
    by_cases hk : k ∈ current <;> by_cases hg : k = g <;> simp [hk, hg, he]

theorem partition_revoked (partitions : List TopicPartition) :
    (s.onPartitionsRevoked partitions).partition k =
      if k ∈ partitions then {} else s.partition k := by
  have h := partition_forget_all s.bumpEpoch k partitions.dedup
  rw [partition_bumpEpoch] at h
  simp only [mem_dedup] at h
  exact h

/-- What a new assignment does to a partition: one that stays keeps its record and its epoch, one
that is new starts under the bumped epoch, one that is lost is forgotten. -/
theorem partition_takeAssignment (current : List TopicPartition) :
    (s.takeAssignment current).partition k =
      if k ∈ current then
        { s.partition k with epoch := some ((s.partition k).epoch.getD (s.assignmentEpoch + 1)) }
      else if k ∈ s.assigned then {} else s.partition k := by
  have h := partition_own_all ((s.assigned.filter (· ∉ current)).foldl forgetPartition s.bumpEpoch)
    k current
  rw [partition_forget_all, assignmentEpoch_forget_all, partition_bumpEpoch] at h
  have hp : (s.takeAssignment current).partition k =
      (current.foldl ownPartition
        ((s.assigned.filter (· ∉ current)).foldl forgetPartition s.bumpEpoch)).partition k := rfl
  rw [hp, h]
  by_cases hc : k ∈ current <;> by_cases ha : k ∈ s.assigned <;> simp [hc, ha, bumpEpoch]

@[simp] theorem assignmentEpoch_revoked (partitions : List TopicPartition) :
    (s.onPartitionsRevoked partitions).assignmentEpoch = s.assignmentEpoch + 1 :=
  assignmentEpoch_forget_all s.bumpEpoch partitions.dedup

@[simp] theorem assignmentEpoch_takeAssignment (current : List TopicPartition) :
    (s.takeAssignment current).assignmentEpoch = s.assignmentEpoch + 1 := by
  simp [takeAssignment, bumpEpoch]

theorem mem_assigned_revoked (partitions : List TopicPartition) :
    k ∈ (s.onPartitionsRevoked partitions).assigned ↔ k ∈ s.assigned ∧ k ∉ partitions := by
  simp [onPartitionsRevoked, bumpEpoch]

/-! ## Operations on one partition -/

theorem lookup_storeSet (d : Dict TopicPartition (Finset Int)) (v : Finset Int) :
    ((storeSet d key v).lookup k).getD ∅ = if k = key then v else (d.lookup k).getD ∅ := by
  unfold storeSet
  split_ifs with hv hk hk <;> simp [Dict.lookup_erase_ite, Dict.lookup_insert_ite, hk, hv]

theorem lookup_notePending (d : Dict TopicPartition Int) (f : Int) :
    (notePending d key f).lookup k =
      if k = key then some (max ((d.lookup k).getD (-1)) f) else d.lookup k := by
  rw [notePending, Dict.lookup_insert_ite]
  split_ifs with h
  · rw [h]
  · rfl

theorem partition_observe (m : Message) : (s.observe m).partition k =
    if k = m.key then (s.partition k).observe m.offset else s.partition k := by
  simp only [partition, observe, Dict.lookup_setdefault, Dict.lookup_insert_ite]
  by_cases h : k = m.key
  · subst h; simp only [if_true]; rfl
  · simp [h]

theorem partition_storeSweep (w : Sweep) (observed : Option (List Int)) :
    (s.storeSweep key w observed).partition k =
      if k = key then (s.partition k).storeSweep w observed else s.partition k := by
  unfold storeSweep
  by_cases hk : k = key
  · subst hk
    cases observed <;> by_cases ha : w.advanced <;>
      simp [partition, Partition.storeSweep, Partition.note, ha, lookup_storeSet,
        lookup_notePending]
  · cases observed <;> by_cases ha : w.advanced <;>
      simp [partition, hk, ha, lookup_storeSet, lookup_notePending]

section

variable {key : TopicPartition}

theorem partition_advance {s s' : Source} (h : s.advanceDecidedFrontier key = some s') :
    ∃ readMin, s.readMin.lookup key = some readMin ∧
      ∀ k, s'.partition k = if k = key then (s.partition k).advance readMin else s.partition k := by
  unfold advanceDecidedFrontier at h
  split at h
  · cases h
  rename_i readMin hr
  refine ⟨readMin, hr, fun k => ?_⟩
  rw [← Option.some.inj h, partition_storeSweep]
  by_cases hk : k = key
  · subst hk; rfl
  · simp [hk]

theorem advance_frame {s s' : Source} (h : s.advanceDecidedFrontier key = some s') :
    s'.assignmentEpoch = s.assignmentEpoch ∧ s'.assigned = s.assigned := by
  unfold advanceDecidedFrontier at h
  split at h
  · cases h
  · rw [← Option.some.inj h]
    unfold storeSweep
    split_ifs <;> exact ⟨rfl, rfl⟩

theorem accepts_eq {s : Source} {cfg : Config} {m : Meta} {o : Int}
    (h : s.accepts cfg m = some (key, o)) :
    m = ⟨some key.topic, some key.partition, some o, some (s.epochOf key)⟩ := by
  obtain ⟨t, p, o', e⟩ := m
  cases t <;> cases p <;> cases o' <;> simp [accepts] at h
  obtain ⟨-, he, -, rfl, rfl⟩ := h
  rw [he]

theorem advance_isSome {s : Source} (h : (s.readMin.lookup key).isSome) :
    (s.advanceDecidedFrontier key).isSome := by
  unfold advanceDecidedFrontier
  split
  · simp_all
  · rfl

end

end Source
end Tram.Kafka
