import Mathlib.Algebra.BigOperators.Group.List.Basic
import Mathlib.Algebra.GroupWithZero.Nat
import Mathlib.Data.Int.Cast.Basic
import Mathlib.Data.Int.Order.Basic
import Tram.Lib.Run

/-! # The bridge queue between a source and its executor

`BoundedBridgeQueue`: any number of producers, one consumer, a bound on the number of items and
one on their payload bytes. The steps are the critical sections under the queue's mutex. A
producer in `put` that finds no room waits on the condition `not_full` until a `get` notifies it,
and looks again; `put_cooperative` tries again after a sleep. -/

namespace Tram.Connectors

open List

/-- The queue, with what went in and what came out, in order. -/
structure Line (ι : Type*) where
  maxsize : Int
  maxBytes : Int
  items : List ι
  bytes : Int
  accepted : List ι
  received : List ι

/-- A producer on the condition `not_full`; `timed` says that its `put` has a timeout. -/
structure Waiter (ι : Type*) where
  item : ι
  timed : Bool

/-- The queue and its producers: asleep on the condition in the order they came, notified and not
yet running again, and between two tries of `put_cooperative`. -/
structure BridgeQueue (ι : Type*) extends Line ι where
  sleeping : List (Waiter ι)
  notified : List (Waiter ι)
  polling : List ι

inductive PutResult where
  | accepted
  /-- `queue.Full` -/
  | full
  | valueError
  | waits
  deriving DecidableEq, Repr

section Steps

variable {ι : Type*} (payloadSize : ι → Nat)

namespace Line

variable (q : Line ι)

def bytesOk (item : ι) : Bool := q.maxBytes ≤ 0 || q.bytes + payloadSize item ≤ q.maxBytes

def roomFor (item : ι) : Bool :=
  (q.maxsize ≤ 0 || q.items.length < q.maxsize) && q.bytesOk payloadSize item

/-- `_put` -/
def accept (item : ι) : Line ι :=
  { q with
    items := q.items ++ [item]
    bytes := q.bytes + payloadSize item
    accepted := q.accepted ++ [item] }

/-- `_get` -/
def take (item : ι) (rest : List ι) : Line ι :=
  { q with items := rest, bytes := q.bytes - payloadSize item, received := q.received ++ [item] }

end Line

namespace BridgeQueue

def init (maxCount maxBytes : Int) : BridgeQueue ι :=
  ⟨⟨maxCount, maxBytes, [], 0, [], []⟩, [], [], []⟩

variable (s : BridgeQueue ι)

def accept (item : ι) : BridgeQueue ι :=
  { s with toLine := s.toLine.accept payloadSize item }

def tryPut (item : ι) (otherwise : PutResult × BridgeQueue ι) :
    PutResult × BridgeQueue ι :=
  if s.roomFor payloadSize item then (.accepted, s.accept payloadSize item) else otherwise

def sleep (w : Waiter ι) : BridgeQueue ι := { s with sleeping := s.sleeping ++ [w] }

/-- `put`, up to the first wait. -/
def put (item : ι) (block : Bool) (timeout : Option Int) :
    PutResult × BridgeQueue ι :=
  if s.maxsize > 0 ∨ s.maxBytes > 0 then
    if !block then s.tryPut payloadSize item (.full, s)
    else
      match timeout with
      | none => s.tryPut payloadSize item (.waits, s.sleep ⟨item, false⟩)
      | some t =>
        if t < 0 then (.valueError, s)
        else if t = 0 then s.tryPut payloadSize item (.full, s)
        else s.tryPut payloadSize item (.waits, s.sleep ⟨item, true⟩)
  else (.accepted, s.accept payloadSize item)

def putNowait (item : ι) : PutResult × BridgeQueue ι :=
  s.put payloadSize item false none

/-- The first try of `put_cooperative` or `put_cooperative_async`. -/
def putCooperative (item : ι) : BridgeQueue ι :=
  match s.putNowait payloadSize item with
  | (.accepted, s') => s'
  | (_, s') => { s' with polling := s'.polling ++ [item] }

def poll (i : Nat) : BridgeQueue ι :=
  match s.polling[i]? with
  | none => s
  | some item =>
    match s.putNowait payloadSize item with
    | (.accepted, s') => { s' with polling := s'.polling.eraseIdx i }
    | (_, s') => s'

/-- The `i`-th notified producer has the mutex again; `expired` says that its timeout is over. -/
def resume (i : Nat) (expired : Bool) : BridgeQueue ι :=
  match s.notified[i]? with
  | none => s
  | some w =>
    let s' := { s with notified := s.notified.eraseIdx i }
    (s'.tryPut payloadSize w.item
      (if w.timed && expired then (.full, s') else (.waits, s'.sleep w))).2

def timeOut (i : Nat) : BridgeQueue ι :=
  match s.sleeping[i]? with
  | none => s
  | some w =>
    if w.timed then
      let s' := { s with sleeping := s.sleeping.eraseIdx i }
      (s'.tryPut payloadSize w.item (.full, s')).2
    else s

def notify : BridgeQueue ι :=
  match s.sleeping with
  | [] => s
  | w :: ws => { s with sleeping := ws, notified := s.notified ++ [w] }

/-- `get`; on an empty queue the consumer waits or raises `queue.Empty`. -/
def get : BridgeQueue ι :=
  match s.items with
  | [] => s
  | item :: rest => { s with toLine := s.toLine.take payloadSize item rest }.notify

inductive Op (ι : Type*) where
  | put (item : ι) (block : Bool) (timeout : Option Int)
  | putNowait (item : ι)
  | putCooperative (item : ι)
  | poll (i : Nat)
  | resume (i : Nat) (expired : Bool)
  | timeOut (i : Nat)
  | get

def step : Op ι → BridgeQueue ι
  | .put item block timeout => (s.put payloadSize item block timeout).2
  | .putNowait item => (s.putNowait payloadSize item).2
  | .putCooperative item => s.putCooperative payloadSize item
  | .poll i => s.poll payloadSize i
  | .resume i expired => s.resume payloadSize i expired
  | .timeOut i => s.timeOut payloadSize i
  | .get => s.get payloadSize

def waiting : List ι :=
  s.sleeping.map (·.item) ++ s.notified.map (·.item) ++ s.polling

end BridgeQueue

/-! ## The queue -/

/-- What a step may do to the queue: nothing, accept an item there is room for, hand one out. -/
inductive Line.Moves (q : Line ι) : Line ι → Prop
  | stays : Line.Moves q q
  | accept (item : ι) (hroom : q.roomFor payloadSize item = true) :
    Line.Moves q (q.accept payloadSize item)
  | take (item : ι) (rest : List ι) (hitems : q.items = item :: rest) :
    Line.Moves q (q.take payloadSize item rest)

/-- The queue is in order: what came out and what is in it is what went in, and both bounds and
the byte counter are kept. -/
structure Line.Sound (maxCount maxBytes : Int) (q : Line ι) : Prop where
  countBound : q.maxsize = maxCount
  byteBound : q.maxBytes = maxBytes
  flow : q.received ++ q.items = q.accepted
  count : (q.items.length : Int) ≤ maxCount
  bytes : q.bytes = ((q.items.map payloadSize).sum : Nat)
  bytes_le : q.bytes ≤ maxBytes

variable {payloadSize} {maxCount maxBytes : Int}

namespace Line

variable {q : Line ι}

theorem roomFor_iff (hcount : 0 < q.maxsize) (hbytes : 0 < q.maxBytes) (item : ι) :
    q.roomFor payloadSize item = true ↔
      (q.items.length : Int) < q.maxsize ∧ q.bytes + payloadSize item ≤ q.maxBytes := by
  simp [roomFor, bytesOk, not_le.mpr hcount, not_le.mpr hbytes]

theorem roomFor_of_unbounded (h : ¬(q.maxsize > 0 ∨ q.maxBytes > 0)) (item : ι) :
    q.roomFor payloadSize item = true := by
  simp only [not_or, not_lt] at h
  simp [roomFor, bytesOk, h.1, h.2]

theorem Sound.moves {q' : Line ι} (h : q.Sound payloadSize maxCount maxBytes)
    (hcount : 1 ≤ maxCount) (hbytes : 1 ≤ maxBytes) (hm : q.Moves payloadSize q') :
    q'.Sound payloadSize maxCount maxBytes := by
  cases hm with
  | stays => exact h
  | accept item hroom =>
    rw [roomFor_iff (by rw [h.countBound]; omega) (by rw [h.byteBound]; omega), h.countBound,
      h.byteBound] at hroom
    refine ⟨h.countBound, h.byteBound, ?_, ?_, ?_, hroom.2⟩
    · simp [accept, ← h.flow]
    · simp only [accept, length_append, length_singleton]
      omega
    · simp [accept, h.bytes]
  | take item rest hitems =>
    have hflow := h.flow
    have hlen := h.count
    have hsum := h.bytes
    have hle := h.bytes_le
    rw [hitems] at hflow hlen hsum
    simp only [map_cons, sum_cons, length_cons] at hsum hlen
    refine ⟨h.countBound, h.byteBound, ?_, ?_, ?_, ?_⟩
    · simpa [take] using hflow
    all_goals
      simp only [take]
      omega

theorem Sound.roomFor_of_empty (h : q.Sound payloadSize maxCount maxBytes) (hcount : 1 ≤ maxCount)
    (hbytes : 1 ≤ maxBytes) (hempty : q.items = []) (item : ι) :
    q.roomFor payloadSize item = true ↔ (payloadSize item : Int) ≤ maxBytes := by
  have hzero : q.bytes = 0 := by simp [h.bytes, hempty]
  rw [roomFor_iff (by rw [h.countBound]; omega) (by rw [h.byteBound]; omega), h.countBound,
    h.byteBound, hzero,
    hempty]
  simp only [length_nil, zero_add, and_iff_right_iff_imp]
  omega

end Line

/-! ## Steps -/

namespace BridgeQueue

variable (payloadSize) in
theorem put_cases (s : BridgeQueue ι) (item : ι) (block : Bool) (timeout : Option Int) :
    (s.roomFor payloadSize item = true ∧
        s.put payloadSize item block timeout = (.accepted, s.accept payloadSize item)) ∨
      ((s.put payloadSize item block timeout).1 ≠ .accepted ∧
        (s.put payloadSize item block timeout).2 = s) ∨
      (s.roomFor payloadSize item = false ∧ ∃ timed,
        s.put payloadSize item block timeout = (.waits, s.sleep ⟨item, timed⟩)) := by
  unfold put
  by_cases hbounded : s.maxsize > 0 ∨ s.maxBytes > 0
  · rw [if_pos hbounded]
    unfold tryPut
    cases hroom : s.roomFor payloadSize item with
    | true =>
      cases block with
      | false => exact .inl ⟨rfl, rfl⟩
      | true =>
        cases timeout with
        | none => exact .inl ⟨rfl, rfl⟩
        | some t =>
          by_cases hneg : t < 0
          · simp [hneg]
          · by_cases hzero : t = 0 <;> simp [hneg, hzero]
    | false =>
      cases block with
      | false => exact .inr (.inl ⟨by simp, rfl⟩)
      | true =>
        cases timeout with
        | none => exact .inr (.inr ⟨rfl, false, rfl⟩)
        | some t =>
          by_cases hneg : t < 0
          · simp [hneg]
          · by_cases hzero : t = 0 <;> simp [hneg, hzero]
  · rw [if_neg hbounded]
    exact .inl ⟨Line.roomFor_of_unbounded hbounded item, rfl⟩

theorem putNowait_eq (s : BridgeQueue ι) (item : ι) :
    s.putNowait payloadSize item =
      if s.roomFor payloadSize item then (.accepted, s.accept payloadSize item) else (.full, s) := by
  unfold putNowait put
  by_cases hbounded : s.maxsize > 0 ∨ s.maxBytes > 0
  · simp [hbounded, tryPut]
  · rw [if_neg hbounded, if_pos (Line.roomFor_of_unbounded hbounded item)]

theorem toLine_notify (s : BridgeQueue ι) : s.notify.toLine = s.toLine := by
  unfold notify
  split <;> rfl

theorem step_moves (s : BridgeQueue ι) (op : Op ι) :
    s.toLine.Moves payloadSize (s.step payloadSize op).toLine := by
  cases op with
  | put item block timeout =>
    simp only [step]
    rcases put_cases payloadSize s item block timeout with
      ⟨hroom, h⟩ | ⟨-, h⟩ | ⟨-, timed, h⟩
    · rw [h]
      exact .accept item hroom
    · rw [h]
      exact .stays
    · rw [h]
      exact .stays
  | putNowait item =>
    simp only [step, putNowait_eq]
    split_ifs with hroom
    · exact .accept item hroom
    · exact .stays
  | putCooperative item =>
    simp only [step, putCooperative, putNowait_eq]
    by_cases hroom : s.roomFor payloadSize item = true
    · simp only [hroom, if_true]
      exact .accept item hroom
    · simp only [hroom]
      exact .stays
  | poll i =>
    simp only [step, poll]
    split
    · exact .stays
    · rename_i item _
      simp only [putNowait_eq]
      by_cases hroom : s.roomFor payloadSize item = true
      · simp only [hroom, if_true]
        exact .accept item hroom
      · simp only [hroom]
        exact .stays
  | resume i expired =>
    simp only [step, resume, tryPut]
    split
    · exact .stays
    · rename_i w _
      split_ifs with hroom
      · exact .accept w.item hroom
      · exact .stays
      · exact .stays
  | timeOut i =>
    simp only [step, timeOut, tryPut]
    split
    · exact .stays
    · rename_i w _
      split_ifs with htimed hroom
      · exact .accept w.item hroom
      · exact .stays
      · exact .stays
  | get =>
    simp only [step, get]
    split
    · exact .stays
    · rename_i item rest hitems
      rw [toLine_notify]
      exact .take item rest hitems

/-! ## Sleeping producers -/

/-- No producer sleeps beside an empty queue, unless another one has been notified. -/
def Awake (s : BridgeQueue ι) : Prop := s.sleeping ≠ [] → s.items ≠ [] ∨ s.notified ≠ []

/-- The payload a step offers to the queue for the first time is within the byte bound. -/
def Op.Fits (payloadSize : ι → Nat) (maxBytes : Int) : Op ι → Prop
  | .put item _ _ | .putNowait item | .putCooperative item => (payloadSize item : Int) ≤ maxBytes
  | _ => True

def WaitersFit (payloadSize : ι → Nat) (maxBytes : Int) (s : BridgeQueue ι) : Prop :=
  ∀ w ∈ s.sleeping ++ s.notified, (payloadSize w.item : Int) ≤ maxBytes

theorem awake_accept (s : BridgeQueue ι) (item : ι) : (s.accept payloadSize item).Awake :=
  fun _ => .inl (by simp [accept, Line.accept])

variable {op : Op ι}

section Progress

variable {s : BridgeQueue ι} (hs : s.toLine.Sound payloadSize maxCount maxBytes)
  (hcount : 1 ≤ maxCount) (hbytes : 1 ≤ maxBytes)

include hs hcount hbytes

theorem items_ne_nil {item : ι} (hfits : (payloadSize item : Int) ≤ maxBytes)
    (hroom : ¬s.roomFor payloadSize item = true) : s.items ≠ [] :=
  fun hempty => hroom ((hs.roomFor_of_empty hcount hbytes hempty item).mpr hfits)

theorem awake_tryPut {item : ι} (hfits : (payloadSize item : Int) ≤ maxBytes)
    {otherwise : PutResult × BridgeQueue ι} (hline : otherwise.2.items = s.items) :
    (s.tryPut payloadSize item otherwise).2.Awake := by
  unfold tryPut
  split_ifs with hroom
  · exact awake_accept s item
  · exact fun _ => .inl (hline ▸ items_ne_nil hs hcount hbytes hfits hroom)

theorem awake_step (h : s.Awake) (hfit : s.WaitersFit payloadSize maxBytes)
    (hop : op.Fits payloadSize maxBytes) : (s.step payloadSize op).Awake := by
  cases op with
  | put item block timeout =>
    simp only [step]
    rcases put_cases payloadSize s item block timeout with
      ⟨-, heq⟩ | ⟨-, heq⟩ | ⟨hroom, timed, heq⟩
    · rw [heq]
      exact awake_accept s item
    · rwa [heq]
    · rw [heq]
      exact fun _ => .inl (items_ne_nil hs hcount hbytes hop (Bool.eq_false_iff.mp hroom))
  | putNowait item =>
    simp only [step, putNowait_eq]
    split_ifs
    · exact awake_accept s item
    · exact h
  | putCooperative item =>
    simp only [step, putCooperative, putNowait_eq]
    by_cases hroom : s.roomFor payloadSize item = true
    · simp only [hroom, if_true]
      exact awake_accept s item
    · simp only [hroom]
      exact h
  | poll i =>
    simp only [step, poll]
    split
    · exact h
    · rename_i item _
      simp only [putNowait_eq]
      by_cases hroom : s.roomFor payloadSize item = true
      · simp only [hroom, if_true]
        exact fun _ => .inl (by simp [accept, Line.accept])
      · simp only [hroom]
        exact h
  | resume i expired =>
    simp only [step, resume]
    split
    · exact h
    · rename_i w hw
      have hmem := mem_append_right s.sleeping (mem_of_getElem? hw)
      refine awake_tryPut (s := { s with notified := s.notified.eraseIdx i }) hs hcount hbytes
        (hfit w hmem) ?_
      split_ifs <;> rfl
  | timeOut i =>
    simp only [step, timeOut]
    split
    · exact h
    · rename_i w hw
      have hmem := mem_append_left s.notified (mem_of_getElem? hw)
      split_ifs
      · exact awake_tryPut (s := { s with sleeping := s.sleeping.eraseIdx i }) hs hcount hbytes
          (hfit w hmem) rfl
      · exact h
  | get =>
    simp only [step, get]
    split
    · exact h
    · -- the first sleeper is notified
      unfold notify
      split
      · rename_i hnone
        exact fun hsome => absurd hnone hsome
      · exact fun _ => .inr (by simp)

end Progress

theorem mem_waiters_step {s : BridgeQueue ι} {w : Waiter ι}
    (hw : w ∈ (s.step payloadSize op).sleeping ++ (s.step payloadSize op).notified) :
    w ∈ s.sleeping ++ s.notified ∨ ∃ block timeout, op = .put w.item block timeout := by
  cases op with
  | put item block timeout =>
    simp only [step] at hw
    rcases put_cases payloadSize s item block timeout with
      ⟨-, heq⟩ | ⟨-, heq⟩ | ⟨-, timed, heq⟩
    · rw [heq] at hw
      exact .inl hw
    · rw [heq] at hw
      exact .inl hw
    · rw [heq] at hw
      simp only [sleep, mem_append, mem_singleton] at hw ⊢
      rcases hw with (hw | rfl) | hw
      · exact .inl (.inl hw)
      · exact .inr ⟨block, timeout, rfl⟩
      · exact .inl (.inr hw)
  | putNowait item =>
    simp only [step, putNowait_eq] at hw
    split_ifs at hw <;> exact .inl hw
  | putCooperative item =>
    simp only [step, putCooperative, putNowait_eq] at hw
    split_ifs at hw <;> exact .inl hw
  | poll i =>
    simp only [step, poll, putNowait_eq] at hw
    split at hw
    · exact .inl hw
    · split_ifs at hw <;> exact .inl hw
  | resume i expired =>
    simp only [step, resume, tryPut] at hw
    split at hw
    · exact .inl hw
    · rename_i w' hw'
      have hleft : w ∈ s.sleeping ++ s.notified.eraseIdx i → w ∈ s.sleeping ++ s.notified := by
        simp only [mem_append]
        exact Or.imp_right mem_of_mem_eraseIdx
      split_ifs at hw
      · exact .inl (hleft hw)
      · exact .inl (hleft hw)
      · simp only [sleep, mem_append, mem_singleton] at hw hleft ⊢
        rcases hw with (hw | rfl) | hw
        · exact .inl (.inl hw)
        · exact .inl (.inr (mem_of_getElem? hw'))
        · exact .inl (hleft (.inr hw))
  | timeOut i =>
    simp only [step, timeOut, tryPut] at hw
    split at hw
    · exact .inl hw
    · have hleft : w ∈ s.sleeping.eraseIdx i ++ s.notified → w ∈ s.sleeping ++ s.notified := by
        simp only [mem_append]
        exact Or.imp_left mem_of_mem_eraseIdx
      split_ifs at hw
      · exact .inl (hleft hw)
      · exact .inl (hleft hw)
      · exact .inl hw
  | get =>
    simp only [step, get] at hw
    split at hw
    · exact .inl hw
    · unfold notify at hw
      split at hw
      · exact .inl hw
      · rename_i w' ws hsleeping
        change s.sleeping = w' :: ws at hsleeping
        simp only [mem_append, mem_singleton] at hw ⊢
        rw [hsleeping]
        rcases hw with hw | hw | rfl
        · exact .inl (.inl (mem_cons_of_mem w' hw))
        · exact .inl (.inr hw)
        · exact .inl (.inl mem_cons_self)

theorem waitersFit_step {s : BridgeQueue ι} (h : s.WaitersFit payloadSize maxBytes)
    (hop : op.Fits payloadSize maxBytes) :
    (s.step payloadSize op).WaitersFit payloadSize maxBytes := by
  intro w hw
  rcases mem_waiters_step hw with hold | ⟨block, timeout, rfl⟩
  · exact h w hold
  · exact hop

variable (payloadSize) in
theorem sound_exec (hcount : 1 ≤ maxCount) (hbytes : 1 ≤ maxBytes) (ops : List (Op ι)) :
    (Run.exec (step payloadSize) (init maxCount maxBytes) ops).toLine.Sound payloadSize maxCount
      maxBytes :=
  Run.exec_invariant (I := fun s : BridgeQueue ι => s.toLine.Sound payloadSize maxCount maxBytes)
    (fun s op h => h.moves hcount hbytes (step_moves s op))
    ⟨rfl, rfl, rfl, by simp [init]; omega, rfl, by simp [init]; omega⟩ ops

theorem awake_exec (hcount : 1 ≤ maxCount) (hbytes : 1 ≤ maxBytes) {ops : List (Op ι)}
    (hfits : ∀ op ∈ ops, op.Fits payloadSize maxBytes) :
    (Run.exec (step payloadSize) (init maxCount maxBytes) ops).Awake := by
  have hinv := Run.exec_invariant_mem
    (I := fun s : BridgeQueue ι => s.toLine.Sound payloadSize maxCount maxBytes ∧
      s.WaitersFit payloadSize maxBytes ∧ s.Awake)
    (fun s op hop h => ⟨h.1.moves hcount hbytes (step_moves s op), waitersFit_step h.2.1 (hfits op hop),
      awake_step h.1 hcount hbytes h.2.2 h.2.1 (hfits op hop)⟩)
    ⟨sound_exec payloadSize hcount hbytes [], fun _ h => absurd h not_mem_nil, fun h => absurd rfl h⟩
  exact hinv.2.2

/-- Over every interleaving of producers and one consumer: what is received is the first part of
what was accepted; both bounds hold and the byte counter is exact; a waiting producer finds room in
an empty queue exactly if its payload is within the byte bound; and if all payloads are, no producer
sleeps beside an empty queue without one that has been notified. -/
theorem bridge_queue_flows (payloadSize : ι → Nat) (maxCount maxBytes : Int) (hcount : 1 ≤ maxCount)
    (hbytes : 1 ≤ maxBytes) (ops : List (Op ι)) :
    let s := Run.exec (step payloadSize) (init maxCount maxBytes) ops
    s.accepted = s.received ++ s.items ∧ (s.items.length : Int) ≤ maxCount ∧
      s.bytes = ((s.items.map payloadSize).sum : Nat) ∧ s.bytes ≤ maxBytes ∧
      (s.items = [] → ∀ item ∈ s.waiting,
        (s.roomFor payloadSize item = true ↔ (payloadSize item : Int) ≤ maxBytes)) ∧
      ((∀ op ∈ ops, op.Fits payloadSize maxBytes) → s.items = [] → s.sleeping ≠ [] →
        s.notified ≠ []) := by
  intro s
  have hs := sound_exec payloadSize hcount hbytes ops
  refine ⟨hs.flow.symm, hs.count, hs.bytes, hs.bytes_le,
    fun hempty item _ => hs.roomFor_of_empty hcount hbytes hempty item, fun hfits hempty hsleeps => ?_⟩
  exact (awake_exec hcount hbytes hfits hsleeps).resolve_left (not_not.mpr hempty)

theorem bridge_queue_flows_notified :
    let ops := [Op.put 4 true none, .put 4 true none, .put 4 true none, .get]
    (Run.exec (step id) (init 2 5) ops).notified ≠ [] :=
  (bridge_queue_flows id 2 5 (by decide) (by decide)
    [Op.put 4 true none, .put 4 true none, .put 4 true none, .get]).2.2.2.2.2
    (by simp [Op.Fits]) (by decide) (fun h => absurd (congrArg length h) (by decide))

/-- A payload of two bytes and a bound of one: the queue is empty, and there is no room for the
producer that waits. The next producer, whose payload fits, is accepted; once its item is taken it
is the first one that is notified, and the third sleeps on beside an empty queue. -/
theorem oversized_payload_waits :
    let s := Run.exec (step id) (init 1 1) [Op.put 2 true none]
    let s' := Run.exec (step id) s [Op.put 1 true none, .put 1 true none, .get, .resume 0 false]
    s.items = [] ∧ s.waiting = [2] ∧ s.roomFor id 2 = false ∧
      s'.items = [] ∧ s'.waiting = [1, 2] ∧ s'.notified.length = 0 := by
  decide

end BridgeQueue

end Steps

end Tram.Connectors
