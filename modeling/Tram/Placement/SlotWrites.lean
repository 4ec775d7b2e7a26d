import Tram.Lib.Run
import Tram.Placement.State

/-! # Concurrent writes of slots

`update_slot_run_id` reads the slots of a placement in one statement and writes the whole array
back in another, whose condition is about the caller's own slot. Between the two, other calls may
commit. The state keeps the row, the calls that have read and not yet written, and for every slot
what the last call that returned 1 wrote to it. -/

namespace Tram.Placement

/-- The arguments of `update_slot_run_id` besides the placement. -/
structure SlotUpdate where
  workerIndex : Nat
  currentRunId : String
  status : SlotStatus
  restartCount : Option Nat
  expectedRunId : Option String
  deriving DecidableEq, Repr

def SlotUpdate.apply (u : SlotUpdate) (s : Slot) : Slot :=
  { s with
    currentRunId := some u.currentRunId
    status := u.status
    restartCount := u.restartCount.getD s.restartCount }

/-- `stopped_at IS NULL AND status != 'stopped'` -/
def Row.active (row : Row) : Bool := !row.stopped && row.status ≠ .stopped

/-- The `SELECT` and what the caller makes of it: the array to write back, or none where the call
returns 0 at once. -/
def Row.read (row : Row) (u : SlotUpdate) : Option (List Slot) :=
  if row.active then
    match findSlot row.slots u.workerIndex with
    | none => none
    | some s =>
      if u.expectedRunId.any (s.recordedRunId ≠ ·) then none
      else some (modifySlot u.workerIndex u.apply row.slots)
  else none

/-- The condition of the `UPDATE`, with `_slot_matches_clause`. -/
def Row.slotMatches (row : Row) (u : SlotUpdate) : Bool :=
  row.active && row.slots.any fun s =>
    s.workerIndex = u.workerIndex ∧ (u.expectedRunId.isNone ∨ s.currentRunId = u.expectedRunId)

/-- A call between its two statements. -/
structure OpenUpdate where
  update : SlotUpdate
  slots : List Slot

structure SlotRace where
  row : Row
  calls : Dict Nat OpenUpdate
  /-- The last call that returned 1, for every slot. -/
  written : Dict Nat SlotUpdate

namespace SlotRace

def start (row : Row) : SlotRace := ⟨row, ∅, ∅⟩

inductive Op where
  /-- The call named `id` performs its `SELECT`. -/
  | select (id : Nat) (u : SlotUpdate)
  /-- It performs its `UPDATE` and returns. -/
  | update (id : Nat)

/-- The `UPDATE` of an open call: the row count, and the state. -/
def write (s : SlotRace) (id : Nat) (call : OpenUpdate) : Nat × SlotRace :=
  if s.row.slotMatches call.update then
    (1, ⟨{ s.row with slots := call.slots }, s.calls.erase id,
      s.written.insert call.update.workerIndex call.update⟩)
  else (0, { s with calls := s.calls.erase id })

def step (s : SlotRace) : Op → SlotRace
  | .select id u =>
    match s.row.read u with
    | none => s
    | some slots => { s with calls := s.calls.insert id ⟨u, slots⟩ }
  | .update id =>
    match s.calls.lookup id with
    | none => s
    | some call => (s.write id call).2

/-- What a step returns to its caller, where the step ends the call. -/
def returned (s : SlotRace) : Op → Option Nat
  | .select _ u => if (s.row.read u).isNone then some 0 else none
  | .update id => (s.calls.lookup id).map fun call => (s.write id call).1

end SlotRace

def Holds (slots : List Slot) (u : SlotUpdate) : Prop :=
  ∃ s, findSlot slots u.workerIndex = some s ∧ s.currentRunId = some u.currentRunId ∧
    s.status = u.status

namespace SlotRace

/-- No write is lost: every slot written holds the last write. -/
def Kept (s : SlotRace) : Prop := ∀ i u, s.written.lookup i = some u → Holds s.row.slots u

/-- The array a caller is about to write back holds the last write of every other slot. -/
def Current (s : SlotRace) : Op → Prop
  | .select _ _ => True
  | .update id => ∀ call, s.calls.lookup id = some call → s.row.slotMatches call.update = true →
      ∀ i u, i ≠ call.update.workerIndex → s.written.lookup i = some u → Holds call.slots u

/-- An open call is about to write its own slot. -/
def WritesOwn (s : SlotRace) : Prop :=
  ∀ id call, s.calls.lookup id = some call → Holds call.slots call.update

end SlotRace

theorem findSlot_modifySlot (u : SlotUpdate) (slots : List Slot) (i : Nat) :
    findSlot (modifySlot u.workerIndex u.apply slots) i =
      if i = u.workerIndex then (findSlot slots i).map u.apply else findSlot slots i := by
  have happly : ∀ s, (u.apply s).workerIndex = s.workerIndex := fun _ => rfl
  unfold findSlot
  induction slots with
  | nil => simp [modifySlot]
  | cons s slots ih =>
    by_cases hs : s.workerIndex = u.workerIndex
    · by_cases hi : i = u.workerIndex
      · simp [modifySlot, hs, hi, happly]
      · simp [modifySlot, hs, hi, happly, Ne.symm hi]
    · by_cases hi : s.workerIndex = i
      · simp [modifySlot, hi, hi ▸ hs]
      · simp [modifySlot, hs, hi, ih]

theorem Row.read_eq_some {row : Row} {u : SlotUpdate} {slots : List Slot}
    (h : row.read u = some slots) :
    slots = modifySlot u.workerIndex u.apply row.slots ∧
      (findSlot row.slots u.workerIndex).isSome = true := by
  unfold read at h
  split_ifs at h
  split at h
  · cases h
  · rename_i s hs
    split_ifs at h
    cases h
    exact ⟨rfl, Option.isSome_of_eq_some hs⟩

theorem Row.holds_of_read {row : Row} {u : SlotUpdate} {slots : List Slot}
    (h : row.read u = some slots) : Holds slots u := by
  obtain ⟨rfl, hslot⟩ := read_eq_some h
  obtain ⟨s, hs⟩ := Option.isSome_iff_exists.mp hslot
  refine ⟨u.apply s, ?_, rfl, rfl⟩
  rw [findSlot_modifySlot, if_pos rfl, hs]
  rfl

namespace SlotRace

variable {s : SlotRace}

theorem WritesOwn.step (h : s.WritesOwn) (op : Op) : (s.step op).WritesOwn := by
  cases op with
  | select id u =>
    simp only [SlotRace.step]
    split
    · exact h
    · rename_i slots hread
      exact Dict.forall_insert (Row.holds_of_read hread) h
  | update id =>
    have herase : ∀ id' call, (s.calls.erase id).lookup id' = some call →
        Holds call.slots call.update :=
      fun id' call hcall => h id' call (Dict.lookup_of_erase hcall)
    simp only [SlotRace.step]
    split
    · exact h
    · unfold write
      split_ifs <;> exact herase

/-- A step keeps every write exactly if the array it writes back is current. -/
theorem kept_step (hown : s.WritesOwn) (h : s.Kept) (op : Op) : (s.step op).Kept ↔ s.Current op := by
  cases op with
  | select id u =>
    refine iff_of_true ?_ True.intro
    simp only [step]
    split <;> exact h
  | update id =>
    cases hcall : s.calls.lookup id with
    | none => simp [step, Current, hcall, h]
    | some call =>
      by_cases hmatch : s.row.slotMatches call.update = true
      · have hstep : s.step (.update id) = ⟨{ s.row with slots := call.slots }, s.calls.erase id,
            s.written.insert call.update.workerIndex call.update⟩ := by
          simp [step, hcall, write, hmatch]
        rw [hstep]
        constructor
        · intro hkept call' hcall' _ i u hi hu
          cases hcall.symm.trans hcall'
          refine hkept i u ?_
          rw [Dict.lookup_insert_ite, if_neg hi, hu]
        · intro hcurrent i u hu
          rw [Dict.lookup_insert_ite] at hu
          split_ifs at hu with hi
          · cases hu
            exact hown id call hcall
          · exact hcurrent call hcall hmatch i u hi hu
      · have hstep : s.step (.update id) = { s with calls := s.calls.erase id } := by
          simp [step, hcall, write, hmatch]
        rw [hstep]
        refine iff_of_true h fun call' hcall' hmatch' => ?_
        cases hcall.symm.trans hcall'
        exact absurd hmatch' hmatch

/-- Over any interleaving of calls on a placement: every slot holds the last write to it, in every
state reached, exactly if no call writes back an array that lacks the last write of another
slot. -/
theorem slot_writes_kept_iff (row : Row) (ops : List Op) :
    Run.AllSteps step (fun s op => (s.step op).Kept) (start row) ops ↔
      Run.AllSteps step Current (start row) ops :=
  Run.allSteps_iff (I := fun s : SlotRace => s.WritesOwn ∧ s.Kept)
    (fun _ op h => kept_step h.1 h.2 op) (fun _ op h hkept => ⟨h.1.step op, hkept⟩)
    ⟨fun _ _ h => absurd h (by simp [start]), fun _ _ h => absurd h (by simp [start])⟩ ops

/-- A call reads when no other one is open. -/
def Alone (s : SlotRace) : Op → Prop
  | .select _ _ => s.calls.keys = []
  | .update _ => True

/-- The only open call is about to write the slots of the row, with its own one changed. -/
structure ReadsLast (s : SlotRace) : Prop where
  only : ∀ id call, s.calls.lookup id = some call → ∀ id', id' ≠ id → s.calls.lookup id' = none
  slots : ∀ id call, s.calls.lookup id = some call →
    call.slots = modifySlot call.update.workerIndex call.update.apply s.row.slots
  filed : ∀ i u, s.written.lookup i = some u → u.workerIndex = i

theorem ReadsLast.step (h : s.ReadsLast) {op : Op} (halone : s.Alone op) :
    (s.step op).ReadsLast := by
  cases op with
  | select id u =>
    have hcalls : ∀ id, s.calls.lookup id = none := fun id => by
      rw [AList.lookup_eq_none, AList.mem_keys, show s.calls.keys = [] from halone]
      exact List.not_mem_nil
    simp only [SlotRace.step]
    split
    · exact h
    · rename_i slots hread
      refine ⟨fun id' call hcall => ?_, fun id' call hcall => ?_, h.filed⟩ <;>
        simp only [Dict.lookup_insert_ite, hcalls] at hcall ⊢ <;> split_ifs at hcall with hid
      · exact fun _ hne => if_neg (hid ▸ hne)
      · cases hcall
        exact (Row.read_eq_some hread).1
  | update id =>
    simp only [SlotRace.step]
    split
    · exact h
    · rename_i call hcall
      have hnone : ∀ id' call', (s.calls.erase id).lookup id' ≠ some call' := by
        intro id' call' hopen
        rw [Dict.lookup_erase_ite] at hopen
        split_ifs at hopen with hid
        cases (h.only id call hcall id' hid).symm.trans hopen
      unfold write
      split_ifs
      · exact ⟨fun id' call' hopen => absurd hopen (hnone id' call'),
          fun id' call' hopen => absurd hopen (hnone id' call'), Dict.forall_insert rfl h.filed⟩
      · exact ⟨fun id' call' hopen => absurd hopen (hnone id' call'),
          fun id' call' hopen => absurd hopen (hnone id' call'), h.filed⟩

/-- Calls that do not overlap lose no write. -/
theorem slot_writes_kept_apart (row : Row) (ops : List Op)
    (halone : Run.AllSteps step Alone (start row) ops) :
    Run.AllSteps step (fun s op => (s.step op).Kept) (start row) ops := by
  have key : ∀ s : SlotRace, s.WritesOwn → s.Kept → s.ReadsLast → Run.AllSteps step Alone s ops →
      Run.AllSteps step (fun s op => (s.step op).Kept) s ops := by
    clear halone
    induction ops with
    | nil => exact fun _ _ _ _ _ => True.intro
    | cons op ops ih =>
      rintro s hown hkept hlast ⟨halone, hrest⟩
      have hcurrent : s.Current op := by
        cases op with
        | select id u => exact True.intro
        | update id =>
          intro call hcall _ i u hi hu
          obtain ⟨t, ht, hwrites⟩ := hkept i u hu
          refine ⟨t, ?_, hwrites⟩
          rw [hlast.slots id call hcall, findSlot_modifySlot, hlast.filed i u hu, if_neg hi,
            ← hlast.filed i u hu]
          exact ht
      have hnext := (kept_step hown hkept op).mpr hcurrent
      exact ⟨hnext, ih _ (hown.step op) hnext (hlast.step halone) hrest⟩
  exact key _ (fun _ _ h => absurd h (by simp [start])) (fun _ _ h => absurd h (by simp [start]))
    ⟨fun _ _ h => absurd h (by simp [start]), fun _ _ h => absurd h (by simp [start]),
      fun _ _ h => absurd h (by simp [start])⟩ halone

example (row : Row) (first second : SlotUpdate) :
    Run.AllSteps step (fun s op => (s.step op).Kept) (start row)
      [.select 1 first, .update 1, .select 2 second, .update 2] := by
  refine slot_writes_kept_apart _ _ ⟨rfl, True.intro, ?_, True.intro, True.intro⟩
  cases hread : row.read first with
  | none => simp [Alone, step, start, hread]
  | some slots =>
    simp only [Alone, step, start, hread, Dict.lookup_insert_ite, if_true, write]
    split_ifs <;> rfl

/-- Two workers of a placement are restarted at once. Both calls read before either writes, both
return 1, and the second writes the old run id of the first slot back. -/
theorem second_write_restores_first_slot :
    let slot (i : Nat) (runId : String) : Slot :=
      ⟨i, some "http://w", "w", none, "pg", some runId, none, .running, 0⟩
    let row : Row := ⟨"p", [slot 0 "pg-w0", slot 1 "pg-w1"], .count 2, 0, .running, false⟩
    let first : SlotUpdate := ⟨0, "pg-w0-r1", .running, some 1, some "pg-w0"⟩
    let second : SlotUpdate := ⟨1, "pg-w1-r1", .running, some 1, some "pg-w1"⟩
    let read := Run.exec step (start row) [.select 1 first, .select 2 second]
    read.returned (.update 1) = some 1 ∧ (read.step (.update 1)).returned (.update 2) = some 1 ∧
      ¬Holds (Run.exec step read [.update 1, .update 2]).row.slots first := by
  intro slot row first second read
  have hslots : (Run.exec step read [.update 1, .update 2]).row.slots =
      [slot 0 "pg-w0", second.apply (slot 1 "pg-w1")] := by decide +kernel
  refine ⟨by decide +kernel, by decide +kernel, ?_⟩
  rintro ⟨s, hs, hrun, -⟩
  rw [hslots] at hs
  cases hs
  exact absurd hrun (by decide)

end SlotRace

end Tram.Placement
