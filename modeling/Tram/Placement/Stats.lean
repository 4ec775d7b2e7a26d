import Tram.Lib.Numeral
import Tram.Lib.Run
import Tram.Placement.Redispatch

/-! # Stats of a stream

After a restart of the manager a placement is `reconciling`: the next stats of each run tell the
manager that the run is alive. `on_pipeline_stats` looks for the slot a run belongs to by the text
its id starts with. The numeral at the end of one slot's text can start the numeral of another, so
the slot found need not be the only one. -/

namespace Tram.Placement

open List Manager Numeral

/-- `text.startswith(head)` -/
def startsWith (text head : String) : Bool := head.toList.isPrefixOf text.toList

structure StatsPayload where
  pipelineName : String
  runId : String
  deriving DecidableEq, Repr

structure StatsLoop where
  db : Option (Dict String Row)
  changed : Bool
  lostRace : Bool

/-- The end of the loop's body. -/
def markRunning (l : StatsLoop) (s : Slot) : Slot × StatsLoop :=
  if s.status = .running then (s, l) else ({ s with status := .running }, { l with changed := true })

/-- The slot takes the run id of the payload, in the database first. -/
def takeRunId (placementGroupId runId : String) (l : StatsLoop) (s : Slot) : Slot × StatsLoop :=
  match l.db with
  | none => markRunning l { s with currentRunId := some runId }
  | some rows =>
    let updated :=
      updateSlotRunId rows placementGroupId s.workerIndex runId s.restartCount s.recordedRunId
    if updated.1 = 0 then (s, { l with lostRace := true })
    else markRunning { l with db := some updated.2 } { s with currentRunId := some runId }

def statsSlot (placementGroupId runId : String) (l : StatsLoop) (s : Slot) : Slot × StatsLoop :=
  if s.currentRunId = some runId then markRunning l s
  else if startsWith runId s.runIdPrefix then
    -- a run that was superseded is never adopted again
    if runRestartCount runId < runRestartCount s.recordedRunId then (s, l)
    else takeRunId placementGroupId runId l s
  else (s, l)

def statsSlots (placementGroupId runId : String) : StatsLoop → List Slot → List Slot × StatsLoop
  | l, [] => ([], l)
  | l, s :: slots =>
    let first := statsSlot placementGroupId runId l s
    let rest := statsSlots placementGroupId runId first.2 slots
    (first.1 :: rest.1, rest.2)

def Manager.onPipelineStats (m : Manager) (payload : StatsPayload) : Manager :=
  match m.activePlacementGroup.lookup payload.pipelineName with
  | none => m
  | some group =>
    match m.broadcastPlacements.lookup group with
    | none => m
    | some p =>
      if p.status = .reconciling then
        let (slots, l) := statsSlots group payload.runId ⟨m.db, false, false⟩ p.slots
        let t := (({ m with db := l.db }).setPlacement group { p with slots := slots })
          |>.syncStreamRunIdsFromSlots payload.pipelineName slots
        if l.lostRace then t
        else if slots.all fun s => s.status = .running then
          t.updateBroadcastPlacementStatus group .running
        else if l.changed then t.persist group slots p.status
        else t
      else m

namespace Manager

def slotView (m : Manager) (placementGroupId : String) (index : Nat) :
    Option (Option String × SlotStatus) :=
  ((m.broadcastPlacements.lookup placementGroupId).bind (·.slots[index]?)).map
    fun s => (s.currentRunId, s.status)

section

variable (m : Manager) (group : String) (slots : List Slot) (status : Status)

@[simp] theorem broadcastPlacements_persist :
    (m.persist group slots status).broadcastPlacements = m.broadcastPlacements :=
  rfl

@[simp] theorem activePlacementGroup_persist :
    (m.persist group slots status).activePlacementGroup = m.activePlacementGroup := rfl

end

section

variable (m : Manager) (name : String) (slots : List Slot)

@[simp] theorem broadcastPlacements_sync :
    (m.syncStreamRunIdsFromSlots name slots).broadcastPlacements = m.broadcastPlacements := by
  unfold syncStreamRunIdsFromSlots
  split <;> rfl

@[simp] theorem activePlacementGroup_sync :
    (m.syncStreamRunIdsFromSlots name slots).activePlacementGroup = m.activePlacementGroup := by
  unfold syncStreamRunIdsFromSlots
  split <;> rfl

@[simp] theorem db_sync : (m.syncStreamRunIdsFromSlots name slots).db = m.db := by
  unfold syncStreamRunIdsFromSlots
  split <;> rfl

end

@[simp] theorem broadcastPlacements_setStatus (m : Manager) (name : String) (status : Status) :
    (m.setStatus name status).broadcastPlacements = m.broadcastPlacements := rfl

@[simp] theorem broadcastPlacements_setPlacement (m : Manager) (group : String)
    (p : BroadcastPlacement) :
    (m.setPlacement group p).broadcastPlacements = m.broadcastPlacements.insert group p := rfl

theorem slotView_updateStatus (m : Manager) (group : String) (status : Status) (group' : String)
    (index : Nat) : (m.updateBroadcastPlacementStatus group status).slotView group' index =
      m.slotView group' index := by
  unfold updateBroadcastPlacementStatus
  cases h : m.broadcastPlacements.lookup group with
  | none => rfl
  | some p =>
    by_cases hg : group' = group
    · subst hg
      simp [slotView, h]
    · simp [slotView, hg]

end Manager

/-- Whether the loop takes the slot for the payload's and gives it a run id or a status it does not
have. In the database the slot must be as the manager has it, and have a run id. -/
def Adopts (db : Option (Dict String Row)) (placementGroupId runId : String) (s : Slot) : Prop :=
  if s.currentRunId = some runId then s.status ≠ .running
  else startsWith runId s.runIdPrefix = true ∧
    runRestartCount s.recordedRunId ≤ runRestartCount runId ∧
    ∀ rows, db = some rows →
      (updateSlotRunId rows placementGroupId s.workerIndex runId s.restartCount s.recordedRunId).1 ≠ 0

variable {group runId : String} {s : Slot} {j n index other i : Nat} {f : Slot → Slot}
    {slots : List Slot} {p : BroadcastPlacement} {m : Manager} {rows : Dict String Row}
  {l : StatsLoop}

theorem markRunning_view (l : StatsLoop) (s : Slot) :
    (markRunning l s).1.currentRunId = s.currentRunId ∧ (markRunning l s).1.status = .running := by
  unfold markRunning
  split_ifs with h
  · exact ⟨rfl, h⟩
  · exact ⟨rfl, rfl⟩

theorem markRunning_db (l : StatsLoop) (s : Slot) : (markRunning l s).2.db = l.db := by
  unfold markRunning
  split_ifs <;> rfl

theorem takeRunId_view (hne : s.currentRunId ≠ some runId) :
    ((takeRunId group runId l s).1.currentRunId, (takeRunId group runId l s).1.status) =
        (s.currentRunId, s.status) ↔
      ∃ rows, l.db = some rows ∧
        (updateSlotRunId rows group s.workerIndex runId s.restartCount s.recordedRunId).1 = 0 := by
  obtain ⟨db, changed, lostRace⟩ := l
  cases db with
  | none =>
    simp only [takeRunId, Prod.mk.injEq, (markRunning_view _ _).1, reduceCtorEq, false_and,
      exists_false, iff_false, not_and]
    exact fun h => absurd h.symm hne
  | some rows =>
    by_cases h0 :
        (updateSlotRunId rows group s.workerIndex runId s.restartCount s.recordedRunId).1 = 0
    · simp [takeRunId, h0]
    · refine iff_of_false (fun h => hne ?_) (by simp [h0])
      simp only [takeRunId, if_neg h0, Prod.mk.injEq] at h
      rw [← h.1, (markRunning_view _ _).1]

theorem statsSlot_view (group runId : String) (l : StatsLoop) (s : Slot) :
    ((statsSlot group runId l s).1.currentRunId, (statsSlot group runId l s).1.status) =
        (s.currentRunId, s.status) ↔ ¬ Adopts l.db group runId s := by
  unfold statsSlot Adopts
  by_cases hcur : s.currentRunId = some runId
  · simp only [if_pos hcur, Prod.mk.injEq, (markRunning_view _ _).1, (markRunning_view _ _).2,
      true_and, ne_eq, not_not]
    exact eq_comm
  · simp only [if_neg hcur]
    by_cases hstart : startsWith runId s.runIdPrefix = true
    · by_cases hold : runRestartCount runId < runRestartCount s.recordedRunId
      · simp [hstart, hold, Nat.not_le.mpr hold]
      · rw [if_pos hstart, if_neg hold, takeRunId_view hcur]
        simp [hstart, Nat.le_of_not_lt hold]
    · simp [hstart]

/-! ## The slots are updated one by one -/

section

variable (hf : ∀ s, (f s).workerIndex = s.workerIndex) (hne : other ≠ index)
include hf hne

theorem find_modifySlot_ne (slots : List Slot) :
    findSlot (modifySlot index f slots) other = findSlot slots other := by
  induction slots with
  | nil => rfl
  | cons s slots ih =>
    simp only [findSlot, modifySlot] at ih ⊢
    split_ifs with h
    · have hs : s.workerIndex ≠ other := h ▸ hne.symm
      simp [hf, hs]
    · simp [find?_cons, ih]

theorem any_modifySlot_ne (expected : String) (slots : List Slot) :
    (modifySlot index f slots).any (fun s => s.workerIndex = other ∧ s.currentRunId = some expected) =
      slots.any (fun s => s.workerIndex = other ∧ s.currentRunId = some expected) := by
  induction slots with
  | nil => rfl
  | cons s slots ih =>
    rw [modifySlot]
    split_ifs with h
    · have hs : s.workerIndex ≠ other := h ▸ hne.symm
      simp [hf, hs]
    · simp only [any_cons, ih]

end

theorem updateSlotRunId_ne_zero {restartCount : Nat} {expected : String} :
    (updateSlotRunId rows group index runId restartCount expected).1 ≠ 0 ↔
      ∃ row, rows.lookup group = some row ∧ row.accepts index expected = true := by
  unfold updateSlotRunId
  cases rows.lookup group with
  | none => simp
  | some row =>
    by_cases h : row.accepts index expected = true <;> simp [h]

theorem accepts_modifySlot_ne (hf : ∀ s, (f s).workerIndex = s.workerIndex) (hne : other ≠ index)
    (row : Row) (expected : String) :
    Row.accepts { row with slots := modifySlot index f row.slots } other expected =
      row.accepts other expected := by
  simp only [Row.accepts, find_modifySlot_ne hf hne, any_modifySlot_ne hf hne]

theorem updateSlotRunId_apart (hne : other ≠ index) (runId : String) (restartCount : Nat)
    (expected : String) {runId' : String} {restartCount' : Nat} {expected' : String} :
    (updateSlotRunId (updateSlotRunId rows group index runId restartCount expected).2 group other
        runId' restartCount' expected').1 ≠ 0 ↔
      (updateSlotRunId rows group other runId' restartCount' expected').1 ≠ 0 := by
  rw [updateSlotRunId_ne_zero, updateSlotRunId_ne_zero, updateSlotRunId]
  cases hrow : rows.lookup group with
  | none => simp [hrow]
  | some row =>
    dsimp only
    split_ifs
    · simp only [AList.lookup_insert, Option.some.injEq, exists_eq_left']
      exact Bool.eq_iff_iff.mp
        (accepts_modifySlot_ne (f := Slot.setRunId runId restartCount) (fun _ => rfl) hne row expected')
    · simp [hrow]

theorem takeRunId_db (group runId : String) (l : StatsLoop) (s : Slot) :
    (takeRunId group runId l s).2.db = l.db ∨ ∃ rows, l.db = some rows ∧
      (takeRunId group runId l s).2.db = some (updateSlotRunId rows group s.workerIndex runId
        s.restartCount s.recordedRunId).2 := by
  obtain ⟨db, changed, lostRace⟩ := l
  cases db with
  | none => exact .inl (markRunning_db _ _)
  | some rows =>
    simp only [takeRunId]
    split_ifs
    · exact .inl rfl
    · exact .inr ⟨rows, rfl, markRunning_db _ _⟩

theorem adopts_statsSlot {t : Slot} (hne : s.workerIndex ≠ t.workerIndex) :
    Adopts (statsSlot group runId l t).2.db group runId s ↔ Adopts l.db group runId s := by
  have hdb : (statsSlot group runId l t).2.db = l.db ∨ ∃ rows, l.db = some rows ∧
      (statsSlot group runId l t).2.db = some (updateSlotRunId rows group t.workerIndex runId
        t.restartCount t.recordedRunId).2 := by
    unfold statsSlot
    split_ifs
    · exact .inl (markRunning_db _ _)
    · exact .inl rfl
    · exact takeRunId_db group runId l t
    · exact .inl rfl
  rcases hdb with hdb | ⟨rows, hl, hdb⟩
  · rw [hdb]
  · rw [hdb, hl]
    unfold Adopts
    split_ifs with hcur
    · exact Iff.rfl
    · simp only [Option.some.injEq, forall_eq']
      rw [updateSlotRunId_apart hne]

theorem statsSlots_view (group runId : String) (hnd : (slots.map (·.workerIndex)).Nodup)
    (l : StatsLoop) (hj : slots[j]? = some s) :
    ∃ s', (statsSlots group runId l slots).1[j]? = some s' ∧
      ((s'.currentRunId, s'.status) = (s.currentRunId, s.status) ↔ ¬ Adopts l.db group runId s) := by
  induction slots generalizing l j with
  | nil => simp at hj
  | cons t slots ih =>
    obtain ⟨ht, hnd⟩ := nodup_cons.mp hnd
    cases j with
    | zero =>
      obtain rfl : t = s := by simpa using hj
      exact ⟨_, rfl, statsSlot_view group runId l t⟩
    | succ j =>
      have hmem : s ∈ slots := mem_of_getElem? hj
      have hne : s.workerIndex ≠ t.workerIndex := fun he =>
        ht (mem_map.mpr ⟨s, hmem, he⟩)
      obtain ⟨s', hs', hview⟩ := ih hnd (statsSlot group runId l t).2 hj
      exact ⟨s', hs', hview.trans (not_congr (adopts_statsSlot hne))⟩

theorem length_statsSlots (group runId : String) (l : StatsLoop) (slots : List Slot) :
    (statsSlots group runId l slots).1.length = slots.length := by
  induction slots generalizing l with
  | nil => rfl
  | cons s slots ih => exact congrArg (· + 1) (ih _)

theorem slotView_eq (hp : m.broadcastPlacements.lookup group = some p) (j : Nat) :
    m.slotView group j = p.slots[j]?.map fun s => (s.currentRunId, s.status) := by
  simp [slotView, hp]

section

variable (payload : StatsPayload)
  (hactive : m.activePlacementGroup.lookup payload.pipelineName = some group)
  (hp : m.broadcastPlacements.lookup group = some p) (hstatus : p.status = .reconciling)
include hactive hp hstatus

theorem slotView_onPipelineStats (group' : String) (j : Nat) :
    (m.onPipelineStats payload).slotView group' j = (m.setPlacement group { p with
      slots := (statsSlots group payload.runId ⟨m.db, false, false⟩ p.slots).1 }).slotView group' j := by
  unfold onPipelineStats
  simp only [hactive, hp, if_pos hstatus]
  split_ifs
  · simp [slotView]
  · rw [slotView_updateStatus]
    simp [slotView]
  · simp [slotView]
  · simp [slotView]

theorem onPipelineStats_view (hnd : (p.slots.map (·.workerIndex)).Nodup) (j : Nat) :
    (m.onPipelineStats payload).slotView group j = m.slotView group j ↔
      ∀ s, p.slots[j]? = some s → ¬ Adopts m.db group payload.runId s := by
  rw [slotView_onPipelineStats payload hactive hp hstatus, slotView_eq (AList.lookup_insert _),
    slotView_eq hp]
  cases hj : p.slots[j]? with
  | none =>
    have hlen : p.slots.length ≤ j := getElem?_eq_none_iff.mp hj
    have hnone : (statsSlots group payload.runId ⟨m.db, false, false⟩ p.slots).1[j]? = none := by
      rwa [getElem?_eq_none_iff, length_statsSlots]
    simp [hnone]
  | some s =>
    obtain ⟨s', hs', hview⟩ := statsSlots_view group payload.runId hnd ⟨m.db, false, false⟩ hj
    rw [hs', Option.map_some, Option.map_some, Option.some.injEq, hview]
    simp

end

theorem onPipelineStats_apart (m : Manager) (payload : StatsPayload)
    (hactive : m.activePlacementGroup.lookup payload.pipelineName ≠ some group) (j : Nat) :
    (m.onPipelineStats payload).slotView group j = m.slotView group j := by
  cases hlookup : m.activePlacementGroup.lookup payload.pipelineName with
  | none => simp [onPipelineStats, hlookup]
  | some other =>
    have hne : group ≠ other := fun h => hactive (by rw [hlookup, h])
    cases hp : m.broadcastPlacements.lookup other with
    | none => simp [onPipelineStats, hlookup, hp]
    | some p =>
      by_cases hstatus : p.status = .reconciling
      · rw [slotView_onPipelineStats payload hlookup hp hstatus]
        simp [slotView, hne]
      · simp [onPipelineStats, hlookup, hp, hstatus]

/-! ## Whose run an id is -/

/-- The run id of a slot: its first, or that of a restart. -/
def ownRunId (placementGroupId : String) (targetSlots index : Nat) : Option Nat → String
  | none => slotRunId placementGroupId targetSlots index
  | some n => restartRunId (slotRunId placementGroupId targetSlots index) n

theorem restartRunId_toList (stem : String) (n : Nat) :
    (restartRunId stem n).toList = (stem.toList ++ ['-']) ++ 'r' :: Nat.toDigits 10 n := by
  simp [restartRunId]

theorem slotRunId_toList (hn : n ≠ 1) (index : Nat) :
    (slotRunId group n index).toList = (group.toList ++ ['-']) ++ 'w' :: Nat.toDigits 10 index := by
  simp [slotRunId, hn]

theorem runRestartCount_restartRunId (stem : String) (n : Nat) :
    runRestartCount (restartRunId stem n) = n := by
  have hrev : (restartRunId stem n).toList.reverse =
      (Nat.toDigits 10 n).reverse ++ 'r' :: '-' :: stem.toList.reverse := by
    simp [restartRunId_toList]
  simp [runRestartCount, hrev, takeWhile_isDigit (c := 'r') (by decide),
    dropWhile_isDigit (c := 'r') (by decide)]

theorem runRestartCount_slotRunId (hn : n ≠ 1) (index : Nat) :
    runRestartCount (slotRunId group n index) = 0 := by
  have hrev : (slotRunId group n index).toList.reverse =
      (Nat.toDigits 10 index).reverse ++ 'w' :: '-' :: group.toList.reverse := by
    simp [slotRunId_toList hn]
  simp [runRestartCount, hrev, dropWhile_isDigit (c := 'w') (by decide)]

theorem runRestartCount_ownRunId (hn : n ≠ 1) (index : Nat) (restart : Option Nat) :
    runRestartCount (ownRunId group n index restart) = restart.getD 0 := by
  cases restart with
  | none => exact runRestartCount_slotRunId hn index
  | some k => exact runRestartCount_restartRunId _ k

theorem ownRunId_ne (hn : n ≠ 1) (hne : j ≠ i) (r r' : Option Nat) :
    ownRunId group n j r ≠ ownRunId group n i r' := by
  intro h
  have hslot : slotRunId group n j ≠ slotRunId group n i := fun h => by
    have hchars := congrArg String.toList h
    rw [slotRunId_toList hn, slotRunId_toList hn] at hchars
    exact hne (append_toDigits_inj (by decide) hchars).2
  have hchars := congrArg String.toList h
  cases r with
  | none =>
    cases r' with
    | none => exact hslot h
    | some k =>
      rw [ownRunId, ownRunId, slotRunId_toList hn, restartRunId_toList] at hchars
      exact append_toDigits_ne (by decide) (by decide) (by decide) j k hchars
  | some k =>
    cases r' with
    | none =>
      rw [ownRunId, ownRunId, slotRunId_toList hn, restartRunId_toList] at hchars
      exact append_toDigits_ne (by decide) (by decide) (by decide) k i hchars
    | some k' =>
      rw [ownRunId, ownRunId, restartRunId_toList, restartRunId_toList] at hchars
      have hstem := (append_toDigits_inj (by decide) hchars).1
      exact hslot (String.toList_inj.mp (append_cancel_right hstem))

theorem startsWith_ownRunId (hn : n ≠ 1) (i j : Nat) (r : Option Nat) :
    startsWith (ownRunId group n i r) (slotRunId group n j) = true ↔
      Nat.toDigits 10 j <+: Nat.toDigits 10 i := by
  have hrun : (ownRunId group n i r).toList = (group.toList ++ ['-', 'w']) ++
      (Nat.toDigits 10 i ++ match r with
        | none => []
        | some k => '-' :: 'r' :: Nat.toDigits 10 k) := by
    cases r with
    | none => simp [ownRunId, slotRunId_toList hn]
    | some k => simp [ownRunId, restartRunId_toList, slotRunId_toList hn]
  have hslot : (slotRunId group n j).toList = (group.toList ++ ['-', 'w']) ++ Nat.toDigits 10 j := by
    simp [slotRunId_toList hn]
  rw [startsWith, isPrefixOf_iff_prefix, hrun, hslot, prefix_append_right_inj]
  cases r with
  | none => simp
  | some k => exact toDigits_prefix_append (by decide) j i _

/-! ## Histories of redispatches -/

/-- What happens to a placement between its first dispatch and the stats: a slot is redispatched or
marked by the reconciler, the reconciler sets the placement's status, the manager restarts. -/
inductive PlacementOp where
  | redispatch (index : Nat) (replacementWorkerUrl : Option String) (pool : Pool)
      (dispatched : Bool) (now : Time)
  | mark (index : Nat) (status : SlotStatus)
  | resolve (allRunning : Bool)
  | restart (now : Time)

def PlacementOp.step (group : String) (m : Manager) : PlacementOp → Manager
  | .redispatch index url pool dispatched now =>
    (redispatchBroadcastSlot m pool group index url dispatched now).2
  | .mark index status => (m.updatePlacementSlot group index { status := some status }).2
  | .resolve allRunning =>
    m.updateBroadcastPlacementStatus group (if allRunning then .running else .degraded)
  | .restart now => m.restart group now

/-- The slot at a place of a placement, with a run id of its own if any. -/
structure Slot.Own (group : String) (n index : Nat) (s : Slot) : Prop where
  place : s.workerIndex = index
  stem : s.runIdPrefix = slotRunId group n index
  current : ∀ runId, s.currentRunId = some runId →
    ∃ r : Option Nat, runId = ownRunId group n index r ∧ r.getD 0 = s.restartCount

def Numbered (group : String) (n : Nat) (slots : List Slot) : Prop :=
  slots.length = n ∧ ∀ (j : Nat) (s : Slot), slots[j]? = some s → s.Own group n j

theorem getElem?_modifySlot {s' : Slot} (h : (modifySlot index f slots)[j]? = some s') :
    ∃ s, slots[j]? = some s ∧ (s' = s ∨ s.workerIndex = index ∧ s' = f s) := by
  induction slots generalizing j with
  | nil => simp [modifySlot] at h
  | cons t slots ih =>
    rw [modifySlot] at h
    split_ifs at h with ht
    · cases j with
      | zero => exact ⟨t, rfl, .inr ⟨ht, (Option.some.inj h).symm⟩⟩
      | succ j => exact ⟨s', h, .inl rfl⟩
    · cases j with
      | zero => exact ⟨t, rfl, .inl (Option.some.inj h).symm⟩
      | succ j => exact ih h

theorem length_modifySlot (index : Nat) (f : Slot → Slot) (slots : List Slot) :
    (modifySlot index f slots).length = slots.length := by
  induction slots with
  | nil => rfl
  | cons s slots ih =>
    rw [modifySlot]
    split_ifs <;> simp [ih]

theorem Numbered.modifySlot (h : Numbered group n slots)
    (hf : ∀ s, s.Own group n index → (f s).Own group n index) :
    Numbered group n (modifySlot index f slots) := by
  refine ⟨(length_modifySlot index f slots).trans h.1, fun j s' hs' => ?_⟩
  obtain ⟨s, hs, rfl | ⟨hindex, rfl⟩⟩ := getElem?_modifySlot hs'
  · exact h.2 j s' hs
  · have hown := h.2 j s hs
    obtain rfl : j = index := hown.place.symm.trans hindex
    exact hf s hown

theorem Numbered.nodup (h : Numbered group n slots) :
    (slots.map (·.workerIndex)).Nodup := by
  have hrange : slots.map (·.workerIndex) = range slots.length := by
    refine ext_getElem (by simp) fun j hj _ => ?_
    simp only [length_map] at hj
    simpa using (h.2 j slots[j] (getElem?_eq_getElem hj)).place
  rw [hrange]
  exact nodup_range

theorem numbered_dispatchSlots (group : String) (now : Time) (dispatches : List SlotDispatch) :
    Numbered group dispatches.length (dispatchSlots group now dispatches) := by
  refine ⟨by simp [dispatchSlots], fun j s hs => ?_⟩
  simp only [dispatchSlots, getElem?_map, getElem?_zipIdx, Option.map_map,
    Option.map_eq_some_iff, Function.comp] at hs
  obtain ⟨d, -, rfl⟩ := hs
  refine ⟨by simp, by simp, fun runId hrun => ⟨none, ?_⟩⟩
  simp only [Nat.zero_add] at hrun ⊢
  split_ifs at hrun
  exact ⟨(Option.some.inj hrun).symm, rfl⟩

/-- What the manager and the database hold of a placement along such a history. -/
structure Held (group name : String) (n : Nat) (m : Manager) : Prop where
  placement : ∀ p, m.broadcastPlacements.lookup group = some p →
    p.pipelineName = name ∧ p.status ≠ .stopped ∧ Numbered group n p.slots ∧
      m.activePlacementGroup.lookup name = some group ∧ (p.status = .reconciling → m.db.isSome)
  row : ∀ rows, m.db = some rows → ∃ row, rows.lookup group = some row ∧
    row.pipelineName = name ∧ row.stopped = false ∧ row.status ≠ .stopped ∧
      Numbered group n row.slots ∧ ∀ p, m.broadcastPlacements.lookup group = some p →
        row.slots = p.slots
  active : ∀ other, m.activePlacementGroup.lookup name = some other → other = group

section

variable {name : String} {slot : Slot}

theorem Claim.write_own {c : Claim} {pool : Pool} (hslot : slot.Own group n c.workerIndex)
    (hrun : c.newRunId = restartRunId slot.runIdPrefix c.restartCount) (now : Time) (s : Slot)
    (hs : s.Own group n c.workerIndex) : (c.write pool now s).Own group n c.workerIndex := by
  refine ⟨hs.place, hs.stem, fun runId hr => ⟨some c.restartCount, ?_, rfl⟩⟩
  obtain rfl : c.newRunId = runId := by simpa [Claim.write] using hr
  rw [hrun, hslot.stem]
  rfl

theorem findSlot_own (h : Numbered group n slots) (hslot : findSlot slots index = some slot) :
    slot.Own group n index := by
  obtain ⟨j, hj⟩ := mem_iff_getElem?.mp (mem_of_find?_eq_some hslot)
  have hown := h.2 j slot hj
  have hindex : slot.workerIndex = index := by simpa using find?_some hslot
  rwa [hown.place.symm.trans hindex] at hown

theorem Numbered.restored (h : Numbered group n slots) (now : Time) :
    Numbered group n (restoredSlots now slots) := by
  refine ⟨by simpa [restoredSlots] using h.1, fun j s' hs' => ?_⟩
  rw [restoredSlots, getElem?_map, Option.map_eq_some_iff] at hs'
  obtain ⟨s, hs, rfl⟩ := hs'
  exact ⟨(h.2 j s hs).place, (h.2 j s hs).stem, (h.2 j s hs).current⟩

theorem Held.restore (hdb : m.db = some rows) {row : Row} (hrow : rows.lookup group = some row)
    (hname : row.pipelineName = name) (hgroup : p.placementGroupId = group)
    (hpipeline : p.pipelineName = name) (hslots : Numbered group n p.slots) (now : Time) :
    Held group name n (m.restoreBroadcastPlacement p now) := by
  subst hgroup hpipeline
  have hplacements : (m.restoreBroadcastPlacement p now).broadcastPlacements =
      m.broadcastPlacements.insert p.placementGroupId
        { p with slots := restoredSlots now p.slots, status := .reconciling } := by
    simp [restoreBroadcastPlacement]
  have hrows : (m.restoreBroadcastPlacement p now).db = some (Dict.modify rows p.placementGroupId
      (Row.update (restoredSlots now p.slots) .reconciling)) := by
    simp [restoreBroadcastPlacement, persist, setPlacement, hdb]
  constructor
  · intro q hq
    rw [hplacements, AList.lookup_insert] at hq
    cases hq
    refine ⟨rfl, by simp, hslots.restored now, ?_, fun _ => by simp [hrows]⟩
    simp [restoreBroadcastPlacement]
  · intro rows' hrows'
    obtain rfl := Option.mem_unique hrows hrows'
    refine ⟨row.update (restoredSlots now p.slots) .reconciling,
      by simp [Dict.lookup_modify, hrow], hname, rfl, by simp [Row.update], hslots.restored now,
      fun q hq => ?_⟩
    rw [hplacements, AList.lookup_insert] at hq
    cases hq
    rfl
  · intro other hother
    simpa [restoreBroadcastPlacement, eq_comm] using hother

theorem held_record (m : Manager) (p : BroadcastPlacement)
    (hslots : Numbered p.placementGroupId n p.slots)
    (hstop : p.status ≠ .stopped) (hrec : p.status ≠ .reconciling) :
    Held p.placementGroupId p.pipelineName n (m.recordBroadcastPlacement p) := by
  constructor
  · intro q hq
    obtain rfl : p = q := by simpa [recordBroadcastPlacement] using hq
    refine ⟨rfl, hstop, hslots, ?_, fun h => absurd h hrec⟩
    simp [recordBroadcastPlacement]
  · intro rows hrows
    simp only [recordBroadcastPlacement, db_sync, Option.map_eq_some_iff] at hrows
    obtain ⟨rows, -, rfl⟩ := hrows
    refine ⟨_, AList.lookup_insert _, rfl, rfl, hstop, hslots, fun q hq => ?_⟩
    obtain rfl : p = q := by simpa [recordBroadcastPlacement] using hq
    rfl
  · intro other hother
    simp only [recordBroadcastPlacement, AList.lookup_insert] at hother
    exact (Option.some.inj hother).symm

def dispatchStatus (slots : List Slot) : Status :=
  if slots.any fun s => s.status = .running then
    if slots.all fun s => s.status = .running then .running else .degraded
  else .error

/-- The placement of a `multi_dispatch`, which is recorded if some worker took its run. -/
def dispatchedPlacement (group name : String) (target : TargetCount) (now : Time)
    (dispatches : List SlotDispatch) : BroadcastPlacement where
  placementGroupId := group
  pipelineName := name
  slots := dispatchSlots group now dispatches
  targetCount := target
  startedAt := now
  status := dispatchStatus (dispatchSlots group now dispatches)

def Manager.afterHistory (m : Manager) (p : BroadcastPlacement) (history : List PlacementOp) :
    Manager :=
  Run.exec (PlacementOp.step p.placementGroupId) (m.recordBroadcastPlacement p) history

theorem Numbered.findSlot_eq (h : Numbered group n slots) (hs : slots[j]? = some s) :
    findSlot slots j = some s := by
  obtain ⟨hj, rfl⟩ := List.getElem?_eq_some_iff.mp hs
  rw [findSlot, find?_eq_some_iff_getElem]
  refine ⟨by simp [(h.2 j _ hs).place], j, hj, rfl, fun k hk => ?_⟩
  have hplace := (h.2 k slots[k] (getElem?_eq_getElem (by omega))).place
  simpa [hplace] using Nat.ne_of_lt hk

/-- Stats of slot `i` and its restart `restart`, in a placement that is being reconciled, where
another slot has a numeral that starts that of `i` and a run that is no later restart. -/
def Misleads (m : Manager) (group : String) (i : Nat) (restart : Option Nat) : Prop :=
  ∃ p, m.broadcastPlacements.lookup group = some p ∧ p.status = .reconciling ∧
    ∃ (j : Nat) (s : Slot), p.slots[j]? = some s ∧ j ≠ i ∧
      Nat.toDigits 10 j <+: Nat.toDigits 10 i ∧ s.currentRunId ≠ none ∧
        s.restartCount ≤ restart.getD 0

variable (h : Held group name n m)
include h

theorem Held.write {q : BroadcastPlacement}
    (hp : m.broadcastPlacements.lookup group = some p) (hname : q.pipelineName = p.pipelineName)
    (hstatus : q.status = p.status ∨ q.status = .running ∨ q.status = .degraded)
    (hslots : Numbered group n q.slots) {t : Manager}
    (hplacements : t.broadcastPlacements = m.broadcastPlacements.insert group q)
    (hactive : t.activePlacementGroup = m.activePlacementGroup)
    (hdb : t.db = m.db.map fun rows => Dict.modify rows group (Row.update q.slots q.status)) :
    Held group name n t := by
  obtain ⟨hpn, hps, -, hact, hrec⟩ := h.placement p hp
  have hstop : q.status ≠ .stopped := by
    rcases hstatus with hs | hs | hs <;> rw [hs]
    · exact hps
    · decide
    · decide
  constructor
  · intro q' hq'
    obtain rfl : q = q' := by simpa [hplacements] using hq'
    refine ⟨hname.trans hpn, hstop, hslots, hactive ▸ hact, fun hr => ?_⟩
    rw [hdb, Option.isSome_map]
    refine hrec ?_
    rcases hstatus with hs | hs | hs <;> rw [hs] at hr
    · exact hr
    · cases hr
    · cases hr
  · intro rows hrows
    rw [hdb] at hrows
    obtain ⟨rows, hm, rfl⟩ := Option.map_eq_some_iff.mp hrows
    obtain ⟨row, hrow, hrn, -, -, -, -⟩ := h.row rows hm
    refine ⟨row.update q.slots q.status, by simp [Dict.lookup_modify, hrow], hrn, ?_, hstop,
      hslots, fun q' hq' => ?_⟩
    · simp [Row.update, hstop]
    · obtain rfl : q = q' := by simpa [hplacements] using hq'
      rfl
  · exact hactive ▸ h.active

theorem Held.commitSlots (hp : m.broadcastPlacements.lookup group = some p)
    (hslots : Numbered group n slots) :
    Held group name n (m.commitSlots group p slots) := by
  refine h.write (q := { p with slots := slots }) hp rfl (.inl rfl) hslots ?_ ?_ ?_
  · simp [Manager.commitSlots]
  · simp only [Manager.commitSlots, Manager.activePlacementGroup_persist,
      Manager.activePlacementGroup_sync]
    rfl
  · simp only [Manager.commitSlots, Manager.persist, Manager.db_sync]
    rfl

theorem Held.redispatch (pool : Pool) (index : Nat)
    (url : Option String) (dispatched : Bool) (now : Time) :
    Held group name n (redispatchBroadcastSlot m pool group index url dispatched now).2 := by
  unfold redispatchBroadcastSlot
  cases hclaim : claimRedispatch m pool group index url with
  | none => exact h
  | some c =>
    obtain ⟨p, slot, state, hp, hslot, -, -, hc⟩ := claimRedispatch_eq_some hclaim
    obtain ⟨-, -, hnum, -⟩ := h.placement p hp
    split_ifs
    · rcases commitRedispatch_snd m pool c now with heq | ⟨q, hq, heq⟩ <;> rw [heq]
      · exact h
      · rw [hc] at hq ⊢
        obtain rfl : p = q := Option.mem_unique hp hq
        exact h.commitSlots hp (hnum.modifySlot fun s hs =>
          Claim.write_own (findSlot_own hnum hslot) rfl now s hs)
    · exact h

theorem Held.mark (index : Nat) (status : SlotStatus) :
    Held group name n (m.updatePlacementSlot group index { status := some status }).2 := by
  unfold updatePlacementSlot
  cases hp : m.broadcastPlacements.lookup group with
  | none => exact h
  | some p =>
    cases hslot : findSlot p.slots index with
    | none => simpa [hslot] using h
    | some slot =>
      obtain ⟨-, -, hnum, -⟩ := h.placement p hp
      have hmark := hnum.modifySlot (f := Manager.SlotUpdate.apply { status := some status })
        fun s (hs : s.Own group n index) => ⟨hs.place, hs.stem, by simpa [Manager.SlotUpdate.apply] using hs.current⟩
      simpa [hslot] using h.commitSlots hp hmark

theorem Held.resolve {status : Status}
    (hstatus : status = .running ∨ status = .degraded) :
    Held group name n (m.updateBroadcastPlacementStatus group status) := by
  unfold updateBroadcastPlacementStatus
  cases hp : m.broadcastPlacements.lookup group with
  | none => exact h
  | some p =>
    exact h.write (q := { p with status := status }) hp rfl (.inr hstatus)
      (h.placement p hp).2.2.1 (by simp) rfl rfl

theorem Held.restart (now : Time) :
    Held group name n (m.restart group now) := by
  unfold Manager.restart
  cases hdb : m.db with
  | none =>
    exact ⟨fun p hp => by simp at hp, fun rows hrows => by simp at hrows,
      fun other hother => by simp at hother⟩
  | some rows =>
    obtain ⟨row, hrow, hname, hstop, hstatus, hnum, -⟩ := h.row rows hdb
    simp only [Option.bind_some, hrow, hstop, hstatus, Bool.false_eq_true, or_self, if_false]
    exact Held.restore rfl hrow hname rfl hname hnum now

theorem Held.step (op : PlacementOp) : Held group name n (op.step group m) := by
  cases op with
  | redispatch index url pool dispatched now => exact h.redispatch pool index url dispatched now
  | mark index status => exact h.mark index status
  | resolve allRunning =>
    refine h.resolve ?_
    cases allRunning
    · exact .inr rfl
    · exact .inl rfl
  | restart now => exact h.restart now

omit h in
theorem held_afterHistory (m : Manager) (group name : String) (target : TargetCount) (now : Time)
    (dispatches : List SlotDispatch) (history : List PlacementOp) :
    Held group name dispatches.length
      (m.afterHistory (dispatchedPlacement group name target now dispatches) history) := by
  refine Run.exec_invariant (I := Held group name dispatches.length) (fun m op h => h.step op) ?_ history
  refine held_record m (dispatchedPlacement group name target now dispatches)
    (numbered_dispatchSlots group now dispatches) ?_ ?_ <;>
  · simp only [dispatchedPlacement, dispatchStatus]
    split_ifs <;> decide

/-! ## Which slots the stats of a run touch -/

theorem Held.accepts_iff (hdb : m.db = some rows) (hp : m.broadcastPlacements.lookup group = some p)
    (hs : p.slots[j]? = some s) (runId : String) (restartCount : Nat) :
    (updateSlotRunId rows group s.workerIndex runId restartCount s.recordedRunId).1 ≠ 0 ↔
      s.currentRunId ≠ none := by
  obtain ⟨-, -, hnum, -⟩ := h.placement p hp
  obtain ⟨row, hrow, -, hstop, hstatus, -, hslots⟩ := h.row rows hdb
  have hfind : findSlot p.slots s.workerIndex = some s := by
    rw [(hnum.2 j s hs).place, hnum.findSlot_eq hs]
  rw [updateSlotRunId_ne_zero]
  simp only [hrow, Option.some.injEq, exists_eq_left', Row.accepts, hstop, hslots p hp, hfind]
  have hmem : s ∈ p.slots := mem_of_getElem? hs
  cases hcur : s.currentRunId with
  | none =>
    refine iff_of_false (fun hacc => ?_) (by simp)
    simp only [Bool.and_eq_true, any_eq_true, decide_eq_true_eq] at hacc
    obtain ⟨-, t, ht, hindex, hrun⟩ := hacc
    obtain ⟨k, hk⟩ := mem_iff_getElem?.mp ht
    obtain rfl : k = j := by
      rw [← (hnum.2 k t hk).place, ← (hnum.2 j s hs).place, hindex]
    obtain rfl := Option.mem_unique hk hs
    rw [hcur] at hrun
    cases hrun
  | some run =>
    have hrun : s.currentRunId = some s.recordedRunId := by simp [Slot.recordedRunId, hcur]
    simpa [hstatus] using ⟨s, hmem, rfl, hrun⟩

/-- Stats of slot `i` reach another slot `j` of a reconciling placement exactly if the numeral of
`j` starts that of `i` and `j` has a run that is no later restart. -/
theorem Held.adopts_iff (hp : m.broadcastPlacements.lookup group = some p)
    (hstatus : p.status = .reconciling) (hi : i < n) (hne : j ≠ i) (hs : p.slots[j]? = some s)
    (restart : Option Nat) :
    Adopts m.db group (ownRunId group n i restart) s ↔
      Nat.toDigits 10 j <+: Nat.toDigits 10 i ∧ s.currentRunId ≠ none ∧
        s.restartCount ≤ restart.getD 0 := by
  obtain ⟨-, -, hnum, -, hrec⟩ := h.placement p hp
  obtain ⟨rows, hdb⟩ := Option.isSome_iff_exists.mp (hrec hstatus)
  have hown := hnum.2 j s hs
  have hj : j < n := hnum.1 ▸ (List.getElem?_eq_some_iff.mp hs).1
  have hn : n ≠ 1 := by omega
  have hcur : s.currentRunId ≠ some (ownRunId group n i restart) := fun hc => by
    obtain ⟨r, hr, -⟩ := hown.current _ hc
    exact ownRunId_ne hn hne r restart hr.symm
  rw [Adopts, if_neg hcur, hown.stem, startsWith_ownRunId hn, runRestartCount_ownRunId hn]
  simp only [hdb, Option.some.injEq, forall_eq', h.accepts_iff hdb hp hs]
  refine and_congr_right fun _ => ?_
  cases hrun : s.currentRunId with
  | none => simp
  | some run =>
    obtain ⟨r, rfl, hr⟩ := hown.current run hrun
    simp [Slot.recordedRunId, hrun, runRestartCount_ownRunId hn, hr]

theorem Held.stats_frame (hi : i < n) {restart : Option Nat} (hno : ¬ Misleads m group i restart)
    (hne : j ≠ i) :
    (m.onPipelineStats ⟨name, ownRunId group n i restart⟩).slotView group j = m.slotView group j := by
  cases hp : m.broadcastPlacements.lookup group with
  | none =>
    unfold onPipelineStats
    cases hactive : m.activePlacementGroup.lookup name with
    | none => rfl
    | some other =>
      obtain rfl := h.active other hactive
      simp only [hp]
  | some p =>
    obtain ⟨-, -, hnum, hactive, -⟩ := h.placement p hp
    by_cases hstatus : p.status = .reconciling
    · refine (onPipelineStats_view ⟨name, _⟩ hactive hp hstatus hnum.nodup j).mpr fun s hs => ?_
      rw [h.adopts_iff hp hstatus hi hne hs]
      exact fun hadopt => hno ⟨p, hp, hstatus, j, s, hs, hne, hadopt⟩
    · simp [onPipelineStats, hactive, hp, hstatus]

end

/-- The stats of a run of slot `i` leave every other slot of every placement as it is, unless the
numeral of `i` starts with that of another slot. -/
theorem stats_touch_own_slot_only_iff (m : Manager) (group name : String) (target : TargetCount)
    (now : Time) (dispatches : List SlotDispatch) (history : List PlacementOp)
    (i : Fin dispatches.length) (restart : Option Nat) :
    let held := m.afterHistory (dispatchedPlacement group name target now dispatches) history
    let payload : StatsPayload := ⟨name, ownRunId group dispatches.length i restart⟩
    (∀ (group' : String) (j : Nat), ¬ (group' = group ∧ j = i) →
      (held.onPipelineStats payload).slotView group' j = held.slotView group' j) ↔
        ¬ Misleads held group i restart := by
  intro held payload
  have h : Held group name dispatches.length held :=
    held_afterHistory m group name target now dispatches history
  constructor
  · rintro hframe ⟨p, hp, hstatus, j, s, hs, hne, hstart, hrun, hcount⟩
    obtain ⟨-, -, hnum, hactive, -⟩ := h.placement p hp
    refine (onPipelineStats_view payload hactive hp hstatus hnum.nodup j).mp
      (hframe group j fun hj => hne hj.2) s hs ?_
    exact (h.adopts_iff hp hstatus i.isLt hne hs restart).mpr ⟨hstart, hrun, hcount⟩
  · intro hno group' j hne
    by_cases hgroup : held.activePlacementGroup.lookup name = some group'
    · obtain rfl := h.active group' hgroup
      exact h.stats_frame i.isLt hno fun hj => hne ⟨rfl, hj⟩
    · exact onPipelineStats_apart held payload hgroup j

/-- Eleven slots, the manager restarts, slot 10 reports: its run id becomes that of slot 1. -/
theorem slot_ten_rewrites_slot_one :
    let dispatches := (range 11).map fun i => SlotDispatch.mk (some (toString i)) "" none true
    let held := (mk ∅ ∅ ∅ ∅ (some ∅)).afterHistory
      (dispatchedPlacement "g" "p" (.count 11) 0 dispatches) [.restart 0]
    held.slotView "g" 1 = some (some "g-w1", .running) ∧
      (held.onPipelineStats ⟨"p", ownRunId "g" 11 10 none⟩).slotView "g" 1 =
        some (some "g-w10", .running) := by
  decide +kernel

end Tram.Placement
