import Tram.Lib.Traverse
import Tram.Placement.Stats
import Tram.Placement.Reconciler

/-! # Where a pass leaves the slots of a placement

A stale slot is never given a worker that the copies of the other slots name. But the copy of a slot
that was itself redispatched still names its old worker, so that two stale slots can be given the
same spare one. What becomes of a slot is read off the slots as the pass found them. -/

namespace Tram.Placement

open List Manager Verdict Slot Pass

/-- What becomes of a slot's worker in a pass: it is kept, a worker reports the slot's run from
elsewhere, or the slot is redispatched to another worker. -/
inductive Fate where
  | kept (workerUrl : Option String)
  | reported (workerUrl : String)
  | moved (workerUrl : String)
  deriving DecidableEq, Repr

def Fate.workerUrl : Fate → Option String
  | .kept url => url
  | .reported url => some url
  | .moved url => some url

/-- What becomes of the slot by its verdict; a redispatch needs a registered pipeline and a worker
that takes the run. -/
def Verdict.fate (registered dispatched : Bool) (s : Slot) : Verdict → Fate
  | .live item =>
    if item.workerUrl ≠ "" ∧ s.workerUrl ≠ some item.workerUrl then .reported item.workerUrl
    else .kept s.workerUrl
  | .stale (some url) =>
    if url ≠ "" ∧ registered ∧ dispatched ∧ s.workerUrl ≠ some url then .moved url
    else .kept s.workerUrl
  | _ => .kept s.workerUrl

def Fate.copied (s : Slot) : Fate → Option String
  | .reported url => some url
  | _ => s.workerUrl

/-- A pass at a placement, as it found it; `yamlText` is the pipeline's. -/
structure Visit where
  pass : Pass
  group : String
  p : BroadcastPlacement
  yamlText : Option String

namespace Visit

variable (a : Visit)

abbrev look (s : Slot) : Look := a.pass.look a.group s.workerIndex

/-- The slot's run has another configuration: the pass ends here. -/
def drifting (s : Slot) : Bool := (a.pass.findLiveSlot a.p s).any (a.pass.drifts a.yamlText)

/-- The pass comes to the slot with this number, and by it. -/
def reaches (i : Nat) : Bool := (a.p.slots.take (i + 1)).all fun s => !a.drifting s

/-- The worker that reports the slot's run, if it is not the slot's own. -/
def elsewhere (s : Slot) : Option String :=
  (a.pass.findLiveSlot a.p s).bind fun item =>
    (truthy (some item.workerUrl)).filter fun url => s.workerUrl ≠ some url

/-- No worker reports the slot's run, and its stats are old or overdue. -/
def gone (s : Slot) : Bool :=
  let stats := slotStats (a.look s) s
  (a.pass.findLiveSlot a.p s).isNone && !a.pass.awaitingFirstStats a.p s stats &&
    stats.all (a.pass.isStale (a.look s).clock)

/-- The run of the slot is gone and its worker is down; another would take it. -/
def strands (i : Nat) (s : Slot) : Bool :=
  a.reaches i && a.gone s && (truthy s.workerUrl).all (!(a.look s).pool.isWorkerHealthy ·) &&
    a.yamlText.isSome && (a.look s).dispatched

/-- The workers of the other slots: of those before it where they are reported, of those after it
where they were. -/
def taken (i : Nat) : List String :=
  (a.p.slots.take i).filterMap (fun s => a.elsewhere s <|> truthy s.workerUrl) ++
    (a.p.slots.drop (i + 1)).filterMap fun s => truthy s.workerUrl

/-- The least loaded healthy worker that no other slot has. -/
def spare (i : Nat) (s : Slot) : Option String :=
  let free := (a.look s).pool.healthyWorkers.filter fun url => url ∉ a.taken i
  truthy (free.mergeSort fun x y => (a.look s).loadScore x ≤ (a.look s).loadScore y).head?

def fate (i : Nat) (s : Slot) : Fate :=
  if a.reaches i then
    match a.elsewhere s with
    | some url => .reported url
    | none =>
      if a.strands i s then (a.spare i s).elim (.kept s.workerUrl) .moved
      else .kept s.workerUrl
  else .kept s.workerUrl

/-- No two slots whose workers are down have the same spare worker, and no slot is reported from the
worker that another is left on. -/
structure Spread : Prop where
  spares : ∀ i j s t url, a.p.slots[i]? = some s → a.p.slots[j]? = some t → i ≠ j →
    a.strands i s → a.strands j t → a.spare i s = some url → a.spare j t ≠ some url
  reports : ∀ i j s t url, a.p.slots[i]? = some s → a.p.slots[j]? = some t → i ≠ j →
    a.reaches i → a.elsewhere s = some url → (a.fate j t).workerUrl ≠ some url

end Visit

/-! ## Spares -/

variable {a : Visit} {n : Nat} {s t : Slot} {url : String} {i j : Nat} {f : Slot → Slot}

section

variable (h : a.strands i s = true)
include h

theorem reaches_of_strands : a.reaches i = true := by
  simp only [Visit.strands, Bool.and_eq_true] at h
  exact h.1.1.1.1

theorem elsewhere_of_strands : a.elsewhere s = none := by
  simp only [Visit.strands, Visit.gone, Bool.and_eq_true, Option.isNone_iff_eq_none] at h
  rw [Visit.elsewhere, h.1.1.1.2.1.1]
  rfl

end

theorem ne_of_spare (h : a.spare i s = some url) : url ≠ "" ∧ url ∉ a.taken i := by
  simp only [Visit.spare, truthy, Option.filter_eq_some_iff] at h
  have hmem := mem_of_head? h.1
  rw [mem_mergeSort, mem_filter] at hmem
  exact ⟨by simpa using h.2, by simpa using hmem.2⟩

theorem reaches_of_le (hle : i ≤ j) (h : a.reaches j = true) :
    a.reaches i = true := by
  simp only [Visit.reaches, all_eq_true] at h ⊢
  exact fun s hs => h s (take_subset_take_left _ (by omega) hs)

theorem fate_cases (a : Visit) (i : Nat) (s : Slot) :
    (a.fate i s = .kept s.workerUrl ∧
        (a.reaches i = true → a.elsewhere s = none)) ∨
      (∃ url, a.fate i s = .reported url ∧ a.reaches i = true ∧
        a.elsewhere s = some url) ∨
      ∃ url, a.fate i s = .moved url ∧ a.strands i s = true ∧
        a.spare i s = some url := by
  cases hreach : a.reaches i with
  | false => simp [Visit.fate, hreach]
  | true =>
    cases helse : a.elsewhere s with
    | some url => simp [Visit.fate, hreach, helse]
    | none =>
      cases hstrands : a.strands i s with
      | false => simp [Visit.fate, hreach, helse, hstrands]
      | true => cases hspare : a.spare i s <;> simp [Visit.fate, hreach, helse, hstrands, hspare]

theorem fate_of_elsewhere (hreach : a.reaches i = true) (h : a.elsewhere s = some url) :
    a.fate i s = .reported url := by
  simp [Visit.fate, hreach, h]

theorem fate_of_strands (h : a.strands i s = true)
    (hspare : a.spare i s = some url) : a.fate i s = .moved url := by
  simp [Visit.fate, reaches_of_strands h, elsewhere_of_strands h, h, hspare]

theorem mem_taken (hs : a.p.slots[i]? = some s) (hne : i ≠ j) (hurl : s.workerUrl = some url)
    (hnonempty : url ≠ "") (helse : a.reaches i = true → a.elsewhere s = none)
    (hreach : a.reaches j = true) : url ∈ a.taken j := by
  have htruthy : truthy s.workerUrl = some url := by simp [truthy, hurl, hnonempty]
  rcases Nat.lt_or_gt_of_ne hne with hlt | hlt
  · refine mem_append_left _ (mem_filterMap.mpr ⟨s, mem_of_getElem? (i := i) ?_, ?_⟩)
    · rw [getElem?_take_of_lt hlt, hs]
    · rw [helse (reaches_of_le hlt.le hreach), htruthy]
      rfl
  · refine mem_append_right _ (mem_filterMap.mpr ⟨s, mem_of_getElem? (i := i - (j + 1)) ?_, htruthy⟩)
    rw [getElem?_drop, ← hs]
    congr 1
    omega

theorem kept_ne_spare (hs : a.p.slots[i]? = some s) (hne : i ≠ j)
    (helse : a.reaches i = true → a.elsewhere s = none)
    (hstrands : a.strands j t = true) (hspare : a.spare j t = some url) :
    s.workerUrl ≠ some url := by
  intro hurl
  obtain ⟨hnonempty, hfree⟩ := ne_of_spare hspare
  exact hfree (mem_taken hs hne hurl hnonempty helse (reaches_of_strands hstrands))

/-- Slots that were on different workers end on different ones exactly if they are spread. -/
theorem spread_iff
    (hdistinct : ∀ (i j : Nat) (s t : Slot) (url : String), a.p.slots[i]? = some s → a.p.slots[j]? = some t →
      i ≠ j → s.workerUrl = some url → t.workerUrl ≠ some url) :
    a.Spread ↔
      ∀ i j s t url, a.p.slots[i]? = some s → a.p.slots[j]? = some t → i ≠ j →
        (a.fate i s).workerUrl = some url →
        (a.fate j t).workerUrl ≠ some url := by
  constructor
  · intro h i j s t url hs ht hne hi hj
    rcases fate_cases a i s with ⟨ha, helse⟩ | ⟨u, ha, hreach, helse⟩ | ⟨u, ha, hgone, hspare⟩
    all_goals rw [ha] at hi
    · rcases fate_cases a j t with ⟨hb, -⟩ | ⟨b, hb, hreach', helse'⟩ | ⟨b, hb, hgone', hspare'⟩
      all_goals rw [hb] at hj
      · exact hdistinct i j s t url hs ht hne hi hj
      · obtain rfl := Option.some.inj hj
        exact h.reports j i t s b ht hs hne.symm hreach' helse' (by rw [ha]; exact hi)
      · cases hj
        exact kept_ne_spare hs hne helse hgone' hspare' hi
    · obtain rfl := Option.some.inj hi
      exact h.reports i j s t u hs ht hne hreach helse hj
    · cases hi
      rcases fate_cases a j t with ⟨hb, helse'⟩ | ⟨b, hb, hreach', helse'⟩ | ⟨b, hb, hgone', hspare'⟩
      all_goals rw [hb] at hj
      · exact kept_ne_spare ht hne.symm helse' hgone hspare hj
      · obtain rfl := Option.some.inj hj
        exact h.reports j i t s b ht hs hne.symm hreach' helse' (by rw [ha]; rfl)
      · obtain rfl := Option.some.inj hj
        exact h.spares i j s t b hs ht hne hgone hgone' hspare hspare'
  · refine fun h => ⟨?_, ?_⟩
    · intro i j s t url hs ht hne hgone hgone' hspare hspare'
      exact h i j s t url hs ht hne (by rw [fate_of_strands hgone hspare]; rfl)
        (by rw [fate_of_strands hgone' hspare']; rfl)
    · intro i j s t url hs ht hne hreach helse
      exact h i j s t url hs ht hne (by rw [fate_of_elsewhere hreach helse]; rfl)

/-! ## The verdicts of the pass -/

theorem copied_fate (hreach : a.reaches i = true) :
    (a.fate i s).copied s = (a.elsewhere s <|> s.workerUrl) := by
  rcases fate_cases a i s with ⟨hfate, helse⟩ | ⟨url, hfate, -, helse⟩ | ⟨url, hfate, hgone, -⟩
  · rw [hfate, helse hreach]
    rfl
  · rw [hfate, helse]
    rfl
  · rw [hfate, elsewhere_of_strands hgone]
    rfl

theorem truthy_elsewhere (a : Visit) (s : Slot) :
    truthy (a.elsewhere s <|> s.workerUrl) = (a.elsewhere s <|> truthy s.workerUrl) := by
  cases h : a.elsewhere s with
  | none => rfl
  | some url =>
    have hne : url ≠ "" := by
      simp only [Visit.elsewhere, Option.bind_eq_some_iff, truthy, Option.filter_eq_some_iff] at h
      obtain ⟨item, -, ⟨-, hne⟩, -⟩ := h
      simpa using hne
    simp [truthy, hne]

theorem taken_eq {before rest copies : List Slot} (hslots : a.p.slots = before ++ s :: rest)
    (hcopies : copies.map (·.workerUrl) = before.map fun s => a.elsewhere s <|> s.workerUrl) :
    ((copies ++ rest).filterMap fun other => truthy other.workerUrl) = a.taken before.length := by
  have hmap : (copies.filterMap fun other => truthy other.workerUrl) =
      before.filterMap fun s => a.elsewhere s <|> truthy s.workerUrl := by
    have hbind := congrArg (List.filterMap truthy) hcopies
    simpa only [filterMap_map, Function.comp_def, truthy_elsewhere] using hbind
  simp [Visit.taken, hslots, hmap]

theorem verdict_of_drifting {others : List Slot} (h : a.drifting s = true) :
    a.pass.verdict a.yamlText a.group a.p others s = .drifted := by
  rw [Visit.drifting, Option.any_eq_true] at h
  obtain ⟨item, hlive, hdrifts⟩ := h
  simp [verdict, hlive, hdrifts]

theorem healthy_of_mem {pool : Pool} (h : url ∈ pool.healthyWorkers) : pool.isWorkerHealthy url = true := by
  obtain ⟨e, he, rfl⟩ := mem_map.mp h
  obtain ⟨hmem, hok⟩ := mem_filter.mp he
  have hlookup : pool.health.lookup e.1 = some e.2 := Dict.mem_entries.mp hmem
  simpa [Pool.isWorkerHealthy, hlookup] using hok

section

variable {others : List Slot} (hcount : a.p.targetCount = .count n) (hpin : s.pinnedWorkerId = none)
  (hothers : (others.filterMap fun other => truthy other.workerUrl) = a.taken i)
include hcount hpin hothers

theorem fate_stale :
    (stale (selectReplacementWorker (a.look s) a.p.targetCount others s)).fate
        a.yamlText.isSome (a.look s).dispatched s =
      if (truthy s.workerUrl).all (!(a.look s).pool.isWorkerHealthy ·) &&
          a.yamlText.isSome && (a.look s).dispatched then
        (a.spare i s).elim (.kept s.workerUrl) .moved
      else .kept s.workerUrl := by
  set look := a.look s with hlook
  have hpinned : truthy s.pinnedWorkerId = none := by rw [hpin]; rfl
  cases hup : (truthy s.workerUrl).filter look.pool.isWorkerHealthy with
  | some url =>
    obtain ⟨htruthy, hhealthy⟩ := Option.filter_eq_some_iff.mp hup
    have hown : s.workerUrl = some url := (Option.filter_eq_some_iff.mp htruthy).1
    have hall : (truthy s.workerUrl).all (!look.pool.isWorkerHealthy ·) = false := by
      simp [htruthy, hhealthy]
    simp only [selectReplacementWorker, hpinned, hup, hall]
    simp [fate, hown]
  | none =>
    have hdown : (truthy s.workerUrl).all (!look.pool.isWorkerHealthy ·) = true := by
      cases htruthy : truthy s.workerUrl with
      | none => rfl
      | some own => simpa [htruthy] using hup
    simp only [selectReplacementWorker, hpinned, hup, hcount, hothers, hdown, Visit.spare, ← hlook]
    cases hhead : ((look.pool.healthyWorkers.filter fun url => url ∉ a.taken i).mergeSort
        fun x y => look.loadScore x ≤ look.loadScore y).head? with
    | none => simp [truthy, fate]
    | some url =>
      have hmem := mem_of_head? hhead
      rw [mem_mergeSort, mem_filter] at hmem
      by_cases hne : url = ""
      · simp [truthy, fate, hne, Option.filter_some]
      · have hown : s.workerUrl ≠ some url := fun hown => by
          have hhealthy := healthy_of_mem hmem.1
          simp [truthy, hown, hne, hhealthy] at hdown
        simp [truthy, fate, hne, hown, Option.filter_some]

theorem fate_verdict (hreach : a.reaches i = true) (hs : a.p.slots[i]? = some s) :
    let v := a.pass.verdict a.yamlText a.group a.p others s
    v ≠ .drifted ∧ v.fate a.yamlText.isSome (a.look s).dispatched s =
      a.fate i s := by
  have hdrift : a.drifting s = false := by
    have hall := all_eq_true.mp hreach s
      (mem_of_getElem? (i := i) (by rw [getElem?_take_of_lt (by omega), hs]))
    simpa using hall
  unfold verdict Visit.fate
  rw [Visit.drifting] at hdrift
  cases hlive : a.pass.findLiveSlot a.p s with
  | some item =>
    have hsame : a.pass.drifts a.yamlText item = false := by simpa [hlive] using hdrift
    have hstrands : a.strands i s = false := by simp [Visit.strands, Visit.gone, hlive]
    by_cases hne : item.workerUrl = ""
    · simp [hreach, hsame, hlive, hstrands, fate, Visit.elsewhere, truthy, Option.filter_some, hne]
    · by_cases hown : s.workerUrl = some item.workerUrl
      · simp [hreach, hsame, hlive, hstrands, fate, Visit.elsewhere, truthy, Option.filter_some, hne, hown]
      · simp [hreach, hsame, hlive, fate, Visit.elsewhere, truthy, Option.filter_some, hne, hown]
  | none =>
    have helse : a.elsewhere s = none := by rw [Visit.elsewhere, hlive]; rfl
    have hstale := fate_stale hcount hpin hothers
    simp only [helse, hreach, if_true, Visit.strands, Visit.gone, hlive]
    split_ifs <;> simp_all [fate]

end

/-! ## What the manager holds during the walk -/

/-- The placement of the pipeline has these slots; `yamlText` is the pipeline's. -/
structure Stands (m : Manager) (group name : String) (yamlText : Option String) (slots : List Slot) :
    Prop where
  placement : ∃ p, m.broadcastPlacements.lookup group = some p ∧ p.pipelineName = name ∧ p.slots = slots
  yaml : m.yamlOf name = yamlText

def Slot.seat (s : Slot) : Nat × Option String × Option String :=
  (s.workerIndex, s.pinnedWorkerId, s.workerUrl)

section

variable {done rest : List Slot} (h : ∀ t ∈ done, t.workerIndex ≠ s.workerIndex)
include h

theorem findSlot_append : findSlot (done ++ s :: rest) s.workerIndex = some s := by
  rw [findSlot, find?_append, find?_eq_none.mpr (by simpa using h)]
  simp

theorem modifySlot_append : modifySlot s.workerIndex f (done ++ s :: rest) = done ++ f s :: rest := by
  induction done with
  | nil => simp [modifySlot]
  | cons t done ih =>
    rw [cons_append, modifySlot, if_neg (h t mem_cons_self),
      ih fun u hu => h u (mem_cons_of_mem _ hu), cons_append]

end

theorem seat_modifySlot {index : Nat} {slots : List Slot}
    (h : ∀ s, findSlot slots index = some s → (f s).seat = s.seat) :
    (modifySlot index f slots).map seat = slots.map seat := by
  induction slots with
  | nil => rfl
  | cons s slots ih =>
    rw [modifySlot]
    split_ifs with hs
    · simp [h s (by simp [findSlot, hs])]
    · rw [map_cons, map_cons, ih fun t ht => h t (by simpa [findSlot, hs] using ht)]

theorem pinned_of_seat {slots slots' : List Slot} (h : slots'.map seat = slots.map seat)
    (hpin : ∀ s ∈ slots, s.pinnedWorkerId = none) : ∀ s ∈ slots', s.pinnedWorkerId = none := by
  intro s hs
  obtain ⟨t, ht, hseat⟩ := mem_map.mp (h ▸ mem_map_of_mem hs)
  rw [← hpin t ht]
  exact (congrArg (·.2.1) hseat).symm

section

variable {m : Manager} {group name : String} {yamlText : Option String} {slots done rest : List Slot}

variable {p : BroadcastPlacement} {v : Verdict}

theorem yamlOf_commitSlots (m : Manager) (p : BroadcastPlacement) (slots : List Slot) :
    (m.commitSlots group p slots).yamlOf name = m.yamlOf name := by
  simp only [commitSlots, persist, yamlOf, syncStreamRunIdsFromSlots]
  split <;> rfl

theorem yamlOf_updateStatus (m : Manager) (status : Status) :
    (m.updateBroadcastPlacementStatus group status).yamlOf name = m.yamlOf name := by
  unfold updateBroadcastPlacementStatus
  split
  · rfl
  · simp only [persist, setStatus, setPlacement, yamlOf, Dict.lookup_modify]
    split_ifs with hn
    · rw [hn, Option.map_map]
      rfl
    · rfl

theorem Stands.commitSlots (h : Stands m group name yamlText slots)
    (hp : m.broadcastPlacements.lookup group = some p) (slots' : List Slot) :
    Stands (m.commitSlots group p slots') group name yamlText slots' := by
  obtain ⟨⟨q, hq, hname, -⟩, hyaml⟩ := h
  obtain rfl := Option.mem_unique hp hq
  exact ⟨⟨{ p with slots := slots' }, by simp [Manager.commitSlots], hname, rfl⟩,
    (yamlOf_commitSlots ..).trans hyaml⟩

theorem Manager.SlotUpdate.apply_of_isEmpty {u : Manager.SlotUpdate} (h : u.isEmpty = true) (s : Slot) :
    u.apply s = s := by
  obtain ⟨currentRunId, workerUrl, workerId, status⟩ := u
  simp only [Manager.SlotUpdate.isEmpty, Bool.and_eq_true, Option.isNone_iff_eq_none] at h
  obtain ⟨⟨⟨rfl, rfl⟩, rfl⟩, rfl⟩ := h
  rfl

theorem LiveItem.workerUrl_updates (item : LiveItem) (s : Slot) (registered dispatched : Bool) :
    let fate := (live item).fate registered dispatched s
    ((item.updates s).apply s).workerUrl = fate.workerUrl ∧ fate.copied s = fate.workerUrl := by
  simp only [Manager.SlotUpdate.apply, LiveItem.updates, truthy, fate]
  by_cases hne : item.workerUrl = ""
  · simp [hne, Fate.workerUrl, Fate.copied, Option.filter_some]
  · by_cases hown : s.workerUrl = some item.workerUrl
    · simp [hne, hown, Fate.workerUrl, Fate.copied, Option.filter_some]
    · simp [hne, hown, Fate.workerUrl, Fate.copied]

theorem Verdict.copied_stale {registered dispatched : Bool} (s : Slot) (replacement : Option String) :
    ((stale replacement).fate registered dispatched s).copied s = s.workerUrl := by
  unfold fate
  split
  · contradiction
  · split_ifs <;> rfl
  · rfl

section

variable (h : Stands m group name yamlText (done ++ s :: rest))
  (hs : ∀ t ∈ done, t.workerIndex ≠ s.workerIndex)
include h hs

theorem Stands.updatePlacementSlot (u : Manager.SlotUpdate) :
    (m.updatePlacementSlot group s.workerIndex u).1 = true ∧
      Stands (m.updatePlacementSlot group s.workerIndex u).2 group name yamlText
        (done ++ u.apply s :: rest) := by
  obtain ⟨p, hp, -, hslots⟩ := h.placement
  have hfind : findSlot p.slots s.workerIndex = some s := hslots ▸ findSlot_append hs
  simp only [Manager.updatePlacementSlot, hp, hfind, true_and]
  rw [hslots, modifySlot_append hs]
  exact h.commitSlots hp _

theorem Stands.writeBack (u : Manager.SlotUpdate) :
    Stands (m.writeBack group u s).1 group name yamlText (done ++ u.apply s :: rest) ∧
      (m.writeBack group u s).2 = u.apply s := by
  obtain ⟨htrue, hstands⟩ := h.updatePlacementSlot hs u
  unfold Manager.writeBack
  split_ifs with hempty
  · rw [Manager.SlotUpdate.apply_of_isEmpty hempty]
    exact ⟨h, rfl⟩
  · simp only [htrue, if_true]
    exact ⟨hstands, trivial⟩

theorem Stands.mark (status : SlotStatus) : Stands (m.mark group status s).1 group name yamlText
        (done ++ { s with status := status } :: rest) ∧
      (m.mark group status s).2 = { s with status := status } := by
  unfold Manager.mark
  split_ifs with hst
  · subst hst
    exact ⟨h, rfl⟩
  · exact h.writeBack hs { status := some status }

theorem Stands.redispatch (hurl : url ≠ "") (pool : Pool) (dispatched : Bool) (now : Time) :
    let sent := redispatchBroadcastSlot m pool group s.workerIndex (some url) dispatched now
    if yamlText.isSome ∧ dispatched then
      ∃ t : Slot, Stands sent.2 group name yamlText (done ++ t :: rest) ∧
        t.seat = (s.workerIndex, s.pinnedWorkerId, some url)
    else Stands sent.2 group name yamlText (done ++ s :: rest) := by
  obtain ⟨p, hp, hname, hslots⟩ := h.placement
  have hfind : findSlot p.slots s.workerIndex = some s := hslots ▸ findSlot_append hs
  have hyaml : (m.pipelines.lookup p.pipelineName).map (·.yamlText) = yamlText := hname ▸ h.yaml
  cases hstate : m.pipelines.lookup p.pipelineName with
  | none =>
    have hnone : yamlText = none := by simpa [hstate] using hyaml.symm
    have hclaim : claimRedispatch m pool group s.workerIndex (some url) = none := by
      simp [claimRedispatch, hp, hfind, hstate]
    simpa [redispatchBroadcastSlot, hclaim, hnone] using h
  | some state =>
    have hsome : yamlText = some state.yamlText := by simpa [hstate] using hyaml.symm
    set c : Claim := ⟨group, s.workerIndex, s.restartCount + 1,
      restartRunId s.runIdPrefix (s.restartCount + 1), s.pinnedWorkerId, url, p.pipelineName,
      state.yamlText⟩
    have hclaim : claimRedispatch m pool group s.workerIndex (some url) = some c := by
      simp [claimRedispatch, hp, hfind, hstate, hurl, c]
    have hcommit : commitRedispatch m pool c now =
        (true, m.commitSlots group p (done ++ c.write pool now s :: rest)) := by
      rw [← modifySlot_append (f := c.write pool now) hs, ← hslots]
      simp [commitRedispatch, c, hp, hfind]
    cases dispatched with
    | false => simpa [redispatchBroadcastSlot, hclaim] using h
    | true =>
      simp only [redispatchBroadcastSlot, hclaim, hcommit, hsome, Option.isSome_some, and_self, if_true]
      exact ⟨c.write pool now s, hsome ▸ h.commitSlots hp _, rfl⟩

theorem Stands.replaceStale (look : Look) (replacement : Option String) :
    (∃ t : Slot, Stands (m.replaceStale look group replacement s).1 group name yamlText
        (done ++ t :: rest) ∧
      t.seat = (s.workerIndex, s.pinnedWorkerId,
        ((stale replacement).fate yamlText.isSome look.dispatched s).workerUrl)) ∧
      (m.replaceStale look group replacement s).2.workerUrl = s.workerUrl := by
  obtain ⟨hstands, hcopy⟩ := h.mark hs .stale
  unfold Manager.replaceStale
  set marked := m.mark group .stale s with hmarked
  simp only [hcopy]
  cases replacement with
  | none => exact ⟨⟨_, hstands, rfl⟩, rfl⟩
  | some url =>
    by_cases hurl : url = ""
    · simp only [truthy, hurl, Option.filter_some, ne_eq, not_true, decide_false, Bool.false_eq_true,
        if_false]
      exact ⟨⟨_, hstands, by simp [seat, fate, Fate.workerUrl]⟩, trivial⟩
    · have hsent := hstands.redispatch hs hurl look.pool look.dispatched look.clock
      have htruthy : truthy (some url) = some url := by simp [truthy, hurl]
      simp only [htruthy]
      refine ⟨?_, by split_ifs <;> rfl⟩
      split_ifs at hsent with hgo
      · obtain ⟨t, ht, hseat⟩ := hsent
        refine ⟨t, ht, hseat.trans ?_⟩
        by_cases hown : s.workerUrl = some url
        · simp [fate, hown, Fate.workerUrl]
        · simp [fate, hurl, hgo.1, hgo.2, hown, Fate.workerUrl]
      · refine ⟨_, hsent, ?_⟩
        have hstay : ¬ (url ≠ "" ∧ yamlText.isSome ∧ look.dispatched ∧ s.workerUrl ≠ some url) :=
          fun hall => hgo ⟨hall.2.1, hall.2.2.1⟩
        simp [seat, fate, hstay, Fate.workerUrl]

theorem Stands.act (pass : Pass) (hv : v ≠ .drifted) :
    ∃ t : Slot, Stands (pass.act m group s v).1 group name yamlText (done ++ t :: rest) ∧
      t.seat = (s.workerIndex, s.pinnedWorkerId,
        (v.fate yamlText.isSome (pass.look group s.workerIndex).dispatched s).workerUrl) ∧
      (pass.act m group s v).2.workerUrl =
        (v.fate yamlText.isSome (pass.look group s.workerIndex).dispatched s).copied s := by
  cases v with
  | drifted => exact absurd rfl hv
  | starting => exact ⟨s, h, rfl, rfl⟩
  | alive =>
    obtain ⟨hstands, hcopy⟩ := h.mark hs .running
    exact ⟨_, hstands, rfl, by simp [act, hcopy, fate, Fate.copied]⟩
  | live item =>
    obtain ⟨hstands, hcopy⟩ := h.writeBack hs (item.updates s)
    obtain ⟨hurl, hcopied⟩ := item.workerUrl_updates s yamlText.isSome
      (pass.look group s.workerIndex).dispatched
    refine ⟨_, hstands, ?_, ?_⟩
    · rw [← hurl]
      rfl
    · rw [hcopied, ← hurl]
      exact congrArg workerUrl hcopy
  | stale replacement =>
    obtain ⟨⟨t, ht, hseat⟩, hcopy⟩ := h.replaceStale hs (pass.look group s.workerIndex) replacement
    exact ⟨t, ht, hseat, hcopy.trans (copied_stale s replacement).symm⟩

end

section

variable (h : Stands m group name yamlText slots) (hpin : ∀ s ∈ slots, s.pinnedWorkerId = none)
include h hpin

theorem Stands.redispatch_own (pool : Pool) (index : Nat) (dispatched : Bool) (now : Time) :
    ∃ slots', Stands (redispatchBroadcastSlot m pool group index none dispatched now).2 group name
        yamlText slots' ∧ slots'.map seat = slots.map seat := by
  unfold redispatchBroadcastSlot
  cases hclaim : claimRedispatch m pool group index none with
  | none => exact ⟨slots, h, rfl⟩
  | some c =>
    obtain ⟨p, slot, state, hp, hslot, -, hurl, hc⟩ := claimRedispatch_eq_some hclaim
    obtain ⟨q, hq, -, hslots⟩ := h.placement
    obtain rfl := Option.mem_unique hp hq
    have hpinned : slot.pinnedWorkerId = none := hpin slot (hslots ▸ mem_of_find?_eq_some hslot)
    have hown : slot.workerUrl = some c.workerUrl := by simpa [hpinned] using hurl
    split_ifs
    · rcases commitRedispatch_snd m pool c now with heq | ⟨q, hq', heq⟩ <;> rw [heq]
      · exact ⟨slots, h, rfl⟩
      · rw [hc] at hq' ⊢
        obtain rfl := Option.mem_unique hq hq'
        refine ⟨_, h.commitSlots hq _, ?_⟩
        rw [← hslots]
        refine seat_modifySlot fun t ht => ?_
        obtain rfl := Option.mem_unique hslot ht
        simp [seat, Claim.write, hown]
    · exact ⟨slots, h, rfl⟩

theorem Stands.redispatchAll (swap : Nat → Look) (indices : List Nat) :
    ∃ slots', Stands (m.redispatchAll swap group indices) group name yamlText slots' ∧
      slots'.map seat = slots.map seat := by
  unfold Manager.redispatchAll
  induction indices generalizing m slots with
  | nil => exact ⟨slots, h, rfl⟩
  | cons index indices ih =>
    obtain ⟨slots₁, hstands, hseat⟩ := h.redispatch_own hpin (swap index).pool index
      (swap index).dispatched (swap index).clock
    obtain ⟨slots₂, hstands₂, hseat₂⟩ := ih hstands (pinned_of_seat hseat hpin)
    exact ⟨slots₂, hstands₂, hseat₂.trans hseat⟩

theorem Stands.reconcileConfigDrift (swap : Nat → Look) :
    ∃ slots', Stands (m.reconcileConfigDrift swap group) group name yamlText slots' ∧
      slots'.map seat = slots.map seat := by
  obtain ⟨p, hp, hname, hslots⟩ := h.placement
  simp only [Manager.reconcileConfigDrift, hp]
  cases hstate : m.pipelines.lookup p.pipelineName with
  | none => exact ⟨slots, h, rfl⟩
  | some state =>
    dsimp only
    split_ifs
    · set marked := p.slots.map fun s => { s with status := .stale } with hmarked
      have hseat : marked.map seat = slots.map seat := by
        rw [hmarked, hslots, map_map]
        rfl
      have hstands : Stands ((m.setPlacement group { p with slots := marked }).persist group marked
          p.status) group name yamlText marked :=
        ⟨⟨{ p with slots := marked }, by simp, hname, rfl⟩, h.yaml⟩
      obtain ⟨slots', hstands', hseat'⟩ :=
        hstands.redispatchAll (pinned_of_seat hseat hpin) swap (marked.map (·.workerIndex))
      exact ⟨slots', hstands', hseat'.trans hseat⟩
    · exact ⟨slots, h, rfl⟩

end

theorem walk_of_not_drifted {pass : Pass} {copies : List Slot}
    (hv : pass.verdict (m.yamlOf p.pipelineName) group p (copies ++ rest) s = v)
    (hne : v ≠ .drifted) :
    pass.walk group p m copies (s :: rest) =
      pass.walk group p (pass.act m group s v).1 (copies ++ [(pass.act m group s v).2]) rest := by
  subst hv
  rw [walk]
  split
  · contradiction
  · rfl

def Visit.fates (a : Visit) : List (Option String) :=
  a.p.slots.mapIdx fun i s => (a.fate i s).workerUrl

theorem mapIdx_fate_of_drifting {before : List Slot} (hslots : a.p.slots = before ++ s :: rest)
    (hdrift : a.drifting s = true) :
    ((s :: rest).mapIdx fun k t => (a.fate (k + before.length) t).workerUrl) =
      (s :: rest).map (·.workerUrl) := by
  have hstop : ∀ k, a.reaches (k + before.length) = false := by
    intro k
    refine all_eq_false.mpr ⟨s, mem_of_getElem? (i := before.length) ?_, by simp [hdrift]⟩
    rw [getElem?_take_of_lt (by omega), hslots, getElem?_append_right le_rfl]
    simp
  refine ext_getElem? fun k => ?_
  rw [getElem?_mapIdx, getElem?_map]
  cases (s :: rest)[k]? with
  | none => rfl
  | some t => simp [Visit.fate, hstop k, Fate.workerUrl]

theorem Stands.walk (hcount : a.p.targetCount = .count n) {before : List Slot}
    (hslots : a.p.slots = before ++ rest)
    (h : Stands m a.group a.p.pipelineName a.yamlText (done ++ rest))
    (hpin : ∀ s ∈ done ++ rest, s.pinnedWorkerId = none)
    (hindex : ((done ++ rest).map (·.workerIndex)).Nodup)
    (hdone : done.map (·.workerUrl) = before.mapIdx fun i s => (a.fate i s).workerUrl)
    (hpassed : ∀ s ∈ before, a.drifting s = false) {copies : List Slot}
    (hcopies : copies.map (·.workerUrl) = before.map fun s => a.elsewhere s <|> s.workerUrl) :
    ∃ slots', Stands (a.pass.walk a.group a.p m copies rest).manager a.group a.p.pipelineName a.yamlText
        slots' ∧ slots'.map (·.workerUrl) = a.fates := by
  induction rest generalizing m done before copies with
  | nil => exact ⟨done ++ [], h, by simpa [Visit.fates, hslots] using hdone⟩
  | cons s rest ih =>
    have hs : ∀ t ∈ done, t.workerIndex ≠ s.workerIndex := by
      simp only [map_append, map_cons, nodup_append] at hindex
      intro t ht
      exact hindex.2.2 _ (mem_map_of_mem ht) _ mem_cons_self
    cases hdrift : a.drifting s with
    | true =>
      have hverdict : a.pass.verdict (m.yamlOf a.p.pipelineName) a.group a.p (copies ++ rest) s =
          .drifted := by
        rw [h.yaml]
        exact verdict_of_drifting hdrift
      simp only [walk, hverdict]
      obtain ⟨slots', hstands, hseat⟩ := h.reconcileConfigDrift hpin (a.pass.swap a.group)
      refine ⟨slots', hstands, ?_⟩
      have hurls := congrArg (List.map (·.2.2)) hseat
      rw [Visit.fates, hslots, mapIdx_append, mapIdx_fate_of_drifting hslots hdrift, ← hdone]
      simpa [seat, Function.comp_def] using hurls
    | false =>
      have hpassed₁ : ∀ t ∈ before ++ [s], a.drifting t = false :=
        forall_mem_concat hpassed hdrift
      have hslots₁ : a.p.slots = (before ++ [s]) ++ rest := by simpa using hslots
      have hreach : a.reaches before.length = true := by
        refine all_eq_true.mpr fun t ht => ?_
        rw [hslots₁, take_left' (by simp)] at ht
        simp [hpassed₁ t ht]
      have hat : a.p.slots[before.length]? = some s := by simp [hslots]
      obtain ⟨hne, hfate⟩ := fate_verdict hcount (hpin s (by simp)) (taken_eq hslots hcopies) hreach hat
      obtain ⟨t, hstands, hseat, hcopy⟩ := h.act hs a.pass hne
      rw [walk_of_not_drifted (by rw [h.yaml]) hne]
      rw [hfate] at hseat hcopy
      have htindex : t.workerIndex = s.workerIndex := congrArg (·.1) hseat
      have htpin : t.pinnedWorkerId = s.pinnedWorkerId := congrArg (·.2.1) hseat
      have hturl : t.workerUrl = _ := congrArg (·.2.2) hseat
      refine ih hslots₁ (show Stands _ _ _ _ ((done ++ [t]) ++ rest) by simpa using hstands) ?_ ?_ ?_
        hpassed₁ ?_
      · intro u hu
        simp only [mem_append, mem_singleton] at hu
        rcases hu with (hu | rfl) | hu
        · exact hpin u (mem_append_left _ hu)
        · exact htpin.trans (hpin s (mem_append_right _ mem_cons_self))
        · exact hpin u (mem_append_right _ (mem_cons_of_mem _ hu))
      · simpa [htindex] using hindex
      · simp [mapIdx_append, hdone, hturl]
      · simp [hcopies, hcopy, copied_fate hreach]

theorem Stands.updateStatus (h : Stands m group name yamlText slots) (status : Status) :
    Stands (m.updateBroadcastPlacementStatus group status) group name yamlText slots := by
  obtain ⟨p, hp, hname, hslots⟩ := h.placement
  refine ⟨⟨{ p with status := status }, ?_, hname, hslots⟩, (yamlOf_updateStatus ..).trans h.yaml⟩
  simp [updateBroadcastPlacementStatus, hp]

theorem Stands.reconcile (hcount : a.p.targetCount = .count n)
    (h : Stands m a.group a.p.pipelineName a.yamlText a.p.slots)
    (hpin : ∀ s ∈ a.p.slots, s.pinnedWorkerId = none) (hindex : (a.p.slots.map (·.workerIndex)).Nodup) :
    ∃ slots', Stands (a.pass.reconcile m a.group a.p) a.group a.p.pipelineName a.yamlText slots' ∧
      slots'.map (·.workerUrl) = a.fates := by
  have h₀ : Stands m a.group a.p.pipelineName a.yamlText ([] ++ a.p.slots) := h
  obtain ⟨slots', hstands, hurls⟩ := h₀.walk hcount (nil_append _).symm hpin hindex rfl (by simp)
    (show ([] : List Slot).map (·.workerUrl) = _ from rfl)
  refine ⟨slots', ?_, hurls⟩
  unfold Pass.reconcile
  dsimp only
  split_ifs
  · exact hstands
  · exact hstands
  · exact hstands.updateStatus _

/-! ## Other placements -/

structure Frame (group : String) (m m' : Manager) : Prop where
  placement : m'.broadcastPlacements.lookup group = m.broadcastPlacements.lookup group
  yaml : ∀ name, m'.yamlOf name = m.yamlOf name

theorem Frame.refl (group : String) (m : Manager) : Frame group m m := ⟨rfl, fun _ => rfl⟩

theorem Frame.trans {m₁ m₂ m₃ : Manager} (h : Frame group m₁ m₂) (h' : Frame group m₂ m₃) :
    Frame group m₁ m₃ :=
  ⟨h'.placement.trans h.placement, fun name => (h'.yaml name).trans (h.yaml name)⟩

theorem Frame.stands {m' : Manager} (h : Frame group m m') (hm : Stands m group name yamlText slots) :
    Stands m' group name yamlText slots :=
  ⟨by rw [h.placement]; exact hm.placement, (h.yaml name).trans hm.yaml⟩

variable {other : String} (hne : group ≠ other)

include hne

section

variable (m : Manager)

theorem Frame.commitSlots (p : BroadcastPlacement) (slots : List Slot) :
    Frame group m (m.commitSlots other p slots) :=
  ⟨by simp [Manager.commitSlots, hne], fun _ => yamlOf_commitSlots ..⟩

theorem Frame.updatePlacementSlot (index : Nat) (u : Manager.SlotUpdate) :
    Frame group m (m.updatePlacementSlot other index u).2 := by
  unfold Manager.updatePlacementSlot
  cases m.broadcastPlacements.lookup other with
  | none => exact .refl group m
  | some p =>
    cases hfind : findSlot p.slots index with
    | none => simpa [hfind] using Frame.refl group m
    | some slot => simpa [hfind] using Frame.commitSlots hne m p _

theorem Frame.redispatch (pool : Pool) (index : Nat) (url : Option String) (dispatched : Bool)
    (now : Time) : Frame group m (redispatchBroadcastSlot m pool other index url dispatched now).2 := by
  unfold redispatchBroadcastSlot
  cases hclaim : claimRedispatch m pool other index url with
  | none => exact .refl group m
  | some c =>
    obtain ⟨p, slot, state, -, -, -, -, hc⟩ := claimRedispatch_eq_some hclaim
    split_ifs
    · rcases commitRedispatch_snd m pool c now with heq | ⟨q, -, heq⟩ <;> rw [heq]
      · exact .refl group m
      · rw [hc]
        exact .commitSlots hne m q _
    · exact .refl group m

theorem Frame.writeBack (u : Manager.SlotUpdate) (s : Slot) : Frame group m (m.writeBack other u s).1 := by
  unfold Manager.writeBack
  split_ifs
  · exact .refl group m
  · exact .updatePlacementSlot hne m _ u

theorem Frame.mark (status : SlotStatus) (s : Slot) : Frame group m (m.mark other status s).1 := by
  unfold Manager.mark
  split_ifs
  · exact .refl group m
  · exact .writeBack hne m _ s

theorem Frame.replaceStale (look : Look) (replacement : Option String) (s : Slot) :
    Frame group m (m.replaceStale look other replacement s).1 := by
  have hmark := Frame.mark hne m .stale s
  unfold Manager.replaceStale
  dsimp only
  split
  · exact hmark
  · exact hmark.trans (.redispatch hne _ _ _ _ _ _)

theorem Frame.reconcileConfigDrift (swap : Nat → Look) :
    Frame group m (m.reconcileConfigDrift swap other) := by
  have hall : ∀ (indices : List Nat) (m : Manager), Frame group m (m.redispatchAll swap other indices) := by
    intro indices
    induction indices with
    | nil => exact fun m => .refl group m
    | cons index indices ih => exact fun m => (Frame.redispatch hne m _ _ _ _ _).trans (ih _)
  unfold Manager.reconcileConfigDrift
  split
  · exact .refl group m
  · split
    · exact .refl group m
    · split_ifs
      · dsimp only
        refine Frame.trans ?_ (hall _ _)
        exact ⟨by simp [hne], fun _ => rfl⟩
      · exact .refl group m

theorem Frame.act (pass : Pass) (s : Slot) (v : Verdict) : Frame group m (pass.act m other s v).1 := by
  cases v with
  | drifted => exact .refl group m
  | live item => exact .writeBack hne m _ s
  | starting => exact .refl group m
  | stale replacement => exact .replaceStale hne m _ replacement s
  | alive => exact .mark hne m _ s

theorem Frame.walk (pass : Pass) (p : BroadcastPlacement) (copies slots : List Slot) :
    Frame group m (pass.walk other p m copies slots).manager := by
  induction slots generalizing m copies with
  | nil => exact .refl group m
  | cons s slots ih =>
    rw [walk]
    split
    · exact .reconcileConfigDrift hne m _
    · exact (Frame.act hne m pass s _).trans (ih _ _)

theorem Frame.updateStatus (status : Status) :
    Frame group m (m.updateBroadcastPlacementStatus other status) := by
  refine ⟨?_, fun _ => yamlOf_updateStatus ..⟩
  cases hp : m.broadcastPlacements.lookup other <;>
    simp [updateBroadcastPlacementStatus, hp, hne]

theorem Frame.reconcile (pass : Pass) (p : BroadcastPlacement) :
    Frame group m (pass.reconcile m other p) := by
  have hwalk := Frame.walk hne m pass p [] p.slots
  unfold Pass.reconcile
  dsimp only
  split_ifs
  · exact hwalk
  · exact hwalk
  · exact hwalk.trans (.updateStatus hne _ _)

end

end

theorem Frame.reconcileAll {group : String} (pass : Pass)
    (entries : List (Σ _ : String, BroadcastPlacement)) (hne : ∀ e ∈ entries, e.1 ≠ group)
    (m : Manager) : Frame group m (entries.foldl (fun m e => pass.reconcile m e.1 e.2) m) := by
  induction entries generalizing m with
  | nil => exact .refl group m
  | cons e entries ih =>
    exact (Frame.reconcile (hne e mem_cons_self).symm m pass e.2).trans
      (ih (fun e he => hne e (mem_cons_of_mem _ he)) _)

/-! ## The whole pass -/

def Manager.workerUrls (m : Manager) (group : String) : List String :=
  ((m.broadcastPlacements.lookup group).map fun p => p.slots.filterMap (·.workerUrl)).getD []

theorem workerUrls_runOnce (pass : Pass) {m : Manager} {group : String} {p : BroadcastPlacement}
    (hp : m.broadcastPlacements.lookup group = some p) (hcount : p.targetCount = .count n)
    (hpin : ∀ s ∈ p.slots, s.pinnedWorkerId = none) (hindex : (p.slots.map (·.workerIndex)).Nodup) :
    (pass.runOnce m).workerUrls group =
      (Visit.mk pass group p (m.yamlOf p.pipelineName)).fates.filterMap id := by
  set a : Visit := ⟨pass, group, p, m.yamlOf p.pipelineName⟩
  obtain ⟨before, after, hentries⟩ := append_of_mem (Dict.mem_entries.mpr hp)
  have hkeys := m.broadcastPlacements.nodupKeys
  rw [nodupKeys_iff_pairwise, hentries, pairwise_append, pairwise_cons] at hkeys
  have hbefore : ∀ e ∈ before, e.1 ≠ group := fun e he =>
    hkeys.2.2 e he ⟨group, p⟩ mem_cons_self
  have hafter : ∀ e ∈ after, e.1 ≠ group := fun e he => (hkeys.2.1.1 e he).symm
  have hstart : Stands m group p.pipelineName (m.yamlOf p.pipelineName) p.slots :=
    ⟨⟨p, hp, rfl, rfl⟩, rfl⟩
  obtain ⟨slots', hstands, hurls⟩ :=
    ((Frame.reconcileAll pass before hbefore m).stands hstart).reconcile (a := a) hcount hpin hindex
  obtain ⟨q, hq, -, rfl⟩ := ((Frame.reconcileAll pass after hafter _).stands hstands).placement
  rw [runOnce, hentries, foldl_append, foldl_cons, workerUrls, hq, ← hurls]
  simp [filterMap_map]

/-- After a pass the slots of a placement of N workers are on different workers as before, exactly
if no two slots with a lost run and a worker that is down have the same healthy spare, and no slot
is reported from the worker of another. -/
theorem pass_keeps_workers_distinct_iff (pass : Pass) (m : Manager) (group : String)
    (p : BroadcastPlacement) (n : Nat) (hp : m.broadcastPlacements.lookup group = some p)
    (hcount : p.targetCount = .count n) (hpin : ∀ s ∈ p.slots, s.pinnedWorkerId = none)
    (hindex : (p.slots.map (·.workerIndex)).Nodup) (hdistinct : (m.workerUrls group).Nodup) :
    ((pass.runOnce m).workerUrls group).Nodup ↔
      (Visit.mk pass group p (m.yamlOf p.pipelineName)).Spread := by
  have hslots : (p.slots.filterMap (·.workerUrl)).Nodup := by
    simpa [workerUrls, hp] using hdistinct
  rw [workerUrls_runOnce pass hp hcount hpin hindex, spread_iff (Traverse.nodup_filterMap_iff.mp hslots),
    Traverse.nodup_filterMap_iff]
  simp only [Visit.fates, getElem?_mapIdx, Option.map_eq_some_iff]
  constructor
  · intro h i j s t url hs ht hne
    exact h i j _ _ url ⟨s, hs, rfl⟩ ⟨t, ht, rfl⟩ hne
  · rintro h i j _ _ url ⟨s, hs, rfl⟩ ⟨t, ht, rfl⟩ hne
    exact h i j s t url hs ht hne

def twoSlots : BroadcastPlacement :=
  dispatchedPlacement "g" "p" (.count 2) 0 [⟨some "a", "", none, true⟩, ⟨some "b", "", none, true⟩]

def twoSlotManager : Manager :=
  (mk ((∅ : Dict String Pipeline).insert "p" ⟨"", .running, true⟩) ∅ ∅ ∅ none)
    |>.recordBroadcastPlacement twoSlots

def silentPass (up : List String) : Pass where
  now := seconds 1000
  statsInterval := 30
  liveStreams := []
  configSha := id
  look := fun _ _ =>
    { pool :=
        { workers := ["a", "b", "c"]
          health := up.foldl (fun d url => d.insert url ⟨true, 0⟩) ∅
          assignments := ∅
          workerIds := ∅
          urlToWorkerId := ∅ }
      loadScore := fun _ => 0
      stats := ∅
      clock := seconds 1000
      dispatched := true }
  swap := fun _ _ => ⟨⟨[], ∅, ∅, ∅, ∅⟩, fun _ => 0, ∅, 0, true⟩

theorem one_slot_on_the_spare :
    (((silentPass ["b", "c"]).runOnce twoSlotManager).workerUrls "g").Nodup :=
  (pass_keeps_workers_distinct_iff (silentPass ["b", "c"]) twoSlotManager "g" twoSlots 2
    (by decide +kernel) rfl (by decide) (by decide) (by decide +kernel)).mpr (by
      have hfirst : ∀ i s, twoSlots.slots[i]? = some s →
          (Visit.mk (silentPass ["b", "c"]) "g" twoSlots (twoSlotManager.yamlOf "p")).strands i s →
            i = 0 := by
        intro i s hs hgone
        rcases i with _ | _ | i
        · rfl
        · cases hs
          exact absurd hgone (by decide +kernel)
        · cases hs
      refine ⟨fun i j s t _ hs ht hne hi hj => ?_, fun i _ s _ _ hs _ _ _ helse => ?_⟩
      · exact absurd ((hfirst i s hs hi).trans (hfirst j t ht hj).symm) hne
      · have hnone : ∀ s ∈ twoSlots.slots, (Visit.mk (silentPass ["b", "c"]) "g"
            twoSlots (twoSlotManager.yamlOf "p")).elsewhere s = none := by decide +kernel
        cases (hnone s (mem_of_getElem? hs)).symm.trans helse)

/-- Both workers are down: both slots are moved to the spare worker. -/
theorem two_slots_on_one_spare :
    twoSlotManager.workerUrls "g" = ["a", "b"] ∧
      ((silentPass ["c"]).runOnce twoSlotManager).workerUrls "g" = ["c", "c"] := by
  decide +kernel

end Tram.Placement
