import Tram.Lib.Traverse
import Tram.Transforms.WindowAggregate

/-! # What the windows hold

The due heap lists the open windows, each once; every open window ends after the watermark; every
record that is not late is counted in one window, open or emitted. One lemma for each function
that changes the state. -/

namespace Tram.WindowAggregate

open List Nested State

variable {py : Python} {cfg : Config}

/-- The heap is the index of the open windows. -/
structure Indexed (s : State) : Prop where
  sorted : s.dueHeap.Pairwise (· ≤ ·)
  nodup : s.dueHeap.Nodup
  mem : ∀ key stop, toLex (stop, key) ∈ s.dueHeap ↔ (look s.windows key stop).isSome
  stops : ∀ key stop entry, look s.windows key stop = some entry → entry.stop = stop

variable {out emitted : List Emitted} {watermark : ℚ} {heap heap' : List (Int ×ₗ String)}
    {windows windows' : Dict String (Dict Int Entry)} {s s' : State} {record : Record} {n : Nat}
  {entry : Entry} {key : String}

theorem emitWindow_spec {complete : Bool} {out : Emitted}
    (h : emitWindow cfg complete key entry = some out) :
    out.groupKey = key ∧ out.windowEnd = entry.stop ∧ out.sampleCount = entry.sampleCount ∧
      out.windowComplete = complete := by
  unfold emitWindow at h
  split at h
  · cases h
    exact ⟨rfl, rfl, rfl, rfl⟩
  · cases h

theorem emitWindow_groupFields {complete : Bool} {out : Emitted}
    (h : emitWindow cfg complete key entry = some out) :
    out.groupFields = cfg.groupBy.zip entry.groupValues := by
  unfold emitWindow at h
  split at h
  · cases h
    rfl
  · cases h

/-- The windows of a list, emitted in its order. -/
def Emits (cfg : Config) (complete : Bool) (windows : List ((String × Int) × Entry))
    (out : List Emitted) : Prop :=
  Forall₂ (fun w em => emitWindow cfg complete w.1.1 w.2 = some em) windows out

theorem Emits.sampleCount {complete : Bool} {windows : List ((String × Int) × Entry)}
    (h : Emits cfg complete windows out) :
    (out.map (·.sampleCount)).sum = (windows.map (·.2.sampleCount)).sum := by
  induction h with
  | nil => rfl
  | cons hw _ ih =>
    rw [map_cons, map_cons, sum_cons, sum_cons, ih, (emitWindow_spec hw).2.2.1]

theorem Emits.complete {complete : Bool} {windows : List ((String × Int) × Entry)}
    (h : Emits cfg complete windows out) :
    ∀ em ∈ out, em.windowComplete = complete := by
  intro em hem
  obtain ⟨w, -, hw⟩ := Traverse.exists_of_forall₂ h hem
  exact (emitWindow_spec hw).2.2.2

/-- The loop removes windows that are due and no others, and emits only windows that were there. -/
theorem finalizeDue_sub {α : Type} (emit : String → α → Option Emitted) (watermark : ℚ)
    (heap : List (Int ×ₗ String)) (windows : Dict String (Dict Int α)) :
    (∀ key (stop : Int), look (finalizeDue emit watermark heap windows).2.1 key stop =
        look windows key stop ∨
      (stop : ℚ) ≤ watermark ∧
        look (finalizeDue emit watermark heap windows).2.1 key stop = none) ∧
    ∀ em ∈ (finalizeDue emit watermark heap windows).1.getD [], ∃ key stop a,
      look windows key stop = some a ∧ emit key a = some em := by
  induction heap generalizing windows with
  | nil => exact ⟨fun _ _ => .inl rfl, nofun⟩
  | cons due heap ih =>
    rw [finalizeDue]
    dsimp only
    split_ifs with hdue
    · cases ha : look windows (ofLex due).2 (ofLex due).1 with
      | none => exact ih windows
      | some a =>
        have hpop : ∀ key (stop : Int), look (pop windows (ofLex due).2 (ofLex due).1) key
            stop = look windows key stop ∨ (stop : ℚ) ≤ watermark ∧
              look (pop windows (ofLex due).2 (ofLex due).1) key stop = none := by
          intro key stop
          rw [look_pop]
          split_ifs with hsame
          · exact .inr ⟨hsame.2 ▸ hdue, rfl⟩
          · exact .inl rfl
        dsimp only
        cases hem : emit (ofLex due).2 a with
        | none => exact ⟨hpop, nofun⟩
        | some out =>
          obtain ⟨hlook, hout⟩ := ih (pop windows (ofLex due).2 (ofLex due).1)
          dsimp only
          refine ⟨fun key stop => ?_, fun em hem' => ?_⟩
          · rcases hlook key stop with hkept | hremoved
            · rw [hkept]
              exact hpop key stop
            · exact .inr hremoved
          · generalize (finalizeDue emit watermark heap (pop windows (ofLex due).2
              (ofLex due).1)).1 = rest at hout hem'
            cases rest with
            | none => cases hem'
            | some rest =>
              rcases mem_cons.mp hem' with rfl | hem'
              · exact ⟨_, _, a, ha, hem⟩
              · obtain ⟨key, stop, b, hb, hemit⟩ := hout em hem'
                rcases hpop key stop with hkept | ⟨-, hgone⟩
                · exact ⟨key, stop, b, hkept.symm.trans hb, hemit⟩
                · cases hgone.symm.trans hb
    · exact ⟨fun _ _ => .inl rfl, nofun⟩

theorem filter_due_of_head {due : Int ×ₗ String} (hsorted : (due :: heap).Pairwise (· ≤ ·))
    (h : ¬ ((ofLex due).1 : ℚ) ≤ watermark) :
    ∀ d ∈ due :: heap, ¬ ((ofLex d).1 : ℚ) ≤ watermark := by
  intro d hd hle
  rcases mem_cons.mp hd with rfl | hd
  · exact h hle
  · have hdue := (pairwise_cons.mp hsorted).1 d hd
    have hfst : (ofLex due).1 ≤ (ofLex d).1 := by
      rcases Prod.Lex.le_iff.mp hdue with hlt | heq
      · exact hlt.le
      · exact heq.1.le
    exact h (le_trans (by exact_mod_cast hfst) hle)

theorem finalizeDue_cons {stop : Int} (hdue : (stop : ℚ) ≤ watermark)
    (hentry : look windows key stop = some entry)
    (h : finalizeDue (emitWindow cfg true) watermark (toLex (stop, key) :: heap) windows =
      (some out, windows', heap')) :
    ∃ em rest, emitWindow cfg true key entry = some em ∧ out = em :: rest ∧
      finalizeDue (emitWindow cfg true) watermark heap (pop windows key stop) =
        (some rest, windows', heap') := by
  simp only [finalizeDue, ofLex_toLex, if_pos hdue, hentry] at h
  cases hemit : emitWindow cfg true key entry with
  | none => simp [hemit] at h
  | some em =>
    simp only [hemit] at h
    rcases hrec : finalizeDue (emitWindow cfg true) watermark heap (pop windows key stop) with
      ⟨rest, tables⟩
    rw [hrec] at h
    obtain ⟨rest, rfl, rfl⟩ : ∃ l, rest = some l ∧ em :: l = out := by
      simpa using (Prod.mk.inj h).1
    obtain rfl : tables = (windows', heap') := by simpa using (Prod.mk.inj h).2
    exact ⟨em, rest, rfl, rfl, rfl⟩

theorem mem_heap_pop {key₀ : String} {stop₀ : Int} (hnodup : (toLex (stop₀, key₀) :: heap).Nodup)
    (hmem : ∀ key stop, toLex (stop, key) ∈ toLex (stop₀, key₀) :: heap ↔
      (look windows key stop).isSome) (key : String) (stop : Int) :
    toLex (stop, key) ∈ heap ↔
      (look (pop windows key₀ stop₀) key stop).isSome := by
  rw [look_pop]
  by_cases heq : key = key₀ ∧ stop = stop₀
  · obtain ⟨rfl, rfl⟩ := heq
    simp [(nodup_cons.mp hnodup).1]
  · rw [if_neg heq, ← hmem, mem_cons]
    refine (or_iff_right fun h' => heq ?_).symm
    have hpair := toLex_inj.mp h'
    exact ⟨congrArg Prod.snd hpair, congrArg Prod.fst hpair⟩

theorem finalizeDue_spec (hsorted : heap.Pairwise (· ≤ ·)) (hnodup : heap.Nodup)
    (hmem : ∀ key stop, toLex (stop, key) ∈ heap ↔ (look windows key stop).isSome)
    (h : finalizeDue (emitWindow cfg true) watermark heap windows = (some out, windows', heap')) :
    heap' = heap.filter (fun d => ¬ ((ofLex d).1 : ℚ) ≤ watermark) ∧
    (∀ key (stop : Int), look windows' key stop =
      if (stop : ℚ) ≤ watermark then none else look windows key stop) ∧
    ∃ dues, dues.Nodup ∧
      (∀ key (stop : Int) entry, ((key, stop), entry) ∈ dues ↔
        look windows key stop = some entry ∧ (stop : ℚ) ≤ watermark) ∧
      Emits cfg true dues out := by
  induction heap generalizing windows out with
  | nil =>
    obtain ⟨rfl, rfl, rfl⟩ : [] = out ∧ windows = windows' ∧ [] = heap' := by
      simpa [finalizeDue] using h
    have hnone : ∀ key stop, look windows key stop = none := fun key stop =>
      Option.not_isSome_iff_eq_none.mp fun hs => by cases (hmem key stop).mpr hs
    refine ⟨rfl, fun key stop => ?_, [], nodup_nil, fun key stop entry => ?_, .nil⟩
    · rw [hnone]
      split_ifs <;> rfl
    · simp [hnone]
  | cons due heap ih =>
    obtain ⟨⟨stop₀, key₀⟩, rfl⟩ : ∃ p, toLex p = due := ⟨ofLex due, rfl⟩
    by_cases hdue : (stop₀ : ℚ) ≤ watermark
    · obtain ⟨entry, hentry⟩ :=
        Option.isSome_iff_exists.mp ((hmem key₀ stop₀).mp mem_cons_self)
      obtain ⟨em, rest, hemit, rfl, hrec⟩ := finalizeDue_cons hdue hentry h
      obtain ⟨hheap, hlook, dues, hdues, hin, hemits⟩ := ih (pairwise_cons.mp hsorted).2
        (nodup_cons.mp hnodup).2 (mem_heap_pop hnodup hmem) hrec
      refine ⟨?_, ?_, ((key₀, stop₀), entry) :: dues, ?_, ?_, .cons hemit hemits⟩
      · rw [hheap, filter_cons, if_neg (by simpa using hdue)]
      · intro key stop
        rw [hlook, look_pop]
        split_ifs with hle heq
        · rfl
        · rw [heq.2] at hle
          exact absurd hdue hle
        · rfl
      · refine nodup_cons.mpr ⟨fun hmem' => ?_, hdues⟩
        have hgone := ((hin key₀ stop₀ entry).mp hmem').1
        rw [look_pop, if_pos ⟨rfl, rfl⟩] at hgone
        cases hgone
      · intro key stop e
        rw [mem_cons, hin, look_pop, Prod.mk.injEq, Prod.mk.injEq]
        by_cases heq : key = key₀ ∧ stop = stop₀
        · obtain ⟨rfl, rfl⟩ := heq
          simp [hentry, hdue, eq_comm]
        · simp [heq]
    · -- the head is not due, so the loop stops
      have hnot := filter_due_of_head hsorted hdue
      simp only [finalizeDue, ofLex_toLex, hdue, if_false] at h
      obtain ⟨rfl, rfl, rfl⟩ : [] = out ∧ windows = windows' ∧
          toLex (stop₀, key₀) :: heap = heap' := by
        simpa using h
      have hopen : ∀ key (stop : Int) entry, look windows key stop = some entry →
          ¬ (stop : ℚ) ≤ watermark := fun key stop entry he =>
        hnot _ ((hmem key stop).mpr (by rw [he]; rfl))
      refine ⟨?_, ?_, [], nodup_nil, ?_, .nil⟩
      · exact (filter_eq_self.mpr fun d hd => decide_eq_true (hnot d hd)).symm
      · intro key stop
        split_ifs with hle
        · cases he : look windows key stop with
          | none => rfl
          | some entry => exact absurd hle (hopen key stop entry he)
        · rfl
      · intro key stop entry
        refine ⟨fun hnil => (by cases hnil), fun ⟨he, hle⟩ => absurd hle (hopen key stop entry he)⟩

theorem Indexed.finalize {m : ℚ} (hs : Indexed s) (h : s.finalize cfg m = (some out, s')) :
    Indexed s' ∧ s'.maxTs = some m ∧
    (∀ key (stop : Int), look s'.windows key stop =
      if (stop : ℚ) ≤ m - cfg.allowedLatenessSeconds then none else look s.windows key stop) ∧
    ∃ dues, dues.Nodup ∧
      (∀ key (stop : Int) entry, ((key, stop), entry) ∈ dues ↔
        look s.windows key stop = some entry ∧
          (stop : ℚ) ≤ m - cfg.allowedLatenessSeconds) ∧
      Emits cfg true dues out := by
  unfold State.finalize at h
  rcases hfin : finalizeDue (emitWindow cfg true) (m - cfg.allowedLatenessSeconds) s.dueHeap
    s.windows with ⟨emitted, windows, heap⟩
  rw [hfin] at h
  cases h
  obtain ⟨rfl, hlook, hdues⟩ := finalizeDue_spec hs.sorted hs.nodup hs.mem hfin
  refine ⟨⟨hs.sorted.filter _, hs.nodup.filter _, fun key stop => ?_, fun key stop entry he => ?_⟩,
    rfl, hlook, hdues⟩
  · rw [mem_filter, hs.mem, hlook]
    split_ifs with hle <;> simp [hle]
  · rw [hlook] at he
    split_ifs at he
    exact hs.stops key stop entry he

namespace State

variable (py cfg)

def folded (s : State) (record : Record) (stop : Int) : Entry :=
  ((look s.windows (groupKey py cfg record).1 stop).getD
    (newEntry cfg stop (groupKey py cfg record).2)).fold cfg record

section

variable (s record) (stop : Int)

theorem add_eq : s.add py cfg record stop =
    ⟨s.maxTs, put s.windows (groupKey py cfg record).1 stop (s.folded py cfg record stop),
      if (look s.windows (groupKey py cfg record).1 stop).isSome then s.dueHeap
      else s.dueHeap.orderedInsert (· ≤ ·) (toLex (stop, (groupKey py cfg record).1))⟩ := by
  unfold add folded
  dsimp only
  cases look s.windows (groupKey py cfg record).1 stop with
  | none | some => rfl

theorem add_maxTs : (s.add py cfg record stop).maxTs = s.maxTs := by rw [add_eq]

theorem look_add (key : String) (stop' : Int) :
    look (s.add py cfg record stop).windows key stop' =
      if key = (groupKey py cfg record).1 ∧ stop' = stop then some (s.folded py cfg record stop)
      else look s.windows key stop' := by
  rw [add_eq, look_put]

end

end State

theorem Indexed.add (hs : Indexed s) (record : Record) (stop : Int) :
    Indexed (s.add py cfg record stop) := by
  have hstop : (s.folded py cfg record stop).stop = stop := by
    unfold folded
    cases he : look s.windows (groupKey py cfg record).1 stop with
    | none => rfl
    | some entry =>
      have hkey : entry.stop = stop := hs.stops _ stop entry he
      exact hkey
  have hstops : ∀ key stop' entry,
      look (s.add py cfg record stop).windows key stop' = some entry → entry.stop = stop' := by
    intro key stop' entry he
    rw [look_add] at he
    split_ifs at he with heq
    · rw [← Option.some.inj he, hstop, heq.2]
    · exact hs.stops key stop' entry he
  have hheap := congrArg dueHeap (s.add_eq py cfg record stop)
  by_cases hopen : (look s.windows (groupKey py cfg record).1 stop).isSome = true
  · simp only [if_pos hopen] at hheap
    refine ⟨hheap ▸ hs.sorted, hheap ▸ hs.nodup, fun key stop' => ?_, hstops⟩
    rw [hheap, hs.mem, look_add]
    split_ifs with heq
    · simp [heq.1, heq.2, hopen]
    · rfl
  · simp only [if_neg hopen] at hheap
    have hperm := perm_orderedInsert (· ≤ ·) (toLex (stop, (groupKey py cfg record).1)) s.dueHeap
    refine ⟨hheap ▸ hs.sorted.orderedInsert _ _, ?_, fun key stop' => ?_, hstops⟩
    · rw [hheap, hperm.nodup_iff]
      exact nodup_cons.mpr ⟨fun hin => hopen ((hs.mem _ _).mp hin), hs.nodup⟩
    · rw [hheap, hperm.mem_iff, mem_cons, hs.mem, look_add, toLex_inj, Prod.mk.injEq]
      by_cases heq : key = (groupKey py cfg record).1 ∧ stop' = stop
      · simp [heq]
      · rw [if_neg heq, or_iff_right fun h => heq ⟨h.2, h.1⟩]

/-! ## Conservation -/

def State.openSamples (s : State) : Nat := ((pairs s.windows).map (·.2.sampleCount)).sum

def completed (emitted : List Emitted) : List (String × Int) :=
  (emitted.filter (·.windowComplete)).map fun em => (em.groupKey, em.windowEnd)

/-- A transform with what it has emitted and how many records it counted. -/
structure Sound (cfg : Config) (s : State) (emitted : List Emitted) (counted : Nat) : Prop where
  indexed : Indexed s
  /-- open windows end after the watermark -/
  ahead : ∀ key (stop : Int), (look s.windows key stop).isSome →
    ∃ m, s.maxTs = some m ∧ m - cfg.allowedLatenessSeconds < stop
  /-- complete windows ended before it -/
  behind : ∀ key (stop : Int), (key, stop) ∈ completed emitted →
    ∃ m, s.maxTs = some m ∧ (stop : ℚ) ≤ m - cfg.allowedLatenessSeconds
  once : (completed emitted).Nodup
  balance : counted = (emitted.map (·.sampleCount)).sum + s.openSamples

theorem Indexed.empty (m : Option ℚ) : Indexed ⟨m, ∅, []⟩ :=
  ⟨.nil, nodup_nil, fun key stop => by simp [look], fun key stop entry h => by simp [look] at h⟩

theorem Sound.init : Sound cfg init [] 0 where
  indexed := .empty none
  ahead := fun key stop h => by simp [State.init, look] at h
  behind := nofun
  once := nodup_nil
  balance := rfl

theorem openSamples_add (s : State) (record : Record) (stop : Int) :
    (s.add py cfg record stop).openSamples = s.openSamples + 1 := by
  have hput := sum_put Entry.sampleCount s.windows (groupKey py cfg record).1 stop
    (s.folded py cfg record stop)
  rw [add_eq]
  dsimp only [openSamples]
  have hcount : (s.folded py cfg record stop).sampleCount =
      ((look s.windows (groupKey py cfg record).1 stop).map Entry.sampleCount).getD 0 + 1 := by
    unfold folded
    cases look s.windows (groupKey py cfg record).1 stop with
    | none | some => rfl
  omega

theorem lt_windowEnd (cfg : Config) (ts : ℚ) : ts < windowEnd cfg ts := by
  have hpos : (0 : ℚ) < cfg.windowSeconds := by exact_mod_cast cfg.window_pos
  have hfloor := Int.lt_floor_add_one (ts / cfg.windowSeconds)
  rw [div_lt_iff₀ hpos] at hfloor
  unfold windowEnd
  push_cast
  linarith

/-- A record that is not late opens no window at or before the new watermark. -/
theorem watermark_lt_windowEnd {maxTs : Option ℚ} {ts : ℚ}
    (h : isLate cfg maxTs (windowEnd cfg ts) = false) :
    latest maxTs ts - cfg.allowedLatenessSeconds < windowEnd cfg ts := by
  have hlate := cfg.lateness_nonneg
  have hend := lt_windowEnd cfg ts
  cases maxTs with
  | none => simp only [latest]; linarith
  | some m =>
    simp only [isLate, latest, decide_eq_false_iff_not, not_le] at h ⊢
    split_ifs
    · linarith
    · exact h

theorem latest_ge (m ts : ℚ) : m ≤ latest (some m) ts := by
  unfold latest
  dsimp only
  split_ifs with hlt
  · exact hlt.le
  · exact le_rfl

theorem record_counted (h : s.record py cfg record = (.counted out, s')) :
    ∃ ts t, resolveTimestamp py cfg record = some ts ∧
      isLate cfg s.maxTs (windowEnd cfg ts) = false ∧
      s.finalize cfg (latest s.maxTs ts) = (some out, t) ∧
      s' = t.add py cfg record (windowEnd cfg ts) := by
  unfold State.record recordWith at h
  split at h
  · cases h
  · next ts hts =>
    dsimp only at h
    split_ifs at h with hlate
    · cases h
    · rcases hfin : s.finalize cfg (latest s.maxTs ts) with ⟨_ | emitted, t⟩ <;>
        rw [hfin] at h <;> cases h
      exact ⟨ts, t, hts, by simpa using hlate, hfin, rfl⟩

theorem completed_append (l l' : List Emitted) :
    completed (l ++ l') = completed l ++ completed l' := by
  simp [completed]

theorem completed_of_emits {dues : List ((String × Int) × Entry)} (h : Emits cfg true dues out)
    (hstops : ∀ w ∈ dues, w.2.stop = w.1.2) :
    completed out = dues.map (·.1) := by
  induction h with
  | nil => rfl
  | @cons w em dues out hw _ ih =>
    obtain ⟨hkey, hend, -, hcomplete⟩ := emitWindow_spec hw
    have hhead : (em.groupKey, em.windowEnd) = w.1 := by
      rw [hkey, hend, hstops w mem_cons_self]
    rw [completed, filter_cons, if_pos hcomplete, map_cons, map_cons, hhead, ← completed,
      ih fun w' hw' => hstops w' (mem_cons_of_mem w hw')]

theorem Sound.counted (hs : Sound cfg s emitted n)
    (h : s.record py cfg record = (.counted out, s')) :
    Sound cfg s' (emitted ++ out) (n + 1) := by
  obtain ⟨ts, t, -, hlate, hfin, rfl⟩ := record_counted h
  obtain ⟨hindexed, hmax, hlook, dues, hdues, hin, hemits⟩ := hs.indexed.finalize hfin
  have hmax : (t.add py cfg record (windowEnd cfg ts)).maxTs = some (latest s.maxTs ts) := by
    rw [add_maxTs, hmax]
  have hcompleted : completed out = dues.map (·.1) := completed_of_emits hemits fun w hw =>
    hs.indexed.stops w.1.1 w.1.2 w.2 ((hin _ _ _).mp hw).1
  have hdue : ∀ key (stop : Int), (key, stop) ∈ completed out →
      (look s.windows key stop).isSome ∧
        (stop : ℚ) ≤ latest s.maxTs ts - cfg.allowedLatenessSeconds := by
    intro key stop hmem
    rw [hcompleted, mem_map] at hmem
    obtain ⟨⟨⟨key', stop'⟩, entry⟩, hw, heq⟩ := hmem
    cases heq
    obtain ⟨hopen, hle⟩ := (hin _ _ _).mp hw
    exact ⟨Option.isSome_of_eq_some hopen, hle⟩
  refine ⟨hindexed.add record _, ?_, ?_, ?_, ?_⟩
  · intro key stop hopen
    refine ⟨_, hmax, ?_⟩
    rw [look_add] at hopen
    split_ifs at hopen with heq
    · rw [heq.2]
      exact watermark_lt_windowEnd hlate
    · simp only [hlook] at hopen
      split_ifs at hopen with hle
      · cases hopen
      · exact not_le.mp hle
  · intro key stop hmem
    refine ⟨_, hmax, ?_⟩
    rw [completed_append, mem_append] at hmem
    rcases hmem with hmem | hmem
    · obtain ⟨m, hm, hle⟩ := hs.behind key stop hmem
      have hge : m ≤ latest s.maxTs ts := hm ▸ latest_ge m ts
      linarith
    · exact (hdue key stop hmem).2
  · rw [completed_append]
    refine nodup_append'.mpr ⟨hs.once, ?_, ?_⟩
    · rw [hcompleted]
      refine hdues.map_on fun w hw w' hw' heq => ?_
      have hl := ((hin w.1.1 w.1.2 w.2).mp hw).1
      have hl' := ((hin w'.1.1 w'.1.2 w'.2).mp hw').1
      rw [heq, hl'] at hl
      exact Prod.ext heq (Option.some.inj hl).symm
    · -- what was complete before ended before the old watermark, what is open ends after it
      rintro ⟨key, stop⟩ hold hnew
      obtain ⟨m, hm, hle⟩ := hs.behind key stop hold
      obtain ⟨m', hm', hlt⟩ := hs.ahead key stop (hdue key stop hnew).1
      rw [hm] at hm'
      cases hm'
      exact absurd hle (not_le.mpr hlt)
  · have hsplit : s.openSamples = (out.map (·.sampleCount)).sum + t.openSamples := by
      have hperm : (pairs s.windows).Perm (dues ++ pairs t.windows) := by
        refine pairs_split hdues (fun key stop entry => ?_) fun key stop entry hw => ?_
        · rw [hin, hlook]
          split_ifs with hle <;> simp [hle]
        · rw [hlook, if_pos ((hin _ _ _).mp hw).2]
      unfold openSamples
      rw [(hperm.map (·.2.sampleCount)).sum_eq, map_append, sum_append, hemits.sampleCount]
    rw [openSamples_add, hs.balance, hsplit, map_append, sum_append]
    omega

/-! ## Batches, flushes, restarts -/

def State.nonLate (py : Python) (cfg : Config) (s : State) : List Record → Nat
  | [] => 0
  | r :: records =>
    match s.record py cfg r with
    | (.raised, _) => 0
    | (.late, s) => nonLate py cfg s records
    | (.counted _, s) => nonLate py cfg s records + 1

theorem record_late (h : s.record py cfg record = (.late, s')) :
    s' = s ∧ ∃ ts, resolveTimestamp py cfg record = some ts ∧
      isLate cfg s.maxTs (windowEnd cfg ts) = true := by
  unfold State.record recordWith at h
  split at h
  · cases h
  · next ts hts =>
    dsimp only at h
    split_ifs at h with hlate
    · exact ⟨(Prod.mk.inj h).2.symm, ts, hts, hlate⟩
    · split at h <;> cases h

theorem Sound.apply {records : List Record} (hs : Sound cfg s emitted n)
    (h : (s.apply py cfg records).1 = some out) :
    Sound cfg (s.apply py cfg records).2 (emitted ++ out) (n + s.nonLate py cfg records) := by
  unfold State.apply at h ⊢
  induction records generalizing s emitted out n with
  | nil =>
    cases h
    rw [applyWith, append_nil]
    exact hs
  | cons r records ih =>
    rw [applyWith] at h ⊢
    rw [nonLate]
    cases hr : s.record py cfg r with
    | mk verdict s' =>
      rw [hr] at h
      cases verdict with
      | raised => cases h
      | late =>
        rw [(record_late hr).1] at h ⊢
        exact ih hs h
      | counted em =>
        simp only [Option.map_eq_some_iff] at h
        obtain ⟨rest, hrest, rfl⟩ := h
        have hstep := ih (hs.counted hr) hrest
        have hcount : n + 1 + s'.nonLate py cfg records = n + (s'.nonLate py cfg records + 1) := by omega
        rw [append_assoc, hcount] at hstep
        exact hstep

theorem completed_of_partial {windows : List ((String × Int) × Entry)}
    (h : Emits cfg false windows out) : completed out = [] := by
  unfold completed
  rw [filter_eq_nil_iff.mpr fun em hem => by simp [h.complete em hem]]
  rfl

theorem Sound.close (hs : Sound cfg s emitted n) (flush : Bool) :
    Sound cfg (s.close cfg flush).2 (emitted ++ (s.close cfg flush).1.getD []) n := by
  unfold State.close
  split_ifs
  · rw [Option.getD_some, append_nil]
    exact hs
  · cases hout : (pairs s.windows).mapM fun w => emitWindow cfg false w.1.1 w.2 with
    | none =>
      rw [Option.getD_none, append_nil]
      exact hs
    | some out =>
      have hemits : Emits cfg false (pairs s.windows) out := Traverse.mapM_eq_some_iff.mp hout
      have hcompleted : completed (emitted ++ out) = completed emitted := by
        rw [completed_append, completed_of_partial hemits, append_nil]
      simp only [Option.getD_some]
      refine ⟨.empty _, fun key stop h => ?_, ?_, ?_, ?_⟩
      · simp [look] at h
      · rw [hcompleted]
        exact hs.behind
      · rw [hcompleted]
        exact hs.once
      · rw [hs.balance, map_append, sum_append, hemits.sampleCount]
        rfl

/-- The state restored from the JSON text holds the same windows, and its heap indexes them. -/
structure Restored (s s' : State) : Prop where
  maxTs : s'.maxTs = s.maxTs
  look : ∀ key stop, look s'.windows key stop = look s.windows key stop
  heap : s'.dueHeap = rebuildDueHeap s'.windows

theorem restored_group {windows : Dict Int Entry} {out : List (Σ _ : Int, Entry)}
    (h : (windows.entries.map fun w => (w.1.repr, w.2)).mapM restoreWindow = some out) :
    out = windows.entries := by
  rw [mapM_map] at h
  rw [Traverse.eq_map_of_mapM h fun w _ w' hw => ?_, map_id]
  obtain ⟨stop, hstop, rfl⟩ := Option.map_eq_some_iff.mp hw
  rcases PyInt.parse_repr w.1 with hparse | hparse
  · cases hparse.symm.trans hstop
    rfl
  · cases hparse.symm.trans hstop

theorem restored (h : setState s.getState = some s') : Restored s s' := by
  obtain ⟨windows, hwindows, rfl⟩ := Option.map_eq_some_iff.mp h
  obtain ⟨groups, hgroups, rfl⟩ := Option.map_eq_some_iff.mp hwindows
  have hentries : groups =
      (Dict.mapVal s.windows fun _ windows => windows.entries.toAList).entries := by
    rw [getState, mapM_map] at hgroups
    refine Traverse.eq_map_of_mapM hgroups fun g _ g' hg => ?_
    obtain ⟨out, hout, rfl⟩ := Option.map_eq_some_iff.mp hg
    rw [restored_group hout]
    rfl
  refine ⟨rfl, fun key stop => ?_, rfl⟩
  have hlookup : groups.toAList.lookup key =
      (s.windows.lookup key).map fun windows => windows.entries.toAList := by
    rw [AList.lookup_to_alist, hentries]
    exact Dict.lookup_mapVal s.windows _ key
  simp only [look, hlookup, Option.bind_map, Function.comp_def, AList.lookup_to_alist]
  rfl

theorem Restored.indexed (h : Restored s s') (hs : Indexed s) : Indexed s' := by
  have hperm := perm_insertionSort (· ≤ ·)
    ((pairs s'.windows).map fun w => toLex (w.1.2, w.1.1))
  refine ⟨?_, ?_, fun key stop => ?_, fun key stop entry he => ?_⟩
  · rw [h.heap]
    exact pairwise_insertionSort _ _
  · rw [h.heap, rebuildDueHeap, hperm.nodup_iff]
    refine (nodup_pairs s'.windows).map_on fun w hw w' hw' heq => ?_
    have hkeys := Prod.mk.inj (toLex_inj.mp heq)
    have hl := mem_pairs.mp hw
    have hl' := mem_pairs.mp hw'
    rw [hkeys.1, hkeys.2, hl'] at hl
    exact Prod.ext (Prod.ext hkeys.2 hkeys.1) (Option.some.inj hl).symm
  · rw [h.heap, rebuildDueHeap, hperm.mem_iff, mem_map, Option.isSome_iff_exists]
    constructor
    · rintro ⟨w, hw, heq⟩
      obtain ⟨rfl, rfl⟩ := Prod.mk.inj (toLex_inj.mp heq)
      exact ⟨w.2, mem_pairs.mp hw⟩
    · rintro ⟨entry, he⟩
      exact ⟨((key, stop), entry), mem_pairs.mpr he, rfl⟩
  · rw [h.look] at he
    exact hs.stops key stop entry he

theorem Sound.restart (hs : Sound cfg s emitted n) (h : setState s.getState = some s') :
    Sound cfg s' emitted n := by
  have hr := restored h
  refine ⟨hr.indexed hs.indexed, ?_, ?_, hs.once, ?_⟩
  · intro key stop hopen
    rw [hr.look] at hopen
    rw [hr.maxTs]
    exact hs.ahead key stop hopen
  · rw [hr.maxTs]
    exact hs.behind
  · rw [hs.balance, openSamples, openSamples,
      ((pairs_perm hr.look).map (·.2.sampleCount)).sum_eq]

end Tram.WindowAggregate
