import Tram.Transforms.WindowInvariant

/-! # The records of a window

Every window, open or emitted, was made by the records counted in it: at least one, all with the key
of its group and a timestamp within it. -/

namespace Tram.WindowAggregate

open List State Nested

section

variable (py : Python) (cfg : Config)

def Belongs (key : String) (stop : Int) (r : Record) : Prop :=
  (groupKey py cfg r).1 = key ∧ (resolveTimestamp py cfg r).map (windowEnd cfg) = some stop

/-- The entry of a window that was opened for the first of the records and has counted them all. -/
def entryOf (stop : Int) (first : Record) (rest : List Record) : Entry :=
  (first :: rest).foldl (Entry.fold cfg) (newEntry cfg stop (groupKey py cfg first).2)

def Counted (key : String) (stop : Int) (entry : Entry) : Prop :=
  ∃ first rest, (∀ r ∈ first :: rest, Belongs py cfg key stop r) ∧
    entry = entryOf py cfg stop first rest

def AllCounted (windows : Dict String (Dict Int Entry)) : Prop :=
  ∀ key stop entry, look windows key stop = some entry → Counted py cfg key stop entry

def Emerges (em : Emitted) : Prop :=
  ∃ stop entry complete, Counted py cfg em.groupKey stop entry ∧
    emitWindow cfg complete em.groupKey entry = some em

end

variable {py : Python} {cfg : Config} {key : String} {stop : Int} {entry : Entry} {r : Record}
  {s s' : State} {out : List Emitted}

theorem foldl_fold (records : List Record) (entry : Entry) :
    (records.foldl (Entry.fold cfg) entry).stop = entry.stop ∧
      (records.foldl (Entry.fold cfg) entry).groupValues = entry.groupValues := by
  induction records generalizing entry with
  | nil => exact ⟨rfl, rfl⟩
  | cons r records ih => exact ih (entry.fold cfg r)

theorem Counted.new (hr : Belongs py cfg key stop r) :
    Counted py cfg key stop ((newEntry cfg stop (groupKey py cfg r).2).fold cfg r) :=
  ⟨r, [], by simpa using hr, rfl⟩

theorem Counted.fold (h : Counted py cfg key stop entry) (hr : Belongs py cfg key stop r) :
    Counted py cfg key stop (entry.fold cfg r) := by
  obtain ⟨first, rest, hall, rfl⟩ := h
  refine ⟨first, rest ++ [r], ?_, ?_⟩
  · rw [← cons_append]
    exact forall_mem_append.mpr ⟨hall, by simpa using hr⟩
  · rw [entryOf, entryOf, ← cons_append, foldl_append]
    rfl

theorem AllCounted.finalize (h : AllCounted py cfg s.windows) (m : ℚ) :
    AllCounted py cfg (s.finalize cfg m).2.windows ∧
      ∀ em ∈ (s.finalize cfg m).1.getD [], Emerges py cfg em := by
  obtain ⟨hlook, hout⟩ := finalizeDue_sub (emitWindow cfg true) (m - cfg.allowedLatenessSeconds)
    s.dueHeap s.windows
  refine ⟨fun key stop entry he => ?_, fun em hem => ?_⟩
  · rcases hlook key stop with hkept | ⟨-, hgone⟩
    · exact h key stop entry (hkept.symm.trans he)
    · cases hgone.symm.trans he
  · obtain ⟨key, stop, entry, he, hemit⟩ := hout em hem
    obtain ⟨rfl, -⟩ := emitWindow_spec hemit
    exact ⟨stop, entry, true, h _ _ _ he, hemit⟩

theorem AllCounted.add (h : AllCounted py cfg s.windows)
    (hr : Belongs py cfg (groupKey py cfg r).1 stop r) :
    AllCounted py cfg (s.add py cfg r stop).windows := by
  intro key stop' entry he
  rw [look_add] at he
  split_ifs at he with heq
  · rw [heq.1, heq.2, ← Option.some.inj he, folded]
    cases hold : look s.windows (groupKey py cfg r).1 stop with
    | none => exact .new hr
    | some old => exact (h _ _ old hold).fold hr
  · exact h key stop' entry he

theorem AllCounted.counted (h : AllCounted py cfg s.windows)
    (hs : s.record py cfg r = (.counted out, s')) :
    AllCounted py cfg s'.windows ∧ ∀ em ∈ out, Emerges py cfg em := by
  obtain ⟨ts, t, hts, -, hfin, rfl⟩ := record_counted hs
  obtain ⟨hnext, hout⟩ := h.finalize (latest s.maxTs ts)
  rw [hfin] at hnext hout
  exact ⟨hnext.add ⟨rfl, by rw [hts]; rfl⟩, hout⟩

theorem AllCounted.raised (h : AllCounted py cfg s.windows)
    (hs : s.record py cfg r = (.raised, s')) : AllCounted py cfg s'.windows := by
  unfold record recordWith at hs
  split at hs
  · cases hs
    exact h
  · next ts hts =>
    have hnext := (h.finalize (latest s.maxTs ts)).1
    dsimp only at hs
    generalize s.finalize cfg (latest s.maxTs ts) = result at hs hnext
    obtain ⟨_ | emitted, t⟩ := result <;> split_ifs at hs <;> cases hs
    exact hnext

theorem AllCounted.apply (h : AllCounted py cfg s.windows) (records : List Record) :
    AllCounted py cfg (s.apply py cfg records).2.windows ∧
      ∀ em ∈ (s.apply py cfg records).1.getD [], Emerges py cfg em := by
  unfold State.apply
  induction records generalizing s with
  | nil => exact ⟨h, by simp [applyWith]⟩
  | cons r records ih =>
    rw [applyWith]
    rcases hr : s.record py cfg r with ⟨verdict, s'⟩
    cases verdict with
    | raised => exact ⟨h.raised hr, by simp⟩
    | late =>
      rw [(record_late hr).1]
      exact ih h
    | counted out =>
      obtain ⟨hnext, hout⟩ := h.counted hr
      obtain ⟨hwindows, hrest⟩ := ih hnext
      refine ⟨hwindows, ?_⟩
      dsimp only
      cases hresult : (applyWith (record py cfg) s' records).1 with
      | none => simp
      | some rest =>
        rw [hresult] at hrest
        exact forall_mem_append.mpr ⟨hout, hrest⟩

theorem AllCounted.empty : AllCounted py cfg ∅ := nofun

theorem AllCounted.close (h : AllCounted py cfg s.windows) (flush : Bool) :
    AllCounted py cfg (s.close cfg flush).2.windows ∧
      ∀ em ∈ (s.close cfg flush).1.getD [], Emerges py cfg em := by
  unfold State.close
  split_ifs
  · exact ⟨h, nofun⟩
  · cases hout : (pairs s.windows).mapM fun w => emitWindow cfg false w.1.1 w.2 with
    | none => exact ⟨h, nofun⟩
    | some out =>
      have hemits : Emits cfg false (pairs s.windows) out := Traverse.mapM_eq_some_iff.mp hout
      refine ⟨.empty, fun em hem => ?_⟩
      obtain ⟨⟨⟨key, stop⟩, entry⟩, hw, hemit⟩ := Traverse.exists_of_forall₂ hemits hem
      obtain ⟨rfl, -⟩ := emitWindow_spec hemit
      exact ⟨stop, entry, false, h _ stop entry (mem_pairs.mp hw), hemit⟩

theorem natAbs_windowEnd_lt (hwindow : cfg.windowSeconds < 10 ^ 4299) (hr : Belongs py cfg key stop r) :
    stop.natAbs < 10 ^ 4300 := by
  obtain ⟨ts, hts, rfl⟩ := Option.map_eq_some_iff.mp hr.2
  obtain ⟨t, -, rfl⟩ := Option.map_eq_some_iff.mp hts
  have hbig : (253402300800 : Int) ≤ 10 ^ 4299 :=
    le_trans (by norm_num : (253402300800 : Int) ≤ 10 ^ 12) (pow_le_pow_right₀ (by norm_num) (by norm_num))
  have hpow : (10 : Int) ^ 4300 = 10 ^ 4299 * 10 := pow_succ 10 4299
  have hlo : (-62135596800 : Int) < windowEnd cfg (t.us / 1000000) := by
    have hus : (-62135596800 : ℚ) ≤ t.us / 1000000 := by
      rw [le_div_iff₀ (by norm_num)]
      exact_mod_cast t.lower
    exact_mod_cast lt_of_le_of_lt hus (lt_windowEnd cfg _)
  have hhi : windowEnd cfg (t.us / 1000000) < 253402300800 + cfg.windowSeconds := by
    have hpos : (0 : ℚ) < cfg.windowSeconds := by exact_mod_cast cfg.window_pos
    have hfloor := Int.floor_le ((t.us / 1000000 : ℚ) / cfg.windowSeconds)
    rw [le_div_iff₀ hpos] at hfloor
    have hus : (t.us / 1000000 : ℚ) < 253402300800 := by
      rw [div_lt_iff₀ (by norm_num)]
      exact_mod_cast t.upper
    have hend : (windowEnd cfg (t.us / 1000000) : ℚ) < 253402300800 + cfg.windowSeconds := by
      unfold windowEnd
      push_cast
      linarith
    exact_mod_cast hend
  have hint : ((windowEnd cfg (t.us / 1000000)).natAbs : Int) < 10 ^ 4300 := by
    rw [hpow]
    generalize (10 : Int) ^ 4299 = K at *
    omega
  exact_mod_cast hint

theorem AllCounted.setState_getState (h : AllCounted py cfg s.windows)
    (hwindow : cfg.windowSeconds < 10 ^ 4299) : (setState s.getState).isSome = true := by
  have hread : ∀ g ∈ s.windows.entries, ∀ w ∈ g.2.entries, PyInt.parse w.1.repr = some w.1 := by
    intro g hg w hw
    have hlook : look s.windows g.1 w.1 = some w.2 := by
      rw [look, Dict.mem_entries.mp hg]
      exact Dict.mem_entries.mp hw
    obtain ⟨first, rest, hall, -⟩ := h _ _ _ hlook
    exact PyInt.parse_repr_of_lt (natAbs_windowEnd_lt hwindow (hall first mem_cons_self))
  have hgroups : s.getState.windows.mapM restoreGroup =
      some (s.windows.entries.map fun g => ⟨g.1, g.2.entries.toAList⟩) := by
    rw [Traverse.mapM_eq_some_iff, getState, forall₂_map_left_iff, forall₂_map_right_iff,
      forall₂_same]
    intro g hg
    have hgroup : (g.2.entries.map fun w => (w.1.repr, w.2)).mapM restoreWindow =
        some g.2.entries := by
      rw [Traverse.mapM_eq_some_iff, forall₂_map_left_iff, forall₂_same]
      intro w hw
      simp [restoreWindow, hread g hg w hw]
    rw [restoreGroup, hgroup]
    rfl
  rw [setState, restoreWindows, hgroups]
  rfl

end Tram.WindowAggregate
