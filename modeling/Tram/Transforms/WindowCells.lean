import Tram.Transforms.WindowInvariant

/-! # window_aggregate with its entries as objects

`set_state` makes new dictionaries but keeps the entries of the blob it is given, and `apply` folds
records into an entry in place. Here an entry is a cell; the blob and the transform hold references
to it. The transform behaves as the one with entries of its own, and what it does to the cells of the
blob is to fold records into them. -/

namespace Tram.WindowAggregate

open List Nested Function Dict Traverse State

/-- An entry that came with the blob, or one that the transform has made. -/
inductive Ref where
  | loaded (n : Nat)
  | created (n : Nat)
  deriving DecidableEq, Repr

structure Cells where
  maxTs : Option ℚ
  windows : Dict String (Dict Int Ref)
  dueHeap : List (Int ×ₗ String)
  cell : Ref → Entry
  /-- The number of entries the transform has made. -/
  made : Nat

variable (py : Python) (cfg : Config)

namespace Cells

def finalize (c : Cells) (m : ℚ) : Option (List Emitted) × Cells :=
  let (emitted, windows, heap) := finalizeDue (fun key ref => emitWindow cfg true key (c.cell ref))
    (m - cfg.allowedLatenessSeconds) c.dueHeap c.windows
  (emitted, { c with maxTs := some m, windows := windows, dueHeap := heap })

/-- The record is folded into the entry of its window in place. -/
def add (c : Cells) (record : Record) (stop : Int) : Cells :=
  let group := groupKey py cfg record
  match look c.windows group.1 stop with
  | some ref => { c with cell := update c.cell ref ((c.cell ref).fold cfg record) }
  | none => { c with
      windows := put c.windows group.1 stop (.created c.made)
      dueHeap := c.dueHeap.orderedInsert (· ≤ ·) (toLex (stop, group.1))
      cell := update c.cell (.created c.made) ((newEntry cfg stop group.2).fold cfg record)
      made := c.made + 1 }

def record : Cells → Record → Verdict × Cells :=
  recordWith py cfg maxTs (finalize cfg) (add py cfg)

def apply : Cells → List Record → Option (List Emitted) × Cells := applyWith (record py cfg)

end Cells

/-- A blob as it was read from the store: every entry is an object of its own. -/
structure SharedBlob where
  maxTs : Option ℚ
  windows : List (String × List (String × Nat))
  distinct : (windows.flatMap fun g => g.2.map (·.2)).Nodup

namespace SharedBlob

def value (b : SharedBlob) (cells : Nat → Entry) : Blob :=
  ⟨b.maxTs, b.windows.map fun g => (g.1, g.2.map fun w => (w.1, cells w.2))⟩

def restore (b : SharedBlob) : Option (Dict String (Dict Int Ref)) :=
  restoreWindows (b.windows.map fun g => (g.1, g.2.map fun w => (w.1, .loaded w.2)))

end SharedBlob

namespace Cells

/-- `_apply_state`: where `set_state` raises, it has set the latest event time only. -/
def setState (b : SharedBlob) (cells : Nat → Entry) : Cells where
  maxTs := b.maxTs
  windows := b.restore.getD ∅
  dueHeap := rebuildDueHeap (b.restore.getD ∅)
  cell
    | .loaded n => cells n
    | .created _ => ⟨0, 0, [], 0, []⟩
  made := 0

end Cells

def State.hydrate (blob : Blob) : State := (setState blob).getD ⟨blob.maxTs, ∅, []⟩

/-! ## The two agree -/

/-- The cells hold what the windows of `s` are. -/
def Views (cell : Ref → Entry) (refs : Dict String (Dict Int Ref)) (windows : Dict String (Dict Int Entry)) :
    Prop :=
  ∀ key stop, (look refs key stop).map cell = look windows key stop

structure Sim (c : Cells) (s : State) : Prop where
  maxTs : c.maxTs = s.maxTs
  dueHeap : c.dueHeap = s.dueHeap
  view : Views c.cell c.windows s.windows
  fresh : ∀ key stop n, look c.windows key stop = some (.created n) → n < c.made
  unshared : ∀ key stop key' stop' ref, look c.windows key stop = some ref →
    look c.windows key' stop' = some ref → key = key' ∧ stop = stop'

variable {refs : Dict String (Dict Int Ref)} {s : State} {key : String} {b : SharedBlob}
    {stop : Int} {m : ℚ} {windows : Dict String (Dict Int Entry)} {cell : Ref → Entry}

theorem Views.pop (h : Views cell refs windows) (key : String) (stop : Int) :
    Views cell (pop refs key stop) (pop windows key stop) := by
  intro key' stop'
  rw [look_pop, look_pop]
  split_ifs
  · rfl
  · exact h key' stop'

variable {py cfg}

theorem Views.finalizeDue (h : Views cell refs windows) (emit : String → Entry → Option Emitted)
    (watermark : ℚ) (heap : List (Int ×ₗ String)) :
    let r := finalizeDue (fun key ref => emit key (cell ref)) watermark heap refs
    let r' := finalizeDue emit watermark heap windows
    r.1 = r'.1 ∧ r.2.2 = r'.2.2 ∧ Views cell r.2.1 r'.2.1 := by
  induction heap generalizing refs windows with
  | nil => exact ⟨rfl, rfl, h⟩
  | cons due heap ih =>
    rw [WindowAggregate.finalizeDue, WindowAggregate.finalizeDue]
    dsimp only
    split_ifs
    · have hlook := h (ofLex due).2 (ofLex due).1
      cases href : look refs (ofLex due).2 (ofLex due).1 with
      | none =>
        rw [href] at hlook
        rw [← hlook]
        exact ih h
      | some ref =>
        rw [href] at hlook
        rw [← hlook]
        have hpop := h.pop (ofLex due).2 (ofLex due).1
        dsimp only [Option.map_some]
        cases emit (ofLex due).2 (cell ref) with
        | none => exact ⟨rfl, rfl, hpop⟩
        | some out =>
          obtain ⟨hout, hheap, hview⟩ := ih hpop
          exact ⟨congrArg (Option.map (out :: ·)) hout, hheap, hview⟩
    · exact ⟨rfl, rfl, h⟩

theorem look_finalize (c : Cells) (m : ℚ) (key : String) (stop : Int) :
    look (c.finalize cfg m).2.windows key stop = look c.windows key stop ∨
      (stop : ℚ) ≤ m - cfg.allowedLatenessSeconds ∧
        look (c.finalize cfg m).2.windows key stop = none :=
  (finalizeDue_sub _ _ c.dueHeap c.windows).1 key stop

theorem Sim.add {c : Cells} (h : Sim c s) (record : Record) (stop : Int) :
    Sim (c.add py cfg record stop) (s.add py cfg record stop) := by
  have hlook := h.view (groupKey py cfg record).1 stop
  unfold Cells.add State.add
  dsimp only
  cases href : look c.windows (groupKey py cfg record).1 stop with
  | some ref =>
    rw [href] at hlook
    rw [← hlook]
    refine ⟨h.maxTs, h.dueHeap, fun key stop' => ?_, h.fresh, h.unshared⟩
    dsimp only [Option.map_some]
    rw [look_put]
    split_ifs with hsame
    · obtain ⟨rfl, rfl⟩ := hsame
      rw [href, Option.map_some, update_self]
    · rw [← h.view]
      cases hother : look c.windows key stop' with
      | none => rfl
      | some ref' =>
        have hne : ref' ≠ ref := fun heq => hsame (h.unshared _ _ _ _ ref (heq ▸ hother) href)
        rw [Option.map_some, Option.map_some, update_of_ne hne]
  | none =>
    rw [href, Option.map_none] at hlook
    rw [← hlook]
    have hnew : ∀ key stop', look c.windows key stop' ≠ some (.created c.made) :=
      fun key stop' hheld => Nat.lt_irrefl _ (h.fresh key stop' _ hheld)
    refine ⟨h.maxTs, congrArg _ h.dueHeap, fun key stop' => ?_, fun key stop' n => ?_,
      fun key stop₁ key' stop₂ ref => ?_⟩ <;> dsimp only <;> simp only [look_put]
    · split_ifs with hsame
      · rw [Option.map_some, update_self]
      · rw [← h.view]
        cases hother : look c.windows key stop' with
        | none => rfl
        | some ref' =>
          have hne : ref' ≠ .created c.made := fun heq => hnew key stop' (heq ▸ hother)
          rw [Option.map_some, Option.map_some, update_of_ne hne]
    · split_ifs with hsame
      · intro hmade
        cases hmade
        exact Nat.lt_succ_self _
      · exact fun hheld => Nat.lt_succ_of_lt (h.fresh key stop' n hheld)
    · split_ifs with hsame hsame'
      · exact fun _ _ => ⟨hsame.1.trans hsame'.1.symm, hsame.2.trans hsame'.2.symm⟩
      · intro hmade hheld
        cases hmade
        exact absurd hheld (hnew key' stop₂)
      · intro hheld hmade
        cases hmade
        exact absurd hheld (hnew key stop₁)
      · exact h.unshared key stop₁ key' stop₂ ref

variable (cfg) in
theorem Sim.finalize {c : Cells} (h : Sim c s) (m : ℚ) :
    (c.finalize cfg m).1 = (s.finalize cfg m).1 ∧
      Sim (c.finalize cfg m).2 (s.finalize cfg m).2 := by
  obtain ⟨hout, hheap, hview⟩ := h.view.finalizeDue (emitWindow cfg true)
    (m - cfg.allowedLatenessSeconds) c.dueHeap
  have hsub : ∀ key stop ref, look (c.finalize cfg m).2.windows key stop = some ref →
      look c.windows key stop = some ref := by
    intro key stop ref hheld
    rcases look_finalize c m key stop with hkept | ⟨-, hgone⟩
    · rw [← hkept]
      exact hheld
    · rw [hgone] at hheld
      cases hheld
  unfold State.finalize
  rw [← h.dueHeap]
  exact ⟨hout, rfl, hheap, hview, fun key stop n hheld => h.fresh key stop n (hsub _ _ _ hheld),
    fun key stop key' stop' ref hheld hheld' =>
      h.unshared key stop key' stop' ref (hsub _ _ _ hheld) (hsub _ _ _ hheld')⟩

variable (py cfg) in
theorem Sim.record {c : Cells} (h : Sim c s) (record : Record) :
    (c.record py cfg record).1 = (s.record py cfg record).1 ∧
      Sim (c.record py cfg record).2 (s.record py cfg record).2 := by
  unfold Cells.record State.record recordWith
  cases resolveTimestamp py cfg record with
  | none => exact ⟨rfl, h⟩
  | some ts =>
    dsimp only
    rw [h.maxTs]
    split_ifs
    · exact ⟨rfl, h⟩
    · obtain ⟨hout, hsim⟩ := h.finalize cfg (latest s.maxTs ts)
      generalize c.finalize cfg (latest s.maxTs ts) = r at hout hsim ⊢
      generalize s.finalize cfg (latest s.maxTs ts) = r' at hout hsim ⊢
      obtain ⟨emitted, c'⟩ := r
      obtain ⟨emitted', s'⟩ := r'
      obtain rfl : emitted = emitted' := hout
      cases emitted with
      | none => exact ⟨rfl, hsim⟩
      | some emitted => exact ⟨rfl, hsim.add record _⟩

/-! ## Hydration -/

def deref (cell : Ref → Entry) (refs : Dict String (Dict Int Ref)) : Dict String (Dict Int Entry) :=
  mapTo (mapTo cell) refs

theorem views_deref (cell : Ref → Entry) (refs : Dict String (Dict Int Ref)) :
    Views cell refs (deref cell refs) := by
  intro key stop
  unfold look deref
  rw [lookup_mapTo]
  cases refs.lookup key with
  | none => rfl
  | some inner => exact (lookup_mapTo cell inner stop).symm

theorem rebuildDueHeap_deref (cell : Ref → Entry) (refs : Dict String (Dict Int Ref)) :
    rebuildDueHeap (deref cell refs) = rebuildDueHeap refs := by
  rw [rebuildDueHeap, rebuildDueHeap, deref, pairs_mapTo, map_map]
  rfl

theorem restoreWindows_map {α β : Type} (f : α → β) (groups : List (String × List (String × α))) :
    restoreWindows (groups.map fun g => (g.1, g.2.map fun w => (w.1, f w.2))) =
      (restoreWindows groups).map (mapTo (mapTo f)) := by
  have hgroup : ∀ g : String × List (String × α),
      restoreGroup (g.1, g.2.map fun w => (w.1, f w.2)) =
        (restoreGroup g).map (mapEntry (mapTo f)) := by
    intro g
    have hwindows : (g.2.map fun w => (w.1, f w.2)).mapM restoreWindow =
        (g.2.mapM restoreWindow).map (map (mapEntry f)) := by
      rw [mapM_map, ← mapM_map_option]
      congr 1
      funext w
      cases hparse : PyInt.parse w.1 <;> simp [restoreWindow, hparse, mapEntry]
    rw [restoreGroup, restoreGroup, hwindows]
    cases g.2.mapM restoreWindow with
    | none => rfl
    | some ws => simp [mapEntry, toAList_map]
  have hgroups : (groups.map fun g => (g.1, g.2.map fun w => (w.1, f w.2))).mapM restoreGroup =
      (groups.mapM restoreGroup).map (map (mapEntry (mapTo f))) := by
    rw [mapM_map, ← mapM_map_option]
    exact congrArg (fun f => groups.mapM f) (funext hgroup)
  rw [restoreWindows, restoreWindows, hgroups]
  cases groups.mapM restoreGroup with
  | none => rfl
  | some groups => simp [toAList_map]

theorem setState_value (b : SharedBlob) (cells : Nat → Entry) :
    setState (b.value cells) = b.restore.map fun refs =>
      ⟨b.maxTs, deref (Cells.setState b cells).cell refs, rebuildDueHeap refs⟩ := by
  have hvalue := restoreWindows_map (Cells.setState b cells).cell
    (b.windows.map fun g => (g.1, g.2.map fun w => (w.1, Ref.loaded w.2)))
  simp only [map_map, comp_def] at hvalue
  rw [setState, SharedBlob.value]
  simp only [Cells.setState] at hvalue ⊢
  rw [hvalue, SharedBlob.restore]
  cases restoreWindows (b.windows.map fun g => (g.1, g.2.map fun w => (w.1, Ref.loaded w.2))) with
  | none => rfl
  | some refs =>
    rw [Option.map_some, Option.map_some, Option.map_some, ← rebuildDueHeap_deref]
    rfl

theorem mem_of_restore {ref : Ref} (hheld : look (b.restore.getD ∅) key stop = some ref) :
    ∃ g ∈ b.windows, g.1 = key ∧ ∃ w ∈ g.2, PyInt.parse w.1 = some stop ∧ ref = .loaded w.2 := by
  cases h : b.restore with
  | none => rw [h] at hheld; cases hheld
  | some refs =>
    rw [h] at hheld
    obtain ⟨groups, hgroups, rfl⟩ := Option.map_eq_some_iff.mp h
    obtain ⟨inner, hinner, hwindow⟩ := Option.bind_eq_some_iff.mp hheld
    rw [Option.getD_some, AList.lookup_to_alist] at hinner
    rw [mapM_map] at hgroups
    obtain ⟨g, hg, hrestored⟩ :=
      exists_of_forall₂ (mapM_eq_some_iff.mp hgroups) (of_mem_dlookup hinner)
    obtain ⟨ws, hws, heq⟩ := Option.map_eq_some_iff.mp hrestored
    cases heq
    rw [AList.lookup_to_alist] at hwindow
    rw [mapM_map] at hws
    obtain ⟨w, hw, hparsed⟩ :=
      exists_of_forall₂ (mapM_eq_some_iff.mp hws) (of_mem_dlookup hwindow)
    obtain ⟨stop', hstop, heq⟩ := Option.map_eq_some_iff.mp hparsed
    cases heq
    exact ⟨g, hg, rfl, w, hw, hstop, rfl⟩

theorem restore_unshared {key' : String} {stop' : Int} {ref : Ref}
    (hheld : look (b.restore.getD ∅) key stop = some ref)
    (hheld' : look (b.restore.getD ∅) key' stop' = some ref) : key = key' ∧ stop = stop' := by
  obtain ⟨g, hg, rfl, w, hw, hstop, rfl⟩ := mem_of_restore hheld
  obtain ⟨g', hg', rfl, w', hw', hstop', hsame⟩ := mem_of_restore hheld'
  have hnumber : w.2 = w'.2 := Ref.loaded.inj hsame
  obtain ⟨hinner, hdisjoint⟩ := nodup_flatMap.mp b.distinct
  have hgroup : g = g' := by
    have hsymm : Std.Symm (onFun Disjoint
        fun g : String × List (String × Nat) => g.2.map (·.2)) := ⟨fun _ _ hd => hd.symm⟩
    by_contra hne
    exact hdisjoint.forall hg hg' hne (mem_map_of_mem hw) (hnumber ▸ mem_map_of_mem hw')
  subst hgroup
  have hwindow : w = w' := inj_on_of_nodup_map (hinner g hg) hw hw' hnumber
  subst hwindow
  exact ⟨rfl, Option.mem_unique hstop hstop'⟩

theorem Sim.setState (b : SharedBlob) (cells : Nat → Entry) :
    Sim (Cells.setState b cells) (hydrate (b.value cells)) := by
  have hvalue : hydrate (b.value cells) = ⟨b.maxTs,
      deref (Cells.setState b cells).cell (b.restore.getD ∅), (Cells.setState b cells).dueHeap⟩ := by
    rw [hydrate, setState_value, Cells.setState]
    cases b.restore <;> rfl
  rw [hvalue]
  refine ⟨rfl, rfl, views_deref _ _, fun key stop n hheld => ?_,
    fun key stop key' stop' ref => restore_unshared⟩
  obtain ⟨_, -, -, _, -, -, hloaded⟩ := mem_of_restore hheld
  cases hloaded

/-! ## What becomes of the cells of the blob -/

variable (py cfg)

def windowOf (record : Record) : String × Int :=
  ((groupKey py cfg record).1, windowEnd cfg ((resolveTimestamp py cfg record).getD 0))

/-- The transform with entries of its own, and the windows of the records it has counted. -/
structure Traced where
  state : State
  counted : List (String × Int)

namespace Traced

def record (t : Traced) (record : Record) : Verdict × Traced :=
  let result := t.state.record py cfg record
  (result.1, ⟨result.2, match result.1 with
    | .counted _ => t.counted ++ [windowOf py cfg record]
    | _ => t.counted⟩)

def apply : Traced → List Record → Option (List Emitted) × Traced := applyWith (record py cfg)

end Traced

/-- Since the transform was hydrated as `start`, it has counted records into these windows. An open
window of the blob is still open with its cell, or due. The cells of the blob that stand for one of the
windows have been folded into; the others are as they were. -/
structure Since (start c : Cells) (counted : List (String × Int)) : Prop where
  kept : ∀ key stop n, look start.windows key stop = some (.loaded n) →
    look c.windows key stop = some (.loaded n) ∨
      ∃ m, c.maxTs = some m ∧ (stop : ℚ) ≤ m - cfg.allowedLatenessSeconds
  own : ∀ key stop n, look c.windows key stop = some (.loaded n) →
    look start.windows key stop = some (.loaded n)
  untouched : ∀ n, (∀ w ∈ counted, look start.windows w.1 w.2 ≠ some (.loaded n)) →
    c.cell (.loaded n) = start.cell (.loaded n)
  grows : ∀ n, (start.cell (.loaded n)).sampleCount ≤ (c.cell (.loaded n)).sampleCount
  touched : ∀ w ∈ counted, ∀ n, look start.windows w.1 w.2 = some (.loaded n) →
    (start.cell (.loaded n)).sampleCount < (c.cell (.loaded n)).sampleCount

variable {py cfg} {start c : Cells} {counted : List (String × Int)}

variable {t : Traced}

theorem Since.refl (start : Cells) : Since cfg start start [] where
  kept _ _ _ hheld := .inl hheld
  own _ _ _ hheld := hheld
  untouched _ _ := rfl
  grows _ := le_rfl
  touched _ hw := absurd hw not_mem_nil

section

variable (h : Since cfg start c counted)
include h

theorem Since.finalize (hm : ∀ m', c.maxTs = some m' → m' ≤ m) :
    Since cfg start (c.finalize cfg m).2 counted := by
  refine ⟨fun key stop n hheld => ?_, fun key stop n hheld => ?_, h.untouched, h.grows, h.touched⟩
  · rcases h.kept key stop n hheld with hopen | ⟨m', hm', hdue⟩
    · rcases look_finalize c m key stop with hsame | ⟨hdue, -⟩
      · exact .inl (hsame.trans hopen)
      · exact .inr ⟨m, rfl, hdue⟩
    · exact .inr ⟨m, rfl, le_trans hdue (sub_le_sub_right (hm m' hm') _)⟩
  · rcases look_finalize c m key stop with hsame | ⟨-, hgone⟩
    · exact h.own key stop n (hsame ▸ hheld)
    · cases hgone.symm.trans hheld

theorem Since.held (hm : c.maxTs = some m) (hopen : m - cfg.allowedLatenessSeconds < stop) {n : Nat}
    (hheld : look start.windows key stop = some (.loaded n)) :
    look c.windows key stop = some (.loaded n) := by
  rcases h.kept key stop n hheld with hkept | ⟨m', hm', hdue⟩
  · exact hkept
  · cases hm.symm.trans hm'
    exact absurd hdue (not_le.mpr hopen)

theorem Since.aside {w : String × Int} (hw : ∀ n, look start.windows w.1 w.2 ≠ some (.loaded n))
    {c' : Cells} (hmaxTs : c'.maxTs = c.maxTs) (hcell : ∀ n, c'.cell (.loaded n) = c.cell (.loaded n))
    (hlook : ∀ key stop n, look c'.windows key stop = some (.loaded n) ↔
      look c.windows key stop = some (.loaded n)) :
    Since cfg start c' (counted ++ [w]) where
  kept key stop n hheld := by
    rw [hlook, hmaxTs]
    exact h.kept key stop n hheld
  own key stop n hheld := h.own key stop n ((hlook key stop n).mp hheld)
  untouched n hnone := by
    rw [hcell]
    exact h.untouched n fun w' hw' => hnone w' (mem_append_left _ hw')
  grows n := by
    rw [hcell]
    exact h.grows n
  touched w' hw' n hheld := by
    rw [hcell]
    rcases mem_append.mp hw' with hold | hnew
    · exact h.touched w' hold n hheld
    · rw [mem_singleton.mp hnew] at hheld
      exact absurd hheld (hw n)

theorem Since.add (hm : c.maxTs = some m) {record : Record}
    (hopen : m - cfg.allowedLatenessSeconds < stop) :
    Since cfg start (c.add py cfg record stop) (counted ++ [((groupKey py cfg record).1, stop)]) := by
  unfold Cells.add
  dsimp only
  cases href : look c.windows (groupKey py cfg record).1 stop with
  | none =>
    dsimp only
    refine h.aside (fun n hheld => ?_) rfl (fun n => ?_) fun key stop' n => ?_
    · cases href.symm.trans (h.held hm hopen hheld)
    · simp [update_of_ne]
    · dsimp only
      rw [look_put]
      split_ifs with hsame
      · obtain ⟨rfl, rfl⟩ := hsame
        simp [href]
      · rfl
  | some ref =>
    cases ref with
    | created k =>
      dsimp only
      refine h.aside (fun n hheld => ?_) rfl (fun n => ?_) fun key stop' n => Iff.rfl
      · cases href.symm.trans (h.held hm hopen hheld)
      · simp [update_of_ne]
    | loaded k =>
      have hstart := h.own _ _ _ href
      have hcell : ∀ n, n ≠ k → update c.cell (.loaded k)
          ((c.cell (.loaded k)).fold cfg record) (.loaded n) = c.cell (.loaded n) := fun n hne =>
        update_of_ne (by simpa using hne) _ _
      have hfold : (update c.cell (.loaded k) ((c.cell (.loaded k)).fold cfg record)
          (.loaded k)).sampleCount = (c.cell (.loaded k)).sampleCount + 1 := by
        rw [update_self]
        rfl
      have hmore : ∀ n, (c.cell (.loaded n)).sampleCount ≤ (update c.cell (.loaded k)
          ((c.cell (.loaded k)).fold cfg record) (.loaded n)).sampleCount := by
        intro n
        by_cases hn : n = k
        · subst hn
          rw [hfold]
          exact Nat.le_succ _
        · rw [hcell n hn]
      refine ⟨h.kept, h.own, fun n hnone => ?_, fun n => (h.grows n).trans (hmore n),
        fun w hw n hheld => ?_⟩
      · have hne : n ≠ k := by
          rintro rfl
          exact hnone _ (mem_append_right _ (mem_singleton_self _)) hstart
        exact (hcell n hne).trans (h.untouched n fun w hw => hnone w (mem_append_left _ hw))
      · rcases mem_append.mp hw with hold | hnew
        · exact lt_of_lt_of_le (h.touched w hold n hheld) (hmore n)
        · rw [mem_singleton.mp hnew] at hheld
          cases hstart.symm.trans hheld
          exact lt_of_le_of_lt (h.grows k) (by rw [hfold]; exact Nat.lt_succ_self _)

theorem Since.record (hsim : Sim c t.state) (hcounted : t.counted = counted) (record : Record) :
    Since cfg start (c.record py cfg record).2 (t.record py cfg record).2.counted := by
  have hverdict := (hsim.record py cfg record).1
  subst hcounted
  unfold Traced.record
  dsimp only
  rw [← hverdict]
  unfold Cells.record recordWith
  cases hts : resolveTimestamp py cfg record with
  | none => exact h
  | some ts =>
    dsimp only
    split_ifs with hlate
    · exact h
    · have hfinal := h.finalize (m := latest c.maxTs ts) fun m' hm' => hm' ▸ latest_ge m' ts
      have hmax : (c.finalize cfg (latest c.maxTs ts)).2.maxTs = some (latest c.maxTs ts) := rfl
      generalize c.finalize cfg (latest c.maxTs ts) = r at hfinal hmax ⊢
      obtain ⟨_ | emitted, c'⟩ := r
      · exact hfinal
      · have hwindow : windowOf py cfg record = ((groupKey py cfg record).1, windowEnd cfg ts) := by
          rw [windowOf, hts]
          rfl
        rw [hwindow]
        exact hfinal.add hmax (watermark_lt_windowEnd (Bool.eq_false_iff.mpr hlate))

end

/-- The transform over cells, and the one with entries of its own it behaves as. -/
structure Follows (cfg : Config) (start c : Cells) (t : Traced) : Prop where
  sim : Sim c t.state
  since : Since cfg start c t.counted

theorem Follows.setState (b : SharedBlob) (cells : Nat → Entry) :
    Follows cfg (.setState b cells) (.setState b cells) ⟨.hydrate (b.value cells), []⟩ :=
  ⟨.setState b cells, .refl _⟩

variable (py) in
theorem Follows.apply (h : Follows cfg start c t) (records : List Record) :
    (c.apply py cfg records).1 = (t.apply py cfg records).1 ∧
      Follows cfg start (c.apply py cfg records).2 (t.apply py cfg records).2 := by
  unfold Cells.apply Traced.apply
  induction records generalizing c t with
  | nil => exact ⟨rfl, h⟩
  | cons r records ih =>
    obtain ⟨hverdict, hsim⟩ := h.sim.record py cfg r
    have hnext : Follows cfg start (c.record py cfg r).2 (t.record py cfg r).2 :=
      ⟨hsim, h.since.record h.sim rfl r⟩
    have hverdict' : (c.record py cfg r).1 = (t.record py cfg r).1 := hverdict
    rw [applyWith, applyWith]
    generalize hc : c.record py cfg r = rc at hnext hverdict'
    generalize ht : t.record py cfg r = rt at hnext hverdict'
    obtain ⟨verdict, c'⟩ := rc
    obtain ⟨verdict', t'⟩ := rt
    obtain rfl : verdict = verdict' := hverdict'
    cases verdict with
    | raised => exact ⟨rfl, hnext⟩
    | late => exact ih hnext
    | counted emitted =>
      obtain ⟨hout, hrest⟩ := ih hnext
      exact ⟨congrArg (Option.map (emitted ++ ·)) hout, hrest⟩

/-- With the contents the transform leaves in its cells, the blob reads as before exactly if no record
was counted into a window of the blob. -/
theorem Follows.value_eq_iff {cells : Nat → Entry} (h : Follows cfg (.setState b cells) c t) :
    b.value (fun n => c.cell (.loaded n)) = b.value cells ↔
      ∀ w ∈ t.counted, look (hydrate (b.value cells)).windows w.1 w.2 = none := by
  have hview := (Sim.setState b cells).view
  constructor
  · intro hvalue w hw
    rw [← hview, Option.map_eq_none_iff]
    cases hheld : look (Cells.setState b cells).windows w.1 w.2 with
    | none => rfl
    | some ref =>
      -- the window is one of the blob, so its cell has a sample more
      obtain ⟨g, hg, -, w', hw', -, rfl⟩ := mem_of_restore hheld
      have hgroup := map_inj_left.mp (congrArg Blob.windows hvalue) g hg
      have hcell : c.cell (.loaded w'.2) = cells w'.2 :=
        congrArg Prod.snd (map_inj_left.mp (congrArg Prod.snd hgroup) w' hw')
      have hmore := h.since.touched w hw w'.2 hheld
      rw [hcell] at hmore
      exact absurd hmore (Nat.lt_irrefl _)
  · intro hnone
    have hcell : (fun n => c.cell (.loaded n)) = cells := by
      funext n
      refine h.since.untouched n fun w hw hheld => ?_
      have hopen := hview w.1 w.2
      rw [hnone w hw, hheld] at hopen
      cases hopen
    rw [hcell]

end Tram.WindowAggregate
