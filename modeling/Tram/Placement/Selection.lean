import Mathlib.Algebra.Order.Ring.Rat
import Mathlib.Data.List.Sort
import Mathlib.Data.String.Basic
import Tram.Lib.Dict
import Tram.Lib.Run

/-! # Which worker gets the next run

`_select_placements` of the worker pool. A single slot goes to the least loaded healthy worker,
with a round-robin counter among those that tie, unless a healthy worker has been skipped so often
that it counts as starved: then only the starved ones compete, again by load. What a worker's load
is at the moment of a selection is an argument. -/

namespace Tram.Placement

open List

/-- What the pool keeps for the selection; `starvation` counts the consecutive selections a
healthy worker was skipped by. -/
structure Fairness where
  fairPlacementThreshold : Nat
  rrCounter : Nat
  starvation : Dict String Nat

namespace Fairness

/-- The constructor, which admits no threshold below one. -/
def new (fairPlacementThreshold : Nat) (workers : List String) : Fairness :=
  ⟨max 1 fairPlacementThreshold, 0, workers.foldl (fun d url => d.insert url 0) ∅⟩

variable (s : Fairness)

/-- `self._starvation.get(url, 0)` -/
def skips (url : String) : Nat := (s.starvation.lookup url).getD 0

def starved (url : String) : Bool := s.fairPlacementThreshold ≤ s.skips url

def pool (healthyUrls : List String) : List String :=
  if healthyUrls.any s.starved then healthyUrls.filter s.starved else healthyUrls

/-- The least loaded workers of the pool, sorted. -/
def tied (scores : String → ℚ) (pool : List String) : List String :=
  match (pool.map scores).min? with
  | none => []
  | some minScore => (pool.filter fun url => scores url = minScore).mergeSort (· ≤ ·)

/-- The order of a broadcast: the starved by load, then the others by load. -/
def broadcastOrder (scores : String → ℚ) (healthyUrls : List String) : List String :=
  let byLoad (urls : List String) := urls.mergeSort fun a b => scores a ≤ scores b
  let starved := byLoad (healthyUrls.filter s.starved)
  starved ++ byLoad (healthyUrls.filter fun url => url ∉ starved)

/-- Selected workers are reset, the other healthy ones count one more skip. -/
def advance (healthyUrls selected : List String) : Fairness :=
  { s with
    starvation := healthyUrls.foldl
      (fun d url => d.insert url (if url ∈ selected then 0 else (d.lookup url).getD 0 + 1))
      s.starvation }

def selectPlacements (scores : String → ℚ) (healthyUrls : List String)
    (count : Nat) : List String × Fairness :=
  if healthyUrls = [] then ([], s)
  else if count = 1 then
    let tied := tied scores (s.pool healthyUrls)
    let selected := (tied[s.rrCounter % tied.length]?).toList
    (selected, advance { s with rrCounter := s.rrCounter + 1 } healthyUrls selected)
  else
    let selected := (s.broadcastOrder scores healthyUrls).take count
    (selected, s.advance healthyUrls selected)

/-- A selection for a single slot, as `least_loaded` and a batch dispatch make it. -/
def selectOne (healthyUrls : List String) (s : Fairness) (scores : String → ℚ) :
    List String × Fairness :=
  s.selectPlacements scores healthyUrls 1

theorem skips_new (threshold : Nat) (workers : List String) (url : String) :
    (new threshold workers).skips url = 0 := by
  suffices h : ∀ d : Dict String Nat, (d.lookup url).getD 0 = 0 →
      ((workers.foldl (fun d url => d.insert url 0) d).lookup url).getD 0 = 0 from h ∅ rfl
  induction workers with
  | nil => exact fun _ hd => hd
  | cons w ws ih =>
    intro d hd
    refine ih _ ?_
    rw [Dict.lookup_insert_ite]
    split_ifs <;> simp [hd]

variable {healthyUrls pool : List String} {url : String}

theorem skips_advance (hnd : healthyUrls.Nodup) (selected : List String) (url : String) :
    (s.advance healthyUrls selected).skips url =
      if url ∈ healthyUrls then if url ∈ selected then 0 else s.skips url + 1 else s.skips url := by
  obtain ⟨threshold, rr, starvation⟩ := s
  simp only [advance, skips]
  induction healthyUrls generalizing starvation with
  | nil => simp
  | cons w ws ih =>
    obtain ⟨hw, hws⟩ := nodup_cons.mp hnd
    rw [foldl_cons, ih hws]
    by_cases h : url = w
    · subst h
      by_cases hsel : url ∈ selected <;> simp [hw, hsel]
    · simp [h]

theorem mem_tied {scores : String → ℚ} :
    url ∈ tied scores pool ↔ url ∈ pool ∧ ∀ other ∈ pool, scores url ≤ scores other := by
  unfold tied
  cases hmin : (pool.map scores).min? with
  | none =>
    have hnil : pool = [] := by simpa using hmin
    simp [hnil]
  | some m =>
    obtain ⟨hm, hle⟩ := min?_eq_some_iff.mp hmin
    simp only [mem_map, forall_exists_index, and_imp, forall_apply_eq_imp_iff₂] at hm hle
    rw [mem_mergeSort, mem_filter, decide_eq_true_eq]
    refine and_congr_right fun hurl => ⟨fun h => h ▸ hle, fun h => ?_⟩
    obtain ⟨w, hw, rfl⟩ := hm
    exact le_antisymm (h w hw) (hle url hurl)

theorem pool_ne_nil (h : healthyUrls ≠ []) : s.pool healthyUrls ≠ [] := by
  unfold pool
  split_ifs with hany
  · obtain ⟨url, hmem, hstarved⟩ := any_eq_true.mp hany
    exact ne_nil_of_mem (mem_filter.mpr ⟨hmem, hstarved⟩)
  · exact h

theorem mem_healthy_of_mem_pool {s : Fairness} (h : url ∈ s.pool healthyUrls) :
    url ∈ healthyUrls := by
  unfold pool at h
  split_ifs at h
  · exact (mem_filter.mp h).1
  · exact h

theorem tied_ne_nil (scores : String → ℚ) (h : pool ≠ []) : tied scores pool ≠ [] := by
  unfold tied
  cases hmin : (pool.map scores).min? with
  | none => exact absurd (by simpa using hmin) h
  | some m =>
    obtain ⟨url, hurl, rfl⟩ := mem_map.mp (min?_eq_some_iff.mp hmin).1
    exact ne_nil_of_mem (mem_mergeSort.mpr (mem_filter.mpr ⟨hurl, by simp⟩))

theorem selectOne_eq (scores : String → ℚ) (h : healthyUrls ≠ []) :
    ∃ url ∈ tied scores (s.pool healthyUrls), selectOne healthyUrls s scores =
      ([url], advance { s with rrCounter := s.rrCounter + 1 } healthyUrls [url]) := by
  have hne := tied_ne_nil scores (s.pool_ne_nil h)
  have hlt : s.rrCounter % (tied scores (s.pool healthyUrls)).length <
      (tied scores (s.pool healthyUrls)).length := Nat.mod_lt _ (length_pos_of_ne_nil hne)
  refine ⟨_, getElem_mem hlt, ?_⟩
  simp only [selectOne, selectPlacements, if_neg h, if_true, getElem?_eq_getElem hlt,
    Option.toList_some]

end Fairness

end Tram.Placement
