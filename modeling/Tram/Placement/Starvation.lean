import Mathlib.Data.List.Perm.Subperm
import Tram.Placement.Selection

/-! # How long a healthy worker can be skipped

A starved worker competes with the other starved ones by load, so it can lose as long as others
are starved too. A worker that wins is not starved again before it was skipped `threshold` times.
Hence `threshold + 1` rivals can take turns forever, while fewer run out: the skips are bounded
exactly if there are at most `threshold + 1` healthy workers. -/

namespace Tram.Placement

open Fairness List Run

/-! ## Few workers -/

section Bounded

variable {healthyUrls : List String} {w : String}

section

variable (hnd : healthyUrls.Nodup) (hw : w ∈ healthyUrls)
include hnd hw

theorem selectOne_skipping (s : Fairness) (scores : String → ℚ)
    (hskip : w ∉ (selectOne healthyUrls s scores).1) :
    ∃ url ∈ healthyUrls, url ≠ w ∧ (s.starved w = true → s.starved url = true) ∧
      (selectOne healthyUrls s scores).1 = [url] ∧
      (selectOne healthyUrls s scores).2.fairPlacementThreshold = s.fairPlacementThreshold ∧
      (∀ other ∈ healthyUrls, (selectOne healthyUrls s scores).2.skips other =
        if other = url then 0 else s.skips other + 1) := by
  obtain ⟨url, hurl, heq⟩ := selectOne_eq s scores (ne_nil_of_mem hw)
  have hpool := (mem_tied.mp hurl).1
  refine ⟨url, mem_healthy_of_mem_pool hpool, ?_, ?_, by rw [heq], by rw [heq]; rfl, ?_⟩
  · rintro rfl
    simp [heq] at hskip
  · intro hstarved
    have hany : healthyUrls.any s.starved = true := any_eq_true.mpr ⟨w, hw, hstarved⟩
    rw [pool, if_pos hany] at hpool
    exact (mem_filter.mp hpool).2
  · intro other hother
    rw [heq, skips_advance _ hnd, if_pos hother]
    simp [skips]

variable {loads : List (String → ℚ)} {s : Fairness}
  (hskip : ∀ reply ∈ replies (selectOne healthyUrls) s loads, w ∉ reply)
include hskip

theorem length_le_skips : loads.length + s.skips w ≤ (after (selectOne healthyUrls) s loads).skips w ∧
      (after (selectOne healthyUrls) s loads).fairPlacementThreshold =
        s.fairPlacementThreshold := by
  induction loads generalizing s with
  | nil => simp [Run.after]
  | cons scores loads ih =>
    simp only [replies, forall_mem_cons] at hskip
    obtain ⟨url, _, hne, _, _, hthreshold, hskips⟩ := selectOne_skipping hnd hw s scores hskip.1
    obtain ⟨hle, heq⟩ := ih hskip.2
    rw [hskips w hw, if_neg hne.symm] at hle
    simp only [Run.after, Run.exec_cons, length_cons] at hle heq ⊢
    exact ⟨by omega, heq.trans hthreshold⟩

theorem not_selected_of_fresh {url : String} (hurl : url ∈ healthyUrls) (hstarved : s.starved w = true)
    (hfresh : s.skips url + loads.length ≤ s.fairPlacementThreshold) :
    url ∉ (replies (selectOne healthyUrls) s loads).flatten := by
  induction loads generalizing s with
  | nil => simp [replies]
  | cons scores loads ih =>
    simp only [replies, forall_mem_cons] at hskip
    obtain ⟨first, _, hne, hpick, heq, hthreshold, hskips⟩ :=
      selectOne_skipping hnd hw s scores hskip.1
    have hother : url ≠ first := by
      rintro rfl
      have hle : s.fairPlacementThreshold ≤ s.skips url := by simpa [starved] using hpick hstarved
      simp only [length_cons] at hfresh
      omega
    have hrest := ih hskip.2 (by
        simp only [starved, hthreshold, hskips w hw, if_neg hne.symm, decide_eq_true_eq] at hstarved ⊢
        omega) (by
        rw [hskips url hurl, if_neg hother, hthreshold]
        simp only [length_cons] at hfresh
        omega)
    simp [replies, heq, hother, hrest]

/-- While `w` is starved and skipped, no worker is selected twice within `threshold + 1`
selections. -/
theorem nodup_replies (hstarved : s.starved w = true) (hshort : loads.length ≤ s.fairPlacementThreshold + 1) :
    (replies (selectOne healthyUrls) s loads).flatten.Nodup ∧
      (replies (selectOne healthyUrls) s loads).flatten.length = loads.length ∧
      (replies (selectOne healthyUrls) s loads).flatten ⊆ healthyUrls.erase w := by
  induction loads generalizing s with
  | nil => simp [replies]
  | cons scores loads ih =>
    simp only [replies, forall_mem_cons] at hskip
    obtain ⟨first, hmem, hne, _, heq, hthreshold, hskips⟩ :=
      selectOne_skipping hnd hw s scores hskip.1
    have hnext : (selectOne healthyUrls s scores).2.starved w = true := by
      simp only [starved, hthreshold, hskips w hw, if_neg hne.symm, decide_eq_true_eq] at hstarved ⊢
      omega
    simp only [length_cons] at hshort
    obtain ⟨hnodup, hlength, hsub⟩ := ih hskip.2 hnext (by rw [hthreshold]; omega)
    -- the worker just selected has a counter of zero
    have hfirst : first ∉ (replies (selectOne healthyUrls)
        (selectOne healthyUrls s scores).2 loads).flatten :=
      not_selected_of_fresh hnd hw hskip.2 hmem hnext (by
        rw [hskips first hmem, if_pos rfl, hthreshold]
        omega)
    simp only [replies, heq, flatten_cons, singleton_append]
    refine ⟨nodup_cons.mpr ⟨hfirst, hnodup⟩, by simp [hlength], ?_⟩
    exact cons_subset.mpr ⟨(Nodup.mem_erase_iff hnd).mpr ⟨hne, hmem⟩, hsub⟩

theorem skips_le (hfew : healthyUrls.length ≤ s.fairPlacementThreshold + 1) :
    loads.length ≤ s.fairPlacementThreshold + healthyUrls.length := by
  by_contra hlong
  push Not at hlong
  -- the first `threshold` selections starve `w`, the next ones find every rival once
  obtain ⟨first, rest, rfl, hfirst⟩ : ∃ first rest, loads = first ++ rest ∧
      first.length = s.fairPlacementThreshold :=
    ⟨_, _, (take_append_drop s.fairPlacementThreshold loads).symm, by
      rw [length_take]; omega⟩
  obtain ⟨second, rest, rfl, hsecond⟩ : ∃ second rest', rest = second ++ rest' ∧
      second.length = healthyUrls.length :=
    ⟨_, _, (take_append_drop healthyUrls.length rest).symm, by
      rw [length_append] at hlong
      rw [length_take]; omega⟩
  simp only [replies_append, forall_mem_append] at hskip
  obtain ⟨hle, hthreshold⟩ := length_le_skips hnd hw hskip.1
  have hstarved : (after (selectOne healthyUrls) s first).starved w = true := by
    simp only [starved, hthreshold, decide_eq_true_eq]
    omega
  obtain ⟨hnodup, hlength, hsub⟩ := nodup_replies hnd hw hskip.2.1 hstarved (by
    rw [hthreshold]; omega)
  have hcount := (hnodup.subperm hsub).length_le
  have hpos : 0 < healthyUrls.length := length_pos_of_mem hw
  rw [hlength, hsecond, length_erase_of_mem hw] at hcount
  omega

end

end Bounded

/-! ## Many workers -/

section Unbounded

variable {healthyUrls queue : List String} {s : Fairness}

/-- Loads that make one worker the least loaded. -/
def favour (url : String) : String → ℚ := fun other => if other = url then 0 else 1

theorem tied_favour {url : String} {pool : List String} (hurl : url ∈ pool) {other : String}
    (hother : other ∈ tied (favour url) pool) : other = url := by
  have hle := (mem_tied.mp hother).2 url hurl
  by_contra hne
  rw [favour, favour, if_neg hne, if_pos rfl] at hle
  exact absurd hle (not_le.mpr zero_lt_one)

section

variable (hnd : healthyUrls.Nodup) {url : String} (hurl : url ∈ healthyUrls)
include hnd hurl

theorem selectOne_favour (s : Fairness)
    (h : s.starved url = true ∨ ∀ other ∈ healthyUrls, s.starved other = false) :
    (selectOne healthyUrls s (favour url)).1 = [url] ∧
      (selectOne healthyUrls s (favour url)).2.fairPlacementThreshold = s.fairPlacementThreshold ∧
      (∀ other ∈ healthyUrls, (selectOne healthyUrls s (favour url)).2.skips other =
        if other = url then 0 else s.skips other + 1) := by
  have hpool : url ∈ s.pool healthyUrls := by
    unfold pool
    split_ifs with hany
    · obtain ⟨other, hmem, hstarved⟩ := any_eq_true.mp hany
      refine mem_filter.mpr ⟨hurl, ?_⟩
      rcases h with h | h
      · exact h
      · rw [h other hmem] at hstarved
        cases hstarved
    · exact hurl
  obtain ⟨picked, hpicked, heq⟩ := selectOne_eq s (favour url) (ne_nil_of_mem hurl)
  obtain rfl := tied_favour hpool hpicked
  refine ⟨by rw [heq], by rw [heq]; rfl, fun other hother => ?_⟩
  rw [heq, skips_advance _ hnd, if_pos hother]
  simp [skips]

theorem favoured_throughout (k : Nat) (s : Fairness)
    (hfresh : ∀ other ∈ healthyUrls, s.skips other + k ≤ s.fairPlacementThreshold) :
    (after (selectOne healthyUrls) s (replicate k (favour url))).fairPlacementThreshold =
        s.fairPlacementThreshold ∧
      ∀ other ∈ healthyUrls, other ≠ url →
        (after (selectOne healthyUrls) s (replicate k (favour url))).skips other =
          s.skips other + k := by
  induction k generalizing s with
  | zero => exact ⟨rfl, fun _ _ _ => rfl⟩
  | succ k ih =>
    obtain ⟨-, hthreshold, hskips⟩ := selectOne_favour hnd hurl s (.inr fun other hother => by
      have := hfresh other hother
      simp only [starved, decide_eq_false_iff_not]
      omega)
    obtain ⟨heq, hrest⟩ := ih (selectOne healthyUrls s (favour url)).2 fun other hother => by
      have := hfresh other hother
      rw [hskips other hother, hthreshold]
      split_ifs <;> omega
    refine ⟨heq.trans hthreshold, fun other hother hne => ?_⟩
    have hother := hrest other hother hne
    rw [hskips other ‹_›, if_neg hne] at hother
    simp only [replicate_succ, Run.after, Run.exec_cons] at hother ⊢
    omega

end

/-- The workers that take turns: the first is starved, the second will be after one more skip,
and so on. -/
def InTurn (s : Fairness) (queue : List String) : Prop :=
  ∀ j (h : j < queue.length), s.fairPlacementThreshold ≤ s.skips queue[j] + j

/-- The first of the queue is selected and goes to its end. -/
theorem InTurn.next (hnd : healthyUrls.Nodup) {url : String} (hqueue : (url :: queue).Nodup)
    (hsub : url :: queue ⊆ healthyUrls) (hlength : queue.length = s.fairPlacementThreshold)
    (h : InTurn s (url :: queue)) :
    (selectOne healthyUrls s (favour url)).1 = [url] ∧
      (selectOne healthyUrls s (favour url)).2.fairPlacementThreshold = s.fairPlacementThreshold ∧
      InTurn (selectOne healthyUrls s (favour url)).2 (queue ++ [url]) := by
  have hurl : url ∈ healthyUrls := hsub mem_cons_self
  have hhead : s.fairPlacementThreshold ≤ s.skips url := h 0 (Nat.zero_lt_succ _)
  obtain ⟨heq, hthreshold, hskips⟩ := selectOne_favour hnd hurl s (.inl (by simpa [starved]))
  refine ⟨heq, hthreshold, fun j hj => ?_⟩
  rw [hthreshold]
  by_cases hlast : j < queue.length
  · have hmem : queue[j] ∈ queue := getElem_mem hlast
    have hne : queue[j] ≠ url := fun he => (nodup_cons.mp hqueue).1 (he ▸ hmem)
    have hturn := h (j + 1) (by simpa using hlast)
    rw [getElem_append_left hlast, hskips _ (hsub (mem_cons_of_mem _ hmem)), if_neg hne]
    simp only [getElem_cons_succ] at hturn
    omega
  · omega

theorem InTurn.forever (hnd : healthyUrls.Nodup) (k : Nat) (hqueue : queue.Nodup)
    (hsub : queue ⊆ healthyUrls) (hlength : queue.length = s.fairPlacementThreshold + 1)
    (h : InTurn s queue) :
    ∃ loads : List (String → ℚ), loads.length = k ∧
      ∀ reply ∈ replies (selectOne healthyUrls) s loads, reply ⊆ queue := by
  induction k generalizing s queue with
  | zero => exact ⟨[], rfl, by simp [replies]⟩
  | succ k ih =>
    obtain ⟨url, queue, rfl⟩ : ∃ url rest, queue = url :: rest :=
      exists_cons_of_length_pos (by omega)
    obtain ⟨heq, hthreshold, hturn⟩ := h.next hnd hqueue hsub (by simpa using hlength)
    have hperm : (queue ++ [url]).Perm (url :: queue) := perm_append_singleton url queue
    obtain ⟨loads, hloads, hreplies⟩ := ih (hperm.nodup_iff.mpr hqueue)
      (fun other hother => hsub (hperm.mem_iff.mp hother)) (by simpa [hthreshold] using hlength) hturn
    refine ⟨favour url :: loads, by simp [hloads], ?_⟩
    simp only [replies, forall_mem_cons, heq]
    exact ⟨by simp, fun reply hreply other hother => hperm.mem_iff.mp (hreplies reply hreply hother)⟩

/-- A worker with more than `threshold` healthy rivals can be skipped for as long as one likes, in
a new pool after `threshold` selections. -/
theorem exists_skips {w : String} {urls : List String} (hnd : (w :: urls).Nodup) (threshold : Nat)
    (workers : List String) (hmany : max 1 threshold < urls.length) (k : Nat) :
    ∃ before during : List (String → ℚ), during.length = k ∧
      ∀ reply ∈ replies (selectOne (w :: urls))
        (after (selectOne (w :: urls)) (new threshold workers) before) during, w ∉ reply := by
  obtain ⟨hw, hurls⟩ := nodup_cons.mp hnd
  -- the last of the queue is selected first, until all the others are starved
  obtain ⟨queue, last, rest, rfl, hlength⟩ : ∃ queue last rest,
      urls = queue ++ last :: rest ∧ queue.length = max 1 threshold := by
    obtain ⟨last, rest, hdrop⟩ : ∃ last rest, urls.drop (max 1 threshold) = last :: rest :=
      exists_cons_of_length_pos (by rw [length_drop]; omega)
    exact ⟨_, last, rest, by rw [← hdrop, take_append_drop], by rw [length_take]; omega⟩
  have hsub : queue ++ [last] ⊆ w :: (queue ++ last :: rest) := by
    intro other hother
    simp only [mem_append, mem_cons, not_mem_nil, or_false] at hother ⊢
    tauto
  have hqueue : (queue ++ [last]).Nodup :=
    hurls.sublist (Sublist.append_left (by simp) queue)
  obtain ⟨hthreshold, hskips⟩ := favoured_throughout hnd (hsub (by simp) : last ∈ _)
    (max 1 threshold) (new threshold workers) fun other _ => by
      rw [skips_new]
      exact le_of_eq (Nat.zero_add _)
  have hturn : InTurn (after (selectOne (w :: (queue ++ last :: rest))) (new threshold workers)
      (replicate (max 1 threshold) (favour last))) (queue ++ [last]) := by
    intro j hj
    rw [hthreshold]
    by_cases hlast : j < queue.length
    · have hne : queue[j] ≠ last := fun he =>
        (nodup_append.mp hqueue).2.2 _ (getElem_mem hlast) _ (by simp) he
      rw [getElem_append_left hlast, hskips _ (hsub (by simp)) hne]
      exact Nat.le_add_right_of_le (Nat.le_add_left _ _)
    · have hle : max 1 threshold ≤ j := hlength ▸ Nat.le_of_not_lt hlast
      exact Nat.le_add_left_of_le hle
  obtain ⟨during, hduring, hreplies⟩ := hturn.forever hnd k hqueue hsub (by
    rw [hthreshold, length_append, hlength]; rfl)
  refine ⟨replicate (max 1 threshold) (favour last), during, hduring,
    fun reply hreply hmem => hw ?_⟩
  have hin := hreplies reply hreply hmem
  simp only [mem_append, mem_cons, not_mem_nil, or_false] at hin ⊢
  tauto

end Unbounded

/-- A selection for a single slot that skips a worker: at most how often in a row, in any sequence
of selections of a new pool over `n` healthy workers. -/
def SkipsBounded (n threshold : Nat) : Prop :=
  ∃ bound : Nat, ∀ workers healthyUrls : List String, healthyUrls.Nodup →
    healthyUrls.length = n → ∀ before during : List (String → ℚ), ∀ w ∈ healthyUrls,
      (∀ reply ∈ replies (selectOne healthyUrls)
        (after (selectOne healthyUrls) (new threshold workers) before) during, w ∉ reply) →
      during.length ≤ bound

theorem threshold_after (healthyUrls : List String) (s : Fairness) (loads : List (String → ℚ)) :
    (after (selectOne healthyUrls) s loads).fairPlacementThreshold =
      s.fairPlacementThreshold := by
  refine exec_invariant (I := fun t : Fairness => t.fairPlacementThreshold = s.fairPlacementThreshold)
    (fun t scores ht => ?_) rfl loads
  by_cases h : healthyUrls = []
  · simpa [selectOne, selectPlacements, h] using ht
  · obtain ⟨url, -, heq⟩ := selectOne_eq t scores h
    rw [heq]
    exact ht

theorem skips_bounded_iff (n threshold : Nat) :
    SkipsBounded n threshold ↔ n ≤ max 1 threshold + 1 := by
  constructor
  · rintro ⟨bound, hbound⟩
    by_contra hmany
    have hnd : ((range n).map fun i => String.ofList (replicate i 'w')).Nodup :=
      Nodup.map (fun i j hij => by simpa using congrArg (·.toList.length) hij) nodup_range
    obtain ⟨w, urls, hurls⟩ := exists_cons_of_length_pos
      (l := (range n).map fun i => String.ofList (replicate i 'w')) (by simp; omega)
    have hlength : (w :: urls).length = n := by rw [← hurls]; simp
    rw [hurls] at hnd
    obtain ⟨before, during, hduring, hskip⟩ := exists_skips hnd threshold []
      (by rw [length_cons] at hlength; omega) (bound + 1)
    have hle := hbound [] _ hnd hlength before during w mem_cons_self hskip
    omega
  · intro hfew
    refine ⟨max 1 threshold + n, ?_⟩
    rintro workers healthyUrls hnd rfl before during w hw hskip
    have hthreshold := threshold_after healthyUrls (new threshold workers) before
    have hle := skips_le hnd hw hskip (by rw [hthreshold]; exact hfew)
    rwa [hthreshold] at hle

/-- Four workers under the default threshold of 2: three of them can take turns forever. -/
theorem fourth_worker_starves :
    ¬ ∃ bound : Nat, ∀ before during : List (String → ℚ),
      (∀ reply ∈ replies (selectOne ["w0", "w1", "w2", "w3"])
        (after (selectOne ["w0", "w1", "w2", "w3"]) (new 2 ["w0", "w1", "w2", "w3"]) before)
        during, "w0" ∉ reply) → during.length ≤ bound := by
  rintro ⟨bound, hbound⟩
  have hnd : ("w0" :: ["w1", "w2", "w3"]).Nodup := by decide
  obtain ⟨before, during, hlength, hskip⟩ :=
    exists_skips hnd 2 ["w0", "w1", "w2", "w3"] (by decide) (bound + 1)
  have hle := hbound before during hskip
  omega

end Tram.Placement
