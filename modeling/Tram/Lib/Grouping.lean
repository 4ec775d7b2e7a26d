import Mathlib.Data.List.Perm.Basic
import Mathlib.Data.List.SplitBy

/-! # Grouping by a key

The elements of a list, grouped by a key in the order in which the keys first occur. Within a
group the elements keep their order. -/

namespace Grouping

open List

variable {κ α : Type} [DecidableEq κ] {P : κ → List α → Prop}

/-- Append `a` to the group of `k`, which is opened at the end if there is none. -/
def add (k : κ) (a : α) : List (κ × List α) → List (κ × List α)
  | [] => [(k, [a])]
  | g :: gs => if g.1 = k then (g.1, g.2 ++ [a]) :: gs else g :: add k a gs

def groups (key : α → κ) (xs : List α) : List (κ × List α) :=
  xs.foldl (fun gs a => add (key a) a gs) []

def ungroup (gs : List (κ × List α)) : List α := (gs.map Prod.snd).flatten

theorem ungroup_add (k : κ) (a : α) (gs : List (κ × List α)) :
    (ungroup (add k a gs)).Perm (ungroup gs ++ [a]) := by
  induction gs with
  | nil => exact .rfl
  | cons g gs ih =>
    rw [add]
    split_ifs with h
    · -- the group of `k`: `a` comes before the groups that follow
      have swap : (a :: ungroup gs).Perm (ungroup gs ++ [a]) := perm_append_singleton _ _ |>.symm
      simpa [ungroup] using swap.append_left g.2
    · simpa [ungroup] using ih.append_left g.2

theorem forall_mem_add {k : κ} {a : α} (hnew : P k [a]) (hadd : ∀ l, P k l → P k (l ++ [a]))
    {gs : List (κ × List α)} (h : ∀ g ∈ gs, P g.1 g.2) : ∀ g ∈ add k a gs, P g.1 g.2 := by
  induction gs with
  | nil => simpa [add] using hnew
  | cons g gs ih =>
    rw [forall_mem_cons] at h
    rw [add]
    split_ifs with hk
    · subst hk
      exact forall_mem_cons.mpr ⟨hadd g.2 h.1, h.2⟩
    · exact forall_mem_cons.mpr ⟨h.1, ih h.2⟩

theorem forall_mem_groups {key : α → κ} (hnew : ∀ a, P (key a) [a])
    (hadd : ∀ a l, P (key a) l → P (key a) (l ++ [a])) (xs : List α) :
    ∀ g ∈ groups key xs, P g.1 g.2 := by
  suffices h : ∀ gs : List (κ × List α), (∀ g ∈ gs, P g.1 g.2) →
      ∀ g ∈ xs.foldl (fun gs a => add (key a) a gs) gs, P g.1 g.2 from h [] (by simp)
  induction xs with
  | nil => intro gs hgs; exact hgs
  | cons x xs ih => intro gs hgs; exact ih _ (forall_mem_add (hnew x) (hadd x) hgs)

theorem ne_nil_of_mem_groups (key : α → κ) (xs : List α) : ∀ g ∈ groups key xs, g.2 ≠ [] :=
  forall_mem_groups (P := fun _ l => l ≠ []) (by simp) (by simp) xs

theorem key_of_mem_groups (key : α → κ) (xs : List α) : ∀ g ∈ groups key xs, ∀ x ∈ g.2, key x = g.1 :=
  forall_mem_groups (P := fun k l => ∀ x ∈ l, key x = k) (by simp)
    (fun a l h => forall_mem_append.mpr ⟨h, by simp⟩) xs

theorem ungroup_groups (key : α → κ) (xs : List α) : (ungroup (groups key xs)).Perm xs := by
  suffices h : ∀ gs : List (κ × List α),
      (ungroup (xs.foldl (fun gs a => add (key a) a gs) gs)).Perm (ungroup gs ++ xs) from h []
  induction xs with
  | nil => intro gs; simp
  | cons x xs ih =>
    intro gs
    have hx : (ungroup (add (key x) x gs) ++ xs).Perm (ungroup gs ++ [x] ++ xs) :=
      (ungroup_add (key x) x gs).append_right xs
    simpa using (ih (add (key x) x gs)).trans hx

section Runs

variable {r : α → α → Bool} {xs : List α} {a : α}

theorem splitBy_concat_new (h : ∀ x ∈ xs.getLast?, r x a = false) :
    (xs ++ [a]).splitBy r = xs.splitBy r ++ [[a]] := by
  refine splitBy_append fun x hx y hy => ?_
  rw [head?_cons, Option.mem_some_iff] at hy
  exact hy ▸ h x hx

theorem splitBy_concat_same {gs : List (List α)} {g : List α} (h : xs.splitBy r = gs ++ [g])
    (hlast : ∀ x ∈ g.getLast?, r x a = true) : (xs ++ [a]).splitBy r = gs ++ [g ++ [a]] := by
  obtain ⟨hflat, hnil, hchain, hbetween⟩ := splitBy_eq_iff.mp h
  have hg : g ≠ [] := fun hg => hnil (by simp [hg])
  refine splitBy_eq_iff.mpr ⟨by simp [hflat], ?_, ?_, ?_⟩
  · intro hmem
    rcases mem_append.mp hmem with hmem | hmem
    · exact hnil (mem_append_left _ hmem)
    · simp at hmem
  · intro m hm
    rcases mem_append.mp hm with hm | hm
    · exact hchain m (mem_append_left _ hm)
    · rw [mem_singleton.mp hm, isChain_append]
      exact ⟨hchain g (by simp), isChain_singleton a,
        fun x hx y hy => by rw [head?_cons, Option.mem_some_iff] at hy; exact hy ▸ hlast x hx⟩
  · rw [isChain_append] at hbetween ⊢
    refine ⟨hbetween.1, isChain_singleton _, fun x hx y hy => ?_⟩
    rw [head?_cons, Option.mem_some_iff] at hy
    obtain ⟨hxne, _, hne⟩ := hbetween.2.2 x hx g (by simp)
    exact ⟨hxne, by simp [← hy], by simpa [← hy, head_append_of_ne_nil hg] using hne⟩

end Runs

end Grouping
