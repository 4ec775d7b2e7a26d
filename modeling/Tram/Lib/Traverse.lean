import Mathlib.Data.List.Forall2
import Mathlib.Data.List.Nodup

/-! # Lists under functions that may fail

A traversal that succeeds gives its results element by element; what a partial function keeps of a
list is told by positions. -/

namespace Traverse

open List

variable {α β γ ε : Type*} {l : List α} {out : List β} {f : α → Option β}

theorem bind_eq_ok {x : Except ε α} {f : α → Except ε β} {b : β} :
    x.bind f = .ok b ↔ ∃ a, x = .ok a ∧ f a = .ok b := by
  cases x with
  | error | ok => simp [Except.bind]

theorem mapM_eq_some_iff : l.mapM f = some out ↔ Forall₂ (fun a b => f a = some b) l out := by
  constructor
  · intro h
    induction l generalizing out with
    | nil =>
      cases h
      exact .nil
    | cons a l ih =>
      rw [mapM_cons] at h
      obtain ⟨b, hb, h⟩ := Option.bind_eq_some_iff.mp h
      obtain ⟨bs, hbs, h⟩ := Option.bind_eq_some_iff.mp h
      cases h
      exact .cons hb (ih hbs)
  · intro h
    induction h with
    | nil => rfl
    | cons hab _ ih => rw [mapM_cons, hab, ih]; rfl

theorem exists_of_forall₂ {R : α → β → Prop} {b : β} (h : Forall₂ R l out) (hb : b ∈ out) :
    ∃ a ∈ l, R a b := by
  obtain ⟨hlen, hget⟩ := forall₂_iff_get.mp h
  obtain ⟨i, hi, rfl⟩ := mem_iff_getElem.mp hb
  exact ⟨l[i], getElem_mem _, hget i (hlen ▸ hi) hi⟩

theorem eq_map_of_mapM {g : α → β} (h : l.mapM f = some out)
    (hf : ∀ a ∈ l, ∀ b, f a = some b → b = g a) : out = l.map g := by
  have hall := mapM_eq_some_iff.mp h
  clear h
  induction hall with
  | nil => rfl
  | cons hab _ ih =>
    rw [hf _ mem_cons_self _ hab, ih fun a ha => hf a (mem_cons_of_mem _ ha), map_cons]

theorem mapM_map_option {α β γ : Type} (f : α → Option β) (g : β → γ) (l : List α) :
    l.mapM (fun x => (f x).map g) = (l.mapM f).map (map g) := by
  induction l with
  | nil => rfl
  | cons x xs ih =>
    rw [mapM_cons, mapM_cons, ih]
    cases f x <;> cases xs.mapM f <;> rfl

theorem filterMap_cons_toList (f : α → Option β) (a : α) (l : List α) :
    (a :: l).filterMap f = (f a).toList ++ l.filterMap f := by
  cases h : f a <;> simp [h]

theorem nodup_filterMap_iff :
    (l.filterMap f).Nodup ↔ ∀ (i j : Nat) (a b : α) (x : β), l[i]? = some a → l[j]? = some b → i ≠ j →
      f a = some x → f b ≠ some x := by
  rw [Nodup, pairwise_filterMap, pairwise_iff_getElem]
  constructor
  · intro h i j a b x hi hj hne ha hb
    obtain ⟨hi', rfl⟩ := List.getElem?_eq_some_iff.mp hi
    obtain ⟨hj', rfl⟩ := List.getElem?_eq_some_iff.mp hj
    rcases Nat.lt_or_gt_of_ne hne with hlt | hlt
    · exact h i j hi' hj' hlt x ha x hb rfl
    · exact h j i hj' hi' hlt x hb x ha rfl
  · rintro h i j hi hj hlt x ha y hb rfl
    exact h i j _ _ x (getElem?_eq_getElem hi) (getElem?_eq_getElem hj) (Nat.ne_of_lt hlt) ha hb

end Traverse
