import Mathlib.Algebra.GroupWithZero.Nat
import Mathlib.Algebra.BigOperators.Group.List.Basic
import Tram.Lib.Dict

/-! # Dictionaries of dictionaries

Read by its two keys at once, a dictionary of dictionaries is a finite partial function. Its
entries, as one list, are determined by that function up to order, so that sums over the entries
follow from pointwise facts about lookups. -/

namespace Nested

open List Dict

variable {α β γ δ : Type*} [DecidableEq α] [DecidableEq β] {d : Dict α (Dict β γ)}

def look (d : Dict α (Dict β γ)) (a : α) (b : β) : Option γ := (d.lookup a).bind (·.lookup b)

/-- `d.setdefault(a, {})[b] = c` -/
def put (d : Dict α (Dict β γ)) (a : α) (b : β) (c : γ) : Dict α (Dict β γ) :=
  d.insert a (((d.lookup a).getD ∅).insert b c)

/-- `d[a].pop(b)`, and `d.pop(a)` if that leaves `d[a]` empty. -/
def pop (d : Dict α (Dict β γ)) (a : α) (b : β) : Dict α (Dict β γ) :=
  match d.lookup a with
  | none => d
  | some inner => if (inner.erase b).entries.isEmpty then d.erase a else d.insert a (inner.erase b)

def pairs (d : Dict α (Dict β γ)) : List ((α × β) × γ) :=
  d.entries.flatMap fun e => e.2.entries.map fun f => ((e.1, f.1), f.2)

theorem look_put (d : Dict α (Dict β γ)) (a a' : α) (b b' : β) (c : γ) :
    look (put d a b c) a' b' = if a' = a ∧ b' = b then some c else look d a' b' := by
  unfold look put
  rw [lookup_insert_ite]
  by_cases ha : a' = a
  · subst ha
    simp only [if_true, Option.bind_some, lookup_insert_ite, true_and]
    cases d.lookup a' with
    | none => simp
    | some inner => rfl
  · simp [ha]

theorem look_pop (d : Dict α (Dict β γ)) (a a' : α) (b b' : β) :
    look (pop d a b) a' b' = if a' = a ∧ b' = b then none else look d a' b' := by
  unfold pop
  cases hd : d.lookup a with
  | none =>
    by_cases ha : a' = a
    · subst ha
      simp [look, hd]
    · simp [ha]
  | some inner =>
    have hinner : ∀ b', (inner.erase b).lookup b' = if b' = b then none else inner.lookup b' :=
      lookup_erase_ite inner b
    by_cases ha : a' = a
    · subst ha
      simp only [true_and]
      split_ifs with hempty hb hb
      · simp [look]
      · -- the inner dictionary is empty, so its other keys were absent
        have hnone : (inner.erase b).lookup b' = none := by
          rw [AList.lookup_eq_none, AList.mem_keys, AList.keys]
          simp [isEmpty_iff.mp hempty]
        rw [hinner, if_neg hb] at hnone
        simp [look, hd, hnone]
      · simp [look, hinner, hb]
      · simp [look, hd, hinner, hb]
    · simp only [ha, false_and, if_false]
      split_ifs
      · simp [look, ha]
      · simp [look, ha]

theorem mem_pairs {a : α} {b : β} {c : γ} : ((a, b), c) ∈ pairs d ↔ look d a b = some c := by
  simp only [pairs, mem_flatMap, mem_map, Prod.mk.injEq, look, Option.bind_eq_some_iff]
  constructor
  · rintro ⟨⟨a', inner⟩, ha, ⟨b', c'⟩, hb, ⟨rfl, rfl⟩, rfl⟩
    exact ⟨inner, mem_entries.mp ha, mem_entries.mp hb⟩
  · rintro ⟨inner, ha, hb⟩
    exact ⟨⟨a, inner⟩, mem_entries.mpr ha, ⟨b, c⟩, mem_entries.mpr hb, ⟨rfl, rfl⟩, rfl⟩

omit [DecidableEq α] [DecidableEq β] in
theorem pairs_mapTo (f : γ → δ) (d : Dict α (Dict β γ)) :
    pairs (mapTo (mapTo f) d) = (pairs d).map fun e => (e.1, f e.2) := by
  simp only [pairs, mapTo, flatMap_map, map_flatMap]
  refine flatMap_congr fun e _ => ?_
  simp only [mapEntry, mapTo, map_map]
  rfl

omit [DecidableEq α] [DecidableEq β] in
theorem nodup_pairs (d : Dict α (Dict β γ)) : (pairs d).Nodup := by
  refine nodup_flatMap.mpr ⟨?_, ?_⟩
  · rintro ⟨a, inner⟩ -
    refine inner.nodupKeys.nodup.map ?_
    rintro ⟨b, c⟩ ⟨b', c'⟩ heq
    simp only [Prod.mk.injEq, true_and] at heq
    obtain ⟨rfl, rfl⟩ := heq
    rfl
  · refine (nodupKeys_iff_pairwise.mp d.nodupKeys).imp ?_
    rintro ⟨a, inner⟩ ⟨a', inner'⟩ hne
    refine disjoint_left.mpr fun x hx hx' => hne ?_
    obtain ⟨f, _, hf⟩ := mem_map.mp hx
    obtain ⟨f', _, hf'⟩ := mem_map.mp hx'
    have heq := hf.trans hf'.symm
    simp only [Prod.mk.injEq] at heq
    exact heq.1.1

theorem pairs_split {d' : Dict α (Dict β γ)} {l : List ((α × β) × γ)} (hl : l.Nodup)
    (h : ∀ a b c, look d a b = some c ↔ ((a, b), c) ∈ l ∨ look d' a b = some c)
    (hdisj : ∀ a b c, ((a, b), c) ∈ l → look d' a b = none) : (pairs d).Perm (l ++ pairs d') := by
  refine (perm_ext_iff_of_nodup (nodup_pairs d) ?_).mpr ?_
  · refine nodup_append'.mpr ⟨hl, nodup_pairs d', ?_⟩
    rintro ⟨⟨a, b⟩, c⟩ hmem hmem'
    have hnone := hdisj a b c hmem
    rw [mem_pairs.mp hmem'] at hnone
    cases hnone
  · rintro ⟨⟨a, b⟩, c⟩
    rw [mem_append, mem_pairs, mem_pairs]
    exact h a b c

theorem pairs_perm {d' : Dict α (Dict β γ)} (h : ∀ a b, look d a b = look d' a b) :
    (pairs d).Perm (pairs d') :=
  pairs_split nodup_nil (fun a b c => by simp [h]) (by simp)

theorem pairs_of_look {a : α} {b : β} {c : γ} (h : look d a b = some c) :
    (pairs d).Perm (((a, b), c) :: pairs (pop d a b)) := by
  refine pairs_split (nodup_singleton _) ?_ ?_
  · intro a' b' c'
    rw [look_pop, mem_singleton, Prod.mk.injEq, Prod.mk.injEq]
    by_cases hab : a' = a ∧ b' = b
    · obtain ⟨rfl, rfl⟩ := hab
      simp [h, eq_comm]
    · simp [hab]
  · intro a' b' c' hmem
    rw [mem_singleton, Prod.mk.injEq, Prod.mk.injEq] at hmem
    rw [look_pop, if_pos hmem.1]

theorem sum_put (f : γ → Nat) (d : Dict α (Dict β γ)) (a : α) (b : β) (c : γ) :
    ((pairs (put d a b c)).map fun e => f e.2).sum + ((look d a b).map f).getD 0 =
      ((pairs d).map fun e => f e.2).sum + f c := by
  have hput : look (put d a b c) a b = some c := by rw [look_put, if_pos ⟨rfl, rfl⟩]
  have hrest : (pairs (pop (put d a b c) a b)).Perm (pairs (pop d a b)) := by
    refine pairs_perm fun a' b' => ?_
    rw [look_pop, look_pop, look_put]
    split_ifs <;> rfl
  have hnew := (((pairs_of_look hput).trans (hrest.cons _)).map fun e => f e.2).sum_eq
  simp only [map_cons, sum_cons] at hnew
  cases hold : look d a b with
  | none =>
    have hsame : (pairs (pop d a b)).Perm (pairs d) := by
      refine pairs_perm fun a' b' => ?_
      rw [look_pop]
      split_ifs with hab
      · rw [hab.1, hab.2, hold]
      · rfl
    have hsum := (hsame.map fun e => f e.2).sum_eq
    simp only [Option.map_none, Option.getD_none]
    omega
  | some c₀ =>
    have hsum := ((pairs_of_look hold).map fun e => f e.2).sum_eq
    simp only [map_cons, sum_cons] at hsum
    simp only [Option.map_some, Option.getD_some]
    omega

end Nested
