import Mathlib.Data.List.Pairwise
import Mathlib.Data.List.Sort

/-! # Sorting by several comparisons

A merge sort by a total order, up to elements that it calls equal, gives the elements in order and
leaves equal ones in the order they came in. -/

namespace StableSort

open List
open Std (TransCmp OrientedCmp)

variable {α : Type*} {cmp cmp' : α → α → Ordering} {xs : List α}

def sorted (cmp : α → α → Ordering) (xs : List α) : List α := xs.mergeSort fun x y => (cmp x y).isLE

section

variable [TransCmp cmp]

theorem le_total (x y : α) : ((cmp x y).isLE || (cmp y x).isLE) = true := by
  rw [@OrientedCmp.eq_swap _ cmp _ x y]
  cases cmp y x <;> rfl

theorem pairwise_sorted (xs : List α) : (sorted cmp xs).Pairwise fun x y => (cmp x y).isLE = true :=
  pairwise_mergeSort (fun _ _ _ => TransCmp.isLE_trans) le_total xs

/-- Elements that are equal to `x` stay in their order. -/
theorem filter_sorted (xs : List α) (x : α) :
    (sorted cmp xs).filter (cmp x · = .eq) = xs.filter (cmp x · = .eq) := by
  have htied : (xs.filter (cmp x · = .eq)).Pairwise fun y z => (cmp y z).isLE = true := by
    refine pairwise_of_forall_mem_list fun y hy z hz => ?_
    have hxy := of_decide_eq_true (mem_filter.mp hy).2
    have hxz := of_decide_eq_true (mem_filter.mp hz).2
    rw [← TransCmp.congr_left hxy, hxz]
    rfl
  have hsub := (sublist_mergeSort (fun _ _ _ => TransCmp.isLE_trans) le_total htied
    filter_sublist).filter (cmp x · = .eq)
  simp only [filter_filter, Bool.and_self] at hsub
  refine (Sublist.eq_of_length hsub ?_).symm
  exact ((mergeSort_perm xs _).filter _).length_eq.symm

/-- Two orders that a list is in do not order two of its elements in opposite ways. -/
theorem agree [TransCmp cmp'] (h : xs.Pairwise fun x y => (cmp x y).isLE = true)
    (h' : xs.Pairwise fun x y => (cmp' x y).isLE = true) {x y : α} (hx : x ∈ xs) (hy : y ∈ xs)
    (hxy : cmp' x y = (cmp x y).swap) : cmp x y = .eq := by
  let Agree (x y : α) : Prop := cmp' x y = (cmp x y).swap → cmp x y = .eq
  have hsymm : Std.Symm Agree := ⟨fun x y hxy hyx => by
    rw [@OrientedCmp.eq_swap _ cmp _ y x, @OrientedCmp.eq_swap _ cmp' _ y x] at hyx
    rw [@OrientedCmp.eq_swap _ cmp _ y x, hxy (Ordering.swap_inj.mp hyx)]
    rfl⟩
  have hpairs : xs.Pairwise Agree := (h.and h').imp fun {x y} hle hopposite => by
    rw [hopposite] at hle
    revert hle
    cases cmp x y <;> simp
  exact hpairs.forall_of_forall (fun x _ _ => Std.ReflCmp.compare_self) hx hy hxy

end

theorem mergeSort_eq_sorted {cmp? : α → α → Option Ordering}
    (h : ∀ x ∈ xs, ∀ y ∈ xs, cmp? x y = some (cmp x y)) :
    xs.mergeSort (fun x y => cmp? x y ≠ some .gt) = sorted cmp xs := by
  have hmap := map_mergeSort (f := id) (l := xs) (r := fun x y => decide (cmp? x y ≠ some .gt))
    (s := fun x y => (cmp x y).isLE) fun x hx y hy => by
      rw [h x hx y hy, id, id]
      cases cmp x y <;> rfl
  rwa [map_id, map_id] at hmap

/-- The first comparison that tells two elements apart decides. -/
def lex (cmps : List (α → α → Ordering)) : α → α → Ordering := cmps.foldr compareLex fun _ _ => .eq

theorem lex_trans {cmps : List (α → α → Ordering)} (h : ∀ cmp ∈ cmps, TransCmp cmp) :
    TransCmp (lex cmps) := by
  induction cmps with
  | nil => exact { eq_swap := rfl, isLE_trans := fun h _ => h }
  | cons cmp cmps ih =>
    have hcmp := h cmp mem_cons_self
    have hrest := ih fun c hc => h c (mem_cons_of_mem cmp hc)
    exact inferInstanceAs (TransCmp (compareLex cmp (lex cmps)))

end StableSort
