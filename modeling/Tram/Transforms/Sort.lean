import Tram.Lib.StableSort
import Tram.Transforms.Stateless

/-! # What sort orders

The key of a record starts, for each field, with whether the field has a value. `reverse` turns the
comparison of keys around as a whole, so the records without a value, which come first in ascending
order, come last in descending order. -/

namespace Tram.Stateless

open List
open StableSort (lex sorted)

open Std (TransCmp OrientedCmp)

/-- A total order on the values of each field, up to values that are equal in it. -/
structure ValueOrder where
  cmp : String → Json → Json → Ordering
  trans : ∀ field, TransCmp (cmp field)

namespace ValueOrder

variable (order : ValueOrder)

instance (field : String) : TransCmp (order.cmp field) := order.trans field

/-- Python compares the values of the rows, other than `None`, by this order. -/
def Compares (fields : List String) (rows : List Row) : Prop :=
  ∀ field ∈ fields, ∀ a ∈ rows, ∀ b ∈ rows, (a.2.get field).isNull = false →
    (b.2.get field).isNull = false →
    (a.2.get field).compare? (b.2.get field) = some (order.cmp field (a.2.get field) (b.2.get field))

def values (reverse : Bool) (field : String) (a b : Row) : Ordering :=
  if reverse then order.cmp field (b.2.get field) (a.2.get field)
  else order.cmp field (a.2.get field) (b.2.get field)

/-- Two rows by one field: a missing value comes first, in either direction. -/
def field (reverse : Bool) (field : String) (a b : Row) : Ordering :=
  match (a.2.get field).isNull, (b.2.get field).isNull with
  | true, true => .eq
  | true, false => .lt
  | false, true => .gt
  | false, false => order.values reverse field a b

/-- Two rows by some fields, the first one that tells them apart deciding. -/
def rows (fields : List String) (reverse : Bool) : Row → Row → Ordering :=
  lex (fields.map (order.field reverse))

/-- A stable permutation of the rows that is in order. -/
structure Sorts (fields : List String) (reverse : Bool) (rows out : List Row) : Prop where
  perm : out.Perm rows
  ordered : out.Pairwise fun a b => (order.rows fields reverse a b).isLE = true
  stable : ∀ row, out.filter (order.rows fields reverse row · = .eq) =
    rows.filter (order.rows fields reverse row · = .eq)

/-- On the first field that tells two rows apart, one of them has no value. -/
def Splits : List String → Row → Row → Prop
  | [], _, _ => False
  | field :: fields, a, b =>
    (a.2.get field).isNull ≠ (b.2.get field).isNull ∨
      order.field false field a b = .eq ∧ Splits fields a b

def keys (fields : List String) (reverse : Bool) (a b : Row) : Ordering :=
  if reverse then order.rows fields false b a else order.rows fields false a b

theorem field_eq_compareLex (reverse : Bool) (field : String) : order.field reverse field =
    compareLex (compareOn fun row => !(row.2.get field).isNull) (order.values reverse field) := by
  have hnull : ∀ {v : Json}, v.isNull = true → v = .null := fun {v} h => by cases v <;> first | rfl | cases h
  funext a b
  simp only [ValueOrder.field, compareLex, compareOn]
  cases ha : (a.2.get field).isNull <;> cases hb : (b.2.get field).isNull
  · rfl
  · rfl
  · rfl
  · simp [values, hnull ha, hnull hb, Std.ReflCmp.compare_self]

instance (reverse : Bool) (field : String) : TransCmp (order.field reverse field) := by
  rw [field_eq_compareLex]
  have hvalues : TransCmp (order.values false field) :=
    { eq_swap {_ _} := @OrientedCmp.eq_swap _ (order.cmp field) _ _ _
      isLE_trans {_ _ _} := @TransCmp.isLE_trans _ (order.cmp field) _ _ _ _ }
  cases reverse with
  | false => exact inferInstanceAs (TransCmp (compareLex _ (order.values false field)))
  | true => exact inferInstanceAs (TransCmp (compareLex _ fun a b => order.values false field b a))

instance (fields : List String) (reverse : Bool) : TransCmp (order.rows fields reverse) := by
  refine StableSort.lex_trans fun cmp hcmp => ?_
  obtain ⟨field, -, rfl⟩ := mem_map.mp hcmp
  infer_instance

instance (fields : List String) : ∀ reverse, TransCmp (order.keys fields reverse)
  | false => inferInstanceAs (TransCmp (order.rows fields false))
  | true => inferInstanceAs (TransCmp fun a b => order.rows fields false b a)

variable {order} {fields : List String} {rs : List Row} {a b : Row}

theorem compareKeys?_sortKey (h : order.Compares fields rs) (ha : a ∈ rs) (hb : b ∈ rs) :
    compareKeys? (sortKey fields a.2) (sortKey fields b.2) = some (order.rows fields false a b) := by
  induction fields with
  | nil => rfl
  | cons field fields ih =>
    have htail := ih fun f hf => h f (mem_cons_of_mem field hf)
    have hhead := h field mem_cons_self a ha b hb
    have hrows : order.rows (field :: fields) false a b =
        (order.field false field a b).then (order.rows fields false a b) := rfl
    rw [hrows]
    unfold ValueOrder.field
    simp only [sortKey, map_cons] at htail ⊢
    cases hna : (a.2.get field).isNull <;> cases hnb : (b.2.get field).isNull
    · simp only [Bool.false_eq_true, if_false, compareKeys?, hhead hna hnb, values]
      cases order.cmp field (a.2.get field) (b.2.get field)
      · rfl
      · exact htail
      · rfl
    · rfl
    · rfl
    · exact htail

theorem sort_eq (h : order.Compares fields rs) {reverse : Bool} {cmp : Row → Row → Ordering}
    (hcmp : ∀ a ∈ rs, ∀ b ∈ rs, order.keys fields reverse a b = cmp a b) :
    sort fields reverse rs = .ok (sorted cmp rs) := by
  have hkeys : ∀ a ∈ rs, ∀ b ∈ rs, compareKeys? (sortKey fields a.2) (sortKey fields b.2) =
      some (order.rows fields false a b) := fun a ha b hb => compareKeys?_sortKey h ha hb
  have hsome : rs.all fun a => rs.all fun b =>
      (compareKeys? (sortKey fields a.2) (sortKey fields b.2)).isSome := by
    simp only [all_eq_true]
    intro a ha b hb
    rw [hkeys a ha b hb]
    rfl
  rw [sort, if_pos hsome, StableSort.mergeSort_eq_sorted fun a ha b hb => ?_]
  rw [← hcmp a ha b hb]
  cases reverse with
  | false => exact hkeys a ha b hb
  | true => exact hkeys b hb a ha

theorem field_reverse {field : String} (h : (a.2.get field).isNull = (b.2.get field).isNull) :
    order.field false field b a = order.field true field a b := by
  simp only [ValueOrder.field, h]
  cases (b.2.get field).isNull <;> rfl

/-- Where no row stands out for a missing value, turning the keys around turns the order around. -/
theorem keys_eq_rows (h : ¬ order.Splits fields a b) :
    order.keys fields true a b = order.rows fields true a b := by
  induction fields with
  | nil => rfl
  | cons field fields ih =>
    obtain ⟨hnull, hrest⟩ := not_or.mp h
    show (order.field false field b a).then (order.keys fields true a b) =
      (order.field true field a b).then (order.rows fields true a b)
    rw [← field_reverse (not_not.mp hnull)]
    cases hcmp : order.field false field b a with
    | lt | gt => rfl
    | eq => exact ih fun hs => hrest ⟨OrientedCmp.eq_comm.mp hcmp, hs⟩

/-- Where one does, the two orders are opposite. -/
theorem keys_eq_swap (h : order.Splits fields a b) : order.keys fields true a b ≠ .eq ∧
    order.rows fields true a b = (order.keys fields true a b).swap := by
  induction fields with
  | nil => exact h.elim
  | cons field fields ih =>
    show (order.field false field b a).then (order.keys fields true a b) ≠ .eq ∧
      (order.field true field a b).then (order.rows fields true a b) =
        ((order.field false field b a).then (order.keys fields true a b)).swap
    by_cases hnull : (a.2.get field).isNull = (b.2.get field).isNull
    · obtain ⟨heq, hrest⟩ := h.resolve_left (not_not.mpr hnull)
      rw [← field_reverse hnull, OrientedCmp.eq_comm.mp heq]
      exact ih hrest
    · simp only [ValueOrder.field]
      revert hnull
      cases (a.2.get field).isNull <;> cases (b.2.get field).isNull <;> simp

theorem not_sorts_of_splits (h : order.Compares fields rs) (ha : a ∈ rs) (hb : b ∈ rs)
    (hsplits : order.Splits fields a b) :
    ¬ ∃ out, sort fields true rs = .ok out ∧ order.Sorts fields true rs out := by
  rintro ⟨out, hout, hsorts⟩
  rw [sort_eq h fun _ _ _ _ => rfl] at hout
  cases hout
  obtain ⟨hne, hswap⟩ := keys_eq_swap hsplits
  exact hne (StableSort.agree (StableSort.pairwise_sorted rs) hsorts.ordered (hsorts.perm.mem_iff.mpr ha)
    (hsorts.perm.mem_iff.mpr hb) hswap)

/-- Sorting is as specified exactly when it is ascending or no two rows are told apart by a missing
value. -/
theorem sort_sorts_iff (h : order.Compares fields rs) (reverse : Bool) :
    (∃ out, sort fields reverse rs = .ok out ∧ order.Sorts fields reverse rs out) ↔
      (reverse = true → ∀ a ∈ rs, ∀ b ∈ rs, ¬ order.Splits fields a b) := by
  constructor
  · rintro hout rfl a ha b hb hsplits
    exact not_sorts_of_splits h ha hb hsplits hout
  · intro hsplits
    have hsame : ∀ a ∈ rs, ∀ b ∈ rs, order.keys fields reverse a b = order.rows fields reverse a b := by
      intro a ha b hb
      cases reverse with
      | false => rfl
      | true => exact keys_eq_rows (hsplits rfl a ha b hb)
    exact ⟨_, sort_eq h hsame, mergeSort_perm rs _, StableSort.pairwise_sorted rs,
      StableSort.filter_sorted rs⟩

def byInt : ValueOrder := ⟨fun _ => compareOn fun v : Json => v.toInt?.getD 0, fun _ => inferInstance⟩

def twoAndNone : List Row := [(0, [("n", .int 2)]), (1, []), (2, [("n", .int 1)])]

theorem byInt_compares : byInt.Compares ["n"] twoAndNone := by
  unfold Compares
  decide +kernel

theorem sort_sorts_ascending : byInt.Compares ["n"] twoAndNone ∧
    ∃ out, sort ["n"] false twoAndNone = .ok out ∧ byInt.Sorts ["n"] false twoAndNone out :=
  ⟨byInt_compares, (sort_sorts_iff byInt_compares false).mpr nofun⟩

/-- In descending order the rows with a value come first. -/
theorem descending_puts_none_last : byInt.Compares ["n"] twoAndNone ∧
    ¬ ∃ out, sort ["n"] true twoAndNone = .ok out ∧ byInt.Sorts ["n"] true twoAndNone out :=
  ⟨byInt_compares, not_sorts_of_splits byInt_compares (a := (0, [("n", .int 2)])) (b := (1, []))
    (by simp [twoAndNone]) (by simp [twoAndNone]) (.inl (by decide))⟩

end ValueOrder

end Tram.Stateless
