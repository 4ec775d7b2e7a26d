import Mathlib.Data.List.Basic

/-! # Lists put together from fixed pieces and values

Fixed pieces and values follow each other in turn. The whole tells the values if these are free of
separators and every fixed piece between two of them has one. -/

namespace Weave

open List

variable {α : Type} {sep : α → Bool}

def Free (sep : α → Bool) (xs : List α) : Prop := ∀ x ∈ xs, sep x = false

theorem Free.append {xs ys : List α} (hx : Free sep xs) (hy : Free sep ys) : Free sep (xs ++ ys) :=
  fun x hmem => (mem_append.mp hmem).elim (hx x) (hy x)

theorem free_inj {xs ys us vs : List α} {a b : α} (hx : Free sep xs) (hy : Free sep ys) (ha : sep a = true)
    (hb : sep b = true) (h : xs ++ a :: us = ys ++ b :: vs) : xs = ys := by
  induction xs generalizing ys with
  | nil =>
    cases ys with
    | nil => rfl
    | cons y ys =>
      obtain rfl := (cons.inj h).1
      simp [hy a mem_cons_self] at ha
  | cons x xs ih =>
    cases ys with
    | nil =>
      obtain rfl := (cons.inj h).1
      simp [hx x mem_cons_self] at hb
    | cons y ys =>
      obtain ⟨rfl, htail⟩ := cons.inj h
      rw [ih (fun z hz => hx z (mem_cons_of_mem _ hz)) (fun z hz => hy z (mem_cons_of_mem _ hz))
        htail]

/-- The part before the first of two markers, whose first element does not come again in them. -/
theorem marker_inj {xs ys us vs w : List α} {a : α} (ha : a ∉ w) (hx : ¬ a :: w <:+: xs)
    (hy : ¬ a :: w <:+: ys) (h : xs ++ (a :: w ++ us) = ys ++ (a :: w ++ vs)) : xs = ys := by
  -- a marker that starts before the other one ends before it or has its first element again
  have hfirst : ∀ {us vs : List α} (y : α) (ys : List α), ¬ a :: w <:+: y :: ys →
      a :: w ++ us ≠ y :: ys ++ (a :: w ++ vs) := by
    intro us vs y ys hy h
    simp only [cons_append, cons.injEq] at h
    obtain ⟨rfl, htail⟩ := h
    have hys : ys <+: w ++ us := htail ▸ prefix_append ys _
    rcases prefix_or_prefix_of_prefix (prefix_append w us) hys with hle | ⟨zs, rfl⟩
    · exact hy (cons_prefix_cons.mpr ⟨rfl, hle⟩).isInfix
    · cases zs with
      | nil => exact hy (by simp)
      | cons z zs =>
        rw [append_assoc, append_cancel_left_eq] at htail
        exact ha (by simp [(cons.inj htail).1])
  induction xs generalizing ys with
  | nil =>
    cases ys with
    | nil => rfl
    | cons y ys => exact absurd h (hfirst y ys hy)
  | cons x xs ih =>
    cases ys with
    | nil => exact absurd h.symm (hfirst x xs hx)
    | cons y ys =>
      obtain ⟨rfl, htail⟩ := cons.inj h
      rw [ih (fun hin => hx (infix_cons hin)) (fun hin => hy (infix_cons hin)) htail]

theorem exists_separator {xs : List α} (h : ∃ x ∈ xs, sep x = true) :
    ∃ us a vs, xs = us ++ a :: vs ∧ Free sep us ∧ sep a = true := by
  induction xs with
  | nil => simp at h
  | cons x xs ih =>
    cases hx : sep x with
    | true => exact ⟨[], x, xs, rfl, by simp [Free], hx⟩
    | false =>
      obtain ⟨us, a, vs, rfl, hus, ha⟩ := ih (by simpa [hx] using h)
      exact ⟨x :: us, a, vs, rfl, by simpa [Free, hx] using hus, ha⟩

/-- Fixed pieces, each with the value that follows it, in turn. -/
def weave (pieces : List (List α × List α)) : List α := pieces.flatMap fun piece => piece.1 ++ piece.2

theorem weave_cons (piece : List α × List α) (pieces : List (List α × List α)) :
    weave (piece :: pieces) = piece.1 ++ (piece.2 ++ weave pieces) := by
  simp [weave]

/-- Two ways to fill in the same fixed pieces; the last of them may close the list without a value. -/
inductive Alternates (sep : α → Bool) : List (List α × List α) → List (List α × List α) → Prop
  | nil : Alternates sep [] []
  | last (fixed u v : List α) : Alternates sep [(fixed, u)] [(fixed, v)]
  | close (fixed u v closing : List α) :
    Alternates sep [(fixed, u), (closing, [])] [(fixed, v), (closing, [])]
  | cons {fixed next u v u' v' : List α} {xs ys : List (List α × List α)} (hu : Free sep u)
    (hv : Free sep v) (hnext : ∃ x ∈ next, sep x = true)
    (h : Alternates sep ((next, u') :: xs) ((next, v') :: ys)) :
    Alternates sep ((fixed, u) :: (next, u') :: xs) ((fixed, v) :: (next, v') :: ys)

theorem Alternates.weave_inj {xs ys : List (List α × List α)} (h : Alternates sep xs ys)
    (heq : weave xs = weave ys) : xs = ys := by
  induction h with
  | nil => rfl
  | last | close => simpa [weave] using heq
  | @cons fixed next u v u' v' xs ys hu hv hnext _ ih =>
    obtain ⟨us, a, vs, rfl, hus, ha⟩ := exists_separator hnext
    rw [weave_cons, weave_cons (fixed, v), append_cancel_left_eq] at heq
    dsimp only at heq
    -- up to the first separator of the next piece both sides are free of separators
    have hfirst : (u ++ us) ++ a :: (vs ++ (u' ++ weave xs)) =
        (v ++ us) ++ a :: (vs ++ (v' ++ weave ys)) := by
      simpa [weave_cons] using heq
    have huv : u = v := append_cancel_right (free_inj (hu.append hus) (hv.append hus) ha ha hfirst)
    subst huv
    rw [ih (append_cancel_left heq)]

end Weave
