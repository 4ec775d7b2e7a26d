import Tram.Lib.Traverse

/-! # Functions that work row by row

A function on lists that may fail distributes over `++` when the result of a list is made of the
results of its parts. Such functions compose, and their result is the concatenation of what they
make of each element alone. -/

namespace Rowwise

open List
open Traverse (bind_eq_ok)

variable {α β γ ε : Type*}

variable {out : List β} {g : List α → Except ε (List β)} {xs : List α}

/-- Every element is replaced by what `f` makes of it; the first failure is the result. -/
def each (f : α → Except ε (List β)) : List α → Except ε (List β)
  | [] => .ok []
  | x :: xs => (f x).bind fun ys => (each f xs).bind fun rest => .ok (ys ++ rest)

theorem mem_of_each {f : α → Except ε (List β)} (h : each f xs = .ok out) {y : β} (hy : y ∈ out) :
    ∃ x ∈ xs, ∃ ys, f x = .ok ys ∧ y ∈ ys := by
  induction xs generalizing out with
  | nil =>
    cases h
    cases hy
  | cons x xs ih =>
    obtain ⟨ys, hys, h⟩ := bind_eq_ok.mp h
    obtain ⟨rest, hrest, h⟩ := bind_eq_ok.mp h
    cases h
    rcases mem_append.mp hy with hhead | htail
    · exact ⟨x, mem_cons_self, ys, hys, hhead⟩
    · obtain ⟨x', hx', hfound⟩ := ih hrest htail
      exact ⟨x', mem_cons_of_mem x hx', hfound⟩

def Distributes (g : List α → Except ε (List β)) : Prop :=
  ∀ xs ys out, g (xs ++ ys) = .ok out ↔ ∃ a b, g xs = .ok a ∧ g ys = .ok b ∧ out = a ++ b

theorem distributes_each (f : α → Except ε (List β)) : Distributes (each f) := by
  intro xs ys out
  induction xs generalizing out with
  | nil => simp [each]
  | cons x xs ih =>
    simp only [cons_append, each, bind_eq_ok, ih, Except.ok.injEq]
    constructor
    · rintro ⟨a, ha, _, ⟨b, c, hb, hc, rfl⟩, rfl⟩
      exact ⟨a ++ b, c, ⟨a, ha, b, hb, rfl⟩, hc, (append_assoc a b c).symm⟩
    · rintro ⟨_, c, ⟨a, ha, b, hb, rfl⟩, hc, rfl⟩
      exact ⟨a, ha, b ++ c, ⟨b, c, hb, hc, rfl⟩, (append_assoc a b c).symm⟩

theorem distributes_ok : Distributes (Except.ok : List α → Except ε (List α)) := by
  intro xs ys out
  simp [eq_comm]

theorem distributes_error (e : ε) : Distributes fun _ : List α => (.error e : Except ε (List β)) := by
  intro xs ys out
  simp

theorem Distributes.bind {h : List β → Except ε (List γ)} (hg : Distributes g)
    (hh : Distributes h) : Distributes fun xs => (g xs).bind h := by
  intro xs ys out
  simp only [bind_eq_ok]
  constructor
  · rintro ⟨m, hm, hout⟩
    obtain ⟨a, b, ha, hb, rfl⟩ := (hg xs ys m).mp hm
    obtain ⟨c, d, hc, hd, rfl⟩ := (hh a b out).mp hout
    exact ⟨c, d, ⟨a, ha, hc⟩, ⟨b, hb, hd⟩, rfl⟩
  · rintro ⟨c, d, ⟨a, ha, hc⟩, ⟨b, hb, hd⟩, rfl⟩
    exact ⟨a ++ b, (hg xs ys _).mpr ⟨a, b, ha, hb, rfl⟩, (hh a b _).mpr ⟨c, d, hc, hd, rfl⟩⟩

theorem Distributes.nil (hg : Distributes g) (h : g [] = .ok out) : out = [] := by
  obtain ⟨a, b, ha, hb, hout⟩ := (hg [] [] out).mp h
  obtain rfl : out = a := Except.ok.inj (h.symm.trans ha)
  obtain rfl : out = b := Except.ok.inj (h.symm.trans hb)
  exact self_eq_append_left.mp hout

theorem Distributes.singletons (hg : Distributes g) (h : g xs = .ok out) :
    ∃ outs, Forall₂ (fun x o => g [x] = .ok o) xs outs ∧ out = outs.flatten := by
  induction xs generalizing out with
  | nil => exact ⟨[], .nil, hg.nil h⟩
  | cons x xs ih =>
    obtain ⟨a, b, ha, hb, rfl⟩ := (hg [x] xs out).mp h
    obtain ⟨outs, houts, rfl⟩ := ih hb
    exact ⟨a :: outs, .cons ha houts, rfl⟩

end Rowwise
