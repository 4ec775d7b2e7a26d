import Mathlib.Data.List.Basic

/-! # Names that end in a numeral

Read from its end, such a name gives its number back: the numeral stops at the first character
that is no digit. -/

namespace Numeral

open List

theorem isDigit_of_mem_reverse (n : Nat) :
    ∀ c ∈ (Nat.toDigits 10 n).reverse, c.isDigit = true := fun _ hc =>
  Nat.isDigit_of_mem_toDigits (by decide) (by decide) (mem_reverse.mp hc)

variable {c : Char}

theorem takeWhile_isDigit (hc : c.isDigit = false) (n : Nat) (xs : List Char) :
    ((Nat.toDigits 10 n).reverse ++ c :: xs).takeWhile Char.isDigit =
      (Nat.toDigits 10 n).reverse := by
  rw [takeWhile_append_of_pos (isDigit_of_mem_reverse n),
    takeWhile_cons_of_neg (by simp [hc]), append_nil]

theorem dropWhile_isDigit (hc : c.isDigit = false) (n : Nat) (xs : List Char) :
    ((Nat.toDigits 10 n).reverse ++ c :: xs).dropWhile Char.isDigit = c :: xs := by
  rw [dropWhile_append_of_pos (isDigit_of_mem_reverse n),
    dropWhile_cons_of_neg (by simp [hc])]

/-- A name made of a stem, a character that is no digit and a numeral has only one reading. -/
theorem append_toDigits_inj {xs ys : List Char} (hc : c.isDigit = false) {m n : Nat}
    (h : xs ++ c :: Nat.toDigits 10 m = ys ++ c :: Nat.toDigits 10 n) : xs = ys ∧ m = n := by
  have hrev : (Nat.toDigits 10 m).reverse ++ c :: xs.reverse =
      (Nat.toDigits 10 n).reverse ++ c :: ys.reverse := by
    simpa using congrArg reverse h
  have hnum : (Nat.toDigits 10 m).reverse = (Nat.toDigits 10 n).reverse := by
    rw [← takeWhile_isDigit hc m xs.reverse, ← takeWhile_isDigit hc n ys.reverse, hrev]
  rw [hnum, append_cancel_left_eq] at hrev
  refine ⟨reverse_injective (cons_injective hrev), ?_⟩
  simpa using congrArg (fun ds => Nat.ofDigitChars 10 ds 0) (reverse_injective hnum)

theorem replicate_append_toDigits_inj {i j m n : Nat}
    (h : replicate i '0' ++ Nat.toDigits 10 m = replicate j '0' ++ Nat.toDigits 10 n) : m = n := by
  have hvalue : ∀ i k : Nat,
      Nat.ofDigitChars 10 (replicate i '0' ++ Nat.toDigits 10 k) 0 = k := by
    intro i k
    induction i with
    | zero => simp
    | succ i ih => simpa [replicate_succ, Nat.ofDigitChars_cons] using ih
  rw [← hvalue i m, h, hvalue]

theorem append_toDigits_ne {xs ys : List Char} {d : Char} (hc : c.isDigit = false)
    (hd : d.isDigit = false) (hcd : c ≠ d) (m n : Nat) :
    xs ++ c :: Nat.toDigits 10 m ≠ ys ++ d :: Nat.toDigits 10 n := by
  intro h
  have hrev : (Nat.toDigits 10 m).reverse ++ c :: xs.reverse =
      (Nat.toDigits 10 n).reverse ++ d :: ys.reverse := by
    simpa using congrArg reverse h
  have hdrop := congrArg (dropWhile Char.isDigit) hrev
  rw [dropWhile_isDigit hc, dropWhile_isDigit hd] at hdrop
  exact hcd (cons.inj hdrop).1

/-- What follows a numeral and is no digit has no part in a numeral it starts with. -/
theorem toDigits_prefix_append (hc : c.isDigit = false) (m n : Nat) (xs : List Char) :
    Nat.toDigits 10 m <+: Nat.toDigits 10 n ++ c :: xs ↔ Nat.toDigits 10 m <+: Nat.toDigits 10 n := by
  refine ⟨fun h => ?_, fun h => h.trans (prefix_append _ _)⟩
  rcases prefix_or_prefix_of_prefix h (prefix_append _ _) with hmn | hnm
  · exact hmn
  · obtain ⟨ys, hys⟩ := hnm
    rw [← hys, prefix_append_right_inj] at h
    cases ys with
    | nil => simp [← hys]
    | cons y ys =>
      obtain ⟨rfl, -⟩ := cons_prefix_cons.mp h
      have hdigit : y.isDigit = true := Nat.isDigit_of_mem_toDigits (by decide) (by decide)
        (show y ∈ Nat.toDigits 10 m by simp [← hys])
      rw [hc] at hdigit
      cases hdigit

end Numeral
