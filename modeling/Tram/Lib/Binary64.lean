import Mathlib.Data.Int.Log
import Mathlib.Data.Rat.Floor
import Mathlib.Tactic.Positivity

/-! # Rounding to binary64

A float in the normal range is a rational with a 53 bit significand. `round` is the
round-half-to-even of a rational to such a number, which is what a division of two integers and a
product of two floats return. Overflow and subnormal numbers are outside the definition. -/

namespace Binary64

def roundHalfEven (x : ℚ) : ℤ :=
  if Int.fract x < 1 / 2 then ⌊x⌋
  else if 1 / 2 < Int.fract x then ⌊x⌋ + 1
  else if ⌊x⌋ % 2 = 0 then ⌊x⌋ else ⌊x⌋ + 1

theorem floor_le_roundHalfEven (x : ℚ) : ⌊x⌋ ≤ roundHalfEven x := by
  unfold roundHalfEven
  split_ifs <;> omega

/-- The exponent of the last place of a number with the magnitude of `q`. -/
def lastPlace (q : ℚ) : ℤ := Int.log 2 |q| - 52

/-- The nearest number with a 53 bit significand. -/
def round (q : ℚ) : ℚ :=
  if q = 0 then 0 else roundHalfEven (q / 2 ^ lastPlace q) * 2 ^ lastPlace q

/-- `int(x)` truncates toward zero. -/
def trunc (q : ℚ) : ℤ := if 0 ≤ q then ⌊q⌋ else ⌈q⌉

variable {q : ℚ}

theorem le_trunc {n : ℤ} (h : (n : ℚ) ≤ q) : n ≤ trunc q := by
  unfold trunc
  split_ifs
  · exact Int.le_floor.mpr h
  · exact (Int.le_floor.mpr h).trans (Int.floor_le_ceil q)

theorem grid_le_round (hq : q ≠ 0) (m : ℤ) (h : m * (2 : ℚ) ^ lastPlace q ≤ q) :
    m * (2 : ℚ) ^ lastPlace q ≤ round q := by
  have hpos : (0 : ℚ) < 2 ^ lastPlace q := zpow_pos (by norm_num) _
  have hfloor : m ≤ ⌊q / 2 ^ lastPlace q⌋ := Int.le_floor.mpr ((le_div_iff₀ hpos).mpr h)
  have hround : (m : ℚ) ≤ roundHalfEven (q / 2 ^ lastPlace q) := by
    exact_mod_cast hfloor.trans (floor_le_roundHalfEven _)
  rw [round, if_neg hq]
  exact mul_le_mul_of_nonneg_right hround hpos.le

theorem le_round {n : ℤ} (hn : |n| < 2 ^ 53) (h : (n : ℚ) ≤ q) : (n : ℚ) ≤ round q := by
  by_cases hq : q = 0
  · rw [round, if_pos hq]; rwa [hq] at h
  have hlow : (2 : ℚ) ^ Int.log 2 |q| ≤ |q| := by
    exact_mod_cast Int.zpow_log_le_self (b := 2) (by norm_num) (abs_pos.mpr hq)
  by_cases hk : Int.log 2 |q| ≤ 52
  · -- the last place is a fraction of one, so every integer is on the grid
    obtain ⟨j, hj⟩ : ∃ j : ℕ, lastPlace q = -(j : ℤ) :=
      ⟨(52 - Int.log 2 |q|).toNat, by unfold lastPlace; omega⟩
    have hgrid : ((n * 2 ^ j : ℤ) : ℚ) * 2 ^ lastPlace q = n := by
      rw [hj, zpow_neg, zpow_natCast]
      push_cast
      field_simp
    have := grid_le_round hq (n * 2 ^ j) (by rw [hgrid]; exact h)
    rwa [hgrid] at this
  · -- the magnitude is at least `2 ^ 53`, beyond `n`, and a power of two is on the grid
    have hbig : (2 : ℚ) ^ (53 : ℤ) ≤ 2 ^ Int.log 2 |q| :=
      zpow_le_zpow_right₀ (by norm_num) (by omega)
    have hn' : |(n : ℚ)| < 2 ^ (53 : ℤ) := by exact_mod_cast hn
    have hpos : 0 < q := by
      rcases lt_or_gt_of_ne hq with hneg | hpos
      · rw [abs_of_neg hneg] at hlow hbig
        linarith [(abs_lt.mp hn').1]
      · exact hpos
    have hgrid : ((2 ^ 52 : ℤ) : ℚ) * 2 ^ lastPlace q = 2 ^ Int.log 2 |q| := by
      have hsum : Int.log 2 |q| = 52 + lastPlace q := by unfold lastPlace; omega
      rw [hsum, zpow_add₀ (by norm_num)]
      norm_num
    have hround := grid_le_round hq (2 ^ 52) (by
      rw [hgrid]; exact hlow.trans (abs_of_pos hpos).le)
    rw [hgrid] at hround
    linarith [(abs_lt.mp hn').2]

end Binary64
