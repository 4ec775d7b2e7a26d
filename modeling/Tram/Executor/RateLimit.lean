import Mathlib.Tactic.FieldSimp
import Mathlib.Tactic.Linarith
import Mathlib.Tactic.Ring
import Tram.Lib.Run

/-! # The rate limiter

`_rate_limit` of the executor, called by one thread: a bucket of tokens that is refilled at each
call by the time since the last refill. A call that finds no token waits until one would be there.
The wait begins after the refill time was set, so that the next call counts the time waited once
more. Times are exact. -/

namespace Tram.Executor

open List

/-- `rate_limit_rps`, which the pipeline model and `_rate_limit` require to be positive. -/
abbrev Rate := { rps : ℚ // 0 < rps }

structure Limiter where
  tokens : ℚ
  lastRefill : ℚ

/-- `_rate_limit`: the time slept and the limiter after it. `again` is the second reading of the
clock, before the sleep. -/
def rateLimit (rate : Rate) (now again : ℚ) (l : Limiter) : ℚ × Limiter :=
  let tokens := min rate.val (l.tokens + (now - l.lastRefill) * rate)
  if tokens ≥ 1 then (0, ⟨tokens - 1, now⟩) else ((1 - tokens) / rate, ⟨0, again⟩)

/-! ## Calls in sequence -/

structure Readings where
  now : ℚ
  again : ℚ

/-- The limiter, the time its last call slept and the times its calls returned, the last first. -/
structure Metered where
  limiter : Limiter
  slept : ℚ
  returns : List ℚ

namespace Metered

def start : Metered := ⟨⟨0, 0⟩, 0, []⟩

/-- A sleep lasts as long as it was asked to. -/
def step (rate : Rate) (m : Metered) (c : Readings) : Metered :=
  let result := rateLimit rate c.now c.again m.limiter
  ⟨result.2, result.1, (if result.1 > 0 then c.again + result.1 else c.now) :: m.returns⟩

/-- The clock does not go back, and a call begins after the one before it returned. -/
def Timely (m : Metered) (c : Readings) : Prop :=
  (∀ r ∈ m.returns.head?, r ≤ c.now) ∧ c.now ≤ c.again

/-- The call before this one did not sleep, or returned at least a second ago. -/
def Paced (m : Metered) (c : Readings) : Prop :=
  m.slept = 0 ∨ ∀ r ∈ m.returns.head?, r + 1 ≤ c.now

instance (m : Metered) (c : Readings) : Decidable (m.Timely c) := inferInstanceAs (Decidable (_ ∧ _))
instance (m : Metered) (c : Readings) : Decidable (m.Paced c) := inferInstanceAs (Decidable (_ ∨ _))

def returnedIn (m : Metered) (a b : ℚ) : Nat := m.returns.countP fun r => a ≤ r ∧ r ≤ b

variable {rate : Rate} {m : Metered} {c : Readings}

theorem step_cases (rate : Rate) (m : Metered) (c : Readings) :
    let tokens := min rate.val (m.limiter.tokens + (c.now - m.limiter.lastRefill) * rate)
    (1 ≤ tokens ∧ m.step rate c = ⟨⟨tokens - 1, c.now⟩, 0, c.now :: m.returns⟩) ∨
    (tokens < 1 ∧ 0 < (1 - tokens) / rate ∧ m.step rate c =
      ⟨⟨0, c.again⟩, (1 - tokens) / rate, (c.again + (1 - tokens) / rate) :: m.returns⟩) := by
  intro tokens
  unfold step rateLimit
  by_cases h : 1 ≤ tokens
  · exact .inl ⟨h, by simp [h, tokens]⟩
  · have hsleep : 0 < (1 - tokens) / rate := div_pos (by linarith) rate.property
    exact .inr ⟨not_le.mp h, hsleep, by simp [h, hsleep, tokens]⟩

/-- What a limiter owes its calls. `spent` is the amortised bound: the calls since a moment and the
tokens left are paid by the full bucket and the time up to the last return. -/
structure Budget (rate : Rate) (m : Metered) : Prop where
  nonneg : 0 ≤ m.limiter.tokens
  room : m.returns ≠ [] → m.limiter.tokens + 1 ≤ max 1 rate.val
  sorted : ∀ last ∈ m.returns.head?, ∀ r ∈ m.returns, r ≤ last
  awake : m.slept = 0 → ∀ last ∈ m.returns.head?, m.limiter.lastRefill = last
  asleep : m.slept ≠ 0 → m.limiter.tokens = 0
  spent : ∀ last ∈ m.returns.head?, ∀ a ≤ last,
    m.returns.countP (a ≤ ·) + m.limiter.tokens ≤ max 1 rate.val + rate * (last - a)
  window : ∀ a b, a ≤ b → m.returnedIn a b ≤ max 1 rate.val + rate * (b - a)

theorem Budget.start (rate : Rate) : Budget rate start where
  nonneg := le_refl 0
  room h := absurd rfl h
  sorted := by simp [Metered.start]
  awake := by simp [Metered.start]
  asleep h := absurd rfl h
  spent := by simp [Metered.start]
  window a b hab := by
    have hpos := mul_nonneg rate.property.le (sub_nonneg.mpr hab)
    have hmax := le_max_left 1 rate.val
    simp only [returnedIn, Metered.start, countP_nil, Nat.cast_zero]
    linarith

/-- A paced call finds at most what the time since the last return has brought. -/
theorem Budget.refill (h : Budget rate m) (hpaced : m.Paced c) {last : ℚ}
    (hlast : m.returns.head? = some last) :
    min rate.val (m.limiter.tokens + (c.now - m.limiter.lastRefill) * rate) ≤
      m.limiter.tokens + (c.now - last) * rate := by
  by_cases hslept : m.slept = 0
  · rw [h.awake hslept last hlast]
    exact min_le_right _ _
  · obtain hzero | hlate := hpaced
    · exact absurd hzero hslept
    · have hsecond := hlate last hlast
      rw [h.asleep hslept]
      refine (min_le_left _ _).trans ?_
      nlinarith [rate.property]

theorem Budget.extend {m' : Metered} {ret : ℚ} (h : Budget rate m)
    (hreturns : m'.returns = ret :: m.returns) (hnonneg : 0 ≤ m'.limiter.tokens)
    (hroom : m'.limiter.tokens + 1 ≤ max 1 rate.val)
    (hafter : ∀ last ∈ m.returns.head?, last ≤ ret ∧
      m'.limiter.tokens + 1 ≤ m.limiter.tokens + (ret - last) * rate)
    (hawake : m'.slept = 0 → m'.limiter.lastRefill = ret)
    (hasleep : m'.slept ≠ 0 → m'.limiter.tokens = 0) : Budget rate m' := by
  have hspent : ∀ a ≤ ret,
      m'.returns.countP (a ≤ ·) + m'.limiter.tokens ≤ max 1 rate.val + rate * (ret - a) := by
    intro a ha
    rw [hreturns, countP_cons_of_pos (by simpa using ha), Nat.cast_add, Nat.cast_one]
    -- either an earlier call returned since `a`, and the budget goes on, or this one is the first
    by_cases hearlier : ∃ last ∈ m.returns.head?, a ≤ last
    · obtain ⟨last, hlast, hal⟩ := hearlier
      linarith [h.spent last hlast a hal, (hafter last hlast).2]
    · have hnone : m.returns.countP (a ≤ ·) = 0 := by
        refine countP_eq_zero.mpr fun r hr => ?_
        obtain ⟨last, rest, hm⟩ := exists_cons_of_ne_nil (ne_nil_of_mem hr)
        have hle := h.sorted last (by rw [hm]; rfl) r hr
        simpa using lt_of_le_of_lt hle (not_le.mp fun hal => hearlier ⟨last, by rw [hm]; rfl, hal⟩)
      rw [hnone, Nat.cast_zero]
      linarith [mul_nonneg rate.property.le (sub_nonneg.mpr ha)]
  have hhead : ∀ last ∈ m'.returns.head?, last = ret := by
    intro last hlast
    rw [hreturns] at hlast
    exact (Option.some.inj hlast).symm
  refine ⟨hnonneg, fun _ => hroom, fun last hlast => ?_, fun hs last hlast => ?_, hasleep,
    fun last hlast => hhead last hlast ▸ hspent, fun a b hab => ?_⟩
  · rw [hhead last hlast, hreturns]
    refine forall_mem_cons.mpr ⟨le_refl ret, fun r hr => ?_⟩
    obtain ⟨l, rest, hm⟩ := exists_cons_of_ne_nil (ne_nil_of_mem hr)
    exact (h.sorted l (by rw [hm]; rfl) r hr).trans (hafter l (by rw [hm]; rfl)).1
  · rw [hhead last hlast]
    exact hawake hs
  · unfold returnedIn
    by_cases hin : a ≤ ret ∧ ret ≤ b
    · have hle : m'.returns.countP (fun r => a ≤ r ∧ r ≤ b) ≤ m'.returns.countP (a ≤ ·) :=
        countP_mono_left fun r _ hr => by simpa using (of_decide_eq_true hr).1
      have hcast : (m'.returns.countP (fun r => a ≤ r ∧ r ≤ b) : ℚ) ≤ m'.returns.countP (a ≤ ·) :=
        Nat.cast_le.mpr hle
      linarith [hspent a hin.1, mul_nonneg rate.property.le (sub_nonneg.mpr hin.2)]
    · rw [hreturns, countP_cons_of_neg (by simpa using hin)]
      exact h.window a b hab

theorem Budget.step (h : Budget rate m) (htimely : m.Timely c) (hpaced : m.Paced c) :
    Budget rate (m.step rate c) := by
  obtain ⟨hafter, hclock⟩ := htimely
  have hrefill := fun last (hlast : m.returns.head? = some last) => h.refill hpaced hlast
  have hfull := min_le_left rate.val (m.limiter.tokens + (c.now - m.limiter.lastRefill) * rate)
  have hcases := step_cases rate m c
  dsimp only at hcases
  generalize min rate.val (m.limiter.tokens + (c.now - m.limiter.lastRefill) * rate) = tokens at *
  have hmax := le_max_right 1 rate.val
  obtain ⟨hone, heq⟩ | ⟨hless, hsleep, heq⟩ := hcases
  · rw [heq]
    refine h.extend rfl (sub_nonneg.mpr hone) (by simpa using hfull.trans hmax) ?_ (fun _ => rfl)
      fun hs => absurd rfl hs
    intro last hlast
    exact ⟨hafter last hlast, by simpa using hrefill last hlast⟩
  · rw [heq]
    refine h.extend rfl (le_refl 0) (by simp) ?_ (fun hs => absurd hs hsleep.ne') fun _ => rfl
    intro last hlast
    have hwait : (1 - tokens) / rate * rate = 1 - tokens := div_mul_cancel₀ _ rate.property.ne'
    refine ⟨by linarith [hafter last hlast], ?_⟩
    have hpos := mul_nonneg (sub_nonneg.mpr hclock) rate.property.le
    linarith [hrefill last hlast]

theorem tokens_nonneg (rate : Rate) (calls : List Readings) :
    0 ≤ (Run.exec (step rate) start calls).limiter.tokens := by
  refine Run.exec_invariant (I := fun m : Metered => 0 ≤ m.limiter.tokens) (fun m c _ => ?_)
    (le_refl 0) calls
  obtain ⟨hone, heq⟩ | ⟨-, -, heq⟩ := step_cases rate m c
  · rw [heq]
    exact sub_nonneg.mpr hone
  · rw [heq]

theorem slept_le (hnonneg : 0 ≤ m.limiter.tokens) (hafter : m.limiter.lastRefill ≤ c.now) :
    0 ≤ (m.step rate c).slept ∧ (m.step rate c).slept ≤ 1 / rate := by
  obtain ⟨-, heq⟩ | ⟨-, hsleep, heq⟩ := step_cases rate m c
  · rw [heq]
    exact ⟨le_refl 0, one_div_nonneg.mpr rate.property.le⟩
  · rw [heq]
    refine ⟨hsleep.le, div_le_div_of_nonneg_right ?_ rate.property.le⟩
    have hbrought := mul_nonneg (sub_nonneg.mpr hafter) rate.property.le
    linarith [le_min rate.property.le (add_nonneg hnonneg hbrought)]

end Metered

/-- A call of the limiter waits for at most the time of one token. If no call comes within a second
after the return of one that slept, then in any window at most as many calls return as the time
brings tokens and the bucket holds. -/
theorem rate_bounded_when_paced (rate : Rate) (calls : List Readings) :
    let m := Run.exec (Metered.step rate) .start calls
    (∀ c : Readings, m.limiter.lastRefill ≤ c.now →
      0 ≤ (m.step rate c).slept ∧ (m.step rate c).slept ≤ 1 / rate) ∧
    (Run.AllSteps (Metered.step rate) (fun m c => m.Timely c ∧ m.Paced c) .start calls →
      ∀ a T, 0 ≤ T → m.returnedIn a (a + T) ≤ rate.val * T + max 1 rate.val) := by
  intro m
  refine ⟨fun c => Metered.slept_le (Metered.tokens_nonneg rate calls), fun hsteps a T hT => ?_⟩
  have hbudget : Metered.Budget rate m :=
    Run.AllSteps.invariant (fun m c hm hc => hm.step hc.1 hc.2) (.start rate) hsteps
  linarith [hbudget.window a (a + T) (le_add_of_nonneg_right hT)]

theorem rate_bounded_when_paced_twice :
    let m := Run.exec (Metered.step ⟨2, by decide⟩) .start
      [⟨100, 100⟩, ⟨100, 100⟩, ⟨100, 100⟩, ⟨102, 102⟩]
    m.returns = [102, 201 / 2, 100, 100] ∧
      ∀ a T, 0 ≤ T → (m.returnedIn a (a + T) : ℚ) ≤ 2 * T + max 1 2 :=
  ⟨by decide +kernel, (rate_bounded_when_paced ⟨2, by decide⟩
    [⟨100, 100⟩, ⟨100, 100⟩, ⟨100, 100⟩, ⟨102, 102⟩]).2 (by decide +kernel)⟩

/-- One token a second. Every call that sleeps leaves the token it waited for in the bucket, so two
calls return each second: four after the first call in a window of one second. -/
theorem rate_doubled_after_sleep :
    let calls : List Readings := [⟨100, 100⟩, ⟨100, 100⟩, ⟨101, 101⟩, ⟨101, 101⟩, ⟨102, 102⟩]
    let m := Run.exec (Metered.step ⟨1, by decide⟩) .start calls
    Run.AllSteps (Metered.step ⟨1, by decide⟩) Metered.Timely .start calls ∧
      m.returns = [102, 102, 101, 101, 100] ∧ m.returnedIn 101 (101 + 1) = 4 ∧
      ¬ ((4 : ℚ) ≤ 1 * 1 + max 1 1) := by
  decide +kernel

end Tram.Executor
