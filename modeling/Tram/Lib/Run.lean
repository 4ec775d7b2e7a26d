import Mathlib.Tactic.SplitIfs

/-! # Runs of a deterministic machine

A machine is a total step function; an operation that is not enabled in a state leaves the
state as it is. A run is the left fold of the operations. The rules here carry a fact from one
step to a whole run, so that a development only ever argues about single steps. -/

theorem List.forall_mem_concat {α : Type*} {P : α → Prop} {l : List α} {a : α}
    (h : ∀ x ∈ l, P x) (ha : P a) : ∀ x ∈ l ++ [a], P x :=
  forall_mem_append.mpr ⟨h, forall_mem_singleton.mpr ha⟩

namespace Run

open List

variable {σ α : Type*}

/-- The state after performing `ops` in order. -/
def exec (step : σ → α → σ) (s : σ) (ops : List α) : σ := ops.foldl step s

variable {s : σ} {step : σ → α → σ} {I : σ → Prop} {C : σ → α → Prop} {ops : List α}

section

variable (step : σ → α → σ) (s : σ)

@[simp] theorem exec_nil : exec step s [] = s := rfl

@[simp] theorem exec_cons (a : α) (ops : List α) : exec step s (a :: ops) = exec step (step s a) ops := rfl

theorem exec_append (xs ys : List α) : exec step s (xs ++ ys) = exec step (exec step s xs) ys := foldl_append

end

/-- The invariant rule: what every step preserves, every run preserves. -/
theorem exec_invariant (hstep : ∀ s a, I s → I (step s a)) (hs : I s) (ops : List α) :
    I (exec step s ops) := by
  induction ops generalizing s with
  | nil => exact hs
  | cons a ops ih => exact ih (hstep s a hs)

/-- The invariant rule when only the operations of the run are known to preserve it. -/
theorem exec_invariant_mem (hstep : ∀ s, ∀ a ∈ ops, I s → I (step s a)) (hs : I s) :
    I (exec step s ops) := by
  induction ops generalizing s with
  | nil => exact hs
  | cons a ops ih =>
    exact ih (fun s b hb => hstep s b (mem_cons_of_mem _ hb)) (hstep s a mem_cons_self hs)

/-- Every operation of the run meets `C` in the state it is performed in. -/
def AllSteps (step : σ → α → σ) (C : σ → α → Prop) : σ → List α → Prop
  | _, [] => True
  | s, a :: ops => C s a ∧ AllSteps step C (step s a) ops

instance AllSteps.decidable (step : σ → α → σ) (C : σ → α → Prop) [∀ s a, Decidable (C s a)] (s : σ)
    (ops : List α) : Decidable (AllSteps step C s ops) :=
  match ops with
  | [] => .isTrue True.intro
  | a :: ops =>
    have := AllSteps.decidable step C (step s a) ops
    inferInstanceAs (Decidable (C s a ∧ AllSteps step C (step s a) ops))

theorem AllSteps.trivial (step : σ → α → σ) (s : σ) (ops : List α) :
    AllSteps step (fun _ _ => True) s ops := by
  induction ops generalizing s with
  | nil => exact True.intro
  | cons a ops ih => exact ⟨True.intro, ih _⟩

theorem allSteps_append {xs ys : List α} :
    AllSteps step C s (xs ++ ys) ↔ AllSteps step C s xs ∧ AllSteps step C (exec step s xs) ys := by
  induction xs generalizing s with
  | nil => simp [AllSteps]
  | cons a xs ih => simp only [cons_append, AllSteps, ih, and_assoc, exec_cons]

/-- The invariant rule under a condition on the steps taken. -/
theorem AllSteps.invariant (hstep : ∀ s a, I s → C s a → I (step s a)) (hs : I s)
    (h : AllSteps step C s ops) : I (exec step s ops) := by
  induction ops generalizing s with
  | nil => exact hs
  | cons a ops ih => exact ih (hstep s a hs h.1) h.2

/-- Two conditions that agree wherever the invariant holds are met by the same runs. -/
theorem allSteps_iff {D : σ → α → Prop} (hiff : ∀ s a, I s → (C s a ↔ D s a))
    (hstep : ∀ s a, I s → C s a → I (step s a)) (hs : I s) (ops : List α) :
    AllSteps step C s ops ↔ AllSteps step D s ops := by
  induction ops generalizing s with
  | nil => exact Iff.rfl
  | cons a ops ih =>
    constructor
    · rintro ⟨h, hrest⟩
      exact ⟨(hiff s a hs).mp h, (ih (hstep s a hs h)).mp hrest⟩
    · rintro ⟨h, hrest⟩
      have hC := (hiff s a hs).mpr h
      exact ⟨hC, (ih (hstep s a hs hC)).mpr hrest⟩

/-- A reflexive and transitive relation that every step stays in relates the ends of every run. -/
theorem exec_rel {R : σ → σ → Prop} (refl : ∀ s, R s s) (trans : ∀ s t u, R s t → R t u → R s u)
    (hstep : ∀ s a, R s (step s a)) (s : σ) (ops : List α) : R s (exec step s ops) := by
  induction ops generalizing s with
  | nil => exact refl s
  | cons a ops ih => exact trans _ _ _ (hstep s a) (ih _)

/-! ## Machines that reply

A step may also return a reply to its caller. -/

variable {γ : Type*}

/-- The state after `ops`, for a machine whose steps reply. -/
def after (step : σ → α → γ × σ) (s : σ) (ops : List α) : σ := exec (fun s a => (step s a).2) s ops

def replies (step : σ → α → γ × σ) : σ → List α → List γ
  | _, [] => []
  | s, a :: ops => (step s a).1 :: replies step (step s a).2 ops

theorem replies_append (step : σ → α → γ × σ) (s : σ) (xs ys : List α) :
    replies step s (xs ++ ys) = replies step s xs ++ replies step (after step s xs) ys := by
  induction xs generalizing s with
  | nil => rfl
  | cons a xs ih => exact congrArg ((step s a).1 :: ·) (ih _)

section Latch

variable {step : σ → α → γ × σ} {P : σ → Prop} {p : γ → Bool} (none : ∀ s a, P s → p (step s a).1 = false)
include none

/-- While the latch is shut, and as long as no step opens it, no reply satisfies `p`. -/
theorem latch_never_of (keep : ∀ s a, P s → C s a → P (step s a).2) (hs : P s)
    (h : AllSteps (fun s a => (step s a).2) C s ops) : ∀ r ∈ replies step s ops, p r = false := by
  induction ops generalizing s with
  | nil => intro r hr; cases hr
  | cons a ops ih =>
    exact forall_mem_cons.mpr ⟨none s a hs, ih (keep s a hs h.1) h.2⟩

/-- A reply that shuts the latch comes at most once as long as no step opens it. -/
theorem latch_once_of (keep : ∀ s a, P s → C s a → P (step s a).2)
    (shuts : ∀ s a, p (step s a).1 = true → P (step s a).2)
    (h : AllSteps (fun s a => (step s a).2) C s ops) : (replies step s ops).countP p ≤ 1 := by
  induction ops generalizing s with
  | nil => exact Nat.zero_le 1
  | cons a ops ih =>
    rw [replies, countP_cons]
    split_ifs with hp
    · have hzero : (replies step (step s a).2 ops).countP p = 0 :=
        countP_eq_zero.mpr fun r hr => by
          simp [latch_never_of none keep (shuts s a hp) h.2 r hr]
      omega
    · exact ih h.2

theorem latch_never (keep : ∀ s a, P s → P (step s a).2) (hs : P s) (ops : List α) :
    ∀ r ∈ replies step s ops, p r = false :=
  latch_never_of none (fun s a hs _ => keep s a hs) hs (AllSteps.trivial _ s ops)

theorem latch_once (keep : ∀ s a, P s → P (step s a).2)
    (shuts : ∀ s a, p (step s a).1 = true → P (step s a).2) (s : σ) (ops : List α) :
    (replies step s ops).countP p ≤ 1 :=
  latch_once_of none (fun s a hs _ => keep s a hs) shuts (AllSteps.trivial _ s ops)

end Latch

end Run
