/-! # Computations that change a state and may raise

What a computation did to the state before it raised stays done. A fact about what a
computation does is a relation between the state it starts in, what it raised if anything, and
the state it ends in; the rules here build such a fact for a program from its parts. -/

/-- A computation over states `σ` that returns an `α` or raises an `ε`. -/
def Procedure (σ ε α : Type) := σ → Except ε α × σ

namespace Procedure

variable {σ ε α β : Type}

instance : Monad (Procedure σ ε) where
  pure a := fun s => (.ok a, s)
  bind m f := fun s =>
    match m s with
    | (.ok a, t) => f a t
    | (.error e, t) => (.error e, t)

def raise (e : ε) : Procedure σ ε α := fun s => (.error e, s)

def modify (f : σ → σ) : Procedure σ ε Unit := fun s => (.ok (), f s)

def get : Procedure σ ε σ := fun s => (.ok s, s)

variable {s : σ} {m : Procedure σ ε α} {f : α → Procedure σ ε β} {e : ε}

theorem pure_run (a : α) (s : σ) : (pure a : Procedure σ ε α) s = (.ok a, s) := rfl

theorem raise_run (e : ε) (s : σ) : (raise e : Procedure σ ε α) s = (.error e, s) := rfl

theorem modify_run (f : σ → σ) (s : σ) : (modify f : Procedure σ ε Unit) s = (.ok (), f s) := rfl

theorem get_run (s : σ) : (get : Procedure σ ε σ) s = (.ok s, s) := rfl

theorem bind_run_ok {t : σ} {a : α} (h : m s = (.ok a, t)) (f : α → Procedure σ ε β) :
    (m >>= f) s = f a t := by
  change (match m s with
    | (.ok a, t) => f a t
    | (.error e, t) => (.error e, t)) = _
  rw [h]

theorem bind_run_error {t : σ} (h : m s = (.error e, t)) (f : α → Procedure σ ε β) :
    (m >>= f) s = (.error e, t) := by
  change (match m s with
    | (.ok a, t) => f a t
    | (.error e, t) => (.error e, t)) = _
  rw [h]

theorem bind_ok {u : σ} {b : β} (h : (m >>= f) s = (.ok b, u)) :
    ∃ a t, m s = (.ok a, t) ∧ f a t = (.ok b, u) := by
  match hm : m s with
  | (.ok a, t) => exact ⟨a, t, rfl, by rwa [bind_run_ok hm] at h⟩
  | (.error e, t) => rw [bind_run_error hm] at h; cases h

def raised : Except ε α → Option ε
  | .ok _ => none
  | .error e => some e

theorem exists_of_raised {r : Except ε α} (h : raised r ≠ none) : ∃ e, r = .error e := by
  cases r with
  | ok a => exact absurd rfl h
  | error e => exact ⟨e, rfl⟩

/-- Every execution of `m` is in the relation `Q`. -/
def Meets (Q : σ → Option ε → σ → Prop) (m : Procedure σ ε α) : Prop :=
  ∀ s, Q s (raised (m s).1) (m s).2

/-- A relation that a program has as soon as each of its parts, done in turn, has it. -/
class Sequential (Q : σ → Option ε → σ → Prop) : Prop where
  refl : ∀ s, Q s none s
  trans : ∀ {s t u o}, Q s none t → Q t o u → Q s o u

namespace Meets

variable {Q : σ → Option ε → σ → Prop}

theorem pure [Sequential Q] (a : α) : Meets Q (pure a : Procedure σ ε α) := Sequential.refl

theorem raise (h : ∀ s, Q s (some e) s) : Meets Q (raise e : Procedure σ ε α) := h

theorem get [Sequential Q] : Meets Q (get : Procedure σ ε σ) := Sequential.refl

theorem modify {f : σ → σ} (h : ∀ s, Q s none (f s)) : Meets Q (modify f : Procedure σ ε Unit) := h

theorem bind [Sequential Q] (hm : Meets Q m) (hf : ∀ a, Meets Q (f a)) : Meets Q (m >>= f) := by
  intro s
  have hs := hm s
  match h : m s with
  | (.ok a, t) =>
    rw [h] at hs
    rw [bind_run_ok h]
    exact Sequential.trans hs (hf a t)
  | (.error e, t) =>
    rw [h] at hs
    rw [bind_run_error h]
    exact hs

end Meets

def mapError (f : ε → ε) (m : Procedure σ ε α) : Procedure σ ε α := fun s =>
  match m s with
  | (.ok a, t) => (.ok a, t)
  | (.error e, t) => (.error (f e), t)

/-- Before what `m` raises is raised again, the state is changed. -/
def onRaise (g : σ → σ) (m : Procedure σ ε α) : Procedure σ ε α := fun s =>
  match m s with
  | (.ok a, t) => (.ok a, t)
  | (.error e, t) => (.error e, g t)

theorem onRaise_run_ok {g : σ → σ} {t : σ} {a : α} (h : m s = (.ok a, t)) :
    onRaise g m s = (.ok a, t) := by rw [onRaise, h]

theorem onRaise_run_error {g : σ → σ} {t : σ} (h : m s = (.error e, t)) :
    onRaise g m s = (.error e, g t) := by rw [onRaise, h]

theorem Meets.onRaise {Q : σ → Option ε → σ → Prop} {g : σ → σ} (h : Meets Q m)
    (hg : ∀ s e t, Q s (some e) t → Q s (some e) (g t)) : Meets Q (onRaise g m) := by
  intro s
  have hs := h s
  rcases hm : m s with ⟨e | a, t⟩ <;> rw [hm] at hs
  · rw [onRaise_run_error hm]
    exact hg s e t hs
  · rw [onRaise_run_ok hm]
    exact hs

/-! ## Pre- and postconditions -/

/-- Started in `P`, the computation returns in `Q` or raises in `E`. -/
def Triple (P : σ → Prop) (m : Procedure σ ε α) (Q : α → σ → Prop) (E : σ → Prop) : Prop :=
  ∀ s, P s → match m s with
    | (.ok a, t) => Q a t
    | (.error _, t) => E t

namespace Triple

variable {P : σ → Prop} {E : σ → Prop} {Q : α → σ → Prop}

theorem pure {a : α} (h : ∀ s, P s → Q a s) :
    Triple P (pure a : Procedure σ ε α) Q E := h

theorem raise (h : ∀ s, P s → E s) : Triple P (raise e : Procedure σ ε α) Q E := h

theorem get {Q : σ → σ → Prop} (h : ∀ s, P s → Q s s) : Triple P (get : Procedure σ ε σ) Q E := h

theorem get_bind {f : σ → Procedure σ ε α} (h : ∀ s, P s → Triple (s = ·) (f s) Q E) :
    Triple P (Procedure.get >>= f) Q E := fun s hs => h s hs s rfl

theorem modify {Q : Unit → σ → Prop} {f : σ → σ} (h : ∀ s, P s → Q () (f s)) :
    Triple P (modify f : Procedure σ ε Unit) Q E := h

theorem bind {R : α → σ → Prop} {Q : β → σ → Prop} (hm : Triple P m R E)
    (hf : ∀ a, Triple (R a) (f a) Q E) : Triple P (m >>= f) Q E := by
  intro s hs
  have h := hm s hs
  cases hrun : m s with
  | mk r t =>
    rw [hrun] at h
    cases r with
    | ok a =>
      rw [bind_run_ok hrun]
      exact hf a t h
    | error e =>
      rw [bind_run_error hrun]
      exact h

theorem mapError (g : ε → ε) (hm : Triple P m Q E) :
    Triple P (mapError g m) Q E := by
  intro s hs
  have h := hm s hs
  unfold Procedure.mapError
  cases hrun : m s with
  | mk r t =>
    rw [hrun] at h
    cases r <;> exact h

section

variable {P' : σ → Prop} (h : Triple P m Q E) (hP : ∀ s, P' s → P s)
include h hP

theorem pre : Triple P' m Q E :=
  fun s hs => h s (hP s hs)

/-- Ask for more before, promise less after. -/
theorem consequence {Q' : α → σ → Prop} {E' : σ → Prop} (hQ : ∀ a s, Q a s → Q' a s)
    (hE : ∀ s, E s → E' s) : Triple P' m Q' E' := by
  intro s hs
  have hm := h s (hP s hs)
  cases hrun : m s with
  | mk r t =>
    rw [hrun] at hm
    cases r with
    | ok a => exact hQ a t hm
    | error e => exact hE t hm

end

end Triple

end Procedure
