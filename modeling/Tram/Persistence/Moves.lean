import Mathlib.Data.Set.Insert
import Tram.Persistence.Agreement

/-! # How the attempts of a ledger move

A relation between two ledgers that says which attempts may have been settled. Every other
attempt that was in flight still is, no attempt appears or vanishes, and none comes back from a
terminal state. -/

namespace Tram

/-- What may become of an attempt; `settles` is whether it may be settled. -/
structure Attempt.Moved (settles : Prop) (row row' : Attempt) : Prop where
  same : row.SameIdentity row'
  flying : row.state.inFlight = true →
    row'.state.inFlight = true ∨ settles ∧ row'.state = .terminal
  idle : row.state.inFlight = false → row'.state = row.state

theorem Attempt.Moved.refl (settles : Prop) (row : Attempt) : row.Moved settles row :=
  ⟨.refl row, .inl, fun _ => rfl⟩

theorem Attempt.Moved.trans {settles : Prop} {a b c : Attempt} (h₁ : a.Moved settles b)
    (h₂ : b.Moved settles c) : a.Moved settles c where
  same := h₁.same.trans h₂.same
  flying := by
    intro ha
    rcases h₁.flying ha with hb | ⟨hs, hb⟩
    · exact h₂.flying hb
    · exact .inr ⟨hs, (h₂.idle (by rw [hb]; rfl)).trans hb⟩
  idle := fun ha => (h₂.idle (h₁.idle ha ▸ ha)).trans (h₁.idle ha)

theorem AttemptState.inFlight_ne_terminal {s : AttemptState} (h : s.inFlight = true) :
    s ≠ .terminal := by
  rintro rfl
  cases h

theorem Attempt.Moved.active_back {settles : Prop} {a b : Attempt} (h : a.Moved settles b)
    (hb : b.state ≠ .terminal) : a.state ≠ .terminal := by
  cases ha : a.state.inFlight with
  | true => exact AttemptState.inFlight_ne_terminal ha
  | false => exact h.idle ha ▸ hb

namespace Ledger

/-- The attempts in `S` may have been settled; guards are at most released. -/
structure Moves (S : Set String) (l l' : Ledger) : Prop where
  rows : ∀ a, Option.Rel (Attempt.Moved (a ∈ S)) (l.attempts.lookup a) (l'.attempts.lookup a)
  holders : ∀ key h, l'.holder? key = some h → l.holder? key = some h

variable {S T : Set String} {l l' l₁ : Ledger} {a : String}

theorem Moves.kept (h : Moves S l l') {row : Attempt} (ha : l.attempts.lookup a = some row) :
    ∃ row', l'.attempts.lookup a = some row' ∧ row.Moved (a ∈ S) row' := by
  have hrow := h.rows a
  rw [ha] at hrow
  generalize l'.attempts.lookup a = found at hrow ⊢
  cases hrow with
  | some hm => exact ⟨_, rfl, hm⟩

theorem Moves.back (h : Moves S l l') {row' : Attempt} (ha : l'.attempts.lookup a = some row') :
    ∃ row, l.attempts.lookup a = some row ∧ row.Moved (a ∈ S) row' := by
  have hrow := h.rows a
  rw [ha] at hrow
  generalize l.attempts.lookup a = found at hrow ⊢
  cases hrow with
  | some hm => exact ⟨_, rfl, hm⟩

theorem Moves.parked_back (h : Moves S l l') {r : String} (hp : l'.Parked r) : l.Parked r := by
  obtain ⟨a, row', ha, hrun, hactive, hidle⟩ := hp
  obtain ⟨row, hrow, hm⟩ := h.back ha
  refine ⟨a, row, hrow, hm.same.runId.symm.trans hrun, hm.active_back hactive, ?_⟩
  by_contra hfly
  rcases hm.flying (by simpa using hfly) with hfly' | ⟨-, hterm⟩
  · rw [hidle] at hfly'
    cases hfly'
  · exact hactive hterm

theorem Moves.refl (S : Set String) (l : Ledger) : Moves S l l := by
  refine ⟨fun a => ?_, fun _ _ h => h⟩
  cases l.attempts.lookup a with
  | none => exact .none
  | some row => exact .some (.refl _ row)

theorem Moves.of_eq (S : Set String) (ha : l'.attempts = l.attempts) (hg : l'.guards = l.guards) :
    Moves S l l' := by
  refine ⟨fun a => ?_, fun key h hh => by rwa [holder?, hg] at hh⟩
  rw [ha]
  exact (Moves.refl S l).rows a

theorem Moves.trans (h₁ : Moves S l l₁) (h₂ : Moves S l₁ l') : Moves S l l' := by
  refine ⟨fun a => ?_, fun key h hh => h₁.holders key h (h₂.holders key h hh)⟩
  cases hl : l.attempts.lookup a with
  | none =>
    cases hl' : l'.attempts.lookup a with
    | none => exact .none
    | some row' =>
      obtain ⟨row₁, hrow₁, -⟩ := h₂.back hl'
      obtain ⟨row, hrow, -⟩ := h₁.back hrow₁
      rw [hl] at hrow
      cases hrow
  | some row =>
    obtain ⟨row₁, hrow₁, hm₁⟩ := h₁.kept hl
    obtain ⟨row', hrow', hm₂⟩ := h₂.kept hrow₁
    rw [hrow']
    exact .some (hm₁.trans hm₂)

theorem Moves.mono (hST : S ⊆ T) (h : Moves S l l') : Moves T l l' := by
  refine ⟨fun a => ?_, h.holders⟩
  have hrow := h.rows a
  generalize l.attempts.lookup a = x, l'.attempts.lookup a = y at hrow
  cases hrow with
  | none => exact .none
  | some hm =>
    exact .some ⟨hm.same, fun hf => (hm.flying hf).imp_right fun ht => ⟨hST ht.1, ht.2⟩, hm.idle⟩

/-! ## The transactions -/

section

variable (l : Ledger)

theorem moves_updateAttempt {fence : Attempt → Bool} {set : Attempt → Attempt}
    (hset : ∀ row, fence row = true → row.Moved (a ∈ S) (set row)) :
    Moves S l (l.updateAttempt a fence set) := by
  refine ⟨fun b => ?_, fun _ _ h => h⟩
  rw [lookup_updateAttempt]
  split_ifs with hb
  · subst hb
    cases l.attempts.lookup b with
    | none => exact .none
    | some row =>
      refine .some ?_
      dsimp only
      split_ifs with hf
      · exact hset row hf
      · exact .refl _ row
  · exact (Moves.refl S l).rows b

theorem moves_markAttemptDispatching (a r : String) (g now : Nat) :
    Moves ∅ l (l.markAttemptDispatching a r g now) := by
  refine moves_updateAttempt l fun row hf => ⟨⟨rfl, rfl, rfl, rfl⟩, fun _ => .inl rfl, fun hi => ?_⟩
  simp only [decide_eq_true_eq] at hf
  rw [hf.2.1] at hi
  cases hi

theorem moves_markAttemptRunning (a r : String) (g now : Nat) :
    Moves ∅ l (l.markAttemptRunning a r g now) := by
  refine moves_updateAttempt l fun row hf => ⟨⟨rfl, rfl, rfl, rfl⟩, fun _ => .inl rfl, fun hi => ?_⟩
  simp only [decide_eq_true_eq] at hf
  rw [hf.2.1] at hi
  cases hi

theorem moves_recordAttemptWorker (a r : String) (g : Nat) (w : String) :
    Moves ∅ l (l.recordAttemptWorker a r g w) :=
  moves_updateAttempt l fun _ _ => ⟨⟨rfl, rfl, rfl, rfl⟩, .inl, fun _ => rfl⟩

theorem moves_terminalizeAttempt (a runId pipelineName : String) (generation : Nat)
    (o : Option IntentOutcome) (reason : Option String) (now : Nat) :
    Moves {a} l (l.terminalizeAttempt a runId pipelineName generation o reason now) := by
  refine ⟨fun b => ?_, (calm_terminalizeAttempt ..).holders⟩
  rw [lookup_terminalizeAttempt]
  split_ifs with hb
  · subst hb
    cases l.attempts.lookup b with
    | none => exact .none
    | some row =>
      refine .some ⟨settled_sameIdentity .., ?_, ?_⟩ <;> unfold settled <;> split_ifs with hfence
      · exact fun _ => .inr ⟨rfl, rfl⟩
      · exact .inl
      · intro hi
        rw [hfence.2.2] at hi
        cases hi
      · exact fun _ => rfl
  · exact (Moves.refl _ l).rows b

theorem moves_terminalizeActive (runId : String) (o : Option IntentOutcome) (reason : Option String)
    (now : Nat) (hS : ∀ e, l.activeAttemptForRun runId = some e → e.1 ∈ S) :
    Moves S l (l.terminalizeActive runId o reason now) := by
  unfold terminalizeActive
  split
  · exact .refl S l
  · rename_i e he
    exact (moves_terminalizeAttempt ..).mono (Set.singleton_subset_iff.mpr (hS e he))

end

end Ledger

end Tram
