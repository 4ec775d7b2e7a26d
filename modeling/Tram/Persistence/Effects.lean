import Tram.Persistence.Claims

/-! # The effect of each transaction on guards and attempts

One lemma per transaction and table, so that no proof about the controller unfolds a
transaction. An attempt never changes its run, pipeline, ordinal or generation. -/

namespace Tram

open List

/-- Same identity; the state and the notes about it may differ. -/
structure Attempt.SameIdentity (a b : Attempt) : Prop where
  runId : b.runId = a.runId
  pipelineName : b.pipelineName = a.pipelineName
  ordinal : b.ordinal = a.ordinal
  generation : b.generation = a.generation

namespace Ledger

variable (l : Ledger)

theorem holder?_releaseGuard (guardKey attemptId runId key : String) :
    (l.releaseGuard guardKey attemptId runId).holder? key =
      if key = guardKey then
        (l.holder? guardKey).filter fun h => !(h.attemptId = attemptId ∧ h.runId = runId)
      else l.holder? key := by
  simp only [holder?, releaseGuard, Dict.lookup_modify]
  split_ifs with h
  · cases l.guards.lookup guardKey <;> rfl
  · rfl

@[simp] theorem holder?_updateAttempt (attemptId : String) (fence : Attempt → Bool)
    (set : Attempt → Attempt) (key : String) :
    (l.updateAttempt attemptId fence set).holder? key = l.holder? key := rfl

@[simp] theorem holder?_terminalizeAttempt (attemptId runId pipelineName : String) (generation : Nat)
    (o : Option IntentOutcome) (reason : Option String) (now : Nat) (key : String) :
    (l.terminalizeAttempt attemptId runId pipelineName generation o reason now).holder? key =
      if key = pipelineName then
        (l.holder? pipelineName).filter fun h => !(h.attemptId = attemptId ∧ h.runId = runId)
      else l.holder? key := by
  cases o <;> exact holder?_releaseGuard _ _ _ _ _

theorem lookup_updateAttempt (attemptId : String) (fence : Attempt → Bool) (set : Attempt → Attempt)
    (b : String) :
    (l.updateAttempt attemptId fence set).attempts.lookup b =
      if b = attemptId then
        (l.attempts.lookup attemptId).map fun a => if fence a then set a else a
      else l.attempts.lookup b := Dict.lookup_modify ..

/-- What `_terminalize_attempt` leaves of an attempt row. -/
def settled (runId : String) (generation : Nat) (reason : Option String) (now : Nat) (a : Attempt) :
    Attempt :=
  if a.runId = runId ∧ a.generation = generation ∧ a.state.inFlight then
    { a with state := .terminal, finishedAt := some now, cancelReason := reason.or a.cancelReason }
  else a

section

variable (attemptId runId pipelineName : String) (generation : Nat) (o : Option IntentOutcome)
  (reason : Option String) (now : Nat)

theorem attempts_terminalizeAttempt :
    (l.terminalizeAttempt attemptId runId pipelineName generation o reason now).attempts =
      Dict.modify l.attempts attemptId (settled runId generation reason now) := by
  unfold settled
  cases o <;> simp [terminalizeAttempt, updateAttempt, resolveIntent, releaseGuard]

theorem lookup_terminalizeAttempt (b : String) :
    (l.terminalizeAttempt attemptId runId pipelineName generation o reason now).attempts.lookup b =
      if b = attemptId then
        (l.attempts.lookup attemptId).map (settled runId generation reason now)
      else l.attempts.lookup b := by
  rw [attempts_terminalizeAttempt, Dict.lookup_modify]

end

theorem lookup_of_activeAttempt {l : Ledger} {runId : String} {e : Σ _ : String, Attempt}
    (h : l.activeAttemptForRun runId = some e) :
    l.attempts.lookup e.1 = some e.2 ∧ e.2.runId = runId ∧ e.2.state ≠ .terminal := by
  have hmem := argmax_mem h
  simp only [mem_filter, decide_eq_true_eq] at hmem
  exact ⟨Dict.mem_entries.mp hmem.1, hmem.2⟩

theorem lt_nextAttemptOrdinal {l : Ledger} {a : String} {row : Attempt}
    (h : l.attempts.lookup a = some row) : row.ordinal < l.nextAttemptOrdinal row.runId := by
  refine Nat.lt_succ_of_le (le_max_of_le' 0 (mem_map.mpr ⟨⟨a, row⟩, ?_, rfl⟩) le_rfl)
  exact mem_filter.mpr ⟨Dict.mem_entries.mpr h, by simp⟩

end Ledger

end Tram
