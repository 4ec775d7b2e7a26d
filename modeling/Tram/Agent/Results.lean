import Tram.Agent.Drain

/-! # Completed reservations and their results

A completion call writes the reservation and the completion in one transaction, but a sweep of the
retention deletes the completion alone. -/

namespace Tram.Agent

open List

inductive AttemptKind
  | tombstone | completion | active | interrupted
deriving DecidableEq, Repr

/-- `_attempt_from_reservation` takes a completed reservation for a completion. -/
def AttemptRecord.kind : AttemptRecord → AttemptKind
  | .tombstone _ => .tombstone
  | .completion _ => .completion
  | .reservation r =>
    match r.state with
    | .reserved | .running => .active
    | .interrupted => .interrupted
    | .completed => .completion

def AttemptRecord.resultJson : AttemptRecord → Option String
  | .completion c => some c.resultJson
  | _ => none

namespace Journal

def KeepsResults (j : Journal) : Prop :=
  ∀ r ∈ j.reservations, r.state = .completed → ∃ c ∈ j.completions, c.attemptId = r.attemptId

/-- A sweep finds no completed reservation whose completion was acked before the audit cutoff. -/
def SparesResults (cfg : JournalConfig) (j : Journal) : JournalOp → Prop
  | .cleanupRetention call =>
    ∀ cutoff ∈ call.now.subSeconds? cfg.auditRetentionS, ∀ c ∈ j.completions, ∀ acked ∈ c.ackedAt,
      acked ≤ cutoff → ∀ r ∈ j.reservations, r.attemptId = c.attemptId → r.state ≠ .completed
  | _ => True

instance (cfg : JournalConfig) (j : Journal) (op : JournalOp) : Decidable (j.SparesResults cfg op) := by
  unfold SparesResults
  split <;> infer_instance

variable {j : Journal} {cfg : JournalConfig}

theorem KeepsResults.resultJson (h : j.KeepsResults) {a : String} {record : AttemptRecord}
    (hget : j.getAttempt a = some record) (hkind : record.kind = .completion) :
    record.resultJson.isSome := by
  unfold getAttempt at hget
  split at hget
  · cases hget
    cases hkind
  · split at hget
    · cases hget
      rfl
    · rename_i hnone
      obtain ⟨r, hr, rfl⟩ := Option.map_eq_some_iff.mp hget
      have hst : r.state = .completed := by
        cases hst : r.state <;> simp [AttemptRecord.kind, hst] at hkind ⊢
      obtain ⟨c, hc, hid⟩ := h r (mem_of_find?_eq_some hr) hst
      have hra : r.attemptId = a := by simpa using find?_some hr
      exact absurd (hid.trans hra) (by simpa using find?_eq_none.mp hnone c hc)

theorem KeepsResults.withCompletion (h : j.KeepsResults) (call : Call) (a resultJson runId : String) :
    (j.withCompletion call a resultJson runId).KeepsResults := by
  have hold : ∀ c ∈ j.completions, c ∈ (j.withCompletion call a resultJson runId).completions := by
    intro c hc
    unfold Journal.withCompletion
    split_ifs
    · exact hc
    · exact mem_append_left _ hc
  intro r' hr' hst
  obtain ⟨r, hr, rfl⟩ := mem_map.mp hr'
  split_ifs at hst ⊢ with hra
  · by_cases hany : j.completions.any (·.attemptId = a) = true
    · obtain ⟨c, hc, hca⟩ := any_eq_true.mp hany
      exact ⟨c, hold c hc, (of_decide_eq_true hca).trans hra.symm⟩
    · exact ⟨_, by rw [Journal.withCompletion, if_neg hany]; exact mem_concat_self, hra.symm⟩
  · obtain ⟨c, hc, hid⟩ := h r hr hst
    exact ⟨c, hold c hc, hid⟩

theorem KeepsResults.recordCompletion (h : j.KeepsResults) (enqueue : Bool) (call : Call)
    (a resultJson : String) (runId : Option String) :
    (recordCompletionWith enqueue call j a resultJson runId).2.KeepsResults := by
  refine txn_induction h fun _ j' hj => ?_
  split at hj
  · cases hj
  · cases hj
    cases enqueue <;> exact h.withCompletion call a resultJson _

theorem KeepsResults.cleanupRetention (h : j.KeepsResults) {call : Call}
    (hop : j.SparesResults cfg (.cleanupRetention call)) :
    (j.cleanupRetention cfg call).2.KeepsResults := by
  refine txn_induction h fun _ j' hj => ?_
  dsimp only at hj
  split at hj
  · rename_i auditCutoff _ _ haudit _ _
    cases hj
    intro r hr hst
    obtain ⟨c, hc, hid⟩ := h r hr hst
    refine ⟨c, mem_filter.mpr ⟨hc, decide_eq_true fun hold => ?_⟩, hid⟩
    split at hold
    · rename_i acked hacked
      exact hop auditCutoff haudit c hc acked hacked (of_decide_eq_true hold) r hr hid.symm hst
    · cases hold
  · cases hj

theorem KeepsResults.step (digests : Digests) (h : j.KeepsResults) {op : JournalOp}
    (hop : j.SparesResults cfg op) : (j.step cfg digests op).2.KeepsResults := by
  by_cases hi : op.idle = true
  · obtain ⟨⟨hcomp, -⟩, hres⟩ := idle_step cfg digests j hi
    intro r hr hst
    rw [hcomp]
    exact h r (hres r hr hst) hst
  cases op with
  | recordCompletion call a resultJson runId => exact h.recordCompletion false call a resultJson runId
  | recordCompletionAndEnqueue call a resultJson runId =>
    exact h.recordCompletion true call a resultJson runId
  | cleanupRetention call => exact h.cleanupRetention hop
  | markAcked call a =>
    refine txn_induction h fun _ j' hj => ?_
    cases hj
    intro r hr hst
    obtain ⟨c, hc, hid⟩ := h r hr hst
    exact ⟨stampAck call a c, mem_map_of_mem hc, (stampAck_attemptId call a c).trans hid⟩
  | respoolUnackedCompletions | enqueueOutbox => exact txn_induction h fun _ j' hj => by cases hj; exact h
  | recordOutboxFailure call seq lastError =>
    change (j.recordOutboxFailure call seq lastError).2.KeepsResults
    rcases recordOutboxFailure_cases call j seq lastError with heq | ⟨_, _, heq⟩ <;> rw [heq] <;> exact h
  | _ => exact absurd rfl hi

/-- As long as no sweep deletes the completion of a completed reservation, every completed
reservation has its completion, and `get_attempt` reports no completion without its result. -/
theorem completed_reservations_keep_results (cfg : JournalConfig) (digests : Digests)
    (ops : List JournalOp)
    (h : Run.AllSteps (fun j op => (step cfg digests j op).2) (SparesResults cfg) {} ops) :
    (Run.after (step cfg digests) {} ops).KeepsResults ∧
      ∀ a record, (Run.after (step cfg digests) {} ops).getAttempt a = some record →
        record.kind = .completion → record.resultJson.isSome := by
  have hkeeps : (Run.after (step cfg digests) {} ops).KeepsResults :=
    h.invariant (fun j op hj hop => hj.step digests hop) fun _ hr => absurd hr not_mem_nil
  exact ⟨hkeeps, fun a record => hkeeps.resultJson⟩

def sweptAt (now expires later : Call) : List JournalOp :=
  [.admitAttempt now
      { valid := true, attemptId := "a1", runId := "r", generation := some 1, slotId := "s",
        workerSession := "w", sessionEpoch := some 1, tokenHash := "t", issuedAt := some now.now,
        expiresAt := some expires.now } "p",
    .recordCompletionAndEnqueue now "a1" "{}" none, .markAcked now "a1", .cleanupRetention later]

theorem result_kept_for_a_day :
    let cfg : JournalConfig := {}
    let digests : Digests := ⟨fun _ p => p, fun token => token⟩
    let j := Run.after (step cfg digests) {} (sweptAt (callAt 0) (callAt 60) (callAt 86400000000))
    (j.reservations.map (·.state)) = [.completed] ∧ j.KeepsResults :=
  ⟨by decide +kernel, (completed_reservations_keep_results _ _ _ (by decide +kernel)).1⟩

/-- A sweep after the audit retention deletes the completion: the attempt is reported as a
completion without a result. -/
theorem result_lost_after_a_week :
    let cfg : JournalConfig := {}
    let digests : Digests := ⟨fun _ p => p, fun token => token⟩
    let j := Run.after (step cfg digests) {} (sweptAt (callAt 0) (callAt 60) (callAt 604800000002))
    (j.getAttempt "a1").map (fun r => (r.kind, r.resultJson)) = some (.completion, none) ∧
      (j.reservations.map (·.state)) = [.completed] ∧ j.completions = [] := by
  decide +kernel

end Journal

end Tram.Agent
