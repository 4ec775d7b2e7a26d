import Tram.Controller.Frames

/-! # What a run-complete for one attempt touches

The identity-checked callback settles the attempt it names and then runs the completion body
that knows only the run. That body looks for an active attempt of the run again, so a late
completion of a retired attempt settles the attempt that replaced it. -/

namespace Tram

open List

namespace Ledger

/-- Between the two ledgers only the attempt `a` changed state, and only guards it held are
released. -/
structure OnlyTouches (a : String) (l l' : Ledger) : Prop where
  attempts : ∀ b, b ≠ a →
    (l'.attempts.lookup b).map (·.state) = (l.attempts.lookup b).map (·.state)
  guards : ∀ key h, l.holder? key = some h → h.attemptId ≠ a → l'.holder? key = some h

def Holds (l : Ledger) (key attemptId runId : String) : Prop :=
  ∃ h, l.holder? key = some h ∧ h.attemptId = attemptId ∧ h.runId = runId

def leftActive (l : Ledger) (runId a : String) : Option (Σ _ : String, Attempt) :=
  (l.attempts.entries.filter fun e =>
    e.2.runId = runId ∧ e.2.state ≠ .terminal ∧ ¬(e.1 = a ∧ e.2.state.inFlight)).argmax
    fun e => e.2.ordinal

variable {l l₁ l₂ : Ledger} {a runId : String} {row : Attempt}

theorem OnlyTouches.trans (h₁ : OnlyTouches a l l₁) (h₂ : OnlyTouches a l₁ l₂) :
    OnlyTouches a l l₂ :=
  ⟨fun b hb => (h₂.attempts b hb).trans (h₁.attempts b hb),
    fun key h hh ha => h₂.guards key h (h₁.guards key h hh ha) ha⟩

theorem lookup_of_leftActive {e : Σ _ : String, Attempt} (h : l.leftActive runId a = some e) :
    l.attempts.lookup e.1 = some e.2 ∧ e.2.runId = runId ∧ e.2.state ≠ .terminal := by
  have hmem := argmax_mem h
  simp only [mem_filter, decide_eq_true_eq] at hmem
  exact ⟨Dict.mem_entries.mp hmem.1, hmem.2.1, hmem.2.2.1⟩

theorem onlyTouches_terminalizeAttempt (l : Ledger) (a runId pipelineName : String)
    (generation : Nat) (o : Option IntentOutcome) (reason : Option String) (now : Nat) :
    OnlyTouches a l (l.terminalizeAttempt a runId pipelineName generation o reason now) := by
  refine ⟨fun b hb => by rw [lookup_terminalizeAttempt, if_neg hb], fun key h hh ha => ?_⟩
  rw [holder?_terminalizeAttempt]
  split_ifs with hkey
  · subst hkey
    simp [hh, ha]
  · exact hh

theorem onlyTouches_of_idle {b pipelineName : String} (hrow : l.attempts.lookup b = some row)
    (hidle : row.state.inFlight = false) (hfree : ¬l.Holds pipelineName b runId) (generation : Nat)
    (o : Option IntentOutcome) (reason : Option String) (now : Nat) :
    OnlyTouches a l (l.terminalizeAttempt b runId pipelineName generation o reason now) := by
  refine ⟨fun x _ => ?_, fun key h hh _ => ?_⟩
  · rw [lookup_terminalizeAttempt]
    split_ifs with hx
    · subst hx
      simp [hrow, settled, hidle]
    · rfl
  · rw [holder?_terminalizeAttempt]
    split_ifs with hkey
    · subst hkey
      have hne : ¬(h.attemptId = b ∧ h.runId = runId) := fun hb => hfree ⟨h, hh, hb⟩
      rw [hh, Option.filter_some_pos (by rw [decide_eq_false hne]; rfl)]
    · exact hh

theorem activeAttemptForRun_terminalizeAttempt {generation : Nat}
    (hrow : l.attempts.lookup a = some row) (hrun : row.runId = runId)
    (hgen : row.generation = generation) (pipelineName : String) (o : Option IntentOutcome)
    (reason : Option String) (now : Nat) :
    (l.terminalizeAttempt a runId pipelineName generation o reason now).activeAttemptForRun runId =
      l.leftActive runId a := by
  unfold activeAttemptForRun leftActive
  congr 1
  rw [attempts_terminalizeAttempt]
  simp only [Dict.modify, Dict.mapVal, filter_map]
  -- an entry that stays in the filtered list is one the update did not change
  rw [filter_congr (q := fun e => decide (e.2.runId = runId ∧ e.2.state ≠ .terminal ∧
    ¬(e.1 = a ∧ e.2.state.inFlight)))]
  · refine (map_congr_left fun e he => ?_).trans (map_id _)
    simp only [mem_filter, decide_eq_true_eq] at he
    obtain ⟨-, -, -, hstay⟩ := he
    by_cases hea : e.1 = a
    · have hidle : e.2.state.inFlight = false := by simpa [hea] using hstay
      simp [Sigma.map, settled, hidle]
    · simp [Sigma.map, hea]
  · intro e he
    by_cases hea : e.1 = a
    · have hr : e.2 = row :=
        Option.some.inj ((Dict.mem_entries.mp he).symm.trans (hea ▸ hrow))
      cases hf : e.2.state.inFlight <;> simp [Sigma.map, settled, hea, hf, hr ▸ hrun, hr ▸ hgen]
    · simp [Sigma.map, hea]

end Ledger

namespace Controller

open Ledger

def streaming (c : Controller) (k : Completion) : Bool :=
  (c.streamRunIds.lookup k.pipelineName).any fun ids => ids.any (· ≠ k.runId)

theorem streamRunIds_removeStreamRunId (c : Controller) (name runId : String) :
    ((c.removeStreamRunId name runId).streamRunIds.lookup name).any (· ≠ []) =
      (c.streamRunIds.lookup name).any fun ids => ids.any (· ≠ runId) := by
  unfold removeStreamRunId
  cases hids : c.streamRunIds.lookup name with
  | none => simp [hids]
  | some ids =>
    dsimp only
    split_ifs with hnil hone
    · simp [hids, hnil]
    · simp only [AList.lookup_erase, Option.any_none, Option.any_some]
      rw [eq_comm, any_eq_false]
      simpa [filter_eq_nil_iff] using hone
    · simp only [AList.lookup_insert, Option.any_some]
      rw [eq_comm, decide_eq_true hone, any_eq_true]
      obtain ⟨x, hx⟩ := exists_mem_of_ne_nil _ hone
      exact ⟨x, (mem_filter.mp hx).1, (mem_filter.mp hx).2⟩

theorem ledger_onWorkerRunComplete (c : Controller) (k : Completion) (now : Nat) :
    (c.onWorkerRunComplete k now).ledger =
      if (c.history.lookup k.runId).isSome ∨ c.streaming k then c.ledger
      else c.ledger.terminalizeActive k.runId (some k.runStatus.intentOutcome) none now := by
  have hcore := (core_removeStreamRunId (c.popBatchLeaseForRun k.pipelineName k.runId)
    k.pipelineName k.runId).trans (core_popBatchLeaseForRun c k.pipelineName k.runId)
  have hstream : (((c.popBatchLeaseForRun k.pipelineName k.runId).removeStreamRunId k.pipelineName
      k.runId).streamRunIds.lookup k.pipelineName).any (· ≠ []) = c.streaming k := by
    rw [streamRunIds_removeStreamRunId]
    congr 1
    unfold popBatchLeaseForRun
    split
    · split_ifs <;> rfl
    · rfl
  simp only [onWorkerRunComplete, hstream]
  by_cases hrec : (c.history.lookup k.runId).isSome
  · rw [if_pos hrec, if_pos (.inl hrec), ledger_eq_of_core_eq hcore]
  · rw [if_neg hrec]
    by_cases hs : c.streaming k
    · rw [if_pos hs, if_pos (.inr hs), ledger_eq_of_core_eq hcore]
    · rw [if_neg hs, if_neg (by simp [hrec, hs]),
        ledger_eq_of_core_eq (core_finalizeBatchResult _ _ _ _)]
      simp only [terminalizeActive, ledger_eq_of_core_eq hcore]

/-- The completion finds the run recorded or the pipeline streaming, or leaves no other attempt
of the run that is in flight or holds its guard. -/
def CompletesAlone (c : Controller) (k : Completion) : Prop :=
  (c.history.lookup k.runId).isSome ∨ c.streaming k ∨
    ∀ e, c.ledger.leftActive k.runId k.attemptId = some e → e.1 = k.attemptId ∨
      (e.2.state.inFlight = false ∧ ¬c.ledger.Holds e.2.pipelineName e.1 k.runId)

theorem ledger_onAttemptRunComplete {c : Controller} {k : Completion} (hk : c.IdentityMatches k)
    (now : Nat) :
    (c.onAttemptRunComplete k now).ledger =
      let settledOne := c.ledger.terminalizeAttempt k.attemptId k.runId k.pipelineName k.generation
        (some k.runStatus.intentOutcome) none now
      if (c.history.lookup k.runId).isSome ∨ c.streaming k then settledOne
      else
        match c.ledger.leftActive k.runId k.attemptId with
        | none => settledOne
        | some e => settledOne.terminalizeAttempt e.1 k.runId e.2.pipelineName e.2.generation
            (some k.runStatus.intentOutcome) none now := by
  obtain ⟨row, hrow, hrun, hpipe, hgen⟩ := hk
  simp only [onAttemptRunComplete, hrow]
  rw [if_neg (by simp [hrun, hpipe, hgen]), ledger_onWorkerRunComplete]
  simp only [Ledger.terminalizeActive, activeAttemptForRun_terminalizeAttempt hrow hrun hgen]
  rfl

/-- A completion leaves every other attempt and every guard another attempt holds as they were
exactly when it completes alone. -/
theorem completion_touches_only_its_attempt (c : Controller) (k : Completion) (now : Nat)
    (hk : c.IdentityMatches k) :
    OnlyTouches k.attemptId c.ledger (c.onAttemptRunComplete k now).ledger ↔ c.CompletesAlone k := by
  have hself := onlyTouches_terminalizeAttempt c.ledger k.attemptId k.runId k.pipelineName
    k.generation (some k.runStatus.intentOutcome) none now
  rw [ledger_onAttemptRunComplete hk]
  split_ifs with hdone
  · exact ⟨fun _ => hdone.elim .inl fun h => .inr (.inl h), fun _ => hself⟩
  · rw [not_or] at hdone
    cases hleft : c.ledger.leftActive k.runId k.attemptId with
    | none => exact ⟨fun _ => .inr (.inr (by simp [hleft])), fun _ => hself⟩
    | some e =>
      obtain ⟨hlook, hrun, hactive⟩ := lookup_of_leftActive hleft
      constructor
      · -- were the other attempt in flight it would be terminal now, were it the holder its
        -- guard would be free
        intro htouch
        refine .inr (.inr fun e' he' => ?_)
        obtain rfl : e = e' := Option.mem_unique hleft he'
        by_contra hbad
        rw [not_or, Classical.not_and_iff_not_or_not] at hbad
        obtain ⟨hne, hfly | hheld⟩ := hbad
        · have hstate := htouch.attempts e.1 hne
          rw [lookup_terminalizeAttempt, if_pos rfl, lookup_terminalizeAttempt, if_neg hne,
            hlook] at hstate
          have hfly : e.2.state.inFlight = true := by simpa using hfly
          simp only [Option.map_some, settled, hrun, hfly, and_self, if_true,
            Option.some.injEq] at hstate
          exact hactive hstate.symm
        · obtain ⟨h, hh, ha, hr⟩ := Classical.not_not.mp hheld
          have hkept := htouch.guards e.2.pipelineName h hh (ha ▸ hne)
          rw [holder?_terminalizeAttempt, if_pos rfl] at hkept
          simp [ha, hr, Option.filter_eq_some_iff] at hkept
      · rintro (hrec | hstream | halone)
        · exact absurd hrec hdone.1
        · exact absurd hstream hdone.2
        · rcases halone e hleft with heq | ⟨hidle, hfree⟩
          · exact hself.trans (heq ▸ onlyTouches_terminalizeAttempt _ _ _ _ _ _ _ _)
          · by_cases heq : e.1 = k.attemptId
            · exact hself.trans (heq ▸ onlyTouches_terminalizeAttempt _ _ _ _ _ _ _ _)
            · refine hself.trans (onlyTouches_of_idle (?_ : _ = some e.2) hidle ?_ _ _ _ _)
              · rw [lookup_terminalizeAttempt, if_neg heq, hlook]
              · rintro ⟨h, hh, ha, hr⟩
                rw [holder?_terminalizeAttempt] at hh
                refine hfree ⟨h, ?_, ha, hr⟩
                split_ifs at hh with hkey
                · rw [hkey]
                  exact (Option.filter_eq_some_iff.mp hh).1
                · exact hh

theorem completion_touches_only_its_attempt_current :
    let c := Run.exec step (init ⟨true, 60, 0, 0⟩)
      [.register "orders" ⟨.manual, true, "yaml"⟩, .triggerRun "orders" "r" false false 0,
        .claimQueuedRun "r" ⟨0, "fence", none, none⟩]
    let k : Completion := ⟨"r-a1", 1, "r", "orders", "success"⟩
    c.IdentityMatches k ∧ OnlyTouches k.attemptId c.ledger (c.onAttemptRunComplete k 1).ledger := by
  intro c k
  have hk : c.IdentityMatches k := by decide +kernel
  have halone : c.ledger.leftActive "r" "r-a1" = none := by decide +kernel
  refine ⟨hk, (completion_touches_only_its_attempt c k 1 hk).mpr (.inr (.inr fun e he => ?_))⟩
  rw [halone] at he
  cases he

/-- A manual run queued while no worker is up: its first dispatch is reported as failed, the run
is claimed again as attempt 2, and then the first attempt's completion arrives. -/
def requeuedRun : List Op :=
  let env : ClaimEnv := ⟨0, "fence", none, none⟩
  [.register "orders" ⟨.manual, true, "yaml"⟩, .triggerRun "orders" "r" false false 0,
    .claimQueuedRun "r" env, .drainEnds "r" (.failed "timed out") 1, .claimQueuedRun "r" env,
    .drainEnds "r" (.accepted "http://w1" "w1") 2]

/-- The late completion of attempt 1 settles attempt 2, which is running, and frees its guard. -/
theorem late_completion_settles_replacement :
    let c := Run.exec step (init ⟨true, 60, 0, 0⟩) requeuedRun
    let k : Completion := ⟨"r-a1", 1, "r", "orders", "success"⟩
    c.IdentityMatches k ∧
      (c.ledger.attempts.lookup "r-a2").map (·.state) = some .running ∧
      c.ledger.holder? "orders" = some ⟨"r", "r-a2", 1⟩ ∧
      ((c.onAttemptRunComplete k 3).ledger.attempts.lookup "r-a2").map (·.state) = some .terminal ∧
      (c.onAttemptRunComplete k 3).ledger.holder? "orders" = none ∧
      ¬OnlyTouches k.attemptId c.ledger (c.onAttemptRunComplete k 3).ledger := by
  intro c k
  have hrunning : (c.ledger.attempts.lookup "r-a2").map (·.state) = some .running := by decide +kernel
  have hterminal : ((c.onAttemptRunComplete k 3).ledger.attempts.lookup "r-a2").map (·.state) =
      some .terminal := by decide +kernel
  refine ⟨by decide +kernel, hrunning, by decide +kernel, hterminal, by decide +kernel, fun h => ?_⟩
  have hsame := h.attempts "r-a2" (by decide)
  rw [hrunning, hterminal] at hsame
  cases hsame

end Controller

end Tram
