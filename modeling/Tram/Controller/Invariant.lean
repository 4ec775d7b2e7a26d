import Tram.Controller.Changes

/-! # The operations as changes

For every operation of the controller: from a state in which each run is in one place, it is a
sequence of changes. -/

namespace Tram.Controller

open List Ledger Shrinks

variable {S : Prop} {B : Set String} {c : Controller} {r name : String}

theorem changes_crash (c : Controller) : Changes S B c.core c.crash.core :=
  changes { refl S B c.core with submitted := nofun, dispatches := nofun }

/-! ## Claims -/

/-- The transactions of a claim. Either they add no attempt, and then report one only for an
attempt that holds the guard already; or they add the attempt. A process that does not die
reports the attempt it added. -/
theorem claimTransactions_cases (S : Prop) (l : Ledger) (intent : RunIntent) (req : ClaimRequest)
    (env : ClaimEnv) :
    ((Quiet S l (claimTransactions l intent req env).2 ∧
        Moves ∅ l (claimTransactions l intent req env).2) ∧
      ∀ a g, (claimTransactions l intent req env).1 = .claimed a g →
        ∃ x, l.holder? req.guardKey = some x ∧ x.attemptId = req.attemptId ∧ x.runId = req.runId) ∨
    (Added req l (claimTransactions l intent req env).2 ∧
      ((claimTransactions l intent req env).1 = .claimed req.attemptId req.generation ∨
        env.halt ≠ none ∧ (claimTransactions l intent req env).1 = .died)) := by
  have hens : Quiet S l (l.ensureRunIntent req.runId intent) := .of_eq rfl rfl
  have hmens : Moves ∅ l (l.ensureRunIntent req.runId intent) := .of_eq ∅ rfl rfl
  simp only [claimTransactions]
  by_cases hintent : env.halt = some .afterIntent
  · rw [if_pos hintent]
    exact .inl ⟨⟨hens, hmens⟩, by simp⟩
  rw [if_neg hintent]
  rcases claimRun_cases (l.ensureRunIntent req.runId intent) req env.fault with
    ⟨hres, hclaimed⟩ | ⟨hres, hsame⟩
  · have hadd : Added req l ((l.ensureRunIntent req.runId intent).claimRun req env.fault).2 :=
      { hclaimed.added with }
    rw [hres]
    simp only [ClaimRequest.outcome, reduceCtorEq, or_self, if_false]
    split_ifs with hhalt
    · exact .inr ⟨hadd, .inr ⟨by simp [hhalt], rfl⟩⟩
    · exact .inr ⟨hadd.mark _ _ _, .inl rfl⟩
  · rw [hsame]
    cases hr : ((l.ensureRunIntent req.runId intent).claimRun req env.fault).1 with
    | error e => exact .inl ⟨⟨hens, hmens⟩, by simp⟩
    | ok o =>
      dsimp only
      split_ifs with hlost
      · exact .inl ⟨⟨hens, hmens⟩, by simp⟩
      · exact .inl ⟨⟨hens, hmens⟩, by simp⟩
      · refine .inl ⟨⟨hens.trans (quiet_markAttemptDispatching _ _ _ _ _),
          hmens.trans (moves_markAttemptDispatching _ _ _ _ _)⟩, fun _ _ _ => ?_⟩
        rw [not_or] at hlost
        have hheld : o.status = .alreadyHeld := by
          cases hst : o.status with
          | claimed => exact absurd hst (hres o hr).status
          | alreadyHeld => rfl
          | lost => exact absurd hst hlost.1
          | noIntent => exact absurd hst hlost.2
        obtain ⟨x, hx, hid, hrun⟩ := (hres o hr).held hheld
        exact ⟨x, hx, hid, hrun⟩

theorem core_claimForDispatch (c : Controller) (name r : String) (origin : Origin) (flush : Bool)
    (yamlText : String) (st : ScheduleType) (n : Nat) (env : ClaimEnv) :
    (c.claimForDispatch name r origin flush yamlText st n env).2.core =
      { c.core with
        ledger := (c.claimForDispatch name r origin flush yamlText st n env).2.ledger } := rfl

theorem changes_claimForDispatch (hmint : r ∈ c.minted) (hsub : c.submitted.lookup r = none)
    (hsent : ∀ d, c.dispatches.lookup r = some d → d.phase ≠ .sent) (name : String) (origin : Origin)
    (flush : Bool) (yamlText : String) (st : ScheduleType) (n : Nat) (env : ClaimEnv) :
    Changes S B c.core (c.claimForDispatch name r origin flush yamlText st n env).2.core := by
  rw [core_claimForDispatch]
  rcases claimTransactions_cases S c.ledger _ (batchRequest name r (c.pipelineGeneration name) n
    yamlText env.fenceToken) env with ⟨⟨hq, -⟩, -⟩ | ⟨hadd, -⟩
  · exact .ledger hq
  · exact Changes.refl.tail (.claim (hadd.grows rfl) hmint hsub hsent)

theorem claimForDispatch_claimed {origin : Origin} {flush : Bool} {yamlText : String}
    {st : ScheduleType} {n : Nat} {env : ClaimEnv} {a : String} {g : Nat}
    (hun : ∀ key x, c.ledger.holder? key = some x → x.runId ≠ r)
    (hres : (c.claimForDispatch name r origin flush yamlText st n env).1 = .claimed a g) :
    a = mintAttemptId r n ∧
      ∀ row, (c.claimForDispatch name r origin flush yamlText st n env).2.ledger.attempts.lookup a =
        some row → row.generation = g := by
  rcases claimTransactions_cases True c.ledger _ (batchRequest name r (c.pipelineGeneration name) n yamlText
    env.fenceToken) env with ⟨-, hheld⟩ | ⟨hadd, hnew | ⟨-, hdied⟩⟩
  · obtain ⟨x, hx, -, hrun⟩ := hheld a g hres
    exact absurd hrun (hun _ x hx)
  · cases hres.symm.trans hnew
    exact ⟨rfl, (hadd.grows rfl).new⟩
  · cases hres.symm.trans hdied

theorem changes_claimBatch (hmint : r ∈ c.minted) (hsub : c.submitted.lookup r = none)
    (hq : c.queuedRuns.lookup r = none) (hd : c.dispatches.lookup r = none)
    (hun : ∀ key x, c.ledger.holder? key = some x → x.runId ≠ r) (name : String) (origin : Origin)
    (flush : Bool) (env : ClaimEnv) :
    Changes S B c.core (c.claimBatch name r origin flush env).core := by
  unfold claimBatch
  cases hs : c.pipelines.lookup name with
  | none => exact .refl
  | some s =>
    dsimp only
    by_cases hbusy : s.status = .running ∨ s.status = .queued
    · rw [if_pos hbusy]
      split_ifs
      · exact .of_eq (core_recordSkippedManualRun ..)
      · exact .refl
    rw [if_neg hbusy]
    have hclaim := changes_claimForDispatch (S := S) (B := B) (c := c.setStatus name .running)
      hmint hsub (fun d hd' => by cases hd.symm.trans hd') name origin flush s.config.yamlText
      s.config.scheduleType 1 env
    have hclaimed := @claimForDispatch_claimed (c.setStatus name .running) r name origin flush
      s.config.yamlText s.config.scheduleType 1 env
    have hcore := core_claimForDispatch (c.setStatus name .running) name r origin flush
      s.config.yamlText s.config.scheduleType 1 env
    generalize (c.setStatus name .running).claimForDispatch name r origin flush s.config.yamlText
      s.config.scheduleType 1 env = claim at hclaim hclaimed hcore ⊢
    obtain ⟨res, c₂⟩ := claim
    cases res with
    | claimed a g =>
      obtain ⟨hid, hgen⟩ := hclaimed hun rfl
      exact hclaim.tail (.dispatch (by rw [hcore]; exact hmint) (by rw [hcore]; exact hsub)
        (by rw [hcore]; exact hq) hid hgen)
    | refused =>
      split_ifs
      · rwa [core_recordSkippedManualRun]
      · exact hclaim
    | raised e => exact hclaim
    | died => exact hclaim.trans (changes_crash c₂)

/-! ## Batch threads -/

theorem hasActiveQueuedRun_eq_false (h : c.hasActiveQueuedRun name = false) (r : String)
    (q : QueuedRun) (hq : c.queuedRuns.lookup r = some q) (hname : q.pipelineName = name) :
    q.active = false := by
  simp only [hasActiveQueuedRun, any_eq_false, Bool.and_eq_true, beq_iff_eq, not_and,
    Bool.not_eq_true] at h
  exact h ⟨r, q⟩ (Dict.mem_entries.mpr hq) hname

theorem changes_enqueueManualRun (hmint : r ∈ c.minted) (hsub : c.submitted.lookup r = none)
    (hq : c.queuedRuns.lookup r = none)
    (hd : ∀ d, c.dispatches.lookup r = some d → d.phase = .leaving) (name yamlText : String)
    (now : Nat) : Changes S B c.core (c.enqueueManualRun name r yamlText now).2.core := by
  simp only [enqueueManualRun]
  split_ifs with hactive
  · exact .refl
  · exact .refl
  · exact .trans (Changes.refl.tail (.enqueue hmint hsub hq hd rfl
      (hasActiveQueuedRun_eq_false (by simpa using hactive)))) (.ledger (.of_eq rfl rfl))

section

variable (h : c.core.Placed)
include h

theorem changes_triggerRun (hr : r ∉ c.minted) (name : String)
    (flush healthy : Bool) (now : Nat) : Changes S B c.core
      ({ c with minted := insert r c.minted }.triggerRun name r flush healthy now).core := by
  obtain ⟨hd, hsub, hq, hun⟩ := h.fresh hr
  have hmint : r ∈ insert r c.minted := Finset.mem_insert_self r c.minted
  refine .trans (.mint r) ?_
  unfold triggerRun
  split
  · exact .refl
  · split_ifs
    · exact .refl
    · exact .refl
    · exact changes_enqueueManualRun (c := { c with minted := insert r c.minted }) hmint hsub hq
        (fun d hd' => by cases hd.symm.trans hd') _ _ _
    · exact Changes.refl.tail (.submit hmint hq hd hun)

theorem changes_fire (hr : r ∉ c.minted) (name : String) (env : ClaimEnv) :
    Changes S B c.core
      ({ c with minted := insert r c.minted }.claimBatch name r .scheduled false env).core := by
  obtain ⟨hd, hsub, hq, hun⟩ := h.fresh hr
  exact .trans (.mint r) (changes_claimBatch (c := { c with minted := insert r c.minted })
    (Finset.mem_insert_self r c.minted) hsub hq hd hun name .scheduled false env)

theorem changes_startSubmitted (r : String) (env : ClaimEnv) :
    Changes S B c.core (c.startSubmitted r env).core := by
  unfold startSubmitted
  cases hjob : c.submitted.lookup r with
  | none => exact .refl
  | some job =>
    obtain ⟨hq, hmint, hun⟩ := h.submitted r job hjob
    have hd : c.dispatches.lookup r = none :=
      Option.eq_none_iff_forall_ne_some.mpr fun d hd => by cases (h.dispatched r d hd).1.symm.trans hjob
    have hleft : Shrinks S B c.core ({ c with submitted := c.submitted.erase r } : Controller).core :=
      { refl S B c.core with
        submitted := fun _ _ => Dict.lookup_of_erase }
    exact hleft.changes.trans (changes_claimBatch (c := { c with submitted := c.submitted.erase r })
      hmint (AList.lookup_erase r c.submitted) hq hd hun _ _ _ env)

omit h in
theorem changes_setPhase (c : Controller) (r : String) {phase : DispatchPhase} (hphase : phase ≠ .sent)
    (hpend : phase ≠ .leaving → ∀ d, c.dispatches.lookup r = some d → d.phase ≠ .leaving) :
    Changes S B c.core (c.setPhase r phase).core :=
  changes
    { refl S B c.core with
      dispatches := Dict.forall_modify
        (fun d hd => ⟨d, hd, fun hs => absurd hs hphase, fun hne => hpend hne d hd⟩)
        fun _ d hd => ⟨d, hd, fun _ => rfl, id⟩ }

theorem maySettle_own {d : BatchDispatch} (hd : c.dispatches.lookup r = some d)
    (hsent : d.phase = .sent) (hpark : ¬c.ledger.Parked r) :
    c.ledger.MaySettle d.attemptId r d.pipelineName d.generation := by
  intro row hrow hactive hrun _
  refine ⟨(h.own r d hd hsent).2 row hrow, ?_⟩
  by_contra hidle
  exact hpark ⟨_, row, hrow, hrun, hactive, by simpa using hidle⟩

theorem changes_dispatchEnds (r : String) (outcome : DispatchOutcome) (now : Nat) :
    Changes (¬c.ledger.Parked r) B c.core (c.dispatchEnds r outcome now).core := by
  unfold dispatchEnds
  cases hd : c.dispatches.lookup r with
  | none => exact .refl
  | some d =>
    dsimp only
    by_cases hphase : d.phase ≠ .sent
    · rw [if_pos hphase]
      exact .refl
    rw [if_neg hphase]
    rw [not_not] at hphase
    have hretire (o : Option IntentOutcome) :
        Changes (¬c.ledger.Parked r) B c.core (c.retireOwnAttempt r d o now).core :=
      .ledger (quiet_terminalizeAttempt (maySettle_own h hd hphase) o none now)
    have hrefused (o : Option IntentOutcome) : Changes (¬c.ledger.Parked r) B c.core
        ((c.retireOwnAttempt r d o now).setPhase r (.refused outcome)).core := by
      refine (hretire o).trans (changes_setPhase _ r nofun fun _ d' hd' => ?_)
      cases hd.symm.trans hd'
      simp [hphase]
    cases outcome with
    | accepted url id =>
      refine .trans ?_ (changes_setPhase _ r nofun fun hne => absurd rfl hne)
      unfold trackAccepted
      split
      · exact hretire _
      · split_ifs
        · exact hretire _
        · exact .refl
        · exact .ledger ((quiet_markAttemptRunning ..).trans (quiet_recordAttemptWorker ..))
    | noCapacity | failed => exact hrefused _

theorem changes_settleRefused (r : String) (now : Nat) :
    Changes S B c.core (c.settleRefused r now).core := by
  cases hd : c.dispatches.lookup r with
  | none =>
    simp only [settleRefused, hd]
    exact .refl
  | some d =>
    cases hphase : d.phase with
    | refused outcome =>
      rw [settleRefused_eq hd hphase]
      obtain ⟨hsub, hmint⟩ := h.dispatched r d hd
      have hleave (c₁ : Controller) : Changes S B c₁.core (c₁.setPhase r .leaving).core :=
        changes_setPhase c₁ r (by simp) fun hne => absurd rfl hne
      have hleft : ∀ d', (c.setPhase r .leaving).dispatches.lookup r = some d' → d'.phase = .leaving := by
        intro d' hd'
        simp only [setPhase, Dict.lookup_modify, if_true, hd, Option.map_some] at hd'
        cases hd'
        rfl
      split_ifs
      · have henq := (hleave c).trans (changes_enqueueManualRun (c := c.setPhase r .leaving) hmint hsub
          (h.pending r d hd (by simp [hphase])) hleft d.pipelineName d.yamlText now)
        generalize (c.setPhase r .leaving).enqueueManualRun d.pipelineName r d.yamlText now = result
          at henq ⊢
        obtain ⟨_ | _ | _, c'⟩ := result
        · exact henq
        · exact henq
        · dsimp only
          rwa [core_recordSkippedManualRun]
      · have hfinal := hleave (c.finalizeBatchResult d.pipelineName r .failed)
        rwa [core_finalizeBatchResult] at hfinal
    | sent | leaving =>
      simp only [settleRefused, hd, hphase]
      exact .refl

end

theorem changes_leaveBatch (c : Controller) (r : String) :
    Changes S B c.core (c.leaveBatch r).core := by
  unfold leaveBatch
  split
  · exact .refl
  · split_ifs
    · exact .refl
    all_goals
      exact changes
        { refl S B c.core with
          dispatches := fun _ d' hd' => ⟨d', Dict.lookup_of_erase hd', fun _ => rfl, id⟩ }

/-! ## The queue -/

theorem changes_updateQueuedRun (c : Controller) (r : String) {fromStatus : QueuedStatus}
    {set : QueuedRun → QueuedRun} (hname : ∀ q, (set q).pipelineName = q.pipelineName)
    (hfrom : fromStatus = .queued ∨ fromStatus = .dispatching)
    (hwaits : ∀ q, fromStatus = .dispatching → (set q).status = .queued → r ∈ B) :
    Changes S B c.core (c.updateQueuedRun r fromStatus set).core :=
  .modify fun q => .of_update (hname q)
    (fun hq => by rcases hfrom with h | h <;> simp [QueuedRun.active, hq, h])
    fun hq hst => hwaits q (hq.symm.trans hst)

theorem changes_unfenced {row : QueuedRun} (hrow : c.queuedRuns.lookup r = some row)
    (hst : row.status = .queued) (l : Ledger) :
    Changes S B ({ c with ledger := l } : Controller).core
      ({ c.claimQueuedRunRow r with ledger := l }.revertQueuedRunRow r).core := by
  have hlook (r' : String) : ({ c.claimQueuedRunRow r with ledger := l }.revertQueuedRunRow
      r).queuedRuns.lookup r' = c.queuedRuns.lookup r' := by
    simp only [revertQueuedRunRow, claimQueuedRunRow, updateQueuedRun, Dict.lookup_modify]
    split_ifs with hr
    · subst hr
      simp only [hrow, hst, Option.map_some, if_true]
      rw [← hst]
    · rfl
  exact changes
    { refl S B ({ c with ledger := l } : Controller).core with
      rows := fun r' q hq => ⟨q, (hlook r').trans hq, .refl _ q⟩
      unqueued := fun r' hr' => (hlook r').trans hr' }

theorem changes_claimQueuedRun (h : c.core.Placed) (r : String) (env : ClaimEnv) :
    Changes S B c.core (c.claimQueuedRun r env).core := by
  unfold claimQueuedRun
  cases hrow : c.queuedRuns.lookup r with
  | none => exact .refl
  | some row =>
    dsimp only
    cases hs : c.pipelines.lookup row.pipelineName with
    | none => exact .refl
    | some s =>
      dsimp only
      by_cases hskip : row.status ≠ .queued ∨ (c.activeBatchRuns.lookup row.pipelineName).isSome ∨
          s.status = .running
      · rw [if_pos hskip]
        exact .refl
      rw [if_neg hskip]
      have hfence : Changes S B c.core (c.claimQueuedRunRow r).core :=
        changes_updateQueuedRun c r (fun _ => rfl) (.inl rfl) nofun
      by_cases hhalt : env.halt = some .afterFence
      · rw [if_pos hhalt]
        exact hfence.trans (changes_crash _)
      rw [if_neg hhalt]
      have hsub : c.submitted.lookup r = none :=
        Option.eq_none_iff_forall_ne_some.mpr fun j hj => by cases (h.submitted r j hj).1.symm.trans hrow
      have hsent : ∀ d, c.dispatches.lookup r = some d → d.phase ≠ .sent := fun d hd hsent => by
        cases (h.pending r d hd (by simp [hsent])).symm.trans hrow
      have hclaim (c₁ : Controller) (hm : c₁.minted = c.minted) (hs₁ : c₁.submitted = c.submitted)
          (hd : c₁.dispatches = c.dispatches) := changes_claimForDispatch (S := S) (B := B)
        (c := c₁) (hm ▸ h.queued r row hrow) (hs₁ ▸ hsub) (hd ▸ hsent) row.pipelineName .queued false
        row.yamlSnapshot s.config.scheduleType ((c.claimQueuedRunRow r).ledger.nextAttemptOrdinal r) env
      have hfenced := hfence.trans (hclaim (c.claimQueuedRunRow r) rfl rfl rfl)
      have hunfenced := (hclaim c rfl rfl rfl).trans (changes_unfenced hrow
        (not_not.mp fun hne => hskip (.inl hne)) _)
      change Changes S B c.core (((c.claimQueuedRunRow r).claimForDispatch row.pipelineName r .queued
        false row.yamlSnapshot s.config.scheduleType
        ((c.claimQueuedRunRow r).ledger.nextAttemptOrdinal r) env).2.revertQueuedRunRow r).core at hunfenced
      generalize (c.claimQueuedRunRow r).claimForDispatch row.pipelineName r .queued false
        row.yamlSnapshot s.config.scheduleType ((c.claimQueuedRunRow r).ledger.nextAttemptOrdinal r)
        env = claim at hfenced hunfenced ⊢
      obtain ⟨res, c₂⟩ := claim
      cases res with
      | claimed a g => exact hfenced.trans (.drains _)
      | refused => exact hunfenced
      | raised e => exact hfenced
      | died => exact hfenced.trans (changes_crash c₂)

theorem changes_commitQueuedDispatch (c : Controller) (r workerUrl workerId : String) (now : Nat) :
    Changes S B c.core (c.commitQueuedDispatch r workerUrl workerId now).core := by
  simp only [commitQueuedDispatch]
  split
  · exact .refl
  · split_ifs
    · exact .refl
    all_goals
      have hmark : Changes S B c.core (c.markQueuedRunDispatched r now).core :=
        changes_updateQueuedRun c r (fun _ => rfl) (.inr rfl) nofun
      split
      · exact hmark
      · exact hmark.trans (.ledger ((quiet_markAttemptRunning ..).trans (quiet_recordAttemptWorker ..)))

theorem changes_terminalizeActive (hpark : S → ¬c.ledger.Parked r) (o : Option IntentOutcome)
    (reason : Option String) (now : Nat) :
    Changes S B c.core (c.terminalizeActive r o reason now).core :=
  .ledger (quiet_terminalizeActive hpark o reason now)

def DispatchOutcome.putsBack (runId : String) : DispatchOutcome → Set String
  | .accepted _ _ => ∅
  | _ => {runId}

theorem changes_drainEnds (c : Controller) (r : String) (outcome : DispatchOutcome) (now : Nat) :
    Changes (¬c.ledger.Parked r) (DispatchOutcome.putsBack r outcome) c.core
      (c.drainEnds r outcome now).core := by
  have hdrain {B : Set String} : Changes (¬c.ledger.Parked r) B c.core
      ({ c with drains := c.drains.erase r } : Controller).core := .drains _
  have hrevert : Changes (¬c.ledger.Parked r) {r} c.core
      ({ c with drains := c.drains.erase r }.revertQueuedClaim r now).core := by
    refine hdrain.trans ?_
    unfold revertQueuedClaim
    split
    · have hback : Changes (¬c.ledger.Parked r) {r} ({ c with drains := c.drains.erase r } : Controller).core
          ({ c with drains := c.drains.erase r }.revertQueuedRunRow r).core :=
        changes_updateQueuedRun _ r (fun _ => rfl) (.inr rfl) fun _ _ _ => rfl
      exact hback.trans (changes_terminalizeActive (by exact id) _ _ now)
    · exact changes_terminalizeActive (by exact id) _ _ now
    · exact .refl
  unfold drainEnds
  split_ifs
  · cases outcome with
    | accepted url id => exact hdrain.trans (changes_commitQueuedDispatch _ r url id now)
    | noCapacity | failed => exact hrevert
  · exact .refl

theorem changes_expireQueuedRun (c : Controller) (r : String) (now : Nat) :
    Changes S B c.core (c.expireQueuedRun r now).core := by
  unfold expireQueuedRun
  split
  · exact .refl
  · split_ifs
    · exact .refl
    · dsimp only
      rw [core_finalizeBatchResult]
      have hexpire : Changes S B c.core (c.expireQueuedRunRow r).core :=
        changes_updateQueuedRun c r (fun _ => rfl) (.inl rfl) nofun
      exact hexpire.trans (.ledger (.of_eq rfl rfl))

/-! ## Completions and lost runs -/

theorem changes_onWorkerRunComplete {k : Completion} (hpark : S → ¬c.ledger.Parked k.runId)
    (now : Nat) : Changes S B c.core (c.onWorkerRunComplete k now).core := by
  have hcore := (core_removeStreamRunId (c.popBatchLeaseForRun k.pipelineName k.runId)
    k.pipelineName k.runId).trans (core_popBatchLeaseForRun c k.pipelineName k.runId)
  simp only [onWorkerRunComplete]
  generalize (c.popBatchLeaseForRun k.pipelineName k.runId).removeStreamRunId k.pipelineName k.runId =
    c₁ at hcore ⊢
  rw [← hcore]
  split_ifs
  · exact .refl
  · exact .refl
  · rw [core_finalizeBatchResult]
    exact changes_terminalizeActive (ledger_eq_of_core_eq hcore ▸ hpark) _ _ now

section

variable (c)

theorem changes_onAttemptRunComplete (k : Completion) (now : Nat) :
    Changes (¬c.ledger.Parked k.runId) B c.core (c.onAttemptRunComplete k now).core := by
  unfold onAttemptRunComplete
  split
  · exact .refl
  · rename_i a ha
    split_ifs with hid
    · exact .refl
    · simp only [not_or, not_not] at hid
      refine .trans (.ledger (quiet_terminalizeAttempt (fun hpark row hrow hactive hrun _ => ?_) _ _ _))
        (changes_onWorkerRunComplete (c := { c with ledger := c.ledger.terminalizeAttempt _ _ _ _ _ _ _ })
          (fun hpark hp => hpark ((moves_terminalizeAttempt ..).parked_back hp)) now)
      cases ha.symm.trans hrow
      refine ⟨hid.2.2, ?_⟩
      by_contra hidle
      exact hpark ⟨_, a, hrow, hrun, hactive, by simpa using hidle⟩

theorem changes_markActiveBatchRunLost (name : String) (lease : Option Lease) (r : String)
    (verdict : Verdict) (now : Nat) : Changes (¬c.ledger.Parked ((lease.map (·.runId)).getD r)) B c.core
      (c.markActiveBatchRunLost name lease r verdict now).core := by
  simp only [markActiveBatchRunLost]
  by_cases hsame : c.activeBatchRuns.lookup name ≠ lease
  · rw [if_pos hsame]
    exact .refl
  rw [if_neg hsame]
  cases verdict with
  | completed attempt status =>
    dsimp only
    split
    · exact .refl
    · exact changes_onAttemptRunComplete c ⟨_, _, _, name, status⟩ now
    · exact changes_onWorkerRunComplete (by exact id) now
  | lost =>
    by_cases hbusy : (c.batchDispatching.lookup name).isSome
    · rw [if_pos hbusy]
      exact .refl
    rw [if_neg hbusy]
    cases hp : c.pipelines.lookup name with
    | none =>
      split_ifs <;> exact .refl
    | some s =>
      dsimp only
      by_cases hidle : lease.isNone ∧ s.status ≠ .running
      · rw [if_pos hidle]
        exact .refl
      rw [if_neg hidle]
      have hreap := changes_terminalizeActive (B := B)
        (c := { c with activeBatchRuns := c.activeBatchRuns.erase name })
        (r := (lease.map (·.runId)).getD r) id (some .failed) (some "worker_lost") now
      split_ifs
      · exact hreap
      · rwa [core_finalizeBatchResult]

theorem changes_terminalCancelPipelineQueued (name reason : String) (now : Nat) :
    Changes S B c.core (c.terminalCancelPipelineQueued name reason now).core :=
  .trans (.mapVal fun _ _ => .of_update (by rfl) And.right fun _ _ h => by cases h)
    (.ledger (.of_eq rfl rfl))

theorem changes_update (name : String) (config : PipelineConfig) (now : Nat) :
    Changes S B c.core (c.update name config now).core := by
  unfold update
  split
  · exact .refl
  · dsimp only
    have hcancel := changes_terminalCancelPipelineQueued (S := S) (B := B)
      ((((c.stopExecution name).registerConfig name config).savePipeline name
        config).bumpPipelineGeneration name false) name "pipeline_updated" now
    simp only [core_bumpPipelineGeneration, core_savePipeline, core_registerConfig,
      core_stopExecution] at hcancel
    split_ifs
    · exact .refl
    · rwa [core_doSchedule]
    · exact hcancel

theorem changes_delete (name : String) (now : Nat) : Changes S B c.core (c.delete name now).core := by
  unfold delete
  dsimp only
  have hcancel := changes_terminalCancelPipelineQueued (S := S) (B := B)
    { c.stopExecution name with
      activeBatchRuns := (c.stopExecution name).activeBatchRuns.erase name } name "pipeline_deleted" now
  have hcore : ({ c.stopExecution name with
      activeBatchRuns := (c.stopExecution name).activeBatchRuns.erase name } : Controller).core =
      c.core := core_stopExecution c name
  rw [hcore] at hcancel
  split_ifs <;> exact hcancel.trans (.ledger (.of_eq rfl rfl))

theorem changes_stopPipeline (name : String) (now : Nat) :
    Changes S B c.core (c.stopPipeline name now).core := by
  have hcancel := changes_terminalCancelPipelineQueued (S := S) (B := B)
    (((c.stopExecution name).setStoppedFlag name true).setDesiredStopped name true) name
    "pipeline_stopped" now
  simp only [core_setDesiredStopped, core_setStoppedFlag, core_stopExecution] at hcancel
  exact hcancel

theorem changes_restartPipeline (name : String) (now : Nat) :
    Changes S B c.core (c.restartPipeline name now).core := by
  unfold restartPipeline
  split
  · exact .refl
  · dsimp only
    have hcancel (c₁ : Controller) : Changes S B c₁.core ((c₁.setStoppedFlag name
        false).terminalCancelPipelineQueued name "pipeline_restarted" now).core :=
      changes_terminalCancelPipelineQueued (c₁.setStoppedFlag name false) name "pipeline_restarted" now
    split_ifs
    · rw [core_doSchedule]
      exact hcancel { c.setStatus name .stopped with schedulerJobs := c.schedulerJobs.erase name }
    · exact hcancel { c.setStatus name .stopped with schedulerJobs := c.schedulerJobs.erase name }
    · rw [core_doSchedule]
      exact hcancel c
    · exact hcancel c

end

theorem resolveAttemptAtBoot_spec (evidence : String → Evidence) (now : Nat) (c : Controller)
    {e : Σ _ : String, Attempt} (hrow : c.ledger.attempts.lookup e.1 = some e.2)
    (hfly : e.2.state.inFlight = true) :
    Changes S B c.core (resolveAttemptAtBoot evidence now c e).core ∧
      ∀ b, b ≠ e.1 → (resolveAttemptAtBoot evidence now c e).ledger.attempts.lookup b =
        c.ledger.attempts.lookup b := by
  have hsettle (o : IntentOutcome) (reason : Option String) (queueReason : String) :
      Changes S B c.core (c.settleAtBoot e o reason queueReason now).core ∧
        ∀ b, b ≠ e.1 → (c.settleAtBoot e o reason queueReason now).ledger.attempts.lookup b =
          c.ledger.attempts.lookup b := by
    refine ⟨.trans (.ledger (quiet_terminalizeAttempt (fun _ row hrow' _ _ _ => ?_) (some o) reason now))
      (.modify fun q => .of_update rfl id nofun),
      fun b hb => (lookup_terminalizeAttempt ..).trans (if_neg hb)⟩
    cases hrow.symm.trans hrow'
    exact ⟨rfl, hfly⟩
  have hpark (reason : String) : Changes S B c.core (c.parkAtBoot e reason).core ∧
      ∀ b, b ≠ e.1 → (c.parkAtBoot e reason).ledger.attempts.lookup b = c.ledger.attempts.lookup b :=
    ⟨.ledger (quiet_markAttemptUnknown ..), fun _ hb => (lookup_updateAttempt ..).trans (if_neg hb)⟩
  unfold resolveAttemptAtBoot
  split_ifs
  · exact hsettle ..
  · cases evidence e.1 with
    | noReply | unrecognized => exact hpark _
    | completed | interrupted | tombstone => exact hsettle ..
    | active => exact ⟨.refl, fun _ _ => rfl⟩

/-- The attempts read at boot have different ids, so each is still as it was read when its turn
comes. -/
theorem changes_foldl_resolveAttemptAtBoot (evidence : String → Evidence) (now : Nat)
    (es : List (Σ _ : String, Attempt)) (hes : es.NodupKeys) (c : Controller)
    (hrows : ∀ e ∈ es, c.ledger.attempts.lookup e.1 = some e.2 ∧ e.2.state.inFlight = true) :
    Changes S B c.core (es.foldl (resolveAttemptAtBoot evidence now) c).core := by
  induction es generalizing c with
  | nil => exact .refl
  | cons e es ih =>
    obtain ⟨hrow, hfly⟩ := hrows e mem_cons_self
    obtain ⟨hchanges, hothers⟩ := resolveAttemptAtBoot_spec (S := S) (B := B) evidence now c
      hrow hfly
    refine hchanges.trans (ih (nodupKeys_of_nodupKeys_cons hes) _ fun e' he' => ?_)
    obtain ⟨hrow', hfly'⟩ := hrows e' (mem_cons_of_mem e he')
    have hne : e'.1 ≠ e.1 := by
      intro heq
      exact notMem_keys_of_nodupKeys_cons hes (heq ▸ mem_keys_of_mem he')
    exact ⟨(hothers e'.1 hne).trans hrow', hfly'⟩

theorem changes_boot (c : Controller) (evidence : String → Evidence) (now : Nat) :
    Changes S Set.univ c.core (c.boot evidence now).core := by
  have hreset : Changes S Set.univ c.core c.resetOrphanDispatchingQueuedRuns.core :=
    .mapVal fun r q => .of_update rfl (fun hq => by simp [QueuedRun.active, hq.1])
      fun _ _ _ => Set.mem_univ r
  have hresolved := hreset.trans (changes_foldl_resolveAttemptAtBoot evidence now
    c.resetOrphanDispatchingQueuedRuns.nonTerminalAttempts
    (c.ledger.attempts.nodupKeys.sublist filter_sublist) _ fun e he => by
      simp only [nonTerminalAttempts, mem_filter] at he
      exact ⟨Dict.mem_entries.mp he.1, he.2⟩)
  have hup (c₁ : Controller) : Changes S Set.univ c₁.core ({ c₁ with up := true } : Controller).core :=
    changes { refl S Set.univ c₁.core with }
  exact (hresolved.trans (.of_eq (core_foldl_loadPipeline ..))).trans (hup _)

/-! ## Steps -/

/-- The run whose attempts an operation may settle: the run of a dispatch or a drain that ends,
of a completion, of a lost lease. -/
def Op.settles : Op → Option String
  | .dispatchEnds runId _ _ | .drainEnds runId _ _ => some runId
  | .onWorkerRunComplete k _ | .onAttemptRunComplete k _ => some k.runId
  | .markActiveBatchRunLost _ lease runId _ _ => some ((lease.map (·.runId)).getD runId)
  | _ => none

/-- The operation settles no run that has an attempt parked as 'unknown'. -/
def SparesParked (c : Controller) (op : Op) : Prop :=
  ∀ runId, op.settles = some runId → ¬c.ledger.Parked runId

instance (c : Controller) (op : Op) : Decidable (c.SparesParked op) :=
  decidable_of_iff (∀ runId ∈ op.settles, ¬c.ledger.Parked runId) Iff.rfl

/-- The rows an operation may put back. -/
def Op.putsBack : Op → Set String
  | .drainEnds runId outcome _ => DispatchOutcome.putsBack runId outcome
  | .boot _ _ => Set.univ
  | _ => ∅

theorem withRunId_cases {P : Controller → Prop} (c : Controller) (r : String)
    (f : Controller → Controller) (hsame : P c)
    (hdrawn : r ∉ c.minted → P (f { c with minted := insert r c.minted })) : P (c.withRunId r f) := by
  unfold withRunId
  split_ifs with hr
  · exact hsame
  · exact hdrawn hr

theorem changes_stepUp (h : c.core.Placed) (op : Op) :
    Changes (c.SparesParked op) op.putsBack c.core (c.stepUp op).core := by
  -- an operation that settles attempts of one run only
  have hsettles {B : Set String} {c' : Controller} {r : String} (hr : op.settles = some r)
      (hc : Changes (¬c.ledger.Parked r) B c.core c'.core) :
      Changes (c.SparesParked op) B c.core c'.core :=
    hc.mono fun hs => hs r hr
  have hdraws {r : String} {f : Controller → Controller}
      (hf : r ∉ c.minted → Changes (c.SparesParked op) ∅ c.core
        (f { c with minted := insert r c.minted }).core) :
      Changes (c.SparesParked op) ∅ c.core (c.withRunId r f).core :=
    withRunId_cases (P := fun c' => Changes (c.SparesParked op) ∅ c.core c'.core) c r f .refl hf
  cases op with
  | register name config => exact .of_eq (core_register c name config)
  | update name config now => exact changes_update c name config now
  | delete name now => exact changes_delete c name now
  | startPipeline name => exact .of_eq (core_startPipeline c name)
  | stopPipeline name now => exact changes_stopPipeline c name now
  | restartPipeline name now => exact changes_restartPipeline c name now
  | triggerRun name r flush healthy now =>
    exact hdraws fun hr => changes_triggerRun h hr name flush healthy now
  | startSubmitted r env => exact changes_startSubmitted h r env
  | fire name r env => exact hdraws fun hr => changes_fire h hr name env
  | dispatchEnds r outcome now => exact hsettles rfl (changes_dispatchEnds h r outcome now)
  | settleRefused r now => exact changes_settleRefused h r now
  | leaveBatch r => exact changes_leaveBatch c r
  | claimQueuedRun r env => exact changes_claimQueuedRun h r env
  | drainEnds r outcome now => exact hsettles rfl (changes_drainEnds c r outcome now)
  | expireQueuedRun r now => exact changes_expireQueuedRun c r now
  | onWorkerRunComplete k now => exact hsettles rfl (changes_onWorkerRunComplete id now)
  | onAttemptRunComplete k now => exact hsettles rfl (changes_onAttemptRunComplete c k now)
  | markActiveBatchRunLost name lease r verdict now =>
    exact hdraws fun _ => hsettles rfl (.trans (.mint r)
      (changes_markActiveBatchRunLost { c with minted := insert r c.minted } name lease r verdict now))
  | adoptActiveBatchRun name r url => exact .of_eq (core_adoptActiveBatchRun c name r url)
  | streamRuns name ids => exact .refl
  | pruneLedgerAudit cutoff => exact .ledger (quiet_pruneLedgerAudit ..)
  | crash => exact changes_crash c
  | boot evidence now => exact .refl

theorem changes_step (h : c.core.Placed) (op : Op) :
    Changes (c.SparesParked op) op.putsBack c.core (c.step op).core := by
  unfold step
  split_ifs
  · exact changes_stepUp h op
  · cases op with
    | boot evidence now => exact changes_boot c evidence now
    | _ => exact .refl

theorem inv_step (h : c.core.Inv) {op : Op} (hop : c.SparesParked op) : (c.step op).core.Inv :=
  h.changes hop (changes_step h.toPlaced op)

theorem inv_init (settings : Settings) : (init settings).core.Inv where
  agrees := fun _ _ h => nomatch h
  own := fun _ _ h => nomatch h
  pending := fun _ _ h => nomatch h
  dispatched := fun _ _ h => nomatch h
  submitted := fun _ _ h => nomatch h
  queued := fun _ _ h => nomatch h
  holders := fun _ _ h => nomatch h

theorem placed_exec (settings : Settings) (ops : List Op) :
    (Run.exec step (init settings) ops).core.Placed :=
  Run.exec_invariant (I := fun c : Controller => c.core.Placed)
    (fun _ op h => h.changes (changes_step h op)) (inv_init settings).toPlaced ops

/-- A run that waits in the pool is not dispatched or queued and holds no guard; one whose dispatch
is not settled is not queued. -/
theorem runs_in_one_place (settings : Settings) (ops : List Op) (r : String) :
    let k := (Run.exec step (init settings) ops).core
    (∀ j, k.submitted.lookup r = some j → k.dispatches.lookup r = none ∧
      k.queuedRuns.lookup r = none ∧ ∀ key h, k.ledger.holder? key = some h → h.runId ≠ r) ∧
    ∀ d, k.dispatches.lookup r = some d → d.phase ≠ .leaving → k.queuedRuns.lookup r = none := by
  intro k
  have hk := placed_exec settings ops
  refine ⟨fun j hj => ⟨?_, (hk.submitted r j hj).1, (hk.submitted r j hj).2.2⟩, hk.pending r⟩
  cases hd : k.dispatches.lookup r with
  | none => rfl
  | some d => cases (hk.dispatched r d hd).1.symm.trans hj

end Tram.Controller
