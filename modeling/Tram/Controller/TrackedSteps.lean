import Tram.Controller.Tracking

/-! # The manager's steps are tracked

For every step the manager takes in a world of workers: what it keeps track of, which attempts
the step may settle, and whether it starts a dispatch call. A call is only started for an attempt
that did not exist before. -/

namespace Tram

theorem Attempt.Moved.assignment {settles : Prop} {row row' : Attempt} (h : row.Moved settles row') :
    row'.assignment = row.assignment := by
  rw [Attempt.assignment, Attempt.assignment, h.same.runId, h.same.pipelineName, h.same.generation]

namespace Controller

open Ledger Dict Controller

variable {S : Set String} {c c' c₁ : Controller} {home : String → String}

/-- What a step of the manager means for the attempts that are with workers. -/
structure Advances (S : Set String) (c c' : Controller) : Prop where
  history : ∀ r, (c.history.lookup r).isSome → (c'.history.lookup r).isSome
  kept : ∀ a row, c.ledger.attempts.lookup a = some row →
    ∃ row', c'.ledger.attempts.lookup a = some row' ∧ row.Moved (a ∈ S) row'
  awaiting : ∀ caller r x, c'.awaiting caller r = some x → c.awaiting caller r = some x ∨
    c.ledger.attempts.lookup x.1 = none ∧
      ∃ row, c'.ledger.attempts.lookup x.1 = some row ∧ row.assignment = x.2 ∧
        row.state.inFlight = true

variable {r name : String} {env : ClaimEnv} {outcome : DispatchOutcome} {s : PipelineState}

theorem Follows.advances (h : Follows S c c') : Advances S c c' :=
  ⟨h.history, fun _ _ => h.ledger.kept, fun _ _ _ hx => .inl (h.awaiting hx)⟩

theorem Follows.trans_advances (hf : Follows S c c₁) (ha : Advances S c₁ c') : Advances S c c' where
  history := fun r => ha.history r ∘ hf.history r
  kept := by
    intro a row hrow
    obtain ⟨row₁, hrow₁, hm₁⟩ := hf.ledger.kept hrow
    obtain ⟨row', hrow', hm₂⟩ := ha.kept a row₁ hrow₁
    exact ⟨row', hrow', hm₁.trans hm₂⟩
  awaiting := by
    intro caller r x hx
    rcases ha.awaiting caller r x hx with hold | ⟨hnone, hnew⟩
    · exact .inl (hf.awaiting hold)
    · refine .inr ⟨?_, hnew⟩
      by_contra hsome
      obtain ⟨row, hrow⟩ := Option.ne_none_iff_exists'.mp hsome
      obtain ⟨row₁, hrow₁, -⟩ := hf.ledger.kept hrow
      rw [hnone] at hrow₁
      cases hrow₁

theorem Advances.trans_follows (ha : Advances ∅ c c₁) (hf : Follows ∅ c₁ c') : Advances ∅ c c' where
  history := fun r => hf.history r ∘ ha.history r
  kept := by
    intro a row hrow
    obtain ⟨row₁, hrow₁, hm₁⟩ := ha.kept a row hrow
    obtain ⟨row', hrow', hm₂⟩ := hf.ledger.kept hrow₁
    exact ⟨row', hrow', hm₁.trans hm₂⟩
  awaiting := by
    intro caller r x hx
    rcases ha.awaiting caller r x (hf.awaiting hx) with hold | ⟨hnone, row₁, hrow₁, hassign, hfly⟩
    · exact .inl hold
    · obtain ⟨row', hrow', hm⟩ := hf.ledger.kept hrow₁
      exact .inr ⟨hnone, row', hrow', hm.assignment.trans hassign,
        (hm.flying hfly).resolve_right fun h => h.1⟩

/-! ## New runs -/

variable (h : Tracked home c)
include h

theorem Tracked.draw (hinv : c.core.Inv) (hr : r ∉ c.minted) (name : String) :
    Tracked (Function.update home r name) { c with minted := insert r c.minted } := by
  obtain ⟨hd, hsub, hq, -⟩ := hinv.fresh hr
  have hother : ∀ {β : Type} {d : Dict String β} {r' : String} {v : β}, d.lookup r = none →
      d.lookup r' = some v → Function.update home r name r' = home r' := by
    intro β d r' v hnone hsome
    refine Function.update_of_ne ?_ name home
    rintro rfl
    exact absurd (hnone.symm.trans hsome) nofun
  exact
    { h with
      rows := by
        intro a row hrow
        obtain ⟨hid, hmint, hhome, hs⟩ := h.rows a row hrow
        have hne : row.runId ≠ r := fun heq => hr (heq ▸ hmint)
        exact ⟨hid, Finset.mem_insert_of_mem hmint, by rwa [Function.update_of_ne hne], hs⟩
      submitted := fun r' j hj => (h.submitted r' j hj).trans (hother hsub hj).symm
      dispatches := by
        intro r' d hd'
        obtain ⟨hhome, hs⟩ := h.dispatches r' d hd'
        exact ⟨hhome.trans (hother hd hd').symm, hs⟩
      queued := fun r' q hq' => (h.queued r' q hq').trans (hother hq hq').symm }

omit h in
theorem advances_insertQueued (hdrain : c.drains.lookup r = none) (q : QueuedRun) :
    Advances ∅ c { c with queuedRuns := c.queuedRuns.insert r q } where
  history := fun _ => id
  kept := fun _ row hrow => ⟨row, hrow, .refl _ row⟩
  awaiting := by
    intro caller r' x hx
    cases caller with
    | thread => exact .inl hx
    | drain =>
      have hne : r' ≠ r := by
        rintro rfl
        simp [awaiting, hdrain] at hx
      refine .inl ?_
      simpa only [awaiting, AList.lookup_insert_ne hne] using hx

theorem Tracked.calm (hf : Follows ∅ c c') : Tracked home c' ∧ Advances ∅ c c' :=
  ⟨h.follows hf, hf.advances⟩

section

variable (hpend : ∀ d, c.dispatches.lookup r = some d → d.phase = .leaving)
  (hdrain : c.drains.lookup r = none)
include hpend hdrain

theorem Tracked.insertQueued {q : QueuedRun} (hq : q.pipelineName = home r) :
    Tracked home { c with queuedRuns := c.queuedRuns.insert r q } :=
  { h with
    pending := by
      intro r' d hd hphase
      have hne : r' ≠ r := by
        rintro rfl
        exact hphase (hpend d hd)
      exact (AList.lookup_insert_ne hne).trans (h.pending r' d hd hphase)
    queued := forall_insert hq h.queued
    drained := by
      intro r' x hx
      have hne := ne_of_lookup hdrain hx
      obtain ⟨hst, honly⟩ := h.drained r' x hx
      refine ⟨?_, honly⟩
      simpa only [queuedRunStatus, AList.lookup_insert_ne hne] using hst }

theorem tracked_enqueueManualRun (yamlText : String) (now : Nat) :
    Tracked home (c.enqueueManualRun (home r) r yamlText now).2 ∧
      Advances ∅ c (c.enqueueManualRun (home r) r yamlText now).2 := by
  simp only [enqueueManualRun]
  split_ifs
  · exact h.calm (follows_setStatus ∅ c (home r) .queued)
  · exact h.calm (.refl ∅ c)
  · dsimp only
    generalize (RunIntent.mk _ _ _ _ _ _ _ _ _ _ _) = intent
    have hledger : Follows ∅ c { c with ledger := c.ledger.ensureRunIntent r intent } :=
      follows_ledger (.of_eq ∅ rfl rfl)
    have hstatus := fun c₂ => follows_setStatus ∅ c₂ (home r) .queued
    exact ⟨(((h.follows hledger).insertQueued hpend hdrain rfl).follows (hstatus _)),
      (hledger.trans_advances (advances_insertQueued
        (c := { c with ledger := c.ledger.ensureRunIntent r intent }) hdrain _)).trans_follows
        (hstatus _)⟩

end

theorem tracked_triggerRun (hd : c.dispatches.lookup r = none)
    (hdrain : c.drains.lookup r = none) (flush healthy : Bool) (now : Nat) :
    Tracked home (c.triggerRun (home r) r flush healthy now) ∧
      Advances ∅ c (c.triggerRun (home r) r flush healthy now) := by
  unfold triggerRun
  split
  · exact h.calm (.refl ∅ c)
  · split_ifs
    · exact h.calm (.refl ∅ c)
    · exact h.calm (follows_setStatus ∅ c (home r) .queued)
    · exact tracked_enqueueManualRun h (fun d hd' => absurd (hd.symm.trans hd') nofun) hdrain _ now
    · exact ⟨{ h with submitted := forall_insert rfl h.submitted },
        ⟨fun _ => id, fun _ row hrow => ⟨row, hrow, .refl _ row⟩, fun _ _ _ => .inl⟩⟩

theorem tracked_settleRefused (r : String) (now : Nat) :
    Tracked home (c.settleRefused r now) ∧ Advances ∅ c (c.settleRefused r now) := by
  cases hd : c.dispatches.lookup r with
  | none =>
    simp only [settleRefused, hd]
    exact h.calm (.refl ∅ c)
  | some d =>
    cases hphase : d.phase with
    | refused outcome =>
      rw [settleRefused_eq hd hphase]
      have hleave : ∀ c₂ : Controller, Follows ∅ c₂ (c₂.setPhase r .leaving) :=
        fun c₂ => follows_setPhase ∅ (by simp) (absurd rfl)
      have hdrain := h.not_drained_of_none (h.pending r d hd (by simp [hphase]))
      have hleft : ∀ d', (c.setPhase r .leaving).dispatches.lookup r = some d' → d'.phase = .leaving := by
        intro d' hd'
        simp only [setPhase, lookup_modify, if_pos, hd, Option.map_some] at hd'
        cases hd'
        rfl
      obtain ⟨ht, ha⟩ := tracked_enqueueManualRun (h.follows (hleave c)) hleft hdrain d.yamlText now
      rw [← (h.dispatches r d hd).1] at ht ha
      have hadvances := (hleave c).trans_advances ha
      split_ifs
      · generalize (c.setPhase r .leaving).enqueueManualRun d.pipelineName r d.yamlText now = result
          at ht hadvances ⊢
        obtain ⟨_ | _ | _, c'⟩ := result
        · exact ⟨ht, hadvances⟩
        · exact ⟨ht, hadvances⟩
        · have hskip := follows_recordRun ∅ c' d.pipelineName r .failed
          exact ⟨ht.follows hskip, hadvances.trans_follows hskip⟩
      · exact h.calm ((follows_finalizeBatchResult ∅ c d.pipelineName r .failed).trans (hleave _))
    | sent | leaving =>
      simp only [settleRefused, hd, hphase]
      exact h.calm (.refl ∅ c)

/-! ## Claims -/

omit h in
theorem claimTransactions_ne_died (l : Ledger) (intent : RunIntent) (req : ClaimRequest)
    (hhalt : env.halt = none) : (claimTransactions l intent req env).1 ≠ .died := by
  simp only [claimTransactions, hhalt, reduceCtorEq, if_false]
  split
  · simp
  · split_ifs <;> simp

omit h in
/-- A claim by a process that lives, of an attempt that does not hold the guard yet: it is
refused, or an error, or a new attempt. -/
theorem claimForDispatch_spec (c : Controller) (origin : Origin) (flush : Bool) (yamlText : String)
    (st : ScheduleType) {n : Nat} (hhalt : env.halt = none)
    (hfree : ∀ x, c.ledger.holder? name = some x → x.runId = r → x.attemptId ≠ mintAttemptId r n) :
    (∃ l', Moves ∅ c.ledger l' ∧
      ((c.claimForDispatch name r origin flush yamlText st n env) = (.refused, { c with ledger := l' }) ∨
        ∃ e, (c.claimForDispatch name r origin flush yamlText st n env) =
          (.raised e, { c with ledger := l' }))) ∨
    ∃ l', Added (batchRequest name r (c.pipelineGeneration name) n yamlText env.fenceToken) c.ledger l' ∧
      (c.claimForDispatch name r origin flush yamlText st n env) =
        (.claimed (mintAttemptId r n) (c.pipelineGeneration name), { c with ledger := l' }) := by
  simp only [claimForDispatch]
  generalize (RunIntent.mk _ _ _ _ _ _ _ _ _ _ _) = intent
  have hlives := claimTransactions_ne_died c.ledger intent
    (batchRequest name r (c.pipelineGeneration name) n yamlText env.fenceToken) hhalt
  rcases claimTransactions_cases True c.ledger intent
      (batchRequest name r (c.pipelineGeneration name) n yamlText env.fenceToken) env with
    ⟨⟨-, hmoves⟩, hheld⟩ | ⟨hadd, hres | ⟨hdied, -⟩⟩
  · refine .inl ⟨_, hmoves, ?_⟩
    generalize claimTransactions c.ledger intent _ env = p at hlives hheld
    obtain ⟨res, l'⟩ := p
    cases res with
    | claimed a g =>
      obtain ⟨x, hx, hid, hrun⟩ := hheld a g rfl
      exact absurd hid (hfree x hx hrun)
    | refused => exact .inl rfl
    | raised e => exact .inr ⟨e, rfl⟩
    | died => exact absurd rfl hlives
  · exact .inr ⟨_, hadd, by rw [hres]; rfl⟩
  · exact absurd hhalt hdied

theorem Tracked.added {g n : Nat} {yamlText fence : String} {l' : Ledger}
    (hadd : Added (batchRequest (home r) r g n yamlText fence) c.ledger l') (hmint : r ∈ c.minted)
    (hs : ∃ s, c.pipelines.lookup (home r) = some s) (hdrain : c.drains.lookup r = none) :
    Tracked home { c with ledger := l' } := by
  obtain ⟨row₁, hsame, hfly, hrows⟩ := hadd.row
  have hrun : row₁.runId = r := hsame.runId
  have hname : row₁.pipelineName = home r := hsame.pipelineName
  exact
    { h with
      known := by
        rintro r' ⟨a, row, hrow, hr', hactive, hidle⟩
        rw [hrows] at hrow
        split_ifs at hrow
        · cases hrow
          rw [hfly] at hidle
          cases hidle
        · exact h.known r' ⟨a, row, hrow, hr', hactive, hidle⟩
      held := by
        intro key x hx
        rw [hadd.holder] at hx
        split_ifs at hx
        · cases hx
          exact ⟨row₁, (hrows _).trans (if_pos rfl)⟩
        · obtain ⟨row, hrow⟩ := h.held key x hx
          have hne : x.attemptId ≠ (batchRequest (home r) r g n yamlText fence).attemptId := by
            intro heq
            rw [heq, hadd.fresh] at hrow
            cases hrow
          exact ⟨row, (hrows _).trans ((if_neg hne).trans hrow)⟩
      rows := by
        intro a row hrow
        rw [hrows] at hrow
        split_ifs at hrow with ha
        · cases hrow
          rw [hrun, hname, hsame.ordinal]
          exact ⟨ha, hmint, rfl, hs⟩
        · exact h.rows a row hrow
      drained := by
        intro r' x hx
        obtain ⟨hst, honly⟩ := h.drained r' x hx
        refine ⟨hst, fun a row hrow hr' hactive => ?_⟩
        rw [hrows] at hrow
        split_ifs at hrow with ha
        · cases hrow
          rw [hrun] at hr'
          rw [hr', hx] at hdrain
          cases hdrain
        · exact honly a row hrow hr' hactive }

omit h in
theorem Advances.of_added {req : ClaimRequest} (hadd : Added req c.ledger c'.ledger)
    (hhist : c'.history = c.history)
    (hawait : ∀ caller r x, c'.awaiting caller r = some x → c.awaiting caller r = some x ∨
      x = (req.attemptId, ⟨req.runId, req.pipelineName, req.generation⟩)) : Advances ∅ c c' := by
  obtain ⟨row₁, hsame, hfly, hrows⟩ := hadd.row
  refine ⟨by rw [hhist]; exact fun _ => id, fun a row hrow => ⟨row, ?_, .refl _ row⟩, ?_⟩
  · have hne := ne_of_lookup hadd.fresh hrow
    rw [hrows, if_neg hne, hrow]
  · intro caller r x hx
    rcases hawait caller r x hx with hold | rfl
    · exact .inl hold
    · refine .inr ⟨hadd.fresh, row₁, (hrows _).trans (if_pos rfl), ?_, hfly⟩
      rw [Attempt.assignment, hsame.runId, hsame.pipelineName, hsame.generation]
      rfl

theorem tracked_claimBatch (hmint : r ∈ c.minted)
    (hq : c.queuedRuns.lookup r = none) (hun : ∀ key x, c.ledger.holder? key = some x → x.runId ≠ r)
    (origin : Origin) (flush : Bool) (hhalt : env.halt = none) :
    Tracked home (c.claimBatch (home r) r origin flush env) ∧
      Advances ∅ c (c.claimBatch (home r) r origin flush env) := by
  have hskip : ∀ {c₂ : Controller}, Follows ∅ c c₂ →
      Follows ∅ c (if origin = .manual then c₂.recordSkippedManualRun (home r) r else c₂) := by
    intro c₂ hf
    split_ifs
    · exact hf.trans (follows_recordRun ∅ c₂ (home r) r .failed)
    · exact hf
  unfold claimBatch
  cases hs : c.pipelines.lookup (home r) with
  | none => exact h.calm (.of_same rfl rfl rfl rfl)
  | some s =>
    dsimp only
    by_cases hbusy : s.status = .running ∨ s.status = .queued
    · rw [if_pos hbusy]
      exact h.calm (hskip (.refl ∅ c))
    rw [if_neg hbusy]
    have hstat := follows_setStatus ∅ c (home r) .running
    rcases claimForDispatch_spec (c.setStatus (home r) .running) origin flush s.config.yamlText
        s.config.scheduleType (n := 1) hhalt (fun x hx hrun => absurd hrun (hun _ x hx)) with
      ⟨l', hmoves, heq | ⟨e, heq⟩⟩ | ⟨l', hadd, heq⟩
    · rw [heq]
      exact h.calm (hskip (hstat.trans (follows_ledger hmoves)))
    · rw [heq]
      exact h.calm (hstat.trans (follows_ledger hmoves))
    · rw [heq]
      obtain ⟨s', hs', hconf⟩ := hstat.pipelines _ s hs
      have hdrain := h.not_drained_of_none hq
      have hadded := (h.follows hstat).added hadd hmint ⟨s', hs'⟩ hdrain
      constructor
      · exact
          { hadded with
            dispatches := forall_insert ⟨rfl, s', hs', hconf⟩ hadded.dispatches
            pending := forall_insert (fun _ => hq) hadded.pending }
      · refine hstat.trans_advances (.of_added hadd rfl fun caller r' x hx => ?_)
        cases caller with
        | drain => exact .inl hx
        | thread =>
          simp only [awaiting, lookup_insert_ite] at hx
          split_ifs at hx with hr'
          · simp only [Option.bind_some, if_true, Option.some.injEq] at hx
            subst hr'
            exact .inr hx.symm
          · exact .inl hx

theorem tracked_claimQueuedRun (hinv : c.core.Inv) (r : String)
    (hhalt : env.halt = none) :
    Tracked home (c.claimQueuedRun r env) ∧ Advances ∅ c (c.claimQueuedRun r env) := by
  unfold claimQueuedRun
  cases hrow : c.queuedRuns.lookup r with
  | none => exact h.calm (.refl ∅ c)
  | some row =>
    dsimp only
    cases hs : c.pipelines.lookup row.pipelineName with
    | none => exact h.calm (.refl ∅ c)
    | some s =>
      dsimp only
      by_cases hskip : row.status ≠ .queued ∨ (c.activeBatchRuns.lookup row.pipelineName).isSome ∨
          s.status = .running
      · rw [if_pos hskip]
        exact h.calm (.refl ∅ c)
      rw [if_neg hskip, if_neg (by simp [hhalt])]
      have hqueued : row.status = .queued := by
        by_contra hne
        exact hskip (.inl hne)
      have hname : row.pipelineName = home r := h.queued r row hrow
      have hdrain := h.not_drained_of_queued hrow hqueued
      have hclaim : Follows ∅ c (c.claimQueuedRunRow r) :=
        follows_updateQueuedRun ∅ hdrain .queued fun _ => rfl
      have hnew : ∀ x, (c.claimQueuedRunRow r).ledger.holder? row.pipelineName = some x → x.runId = r →
          x.attemptId ≠ mintAttemptId r ((c.claimQueuedRunRow r).ledger.nextAttemptOrdinal r) := by
        intro x hx _ heq
        obtain ⟨row', hrow'⟩ := h.held _ x hx
        obtain ⟨hrun, hord⟩ := mintAttemptId_inj ((h.rows _ row' hrow').1.symm.trans heq)
        have hlt := lt_nextAttemptOrdinal hrow'
        rw [hord, hrun] at hlt
        exact absurd hlt (Nat.lt_irrefl _)
      rcases claimForDispatch_spec (c.claimQueuedRunRow r) .queued false row.yamlSnapshot
          s.config.scheduleType hhalt hnew with ⟨l', hmoves, heq | ⟨e, heq⟩⟩ | ⟨l', hadd, heq⟩
      · rw [heq]
        exact h.calm ((hclaim.trans (follows_ledger hmoves)).trans
          (follows_updateQueuedRun (c := { c.claimQueuedRunRow r with ledger := l' }) ∅ hdrain .dispatching
            fun _ => rfl))
      · rw [heq]
        exact h.calm (hclaim.trans (follows_ledger hmoves))
      · rw [heq]
        have hadd' := hadd
        rw [hname] at hadd'
        have hadded := (h.follows hclaim).added hadd' (hinv.queued r row hrow)
          ⟨s, by rw [← hname]; exact hs⟩ hdrain
        have hclaimed : (c.claimQueuedRunRow r).queuedRuns.lookup r =
            some { row with status := .dispatching } := by
          simp only [claimQueuedRunRow, updateQueuedRun, lookup_modify, if_true, hrow,
            Option.map_some, if_pos hqueued]
        constructor
        · exact
            { hadded with
              drained := by
                refine forall_insert ⟨by rw [queuedRunStatus, hclaimed]; rfl,
                  fun a rowA hrowA hrun hactive => ?_⟩ hadded.drained
                obtain ⟨row₁, -, -, hrows⟩ := hadd.row
                rw [hrows] at hrowA
                split_ifs at hrowA with ha
                · exact ha
                -- an older active attempt of the run would hold the guard that was free
                · have hheld := hinv.agrees a rowA hrowA hactive
                  rw [(h.rows a rowA hrowA).2.2.1, hrun, ← hname] at hheld
                  cases hadd.free.symm.trans hheld }
        · refine hclaim.trans_advances (.of_added hadd rfl fun caller r' x hx => ?_)
          cases caller with
          | thread => exact .inl hx
          | drain =>
            simp only [awaiting, lookup_insert_ite] at hx
            split_ifs at hx with hr'
            · subst hr'
              simp only [Option.bind_some, hclaimed, Option.map_some, Option.some.injEq] at hx
              exact .inr hx.symm
            · exact .inl hx

/-! ## Dispatch calls that return -/

omit h in
theorem awaiting_setPhase {phase : DispatchPhase} (hphase : phase ≠ .sent) :
    (c.setPhase r phase).awaiting .thread r = none := by
  simp only [awaiting, setPhase, lookup_modify, if_true]
  cases c.dispatches.lookup r with
  | none => rfl
  | some d => exact if_neg hphase

theorem follows_dispatchEnds (r : String) (now : Nat)
    (hS : (∀ url id, outcome ≠ .accepted url id) → ∀ x, c.awaiting .thread r = some x → x.1 ∈ S) :
    Follows S c (c.dispatchEnds r outcome now) ∧
      (c.dispatchEnds r outcome now).awaiting .thread r = none := by
  unfold dispatchEnds
  cases hd : c.dispatches.lookup r with
  | none => exact ⟨.refl S c, by simp [awaiting, hd]⟩
  | some d =>
    dsimp only
    by_cases hphase : d.phase = .sent
    · rw [if_neg (not_not.mpr hphase)]
      have hrefused : (∀ url id, outcome ≠ .accepted url id) → ∀ o, Follows S c
          ((c.retireOwnAttempt r d o now).setPhase r (.refused outcome)) := by
        intro hne o
        have hmem : d.attemptId ∈ S :=
          hS hne (d.attemptId, ⟨r, d.pipelineName, d.generation⟩) (by simp [awaiting, hd, hphase])
        refine (follows_ledger ((moves_terminalizeAttempt ..).mono
          (Set.singleton_subset_iff.mpr hmem))).trans (follows_setPhase S (by simp) fun _ d' hd' => ?_)
        obtain rfl : d = d' := Option.mem_unique hd hd'
        simp [hphase]
      cases outcome with
      | accepted url workerId =>
        refine ⟨?_, awaiting_setPhase (by simp)⟩
        obtain ⟨-, s, hs, hconf⟩ := h.dispatches r d hd
        refine Follows.trans ?_ (follows_setPhase S (by simp) (absurd rfl))
        simp only [trackAccepted, hs, hconf, ne_eq, not_true_eq_false, if_false]
        split_ifs
        · exact .refl S c
        · exact (follows_ledger (((moves_markAttemptRunning ..).trans
            (moves_recordAttemptWorker ..)).mono (Set.empty_subset S))).trans
            (.of_same rfl rfl rfl rfl)
      | noCapacity | failed => exact ⟨hrefused (by simp) _, awaiting_setPhase (by simp)⟩
    · rw [if_pos hphase]
      exact ⟨.refl S c, by simp [awaiting, hd, hphase]⟩

theorem follows_drainEnds (r : String) (now : Nat)
    (hS : (∀ url id, outcome ≠ .accepted url id) → ∀ x, c.awaiting .drain r = some x → x.1 ∈ S) :
    Follows S c (c.drainEnds r outcome now) ∧
      (c.drainEnds r outcome now).awaiting .drain r = none := by
  unfold drainEnds
  cases hx : c.drains.lookup r with
  | none => exact ⟨.refl S c, by simp [awaiting, hx]⟩
  | some x =>
    rw [if_pos Option.isSome_some]
    obtain ⟨hst, honly⟩ := h.drained r x hx
    obtain ⟨q, hq, hdisp⟩ := Option.map_eq_some_iff.mp hst
    have herase := follows_eraseDrain S c r
    have hnone : (c.drains.erase r).lookup r = none := AList.lookup_erase r c.drains
    have hover : ∀ {c' : Controller}, Follows S { c with drains := c.drains.erase r } c' →
        Follows S c c' ∧ c'.awaiting .drain r = none := by
      intro c' hf
      refine ⟨herase.trans hf, ?_⟩
      by_contra hsome
      obtain ⟨y, hy⟩ := Option.ne_none_iff_exists'.mp hsome
      have hback := hf.awaiting hy
      simp [awaiting, hnone] at hback
    have hrevert : (∀ url id, outcome ≠ .accepted url id) →
        Follows S { c with drains := c.drains.erase r }
          ({ c with drains := c.drains.erase r }.revertQueuedClaim r now) := by
      intro hne
      have hmem : x.1 ∈ S :=
        hS hne (x.1, ⟨r, q.pipelineName, x.2⟩) (by simp [awaiting, hx, hq])
      have hstatus : ({ c with drains := c.drains.erase r } : Controller).queuedRunStatus r =
          some .dispatching := hst
      have hrow : Follows S { c with drains := c.drains.erase r }
          ({ c with drains := c.drains.erase r }.revertQueuedRunRow r) :=
        follows_updateQueuedRun S hnone .dispatching fun _ => rfl
      simp only [revertQueuedClaim, hstatus]
      refine hrow.trans (follows_ledger (moves_terminalizeActive _ r _ _ now fun e he => ?_))
      obtain ⟨hrow, hrun, hactive⟩ := lookup_of_activeAttempt he
      exact honly e.1 e.2 hrow hrun hactive ▸ hmem
    cases outcome with
    | noCapacity | failed => exact hover (hrevert (by simp))
    | accepted url workerId =>
      refine hover ?_
      have hmark : ∀ {c₂ : Controller}, c₂.drains.lookup r = none →
          Follows S c₂ (c₂.markQueuedRunDispatched r now) :=
        fun hd => follows_updateQueuedRun S hd .dispatching fun _ => rfl
      have hrun : ∀ (c₂ : Controller) (a : String) (g : Nat), Follows S c₂
          { c₂ with
            ledger := (c₂.ledger.markAttemptRunning a r g now).recordAttemptWorker a r g workerId } :=
        fun c₂ a g => follows_ledger (((moves_markAttemptRunning ..).trans
          (moves_recordAttemptWorker ..)).mono (Set.empty_subset S))
      simp only [commitQueuedDispatch, hq]
      split_ifs
      · exact .refl S _
      · split
        · exact hmark hnone
        · exact (hmark hnone).trans (hrun _ _ _)
      · have hlease : Follows S { c with drains := c.drains.erase r }
            { ({ c with drains := c.drains.erase r } : Controller).setStatus q.pipelineName .running with
              activeBatchRuns := c.activeBatchRuns.insert q.pipelineName ⟨r, url, none⟩ } :=
          (follows_setStatus S _ q.pipelineName .running).trans (.of_same rfl rfl rfl rfl)
        split
        · exact hlease.trans (hmark hnone)
        · exact (hlease.trans (hmark hnone)).trans (hrun _ _ _)

theorem follows_expireQueuedRun (r : String) (now : Nat) :
    Follows S c (c.expireQueuedRun r now) := by
  unfold expireQueuedRun
  cases hrow : c.queuedRuns.lookup r with
  | none => exact .refl S c
  | some row =>
    dsimp only
    by_cases hst : row.status = .queued
    · rw [if_neg (not_not.mpr hst)]
      have hdrain := h.not_drained_of_queued hrow hst
      have hexpire : Follows S c (c.expireQueuedRunRow r) :=
        follows_updateQueuedRun S hdrain .queued fun _ => rfl
      have hresolve : ∀ owner, Follows S (c.expireQueuedRunRow r)
          { c.expireQueuedRunRow r with
            ledger := (c.expireQueuedRunRow r).ledger.resolveIntent r .expired owner now } :=
        fun owner => follows_ledger (.of_eq S rfl rfl)
      exact (hexpire.trans (hresolve _)).trans
        (follows_finalizeBatchResult S _ row.pipelineName r .failed)
    · rw [if_pos hst]
      exact .refl S c

/-! ## Completions -/

theorem follows_popRun (name r : String) :
    Follows S c ((c.popBatchLeaseForRun name r).removeStreamRunId name r) :=
  have hpop := follows_popBatchLeaseForRun S c name r
  hpop.trans (follows_removeStreamRunId S _ name r (hpop.streams _ (h.streams _)))

theorem follows_onWorkerRunComplete (k : Completion) (now : Nat)
    (hS : c.history.lookup k.runId = none → ∀ a row, c.ledger.attempts.lookup a = some row →
      row.runId = k.runId → row.state ≠ .terminal → a ∈ S) :
    Follows S c (c.onWorkerRunComplete k now) := by
  have hpop := follows_popRun (S := S) h k.pipelineName k.runId
  have hledger : ((c.popBatchLeaseForRun k.pipelineName k.runId).removeStreamRunId k.pipelineName
      k.runId).ledger = c.ledger := by
    rw [ledger_eq_of_core_eq (core_removeStreamRunId ..), ledger_eq_of_core_eq (core_popBatchLeaseForRun ..)]
  simp only [onWorkerRunComplete]
  generalize (c.popBatchLeaseForRun k.pipelineName k.runId).removeStreamRunId k.pipelineName k.runId =
    c₁ at hpop hledger ⊢
  split_ifs with hrec
  · exact hpop
  · exact hpop
  · refine (hpop.trans (follows_ledger (moves_terminalizeActive _ k.runId _ _ now fun e he => ?_))).trans
      (follows_finalizeBatchResult S _ k.pipelineName k.runId k.runStatus)
    rw [hledger] at he
    obtain ⟨hrow, hrun, hactive⟩ := lookup_of_activeAttempt he
    exact hS (by simpa using hrec) e.1 e.2 hrow hrun hactive

omit h in
theorem history_finalizeBatchResult (hs : c.pipelines.lookup name = some s) (r : String)
    (status : RunStatus) : ((c.finalizeBatchResult name r status).history.lookup r).isSome := by
  have hrec : ((c.recordRun name r status).history.lookup r).isSome := by
    simp only [recordRun, hs]
    rw [lookup_setdefault, if_pos rfl]
    rfl
  simp only [finalizeBatchResult, hs]
  exact (follows_onRunComplete ∅ _ name status).history r hrec

theorem recorded_onWorkerRunComplete (k : Completion) (now : Nat)
    (hs : c.pipelines.lookup k.pipelineName = some s) :
    ((c.onWorkerRunComplete k now).history.lookup k.runId).isSome := by
  have hpop := follows_popRun (S := ∅) h k.pipelineName k.runId
  simp only [onWorkerRunComplete]
  generalize (c.popBatchLeaseForRun k.pipelineName k.runId).removeStreamRunId k.pipelineName k.runId =
    c₁ at hpop ⊢
  split_ifs with hrec hstream
  · exact hpop.history _ hrec
  · rw [hpop.streams _ (h.streams _)] at hstream
    cases hstream
  · obtain ⟨s', hs', -⟩ := hpop.pipelines _ s hs
    exact history_finalizeBatchResult (c := c₁.terminalizeActive _ _ _ _) hs' _ _

theorem follows_onAttemptRunComplete {k : Completion} (hk : c.IdentityMatches k)
    (now : Nat) (hmem : k.attemptId ∈ S)
    (hS : c.history.lookup k.runId = none → ∀ a row, c.ledger.attempts.lookup a = some row →
      row.runId = k.runId → row.state ≠ .terminal → a ∈ S) :
    Follows S c (c.onAttemptRunComplete k now) ∧
      ((c.onAttemptRunComplete k now).history.lookup k.runId).isSome := by
  obtain ⟨row, hrow, hrun, hname, hgen⟩ := hk
  have hsettle : Follows S c { c with
      ledger := c.ledger.terminalizeAttempt k.attemptId k.runId k.pipelineName k.generation
        (some k.runStatus.intentOutcome) none now } :=
    follows_ledger ((moves_terminalizeAttempt ..).mono (Set.singleton_subset_iff.mpr hmem))
  obtain ⟨-, -, -, s, hs⟩ := h.rows _ row hrow
  rw [hname] at hs
  simp only [onAttemptRunComplete, hrow, hrun, hname, hgen, ne_eq, not_true_eq_false, or_self, if_false]
  refine ⟨hsettle.trans (follows_onWorkerRunComplete (h.follows hsettle) k now fun hrec a row' hrow' hr
    hactive => ?_), recorded_onWorkerRunComplete (h.follows hsettle) k now hs⟩
  obtain ⟨row₀, hrow₀, hm⟩ := hsettle.ledger.back hrow'
  exact hS hrec a row₀ hrow₀ (hm.same.runId.symm.trans hr) (hm.active_back hactive)

end Controller

end Tram
