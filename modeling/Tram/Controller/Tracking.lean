import Tram.Controller.Agreement
import Tram.Controller.World

/-! # What the manager knows about its attempts

While no pipeline is updated or deleted and the process lives, the manager keeps track: an
attempt belongs to a registered pipeline, a run to one pipeline, and the run that the drain is
dispatching has no active attempt but the drain's own. Most operations give no run a new attempt
or a new place; `Follows` says what they do, and `Tracked` carries over. -/

namespace Tram.Controller

open Ledger Dict

/-- No run gets a new attempt or a new place; the attempts in `S` may be settled. -/
structure Follows (S : Set String) (c c' : Controller) : Prop where
  up : c.up = true → c'.up = true
  streams : ∀ name, c.streamRunIds.lookup name = none → c'.streamRunIds.lookup name = none
  pipelines : ∀ name s, c.pipelines.lookup name = some s →
    ∃ s', c'.pipelines.lookup name = some s' ∧ s'.configId = s.configId
  history : ∀ r, (c.history.lookup r).isSome → (c'.history.lookup r).isSome
  ledger : Moves S c.ledger c'.ledger
  submitted : ∀ r j, c'.submitted.lookup r = some j → c.submitted.lookup r = some j
  dispatches : ∀ r d', c'.dispatches.lookup r = some d' → ∃ d, c.dispatches.lookup r = some d ∧
    d'.pipelineName = d.pipelineName ∧ d'.configId = d.configId ∧ (d'.phase = .sent → d' = d) ∧
      (d'.phase ≠ .leaving → d.phase ≠ .leaving)
  queued : ∀ r q', c'.queuedRuns.lookup r = some q' →
    ∃ q, c.queuedRuns.lookup r = some q ∧ q'.pipelineName = q.pipelineName
  drains : ∀ r x, c'.drains.lookup r = some x → c.drains.lookup r = some x ∧
    (c.queuedRunStatus r = some .dispatching → c'.queuedRunStatus r = some .dispatching)
  minted : c.minted ⊆ c'.minted

variable {S T : Set String} {c c' c₁ : Controller} {r : String}

theorem Follows.refl (S : Set String) (c : Controller) : Follows S c c where
  up := id
  streams := fun _ => id
  pipelines := fun _ s h => ⟨s, h, rfl⟩
  history := fun _ => id
  ledger := .refl S c.ledger
  submitted := fun _ _ => id
  dispatches := fun _ d h => ⟨d, h, rfl, rfl, fun _ => rfl, id⟩
  queued := fun _ q h => ⟨q, h, rfl⟩
  drains := fun _ _ h => ⟨h, id⟩
  minted := fun _ => id

theorem Follows.trans (h₁ : Follows S c c₁) (h₂ : Follows S c₁ c') : Follows S c c' where
  up := h₂.up ∘ h₁.up
  streams := fun name => h₂.streams name ∘ h₁.streams name
  pipelines := by
    intro name s hs
    obtain ⟨s₁, hs₁, hid₁⟩ := h₁.pipelines name s hs
    obtain ⟨s', hs', hid₂⟩ := h₂.pipelines name s₁ hs₁
    exact ⟨s', hs', hid₂.trans hid₁⟩
  history := fun r => h₂.history r ∘ h₁.history r
  ledger := h₁.ledger.trans h₂.ledger
  submitted := fun r j => h₁.submitted r j ∘ h₂.submitted r j
  dispatches := by
    intro r d' hd'
    obtain ⟨d₁, hd₁, hname₂, hconf₂, hsent₂, hpend₂⟩ := h₂.dispatches r d' hd'
    obtain ⟨d, hd, hname₁, hconf₁, hsent₁, hpend₁⟩ := h₁.dispatches r d₁ hd₁
    refine ⟨d, hd, hname₂.trans hname₁, hconf₂.trans hconf₁, fun hsent => ?_, hpend₁ ∘ hpend₂⟩
    obtain rfl := hsent₂ hsent
    exact hsent₁ hsent
  queued := by
    intro r q' hq'
    obtain ⟨q₁, hq₁, hname₂⟩ := h₂.queued r q' hq'
    obtain ⟨q, hq, hname₁⟩ := h₁.queued r q₁ hq₁
    exact ⟨q, hq, hname₂.trans hname₁⟩
  drains := by
    intro r x hx
    obtain ⟨hx₁, hst₂⟩ := h₂.drains r x hx
    obtain ⟨hx₀, hst₁⟩ := h₁.drains r x hx₁
    exact ⟨hx₀, hst₂ ∘ hst₁⟩
  minted := h₁.minted.trans h₂.minted

theorem Follows.awaiting (h : Follows S c c') {caller : Caller} {x : String × Assignment}
    (hx : c'.awaiting caller r = some x) : c.awaiting caller r = some x := by
  cases caller with
  | thread =>
    obtain ⟨d', hd', hval⟩ := Option.bind_eq_some_iff.mp hx
    split_ifs at hval with hsent
    obtain ⟨d, hd, -, -, heq, -⟩ := h.dispatches r d' hd'
    obtain rfl := heq hsent
    simpa [Controller.awaiting, hd, hsent] using hval
  | drain =>
    obtain ⟨y, hy, hmap⟩ := Option.bind_eq_some_iff.mp hx
    obtain ⟨q', hq', hval⟩ := Option.map_eq_some_iff.mp hmap
    obtain ⟨q, hq, hname⟩ := h.queued r q' hq'
    simpa [Controller.awaiting, (h.drains r y hy).1, hq, ← hname] using hval

/-! ## Statuses, history and leases -/

theorem Follows.of_core (hcore : c'.core = c.core)
    (hp : ∀ name s, c.pipelines.lookup name = some s →
      ∃ s', c'.pipelines.lookup name = some s' ∧ s'.configId = s.configId)
    (hh : ∀ r, (c.history.lookup r).isSome → (c'.history.lookup r).isSome)
    (hstream : ∀ name, c.streamRunIds.lookup name = none → c'.streamRunIds.lookup name = none) :
    Follows S c c' := by
  have hledger := congrArg Core.ledger hcore
  have hqueued := congrArg Core.queuedRuns hcore
  have hsubmitted := congrArg Core.submitted hcore
  have hdispatches := congrArg Core.dispatches hcore
  have hdrains := congrArg Core.drains hcore
  have hminted := congrArg Core.minted hcore
  have hup := congrArg Core.up hcore
  simp only [core] at hledger hqueued hsubmitted hdispatches hdrains hminted hup
  refine ⟨by rw [hup]; exact id, hstream, hp, hh, by rw [hledger]; exact .refl S _,
    by rw [hsubmitted]; exact fun _ _ => id, ?_, ?_, ?_, by rw [hminted]⟩
  · rw [hdispatches]
    exact fun _ d h => ⟨d, h, rfl, rfl, fun _ => rfl, id⟩
  · rw [hqueued]
    exact fun _ q h => ⟨q, h, rfl⟩
  · rw [hdrains]
    exact fun _ _ h => ⟨h, by rw [queuedRunStatus, queuedRunStatus, hqueued]; exact id⟩

theorem Follows.of_same (hcore : c'.core = c.core) (hp : c'.pipelines = c.pipelines)
    (hh : c'.history = c.history) (hstream : c'.streamRunIds = c.streamRunIds) : Follows S c c' := by
  refine .of_core hcore ?_ ?_ ?_
  · rw [hp]
    exact fun _ s h => ⟨s, h, rfl⟩
  · rw [hh]
    exact fun _ => id
  · rw [hstream]
    exact fun _ => id

section

variable (S c)

theorem follows_setStatus (name : String) (status : Status) : Follows S c (c.setStatus name status) := by
  refine .of_core rfl (fun n s hs => ?_) (fun _ => id) fun _ => id
  simp only [setStatus, lookup_modify]
  split_ifs with hn
  · subst hn
    exact ⟨{ s with status := status }, by rw [hs]; rfl, rfl⟩
  · exact ⟨s, hs, rfl⟩

theorem follows_recordRun (name r : String) (status : RunStatus) :
    Follows S c (c.recordRun name r status) := by
  refine .of_core (core_recordRun c name r status) ?_ ?_ ?_ <;> unfold recordRun <;> split
  · exact fun _ s h => ⟨s, h, rfl⟩
  · exact fun _ s h => ⟨s, h, rfl⟩
  · intro r' hr'
    rw [lookup_setdefault]
    split_ifs
    · rfl
    · exact hr'
  all_goals exact fun _ => id

theorem follows_doSchedule (name : String) : Follows S c (c.doSchedule name) := by
  unfold doSchedule
  split
  · exact .refl S c
  · split
    · exact (follows_setStatus S c name .scheduled).trans (.of_same rfl rfl rfl rfl)
    · exact (follows_setStatus S c name .scheduled).trans (.of_same rfl rfl rfl rfl)
    · exact follows_setStatus S c name .stopped
    · exact .refl S c

theorem follows_onRunComplete (name : String) (status : RunStatus) :
    Follows S c (c.onRunComplete name status) := by
  unfold onRunComplete
  split
  · exact .refl S c
  · split_ifs
    · exact .refl S c
    · exact follows_setStatus S c name .scheduled
    · exact follows_doSchedule S c name
    all_goals exact follows_setStatus S c name _

theorem follows_finalizeBatchResult (name r : String) (status : RunStatus) :
    Follows S c (c.finalizeBatchResult name r status) := by
  unfold finalizeBatchResult
  split
  · exact .refl S c
  · exact (follows_recordRun S c name r status).trans (follows_onRunComplete S _ name status)

theorem follows_popBatchLeaseForRun (name r : String) : Follows S c (c.popBatchLeaseForRun name r) := by
  unfold popBatchLeaseForRun
  split
  · split_ifs
    · exact .of_same rfl rfl rfl rfl
    · exact .refl S c
  · exact .refl S c

theorem follows_removeStreamRunId (name r : String) (hname : c.streamRunIds.lookup name = none) :
    Follows S c (c.removeStreamRunId name r) := by
  unfold removeStreamRunId
  rw [hname]
  exact .refl S c

theorem follows_register (name : String) (config : PipelineConfig) :
    Follows S c (c.register name config) := by
  unfold register
  by_cases hreg : (c.pipelines.lookup name).isSome
  · rw [if_pos hreg]
    exact .refl S c
  rw [if_neg hreg]
  have hfirst : Follows S c (((c.registerConfig name config).savePipeline name
      config).ensureDesiredState name (!config.enabled)) := by
    refine .of_core rfl (fun n s hs => ⟨s, ?_, rfl⟩) (fun _ => id) fun _ => id
    have hne : n ≠ name := by
      rintro rfl
      rw [hs] at hreg
      exact hreg rfl
    exact (AList.lookup_insert_ne hne).trans hs
  split_ifs
  · exact hfirst.trans (follows_doSchedule S _ name)
  · exact hfirst

end

theorem follows_ledger {l' : Ledger} (h : Moves S c.ledger l') : Follows S c { c with ledger := l' } :=
  { Follows.refl S c with ledger := h }

theorem follows_updateQueuedRun (S : Set String) (hr : c.drains.lookup r = none) (st : QueuedStatus)
    {set : QueuedRun → QueuedRun} (hset : ∀ q, (set q).pipelineName = q.pipelineName) :
    Follows S c (c.updateQueuedRun r st set) :=
  { Follows.refl S c with
    queued := by
      refine forall_modify (fun q hq => ⟨q, hq, ?_⟩) fun _ q hq => ⟨q, hq, rfl⟩
      split_ifs
      · exact hset q
      · rfl
    drains := by
      intro r' x hx
      have hne := ne_of_lookup hr hx
      refine ⟨hx, fun hst => ?_⟩
      simpa only [queuedRunStatus, updateQueuedRun, lookup_modify, if_neg hne] using hst }

theorem follows_setPhase (S : Set String) {phase : DispatchPhase} (hphase : phase ≠ .sent)
    (hpend : phase ≠ .leaving → ∀ d, c.dispatches.lookup r = some d → d.phase ≠ .leaving) :
    Follows S c (c.setPhase r phase) :=
  { Follows.refl S c with
    dispatches := forall_modify
      (fun d hd => ⟨d, hd, rfl, rfl, fun hs => absurd hs hphase, fun hl => hpend hl d hd⟩)
      fun _ d hd => ⟨d, hd, rfl, rfl, fun _ => rfl, id⟩ }

theorem follows_eraseDrain (S : Set String) (c : Controller) (r : String) :
    Follows S c { c with drains := c.drains.erase r } :=
  { Follows.refl S c with
    drains := fun _ _ hx => ⟨lookup_of_erase hx, id⟩ }

theorem follows_leaveBatch (S : Set String) (c : Controller) (r : String) :
    Follows S c (c.leaveBatch r) := by
  unfold leaveBatch
  split
  · exact .refl S c
  · split_ifs
    · exact .refl S c
    all_goals exact
      { Follows.refl S c with
        dispatches := fun _ d' hd' =>
          ⟨d', lookup_of_erase hd', rfl, rfl, fun _ => rfl, id⟩ }

/-! ## What is tracked -/

structure Tracked (home : String → String) (c : Controller) : Prop where
  up : c.up = true
  streams : ∀ name, c.streamRunIds.lookup name = none
  known : ∀ r, ¬c.ledger.Parked r
  held : ∀ key h, c.ledger.holder? key = some h →
    ∃ row, c.ledger.attempts.lookup h.attemptId = some row
  rows : ∀ a row, c.ledger.attempts.lookup a = some row →
    a = mintAttemptId row.runId row.ordinal ∧ row.runId ∈ c.minted ∧
      row.pipelineName = home row.runId ∧ ∃ s, c.pipelines.lookup row.pipelineName = some s
  submitted : ∀ r j, c.submitted.lookup r = some j → j.pipelineName = home r
  dispatches : ∀ r d, c.dispatches.lookup r = some d → d.pipelineName = home r ∧
    ∃ s, c.pipelines.lookup d.pipelineName = some s ∧ s.configId = d.configId
  pending : ∀ r d, c.dispatches.lookup r = some d → d.phase ≠ .leaving →
    c.queuedRuns.lookup r = none
  queued : ∀ r q, c.queuedRuns.lookup r = some q → q.pipelineName = home r
  /-- The drain's own attempt is the only active one of the run it dispatches. -/
  drained : ∀ r x, c.drains.lookup r = some x → c.queuedRunStatus r = some .dispatching ∧
    ∀ a row, c.ledger.attempts.lookup a = some row → row.runId = r → row.state ≠ .terminal → a = x.1

variable {home : String → String}

section

variable (h : Tracked home c)
include h

theorem Tracked.follows (hf : Follows S c c') : Tracked home c' where
  up := hf.up h.up
  streams := fun name => hf.streams name (h.streams name)
  known := fun r hp => h.known r (hf.ledger.parked_back hp)
  held := by
    intro key x hx
    obtain ⟨row, hrow⟩ := h.held key x (hf.ledger.holders key x hx)
    obtain ⟨row', hrow', -⟩ := hf.ledger.kept hrow
    exact ⟨row', hrow'⟩
  rows := by
    intro a row' hrow'
    obtain ⟨row, hrow, hm⟩ := hf.ledger.back hrow'
    obtain ⟨hid, hmint, hhome, s, hs⟩ := h.rows a row hrow
    obtain ⟨s', hs', -⟩ := hf.pipelines _ s hs
    rw [hm.same.runId, hm.same.ordinal, hm.same.pipelineName]
    exact ⟨hid, hf.minted hmint, hhome, s', hs'⟩
  submitted := fun r j hj => h.submitted r j (hf.submitted r j hj)
  dispatches := by
    intro r d' hd'
    obtain ⟨d, hd, hname, hconf, -, -⟩ := hf.dispatches r d' hd'
    obtain ⟨hhome, s, hs, hid⟩ := h.dispatches r d hd
    obtain ⟨s', hs', hid'⟩ := hf.pipelines _ s hs
    rw [hname, hconf]
    exact ⟨hhome, s', hs', hid'.trans hid⟩
  pending := by
    intro r d' hd' hphase
    obtain ⟨d, hd, -, -, -, hpend⟩ := hf.dispatches r d' hd'
    by_contra hsome
    obtain ⟨q', hq'⟩ := Option.ne_none_iff_exists'.mp hsome
    obtain ⟨q, hq, -⟩ := hf.queued r q' hq'
    exact absurd ((h.pending r d hd (hpend hphase)).symm.trans hq) nofun
  queued := by
    intro r q' hq'
    obtain ⟨q, hq, hname⟩ := hf.queued r q' hq'
    exact hname.trans (h.queued r q hq)
  drained := by
    intro r x hx
    obtain ⟨hx₀, hst⟩ := hf.drains r x hx
    obtain ⟨hdisp, honly⟩ := h.drained r x hx₀
    refine ⟨hst hdisp, fun a row' hrow' hrun hactive => ?_⟩
    obtain ⟨row, hrow, hm⟩ := hf.ledger.back hrow'
    exact honly a row hrow (hm.same.runId.symm.trans hrun) (hm.active_back hactive)

theorem Tracked.oneActive (hag : c.ledger.Agrees) {a b : String} {rowA rowB : Attempt}
    (ha : c.ledger.attempts.lookup a = some rowA) (hb : c.ledger.attempts.lookup b = some rowB)
    (hactA : rowA.state ≠ .terminal) (hactB : rowB.state ≠ .terminal)
    (hrun : rowA.runId = rowB.runId) : a = b := by
  refine hag.guardsAgree.oneActive a b rowA rowB ha hb hactA hactB ?_
  rw [(h.rows a rowA ha).2.2.1, (h.rows b rowB hb).2.2.1, hrun]

theorem Tracked.not_drained (hst : c.queuedRunStatus r ≠ some .dispatching) :
    c.drains.lookup r = none := by
  by_contra hsome
  obtain ⟨x, hx⟩ := Option.ne_none_iff_exists'.mp hsome
  exact hst (h.drained r x hx).1

theorem Tracked.not_drained_of_none (hq : c.queuedRuns.lookup r = none) :
    c.drains.lookup r = none :=
  h.not_drained (by simp [queuedRunStatus, hq])

theorem Tracked.not_drained_of_queued {row : QueuedRun} (hrow : c.queuedRuns.lookup r = some row)
    (hst : row.status = .queued) : c.drains.lookup r = none :=
  h.not_drained (by simp [queuedRunStatus, hrow, hst])

end

end Tram.Controller
