import Tram.Executor.Chunks
import Tram.Executor.Moves

/-! # What the outcome "success" of a batch run says -/

namespace Tram.Executor

open List Watched Procedure

variable {ρ : Type} (job : BatchJob ρ)

/-! ## The threaded loop -/

/-- An error is on its way: a chunk in flight has raised it, or the loop has. -/
def Threads.Pending (t : Threads ρ) : Prop :=
  (∃ fut ∈ t.inFlight, ∃ f, fut.result = some (.error f)) ∨ ∃ f, t.phase = .raised f

/-- Under "abort" a loss is still on its way to the main thread. -/
structure Threads.Sound (t : Threads ρ) : Prop where
  failed : 0 < t.run.delivery.recordsFailed →
    ¬ Unskipped t.run.effects ∨ (job.onError = .abort ∧ t.Pending) ∨ job.onError.Tolerant
  undelivered : 0 < t.run.delivery.dlqFailed →
    (job.onError = .abort ∧ t.Pending) ∨ job.onError.Tolerant ∨ job.onError = .dlq
  refused : ∀ r ∈ t.run.refused, Allowed job.toPipeline t.run.delivery r
  ended : t.phase = .ended → t.inFlight = []

variable {job} {t t' : Threads ρ} {o : Option Failure} {a : Attempt ρ}

theorem Threads.Sound.of_still (h : t.Sound job) (hrun : Still t.run o t'.run)
    (hpending : job.onError = .abort → t.Pending → t'.Pending)
    (hended : t'.phase = .ended → t'.inFlight = []) : t'.Sound job where
  failed hlt := by
    rw [hrun.recordsFailed] at hlt
    rw [hrun.effects]
    exact (h.failed hlt).imp id (.imp (fun h => ⟨h.1, hpending h.1 h.2⟩) id)
  undelivered hlt := by
    rw [hrun.dlqFailed] at hlt
    exact (h.undelivered hlt).imp (fun h => ⟨h.1, hpending h.1 h.2⟩) id
  refused r hr := by
    rw [hrun.refused] at hr
    exact (h.refused r hr).mono (Nat.le_of_eq hrun.recordsFailed.symm)
      (Nat.le_of_eq hrun.dlqFailed.symm)
  ended := hended

theorem Threads.Sound.of_honest (h : t.Sound job) (hrun : Honest job.toPipeline true t.run o t'.run)
    (hpending : t.Pending → t'.Pending) (hraised : o ≠ none → t'.Pending)
    (hended : t'.phase = .ended → t'.inFlight = []) : t'.Sound job where
  failed hlt := by
    by_cases hstep : t.run.delivery.recordsFailed < t'.run.delivery.recordsFailed
    · exact (hrun.failed hstep).imp id (.imp (fun h => ⟨h.1, hraised h.2⟩) id)
    · rcases h.failed (by omega) with hskip | ⟨habort, hp⟩ | htolerant
      · exact .inl fun hall => hskip (hall.of_prefix hrun.effects)
      · exact .inr (.inl ⟨habort, hpending hp⟩)
      · exact .inr (.inr htolerant)
  undelivered hlt := by
    by_cases hstep : t.run.delivery.dlqFailed < t'.run.delivery.dlqFailed
    · exact (hrun.undelivered hstep).imp (fun h => ⟨h.1, hraised h.2⟩) (.imp id (·.1))
    · exact (h.undelivered (by omega)).imp (fun h => ⟨h.1, hpending h.2⟩) id
  refused r hr := by
    obtain ⟨rs, hrs, hallowed⟩ := hrun.refused
    rw [hrs] at hr
    rcases mem_append.mp hr with hr | hr
    · exact (h.refused r hr).mono hrun.recordsFailed_le hrun.dlqFailed_le
    · exact hallowed r hr
  ended := hended

theorem Threads.Pending.imp (h : t.Pending)
    (hflight : ∀ fut ∈ t.inFlight, ∀ f, fut.result = some (.error f) → fut ∈ t'.inFlight)
    (hphase : ∀ f, t.phase = .raised f → t'.phase = .raised f) : t'.Pending := by
  rcases h with ⟨fut, hfut, f, hf⟩ | ⟨f, hf⟩
  · exact .inl ⟨fut, hflight fut hfut f hf, f, hf⟩
  · exact .inr ⟨f, hphase f hf⟩

section Moves

variable {w w' : Watched ρ} {e : Event ρ}

theorem Watched.Oldest.sound {fut : Future ρ} {futs : List (Future ρ)}
    (hold : w.Oldest job fut futs) (h : w.threads.Sound job) (hrun : Still w.threads.run o t.run)
    (hflight : t.inFlight = futs) (hphase : t.phase = w.threads.phase ∨ ∃ f, t.phase = .raised f) :
    t.Sound job := by
  refine h.of_still hrun (fun habort hp => ?_) fun hended => ?_
  · rcases hphase with hphase | hraised
    · refine hp.imp (fun fut' hfut' f hf => ?_) fun f hf => hphase.trans hf
      -- the drained chunk raised nothing, so an error on its way is in the rest
      rw [hold.flight] at hfut'
      rcases mem_cons.mp hfut' with rfl | hfut'
      · exact absurd hf (hold.not_error habort f)
      · exact hflight ▸ hfut'
    · exact .inr hraised
  · rcases hphase with hphase | ⟨f, hphase⟩
    · have hdue := hold.due
      rw [drains, hphase.symm.trans hended] at hdue
      cases hdue
    · cases hphase.symm.trans hended

theorem Watched.Move.phase (hmove : Move job w e w') (h : w.threads.phase ≠ .reading) :
    w'.threads.phase ≠ .reading := by
  have hnot : reads job w.threads ≠ true := fun hreads => h (reads_iff.mp hreads).1
  cases hmove with
  | idle | processed | passed | counted => exact h
  | unitless hreads | again hreads | first hreads | limited hreads | closed hreads | broken hreads =>
    exact absurd hreads hnot
  | @retired b _ futs u us =>
    obtain ⟨run, taken, phase, o, hretire, -, hphase⟩ := retireUnit_cases job
      { w.threads with inFlight := futs } { u with remaining := u.remaining - 1 } us b (Still.tells _)
    rw [afterRetire, hretire]
    rcases hphase with rfl | ⟨f, rfl⟩
    · exact h
    · exact nofun
  | raised | finished => exact nofun

theorem move_sound (h : w.threads.Sound job) (hmove : Move job w e w') : w'.threads.Sound job := by
  have hstill : Still w.threads.run none w.threads.run := ⟨rfl, rfl, rfl, rfl⟩
  have hsubmit : ∀ {run units info work rest}, reads job w.threads = true →
      Still w.threads.run none run → (w.submitted info work rest run units).threads.Sound job := by
    intro run units info work rest hreads hrun
    refine h.of_still hrun (fun _ hp => hp.imp (fun fut hfut _ _ => mem_append_left _ hfut)
      fun _ => id) fun hended => ?_
    cases (reads_iff.mp hreads).1.symm.trans hended
  have hstop : ∀ {phase units}, (∀ f, w.threads.phase ≠ .raised f) →
    (phase = .ended → w.threads.inFlight = []) →
      Threads.Sound job { w.threads with units := units, phase := phase } := by
    intro phase units hcalm hended
    exact h.of_still hstill (fun _ hp => hp.imp (fun _ hfut _ _ => hfut)
      fun f hf => absurd hf (hcalm f)) hended
  cases hmove with
  | idle => exact h
  | unitless hreads | again hreads => exact hsubmit hreads hstill
  | first hreads => exact hsubmit hreads ⟨rfl, rfl, rfl, rfl⟩
  | @processed n key work hn =>
    obtain ⟨hlen, -⟩ := List.getElem?_eq_some_iff.mp hn
    refine h.of_honest (processChunk_honest job key work w.threads.run)
      (fun hp => hp.imp (fun fut hfut f hf => mem_set_of_result hn hfut (by simp [hf]) _) fun _ => id)
      (fun hraised => .inl ⟨_, mem_set hlen _, ?_⟩) fun hended => ?_
    · cases hr : (processChunk job key work w.threads.run).1 with
      | ok b => rw [hr] at hraised; exact absurd rfl hraised
      | error f => exact ⟨f, rfl⟩
    · rw [h.ended hended] at hlen
      cases hlen
  | raised | broken => exact h.of_still hstill (fun _ _ => .inr ⟨_, rfl⟩) nofun
  | passed hold | counted hold => exact hold.sound h hstill rfl (.inl rfl)
  | @retired b _ futs u us hold =>
    obtain ⟨run, taken, phase, o, hretire, hrun, hphase⟩ := retireUnit_cases job
      { w.threads with inFlight := futs } { u with remaining := u.remaining - 1 } us b (Still.tells _)
    rw [afterRetire, hretire]
    exact hold.sound h hrun rfl hphase
  | limited hreads | closed hreads => exact hstop (not_raised hreads) nofun
  | finished hphase hempty => exact hstop (by simp [hphase]) fun _ => hempty

theorem step_sound (t : Threads ρ) (e : Event ρ) (h : t.Sound job) : (t.step job e).Sound job := by
  obtain ⟨w, rfl, hstep⟩ := exists_step job t e
  rw [← hstep]
  exact move_sound h (w.step_move job e)

end Moves

/-! ## Attempts -/

structure Clean (job : BatchJob ρ) (s : State ρ) : Prop where
  failed : 0 < s.delivery.recordsFailed → ¬ Unskipped s.effects ∨ job.onError.Tolerant
  undelivered : 0 < s.delivery.dlqFailed → job.onError.Tolerant ∨ (job.onError = .dlq ∧
    (1 < job.threadWorkers ∨ (job.Pooled ∧ ¬ Unswallowed s.refused)))
  refused : ∀ r ∈ s.refused, Allowed job.toPipeline s.delivery r

structure Fresh (s : State ρ) : Prop where
  recordsFailed : s.delivery.recordsFailed = 0
  dlqFailed : s.delivery.dlqFailed = 0
  refused : s.refused = []

theorem Threads.Sound.start {s : State ρ} (h : Fresh s) : (Threads.start s).Sound job where
  failed hlt := absurd hlt (by simp [Threads.start, h.recordsFailed])
  undelivered hlt := absurd hlt (by simp [Threads.start, h.dlqFailed])
  refused := by simp [Threads.start, h.refused]
  ended := nofun

theorem runBatchChunks_clean {s t : State ρ} (h : Fresh s) {reading : Reading ρ}
    (hrun : runBatchChunks job s reading = some (.ok (), t)) : Clean job t := by
  cases reading with
  | sequential items fault last =>
    simp only [runBatchChunks] at hrun
    split_ifs at hrun
    have hs := runBatchChunksSequential_honest job fault last none items s
    rw [Option.some.inj hrun] at hs
    obtain ⟨rs, hrs, hallowed⟩ := hs.refused
    refine ⟨fun hlt => ?_, fun hlt => ?_, ?_⟩
    · rcases hs.failed (by rwa [h.recordsFailed]) with hskip | ⟨-, hnone⟩ | htolerant
      · exact .inl hskip
      · exact absurd rfl hnone
      · exact .inr htolerant
    · rcases hs.undelivered (by rwa [h.dlqFailed]) with ⟨-, hnone⟩ | htolerant |
        ⟨hdlq, ⟨_, hnone⟩ | ⟨hpool, ⟨_, _, hnone⟩ | hswallowed⟩⟩
      · exact absurd rfl hnone
      · exact .inl htolerant
      · cases hnone
      · cases hnone
      · exact .inr ⟨hdlq, .inr ⟨hpool, hswallowed⟩⟩
    · rw [hrs, h.refused]
      exact hallowed
  | threaded events =>
    simp only [runBatchChunks] at hrun
    split_ifs at hrun with hthreads
    have hsound : (Run.exec (Threads.step job) (.start s) events).Sound job :=
      Run.exec_invariant step_sound (.start h) events
    cases hphase : (Run.exec (Threads.step job) (.start s) events).phase with
    | reading | draining | raised => simp [hphase] at hrun
    | ended =>
      simp only [hphase, Option.some.injEq, Prod.mk.injEq, true_and] at hrun
      -- everything is drained, so no error can be on its way
      have hnot : ¬ (Run.exec (Threads.step job) (.start s) events).Pending := by
        rintro (⟨fut, hfut, -⟩ | ⟨f, hf⟩)
        · rw [hsound.ended hphase] at hfut; cases hfut
        · cases hphase.symm.trans hf
      subst hrun
      refine ⟨fun hlt => ?_, fun hlt => ?_, hsound.refused⟩
      · exact (hsound.failed hlt).imp id fun h => h.resolve_left fun h => hnot h.2
      · rcases hsound.undelivered hlt with ⟨-, hp⟩ | htolerant | hdlq
        · exact absurd hp hnot
        · exact .inl htolerant
        · exact .inr ⟨hdlq, .inl hthreads⟩

theorem Clean.mono {s t : State ρ} (h : Clean job s) (heffects : s.effects <+: t.effects)
    (hfailed : t.delivery.recordsFailed = s.delivery.recordsFailed)
    (hdlq : t.delivery.dlqFailed = s.delivery.dlqFailed) (hrefused : t.refused = s.refused) :
    Clean job t where
  failed hlt := by
    rw [hfailed] at hlt
    exact (h.failed hlt).imp (fun hskip hall => hskip (hall.of_prefix heffects)) id
  undelivered hlt := by
    rw [hdlq] at hlt
    rw [hrefused]
    exact h.undelivered hlt
  refused r hr := by
    rw [hrefused] at hr
    exact (h.refused r hr).mono (Nat.le_of_eq hfailed.symm) (Nat.le_of_eq hdlq.symm)

theorem Clean.of_still {s t : State ρ} (h : Clean job s) (hst : Still s o t) : Clean job t :=
  h.mono (hst.effects ▸ prefix_refl _) hst.recordsFailed hst.dlqFailed hst.refused

theorem routeStatefulFlushRecords_clean {s t : State ρ} {flush : Option (List ρ × Answers)}
    (h : Clean job s) (hrun : routeStatefulFlushRecords job.toPipeline flush s = (.ok (), t)) :
    Clean job t := by
  cases flush with
  | none => cases hrun; exact h
  | some work =>
    obtain ⟨records, answers⟩ := work
    cases hrun
    have hs := processRecords_answerable (p := job.toPipeline) ⟨⟨none, false⟩, answers⟩ [] true
      records s
    obtain ⟨hdelivery, hrefused⟩ := hs.untracked rfl
    exact h.mono hs.effects (by rw [hdelivery]) (by rw [hdelivery]) hrefused

theorem checkCompletion_still (a : Attempt ρ) (committed : Bool) :
    Meets Still (checkCompletion a committed : Exec ρ Unit) := by
  unfold checkCompletion
  cases a.completionError with
  | none => exact .pure ()
  | some text =>
    split_ifs
    · exact .raise (AtBarriers.raise · _)
    · exact .pure ()

theorem batchOutcome_success {onError : OnError} {d : Delivery} {commitFailed : Bool}
    (h : batchOutcome onError d commitFailed = .success) (htolerant : onError.Tolerant) :
    d.recordsFailed = 0 ∧ d.dlqFailed = 0 := by
  unfold batchOutcome at h
  split_ifs at h with h1 h2 h3
  have hloss : d.hasLoss ≠ true := fun hl => h2 ⟨htolerant, hl⟩
  simpa [Delivery.hasLoss] using hloss

theorem concludeAttempt_success {s t : State ρ} (h : Clean job s)
    (hrun : concludeAttempt job a s = (.ok .success, t)) :
    Clean job t ∧
      (job.onError.Tolerant → t.delivery.recordsFailed = 0 ∧ t.delivery.dlqFailed = 0) := by
  obtain ⟨_, s₁, hflush, hrun⟩ := bind_ok hrun
  obtain ⟨committed, s₂, hcommit, hrun⟩ := bind_ok hrun
  obtain ⟨_, s₃, hcheck, hrun⟩ := bind_ok hrun
  obtain ⟨_, s₄, hget, hrun⟩ := bind_ok hrun
  cases hget
  have h₁ := routeStatefulFlushRecords_clean h hflush
  have hstill₂ : Still s₁ _ _ := commitSinks_meets (p := job.toPipeline) a.commit s₁
  rw [hcommit] at hstill₂
  have hstill₃ := checkCompletion_still a committed s₂
  rw [hcheck] at hstill₃
  have hclean : Clean job s₃ := (h₁.of_still hstill₂).of_still hstill₃
  rw [pure_run] at hrun
  obtain ⟨hstatus, rfl⟩ := Prod.mk.inj hrun
  refine ⟨hclean, fun htolerant => ?_⟩
  have hout := Except.ok.inj hstatus
  split_ifs at hout
  exact batchOutcome_success hout htolerant

theorem runAttempt_success {s t : State ρ} (h : Fresh s)
    (hrun : runAttempt job a s = some (.ok .success, t)) :
    Clean job t ∧
      (job.onError.Tolerant → t.delivery.recordsFailed = 0 ∧ t.delivery.dlqFailed = 0) := by
  unfold runAttempt at hrun
  match hchunks : runBatchChunks job s a.reading with
  | none => simp [hchunks] at hrun
  | some (.error f, u) => simp [hchunks] at hrun
  | some (.ok (), u) =>
    simp only [hchunks] at hrun
    exact concludeAttempt_success (runBatchChunks_clean h hchunks) (Option.some.inj hrun)

theorem batchRun_success {breakers : Dict String (Nat × Nat)} {left : Nat}
    {attempts : List (Attempt ρ)} {t : State ρ}
    (hrun : batchRun job breakers left attempts = some (.ok .success, t)) :
    ∃ a s, Fresh s ∧ runAttempt job a s = some (.ok .success, t) := by
  induction attempts generalizing breakers left with
  | nil => simp [batchRun] at hrun
  | cons a attempts ih =>
    rw [batchRun] at hrun
    match hattempt : runAttempt job a { State.new with breakers := breakers } with
    | none => simp [hattempt] at hrun
    | some (.ok status, u) =>
      simp only [hattempt] at hrun
      cases hrun
      exact ⟨a, _, ⟨rfl, rfl, rfl⟩, hattempt⟩
    | some (.error (.other text), u) => simp [hattempt] at hrun
    | some (.error (.tram origin text), u) =>
      cases left with
      | zero => simp [hattempt] at hrun
      | succ left => simp only [hattempt] at hrun; exact ih hrun
    | some (.error (.dlqDelivery text), u) =>
      cases left with
      | zero => simp [hattempt] at hrun
      | succ left => simp only [hattempt] at hrun; exact ih hrun

/-- A batch run that reports success has lost no records and no envelopes, and each chunk call that
returned False was for a chunk that the DLQ took since it could not be parsed. The exceptions: a
sink skipped by its open breaker, where the policy does not look at the losses; under "dlq" an
envelope the DLQ did not take, with threads or on a pool of sinks that swallowed an error; and
errors of conditions and serializers, which a chunk call swallows. -/
theorem batch_success_without_loss (job : BatchJob ρ) (breakers : Dict String (Nat × Nat))
    (attempts : List (Attempt ρ)) (s : State ρ)
    (h : batchRun job breakers job.retries attempts = some (.ok .success, s)) :
    (s.delivery.recordsFailed = 0 ∨
      ((job.onError = .abort ∨ job.onError = .dlq) ∧ ∃ i records, .skipped i records ∈ s.effects) ∨
      (job.parallelSinks = true ∧ 1 < job.sinks.length ∧ ∃ f, .failed f ∈ s.refused)) ∧
    (s.delivery.dlqFailed = 0 ∨ (job.onError = .dlq ∧ 1 < job.threadWorkers) ∨
      (job.parallelSinks = true ∧ 1 < job.sinks.length ∧ ∃ f, .failed f ∈ s.refused)) ∧
    ∀ r ∈ s.refused, r = .unparsed true ∨
      ∃ origin text, r = .failed (.tram origin text) ∧
        (origin = .condition ∨ origin = .serializer) := by
  obtain ⟨a, s₀, hfresh, hrun⟩ := batchRun_success h
  obtain ⟨hclean, htolerant⟩ := runAttempt_success hfresh hrun
  refine ⟨?_, ?_, ?_⟩
  · by_cases ht : job.onError.Tolerant
    · exact .inl (htolerant ht).1
    · rcases Nat.eq_zero_or_pos s.delivery.recordsFailed with hzero | hpos
      · exact .inl hzero
      · have hskip := (hclean.failed hpos).resolve_right ht
        simp only [Unskipped, not_forall, not_not] at hskip
        obtain ⟨_, hmem, i, records, rfl⟩ := hskip
        exact .inr (.inl ⟨job.onError.cases.imp id (·.resolve_right ht), i, records, hmem⟩)
  · by_cases ht : job.onError.Tolerant
    · exact .inl (htolerant ht).2
    · rcases Nat.eq_zero_or_pos s.delivery.dlqFailed with hzero | hpos
      · exact .inl hzero
      · obtain ⟨hdlq, hthreads | ⟨hpool, hswallowed⟩⟩ :=
          (hclean.undelivered hpos).resolve_left ht
        · exact .inr (.inl ⟨hdlq, hthreads⟩)
        · simp only [Unswallowed, not_forall, not_not] at hswallowed
          obtain ⟨_, hmem, f, rfl⟩ := hswallowed
          exact .inr (.inr ⟨hpool.1, hpool.2, f, hmem⟩)
  · intro r hr
    have hallowed := hclean.refused r hr
    cases r with
    | unparsed taken =>
      rcases hallowed with rfl | ⟨ht, hloss⟩
      · exact .inl rfl
      · simp [Delivery.hasLoss, htolerant ht] at hloss
    | failed f =>
      obtain ⟨origin, text, rfl, horigin⟩ := hallowed
      exact .inr ⟨origin, text, rfl, horigin⟩

/-- Under "dlq": sinks of one type that trip at the first failure, the first with a condition that
cannot be evaluated if `guarded`. -/
def dlqJob (threadWorkers : Nat) (sinks : Nat) (guarded : Bool) : BatchJob Nat where
  name := "p"
  onError := .dlq
  dlqSink := true
  parallelSinks := true
  transforms := []
  sinks := ⟨"db", if guarded then some ⟨"'x'", fun _ _ => .error "x"⟩ else none, [], [], 0, 1, 60⟩ ::
    replicate (sinks - 1) ⟨"db", none, [], [], 0, 1, 60⟩
  lookupField _ _ := ""
  dlqSink_of_dlq _ := rfl
  batchSize := none
  threadWorkers := threadWorkers
  retryCount := 0

def Barrier.quiet : Barrier := ⟨none, true, none⟩

def Attempt.quiet (reading : Reading ρ) : Attempt ρ := ⟨reading, false, none, none, none⟩

def Item.single (content : Content ρ) : Item ρ :=
  ⟨⟨none, false, none, false⟩, false, ⟨[], content, true, false⟩, .quiet, .quiet⟩

theorem batch_success_unparsed :
    ∃ s, batchRun (dlqJob 1 1 false) ∅ (dlqJob 1 1 false).retries
        [.quiet (.sequential [.single (.unparsed "bad")] none .quiet)] = some (.ok .success, s) ∧
      s.refused = [.unparsed true] ∧ ∀ r ∈ s.refused, r = .unparsed true ∨
        ∃ origin text, r = .failed (.tram origin text) ∧
          (origin = .condition ∨ origin = .serializer) :=
  ⟨_, rfl, rfl, (batch_success_without_loss (dlqJob 1 1 false) ∅
    [.quiet (.sequential [.single (.unparsed "bad")] none .quiet)] _ rfl).2.2⟩

def Answers.down : Answers :=
  { Answers.quiet with write := fun _ _ _ => some "down", partitionDlq := fun _ _ => false }

/-- Runs that report success: the chunk could not be parsed and went to the DLQ; the breaker of the
sink was open; the condition of the sink could not be evaluated; a thread raised that the DLQ did
not take an envelope; the same on a pool of sinks, of which another one raised first. -/
theorem batch_success_with_loss :
    (∃ s, batchRun (dlqJob 1 1 false) ∅ 0
        [.quiet (.sequential [.single (.unparsed "bad")] none .quiet)] = some (.ok .success, s) ∧
      s.refused ≠ []) ∧
    (∃ s, batchRun (dlqJob 1 1 false) ((∅ : Dict String _).insert "p:db:0" (1, 60)) 0
        [.quiet (.sequential [.single (.parsed [1] .quiet)] none .quiet)] =
          some (.ok .success, s) ∧ s.delivery.recordsFailed = 1) ∧
    (∃ s, batchRun (dlqJob 1 1 true) ∅ 0
        [.quiet (.sequential [.single (.parsed [1] .quiet)] none .quiet)] =
          some (.ok .success, s) ∧ s.refused ≠ []) ∧
    (∃ s, batchRun (dlqJob 2 1 false) ∅ 0
        [.quiet (.threaded [.submit (Item.single (.parsed [1] .down)).info
          (Item.single (.parsed [1] .down)).work, .execute 0, .close none, .drain .quiet,
          .finish])] = some (.ok .success, s) ∧ s.delivery.dlqFailed = 1) ∧
    ∃ s, batchRun (dlqJob 1 2 true) ∅ 0
        [.quiet (.sequential [.single (.parsed [1] .down)] none .quiet)] =
          some (.ok .success, s) ∧ s.delivery.dlqFailed = 1 :=
  ⟨⟨_, rfl, by decide⟩, ⟨_, rfl, rfl⟩, ⟨_, rfl, by decide⟩, ⟨_, rfl, rfl⟩, ⟨_, rfl, rfl⟩⟩

end Tram.Executor
