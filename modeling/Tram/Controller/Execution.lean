import Tram.Controller.TrackedSteps

/-! # One worker at a time

The manager takes any exception for a refusal: a reply that is late or lost frees the guard of an
attempt that executes. -/

namespace Tram.World

open Controller Ledger Option

/-- The guard is not released while a worker executes, and no two workers execute at once. -/
structure Exclusive (w : World) : Prop where
  guarded : ∀ a q, w.requests.lookup a = some q → q.stage = .executing →
    w.manager.ledger.holder? q.assignment.pipelineName =
      some ⟨q.assignment.runId, a, q.assignment.generation⟩
  alone : ∀ a b qa qb, w.requests.lookup a = some qa → w.requests.lookup b = some qb →
    qa.stage = .executing → qb.stage = .executing →
    qa.assignment.pipelineName = qb.assignment.pipelineName → a = b

/-- A dispatch call that fails tells the truth: no request was sent, or the worker refused it or
never got it, or the run is over and recorded. -/
def Authoritative (w : World) : Event → Prop
  | .returns caller runId (.failed _) _ =>
    ∀ x ∈ w.manager.awaiting caller runId, ∀ q ∈ w.requests.lookup x.1,
      q.stage = .lost ∨ q.stage = .completed ∧ (w.manager.history.lookup runId).isSome
  | _ => True

instance (w : World) (e : Event) : Decidable (w.Authoritative e) := by
  unfold Authoritative
  split <;> infer_instance

/-! ## The invariant -/

def Secured (c : Controller) (q : Request) (row : Attempt) : Prop :=
  match q.stage with
  | .posted | .executing => row.state.inFlight = true
  | .completed => row.state.inFlight = true ∨ (c.history.lookup q.assignment.runId).isSome
  | .lost => True

structure Inv (home : String → String) (w : World) : Prop where
  core : w.manager.core.Inv
  tracked : w.manager.Tracked home
  requests : ∀ a q, w.requests.lookup a = some q → ∃ row,
    w.manager.ledger.attempts.lookup a = some row ∧ row.assignment = q.assignment ∧
      Secured w.manager q row
  awaited : ∀ caller r x, w.manager.awaiting caller r = some x → ∃ row,
    w.manager.ledger.attempts.lookup x.1 = some row ∧ row.assignment = x.2 ∧
      (w.requests.lookup x.1 = none → row.state.inFlight = true)

variable {S : Set String} {home home' : String → String} {w : World}

variable {caller : Caller} {r : String} {x : String × Assignment}

section

variable (h : w.Inv home)
include h

theorem Inv.exclusive : w.Exclusive := by
  have hguard : ∀ a q, w.requests.lookup a = some q → q.stage = .executing →
      w.manager.ledger.holder? q.assignment.pipelineName =
        some ⟨q.assignment.runId, a, q.assignment.generation⟩ := by
    intro a q hq hstage
    obtain ⟨row, hrow, hassign, hsec⟩ := h.requests a q hq
    simp only [Secured, hstage] at hsec
    rw [← hassign]
    exact h.core.agrees a row hrow (AttemptState.inFlight_ne_terminal hsec)
  refine ⟨hguard, fun a b qa qb ha hb hea heb hname => ?_⟩
  have hheld := (hguard a qa ha hea).symm.trans (hname ▸ hguard b qb hb heb)
  exact congrArg Holder.attemptId (some.inj hheld)

variable {c' : Controller}

/-- A step of the manager keeps the invariant if the attempts it settles are no longer with a
worker and nobody waits to send them. -/
theorem Inv.advance (hcore : c'.core.Inv) (ht : c'.Tracked home') (ha : Advances S w.manager c')
    (hS : ∀ a ∈ S, ∀ q, w.requests.lookup a = some q → q.stage = .lost ∨
      q.stage = .completed ∧ (c'.history.lookup q.assignment.runId).isSome)
    (hawait : ∀ caller r x, c'.awaiting caller r = some x → x.1 ∈ S →
      w.requests.lookup x.1 ≠ none) : { w with manager := c' }.Inv home' where
  core := hcore
  tracked := ht
  requests := by
    intro a q hq
    obtain ⟨row, hrow, hassign, hsec⟩ := h.requests a q hq
    obtain ⟨row', hrow', hm⟩ := ha.kept a row hrow
    refine ⟨row', hrow', hm.assignment.trans hassign, ?_⟩
    -- an attempt in flight stays so or is in `S`, where its stage demands less
    have hkeep : row.state.inFlight = true → row'.state.inFlight = true ∨
        (q.stage = .lost ∨ q.stage = .completed ∧ (c'.history.lookup q.assignment.runId).isSome) :=
      fun hf => (hm.flying hf).imp_right fun hs => hS a hs.1 q hq
    cases hstage : q.stage with
    | posted | executing =>
      simp only [Secured, hstage] at hsec ⊢
      simpa [hstage] using hkeep hsec
    | completed =>
      simp only [Secured, hstage] at hsec ⊢
      rcases hsec with hf | hrec
      · simpa [hstage] using hkeep hf
      · exact .inr (ha.history _ hrec)
    | lost => simp only [Secured, hstage]
  awaited := by
    intro caller r x hx
    rcases ha.awaiting caller r x hx with hold | ⟨-, row, hrow, hassign, hfly⟩
    · obtain ⟨row, hrow, hassign, hunsent⟩ := h.awaited caller r x hold
      obtain ⟨row', hrow', hm⟩ := ha.kept x.1 row hrow
      refine ⟨row', hrow', hm.assignment.trans hassign, fun hnone => ?_⟩
      exact (hm.flying (hunsent hnone)).resolve_right fun hs => hawait caller r x hx hs.1 hnone
    · exact ⟨row, hrow, hassign, fun _ => hfly⟩

theorem Inv.advance_calm (hcore : c'.core.Inv) (hstep : c'.Tracked home' ∧ Advances ∅ w.manager c') :
    { w with manager := c' }.Inv home' :=
  h.advance hcore hstep.1 hstep.2 (fun _ hs => absurd hs (Set.notMem_empty _))
    fun _ _ _ _ hs => absurd hs (Set.notMem_empty _)

theorem Inv.setStage (a : String) {fromStage toStage : Stage}
    (hsec : ∀ (x : Assignment) url row, Secured w.manager ⟨url, x, fromStage⟩ row →
      Secured w.manager ⟨url, x, toStage⟩ row) : (w.setStage a fromStage toStage).Inv home where
  __ := h
  requests := by
    refine Dict.forall_modify (fun q hq => ?_) h.requests
    obtain ⟨row, hrow, hassign, hs⟩ := h.requests _ q hq
    refine ⟨row, hrow, ?_⟩
    split_ifs with hstage
    · obtain ⟨url, x, stage⟩ := q
      subst hstage
      exact ⟨hassign, hsec x url row hs⟩
    · exact ⟨hassign, hs⟩
  awaited := by
    intro caller r x hx
    obtain ⟨row, hrow, hassign, hunsent⟩ := h.awaited caller r x hx
    refine ⟨row, hrow, hassign, fun hnone => hunsent ?_⟩
    simp only [World.setStage, Dict.lookup_modify] at hnone
    split_ifs at hnone with hb
    · rw [hb]
      exact map_eq_none_iff.mp hnone
    · exact hnone

theorem Inv.post (hx : w.manager.awaiting caller r = some x)
    (hnone : w.requests.lookup x.1 = none) (url : String) :
    { w with requests := w.requests.insert x.1 ⟨url, x.2, .posted⟩ }.Inv home where
  __ := h
  requests := by
    obtain ⟨row, hrow, hassign, hunsent⟩ := h.awaited caller r x hx
    exact Dict.forall_insert ⟨row, hrow, hassign, hunsent hnone⟩ h.requests
  awaited := by
    intro caller' r' y hy
    obtain ⟨row, hrow, hassign, hunsent⟩ := h.awaited caller' r' y hy
    refine ⟨row, hrow, hassign, fun hn => hunsent ?_⟩
    rw [Dict.lookup_insert_ite] at hn
    split_ifs at hn
    exact hn

/-! ## Steps of the manager -/

theorem Inv.inv_step (op : Controller.Op) : (w.manager.step op).core.Inv :=
  Controller.inv_step h.core fun r _ => h.tracked.known r

theorem Inv.step_eq (op : Op) : w.manager.step op = w.manager.stepUp op :=
  if_pos h.tracked.up

theorem Inv.draws (name r : String) {f : Controller → Controller}
    (hcore : (w.manager.withRunId r f).core.Inv)
    (hf : r ∉ w.manager.minted →
      let c₁ := { w.manager with minted := insert r w.manager.minted }
      let home' := Function.update home r name
      c₁.Tracked home' → (f c₁).Tracked home' ∧ Advances ∅ c₁ (f c₁)) :
    ∃ home', { w with manager := w.manager.withRunId r f }.Inv home' := by
  unfold withRunId at hcore ⊢
  split_ifs at hcore ⊢ with hr
  · exact ⟨home, h⟩
  · obtain ⟨ht, ha⟩ := hf hr (h.tracked.draw h.core hr name)
    have hdraw : Follows ∅ w.manager { w.manager with minted := insert r w.manager.minted } :=
      { Follows.refl ∅ w.manager with minted := Finset.subset_insert r w.manager.minted }
    exact ⟨_, h.advance_calm hcore ⟨ht, hdraw.trans_advances ha⟩⟩

theorem Inv.acts {op : Op} (hop : op.isLocal = true) :
    ∃ home', { w with manager := w.manager.step op }.Inv home' := by
  have hcore := h.inv_step op
  have hfollows : ∀ {c' : Controller}, c'.core.Inv → Follows ∅ w.manager c' →
      ∃ home', { w with manager := c' }.Inv home' :=
    fun hc hf => ⟨home, h.advance_calm hc (h.tracked.calm hf)⟩
  rw [h.step_eq] at hcore ⊢
  cases op with
  | register name config => exact hfollows hcore (follows_register ∅ w.manager name config)
  | settleRefused r now => exact ⟨home, h.advance_calm hcore (tracked_settleRefused h.tracked r now)⟩
  | leaveBatch r => exact hfollows hcore (follows_leaveBatch ∅ w.manager r)
  | expireQueuedRun r now => exact hfollows hcore (follows_expireQueuedRun h.tracked r now)
  | triggerRun name r flush healthy now =>
    refine h.draws name r hcore fun hr ht => ?_
    obtain ⟨hd, -, hq, -⟩ := h.core.fresh hr
    have hstep := tracked_triggerRun ht (r := r) hd (h.tracked.not_drained_of_none hq) flush healthy now
    rwa [Function.update_self] at hstep
  | fire name r env =>
    refine h.draws name r hcore fun hr ht => ?_
    obtain ⟨-, -, hq, hun⟩ := h.core.fresh hr
    have hstep := tracked_claimBatch ht (r := r) (Finset.mem_insert_self r w.manager.minted) hq hun
      .scheduled false (show env.halt = none from isNone_iff_eq_none.mp hop)
    rwa [Function.update_self] at hstep
  | startSubmitted r env =>
    refine ⟨home, h.advance_calm hcore ?_⟩
    simp only [stepUp, startSubmitted]
    split
    · exact h.tracked.calm (.refl ∅ w.manager)
    · rename_i job hjob
      obtain ⟨hq, hmint, hun⟩ := h.core.submitted r job hjob
      have herase : Follows ∅ w.manager
          { w.manager with submitted := w.manager.submitted.erase r } :=
        { Follows.refl ∅ w.manager with
          submitted := fun _ _ => Dict.lookup_of_erase }
      have hstep := tracked_claimBatch (h.tracked.follows herase) hmint hq hun .manual job.flush
        (show env.halt = none from isNone_iff_eq_none.mp hop)
      rw [← h.tracked.submitted r job hjob] at hstep
      exact ⟨hstep.1, herase.trans_advances hstep.2⟩
  | claimQueuedRun r env =>
    exact ⟨home, h.advance_calm hcore
      (tracked_claimQueuedRun h.tracked h.core r (isNone_iff_eq_none.mp hop))⟩
  | _ => cases hop

omit h in
theorem awaiting_runId {c : Controller} (hx : c.awaiting caller r = some x) : x.2.runId = r := by
  cases caller with
  | thread =>
    obtain ⟨d, -, hval⟩ := bind_eq_some_iff.mp hx
    split_ifs at hval
    cases hval
    rfl
  | drain =>
    obtain ⟨y, -, hmap⟩ := bind_eq_some_iff.mp hx
    obtain ⟨q, -, rfl⟩ := map_eq_some_iff.mp hmap
    rfl

theorem Inv.one_caller {caller' : Caller} {r' : String} {x' : String × Assignment}
    (hx : w.manager.awaiting caller r = some x) (hx' : w.manager.awaiting caller' r' = some x')
    (hsame : x'.1 = x.1) :
    caller' = caller ∧ r' = r := by
  -- a thread's run is not queued, a drained run is
  have hexcl : ∀ {r y z}, w.manager.awaiting .thread r = some y → w.manager.awaiting .drain r ≠ some z := by
    intro r y z hy hz
    obtain ⟨d, hd, hval⟩ := bind_eq_some_iff.mp hy
    split_ifs at hval with hsent
    obtain ⟨u, -, hmap⟩ := bind_eq_some_iff.mp hz
    obtain ⟨q, hq, -⟩ := map_eq_some_iff.mp hmap
    exact absurd ((h.tracked.pending r d hd (by simp [hsent])).symm.trans hq) nofun
  obtain ⟨row, hrow, hassign, -⟩ := h.awaited caller r x hx
  obtain ⟨row', hrow', hassign', -⟩ := h.awaited caller' r' x' hx'
  obtain rfl : row = row' := by
    rw [hsame, hrow] at hrow'
    exact some.inj hrow'
  obtain rfl : r' = r := by
    rw [← awaiting_runId hx', ← hassign', hassign, awaiting_runId hx]
  refine ⟨?_, rfl⟩
  cases caller <;> cases caller'
  · rfl
  · exact absurd hx' (hexcl hx)
  · exact absurd hx (hexcl hx')
  · rfl

theorem Inv.returns (hx : w.manager.awaiting caller r = some x)
    {outcome : DispatchOutcome} (now : Nat) (hmay : w.mayReturn x.1 outcome = true)
    (hauth : w.Authoritative (.returns caller r outcome now)) :
    { w with manager := w.manager.step (caller.ends r outcome now) }.Inv home := by
  let S : Set String := {a | (∀ url id, outcome ≠ .accepted url id) ∧ a = x.1}
  have hS : (∀ url id, outcome ≠ .accepted url id) → ∀ y, w.manager.awaiting caller r = some y →
      y.1 ∈ S := by
    intro hne y hy
    exact ⟨hne, congrArg Prod.fst (mem_unique hy hx)⟩
  have hcore := h.inv_step (caller.ends r outcome now)
  rw [h.step_eq] at hcore ⊢
  have hends : Follows S w.manager (w.manager.stepUp (caller.ends r outcome now)) ∧
      (w.manager.stepUp (caller.ends r outcome now)).awaiting caller r = none := by
    cases caller with
    | thread => exact follows_dispatchEnds h.tracked r now hS
    | drain => exact follows_drainEnds h.tracked r now hS
  refine h.advance hcore (h.tracked.follows hends.1) hends.1.advances ?_ ?_
  · rintro a ⟨hne, rfl⟩ q hq
    cases outcome with
    | accepted url id => exact absurd rfl (hne url id)
    | noCapacity => simp [mayReturn, hq] at hmay
    | failed e =>
      refine (hauth x hx q hq).imp_right fun hdone => ⟨hdone.1, hends.1.history _ ?_⟩
      obtain ⟨row, hrow, hassign, -⟩ := h.awaited caller r x hx
      obtain ⟨row', hrow', hassign', -⟩ := h.requests x.1 q hq
      obtain rfl : row = row' := mem_unique hrow hrow'
      rw [← hassign', hassign, awaiting_runId hx]
      exact hdone.2
  · rintro caller' r' y hy ⟨-, hsame⟩ -
    obtain ⟨rfl, rfl⟩ := h.one_caller hx (hends.1.awaiting hy) hsame
    exact absurd (hends.2.symm.trans hy) nofun

theorem Inv.deliver {a : String} {q : Request} (hq : w.requests.lookup a = some q)
    (hstage : q.stage = .completed) (withIdentity : Bool) (status : String) (now : Nat) :
    { w with
      manager := w.manager.step
        (delivery withIdentity (completion a q.assignment status) now) }.Inv home := by
  obtain ⟨row, hrow, hassign, hsec⟩ := h.requests a q hq
  simp only [Secured, hstage] at hsec
  obtain ⟨hrun, hname, hgen⟩ : row.runId = q.assignment.runId ∧
      row.pipelineName = q.assignment.pipelineName ∧ row.generation = q.assignment.generation := by
    rw [← hassign]
    exact ⟨rfl, rfl, rfl⟩
  -- as long as the run is not recorded, the attempt is in flight, hence the only active one
  have honly : w.manager.history.lookup q.assignment.runId = none → ∀ b rowB,
      w.manager.ledger.attempts.lookup b = some rowB → rowB.runId = q.assignment.runId →
      rowB.state ≠ .terminal → b ∈ ({a} : Set String) := by
    intro hnone b rowB hrowB hrunB hactive
    have hfly : row.state.inFlight = true := hsec.resolve_right (by simp [hnone])
    exact h.tracked.oneActive h.core.agrees hrowB hrow hactive
      (AttemptState.inFlight_ne_terminal hfly) (hrunB.trans hrun.symm)
  have hcore := h.inv_step (delivery withIdentity (completion a q.assignment status) now)
  rw [h.step_eq] at hcore ⊢
  have hsteps :
      Follows {a} w.manager
        (w.manager.stepUp (delivery withIdentity (completion a q.assignment status) now)) ∧
      ((w.manager.stepUp (delivery withIdentity (completion a q.assignment status) now)).history.lookup
        q.assignment.runId).isSome := by
    cases withIdentity with
    | true =>
      exact follows_onAttemptRunComplete h.tracked (k := completion a q.assignment status)
        ⟨row, hrow, hrun, hname, hgen⟩ now rfl honly
    | false =>
      obtain ⟨-, -, -, s, hs⟩ := h.tracked.rows a row hrow
      rw [hname] at hs
      exact ⟨follows_onWorkerRunComplete h.tracked (completion a q.assignment status) now honly,
        recorded_onWorkerRunComplete h.tracked (completion a q.assignment status) now hs⟩
  refine h.advance hcore (h.tracked.follows hsteps.1) hsteps.1.advances ?_ ?_
  · rintro b rfl q' hq'
    obtain rfl : q = q' := mem_unique hq hq'
    exact .inr ⟨hstage, hsteps.2⟩
  · rintro caller r x - rfl hnone
    exact absurd (hnone.symm.trans hq) nofun

theorem Inv.step {e : Event} (he : w.Authoritative e) :
    ∃ home', (w.step e).Inv home' := by
  cases e with
  | acts op =>
    simp only [World.step]
    split_ifs with hop
    · exact h.acts hop
    · exact ⟨home, h⟩
  | post caller r url =>
    simp only [World.step]
    split
    · rename_i a x hx
      split_ifs with hnone
      · exact ⟨home, h.post hx (isNone_iff_eq_none.mp hnone) url⟩
      · exact ⟨home, h⟩
    · exact ⟨home, h⟩
  | admitted a => exact ⟨home, h.setStage a fun _ _ _ hs => hs⟩
  | lose a => exact ⟨home, h.setStage a fun _ _ _ _ => True.intro⟩
  | complete a => exact ⟨home, h.setStage a fun _ _ _ hs => .inl hs⟩
  | returns caller r outcome now =>
    simp only [World.step]
    split
    · rename_i a x hx
      split_ifs with hmay
      · exact ⟨home, h.returns hx now hmay he⟩
      · exact ⟨home, h⟩
    · exact ⟨home, h⟩
  | deliver a withIdentity status now =>
    simp only [World.step]
    split
    · rename_i q hq
      split_ifs with hstage
      · exact ⟨home, h.deliver hq hstage withIdentity status now⟩
      · exact ⟨home, h⟩
    · exact ⟨home, h⟩

end

theorem inv_init (settings : Settings) : (init settings).Inv fun _ => "" where
  core := Controller.inv_init settings
  tracked :=
    { up := rfl
      streams := fun _ => rfl
      known := fun _ ⟨_, _, h, _⟩ => nomatch h
      held := fun _ _ h => nomatch h
      rows := fun _ _ h => nomatch h
      submitted := fun _ _ h => nomatch h
      dispatches := fun _ _ h => nomatch h
      pending := fun _ _ h => nomatch h
      queued := fun _ _ h => nomatch h
      drained := fun _ _ h => nomatch h }
  requests := fun _ _ h => nomatch h
  awaited := fun caller _ _ h => by cases caller <;> cases h

/-- In every run in which failed dispatch calls tell the truth, the guard of a pipeline stays
with the attempt that a worker executes, and no two workers execute the pipeline at once. -/
theorem one_worker_executes (settings : Settings) (events : List Event)
    (h : Run.AllSteps step Authoritative (init settings) events) :
    (Run.exec step (init settings) events).Exclusive := by
  have hinv : ∃ home, (Run.exec step (init settings) events).Inv home :=
    h.invariant (I := fun w => ∃ home, w.Inv home) (fun _ _ ⟨_, hw⟩ he => hw.step he)
      ⟨_, inv_init settings⟩
  obtain ⟨home, hw⟩ := hinv
  exact hw.exclusive

def refusedThenAccepted : List Event :=
  [.acts (.register "orders" ⟨.interval, true, "yaml"⟩),
    .acts (.fire "orders" "r" ⟨0, "fence", none, none⟩), .post .thread "r" "http://w1", .lose "r-a1",
    .returns .thread "r" (.failed "503") 1, .acts (.settleRefused "r" 1), .acts (.leaveBatch "r"),
    .acts (.fire "orders" "s" ⟨2, "fence", none, none⟩), .post .thread "s" "http://w2", .admitted "s-a1"]

theorem one_worker_executes_refused :
    let w := Run.exec step (init ⟨true, 60, 0, 0⟩) refusedThenAccepted
    (w.requests.lookup "s-a1").map (·.stage) = some .executing ∧ w.Exclusive := by
  exact ⟨by decide +kernel, one_worker_executes _ _ (by decide +kernel)⟩

/-- The first worker admits the run, but its reply times out: the guard is released, and a second
worker executes the pipeline beside it. -/
theorem lost_reply_executes_twice :
    let w := Run.exec step (init ⟨true, 60, 0, 0⟩)
      [.acts (.register "orders" ⟨.interval, true, "yaml"⟩),
        .acts (.fire "orders" "r" ⟨0, "fence", none, none⟩), .post .thread "r" "http://w1", .admitted "r-a1",
        .returns .thread "r" (.failed "timed out") 10, .acts (.settleRefused "r" 10),
        .acts (.leaveBatch "r"), .acts (.fire "orders" "s" ⟨20, "fence", none, none⟩),
        .post .thread "s" "http://w2", .admitted "s-a1"]
    w.requests.lookup "r-a1" = some ⟨"http://w1", ⟨"r", "orders", 1⟩, .executing⟩ ∧
      w.requests.lookup "s-a1" = some ⟨"http://w2", ⟨"s", "orders", 1⟩, .executing⟩ ∧ ¬w.Exclusive := by
  intro w
  have hr : w.requests.lookup "r-a1" = some ⟨"http://w1", ⟨"r", "orders", 1⟩, .executing⟩ := by
    decide +kernel
  have hs : w.requests.lookup "s-a1" = some ⟨"http://w2", ⟨"s", "orders", 1⟩, .executing⟩ := by
    decide +kernel
  refine ⟨hr, hs, fun h => ?_⟩
  exact absurd (h.alone "r-a1" "s-a1" _ _ hr hs rfl rfl rfl) (by decide)

end Tram.World
