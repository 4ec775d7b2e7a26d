import Tram.Placement.Stats

/-! # A stop that meets a redispatch

A redispatch takes three steps: it claims the slot, it dispatches the new run to the worker with
the lifecycle lock released, and it commits the slot if the placement is still there. A stop or a
deletion of the pipeline is one step, which can fall before, between or after these. -/

namespace Tram.Placement

open List Manager Dict

/-- What comes of a request to start a run: the worker refuses it, the worker starts the run, or it
starts the run and its reply is lost. -/
inductive Answer where
  | refused | accepted | lost
  deriving DecidableEq, Repr

/-- The manager, its worker pool and the workers. Only workers of the pool are ever healthy, and
only on them are there runs. -/
structure Site where
  manager : Manager
  pool : Pool
  runs : Runs
  healthy : ∀ workerUrl, pool.isWorkerHealthy workerUrl = true → workerUrl ∈ pool.workers
  known : ∀ workerUrl runId name, runs.lookup (workerUrl, runId) = some name →
    workerUrl ∈ pool.workers

variable {name : String} {key : String × String} {reached : String → Bool} {pool : Pool}
    {runs : Runs} {m : Manager} {c : Claim}

theorem isWorkerHealthy_assign (pool : Pool) (runId url workerUrl : String) :
    (pool.assign runId url).isWorkerHealthy workerUrl = pool.isWorkerHealthy workerUrl := by
  by_cases h : workerUrl = url
  · subst h
    cases hl : pool.health.lookup workerUrl <;>
      simp [Pool.assign, Pool.isWorkerHealthy, lookup_modify, hl]
  · simp [Pool.assign, Pool.isWorkerHealthy, lookup_modify, h]

variable (s site : Site)

namespace Site

/-- Whether the dispatch of a claim starts a run: a worker that is not healthy is not asked, and one
that has a run of this id refuses. -/
def starts (c : Claim) (answer : Answer) : Bool :=
  s.pool.isWorkerHealthy c.workerUrl && (s.runs.lookup (c.workerUrl, c.newRunId)).isNone &&
    answer ≠ .refused

theorem known_insert {workerUrl : String} (h : workerUrl ∈ s.pool.workers)
    (runId name : String) (url id pipeline : String)
    (hl : (s.runs.insert (workerUrl, runId) name).lookup (url, id) = some pipeline) :
    url ∈ s.pool.workers := by
  rw [lookup_insert_ite] at hl
  split_ifs at hl with hkey
  · rwa [(Prod.mk.inj hkey).1]
  · exact s.known url id pipeline hl

theorem starts_known {s : Site} {answer : Answer} (h : s.starts c answer = true) :
    c.workerUrl ∈ s.pool.workers := by
  simp only [starts, Bool.and_eq_true] at h
  exact s.healthy _ h.1.1

/-- `dispatch_to_worker`: its result, and what is then on the workers. -/
def dispatchToWorker (c : Claim) (answer : Answer) : Bool × Site :=
  if h : s.starts c answer = true then
    let runs := s.runs.insert (c.workerUrl, c.newRunId) c.pipelineName
    if answer = .accepted then
      (true,
        { s with
          pool := s.pool.assign c.newRunId c.workerUrl
          runs := runs
          healthy := fun url hu => s.healthy url (by rwa [isWorkerHealthy_assign] at hu)
          known := s.known_insert (starts_known h) c.newRunId c.pipelineName })
    else
      (false, { s with
        runs := runs, known := s.known_insert (starts_known h) c.newRunId c.pipelineName })
  else (false, s)

end Site

/-! ## The stop step -/

theorem stopRun_lookup (runId : String) :
    (stopRun pool reached runs runId).lookup key = runs.lookup key ∨
      (stopRun pool reached runs runId).lookup key = none ∧ reached key.1 = true := by
  unfold stopRun stopRunOnWorker
  split
  · exact .inl rfl
  · split_ifs with hr
    · rw [lookup_erase_ite]
      split_ifs with hkey
      · exact .inr ⟨rfl, by rw [hkey, hr]⟩
      · exact .inl rfl
    · exact .inl rfl

theorem stopRuns_lookup (runIds : List String) :
    (runIds.foldl (stopRun pool reached) runs).lookup key = runs.lookup key ∨
      (runIds.foldl (stopRun pool reached) runs).lookup key = none ∧ reached key.1 = true := by
  induction runIds generalizing runs with
  | nil => exact .inl rfl
  | cons runId runIds ih =>
    rw [foldl_cons]
    rcases ih with heq | hend
    · rw [heq]
      exact stopRun_lookup runId
    · exact .inr hend

theorem stopRuns_subset {runIds : List String}
    (h : (runIds.foldl (stopRun pool reached) runs).lookup key = some name) :
    runs.lookup key = some name := by
  rcases stopRuns_lookup runIds with heq | ⟨hnone, -⟩
  · rw [← heq, h]
  · cases hnone.symm.trans h

theorem stopPipelineRuns_eq_some {pipelineName : String} :
    (stopPipelineRuns pool reached pipelineName runs).lookup key = some name ↔
      runs.lookup key = some name ∧
        ¬ (key.1 ∈ pool.workers ∧ reached key.1 = true ∧ name = pipelineName) := by
  unfold stopPipelineRuns
  induction pool.workers generalizing runs with
  | nil => simp
  | cons workerUrl workers ih =>
    rw [foldl_cons, ih]
    split_ifs with hr
    · rw [lookup_retain_eq_some]
      by_cases hkey : key.1 = workerUrl
      · simp only [hkey, hr, mem_cons, true_or]
        by_cases hname : name = pipelineName <;> simp [hname]
      · simp [hkey]
    · by_cases hkey : key.1 = workerUrl
      · simp [hkey, hr]
      · simp [hkey]

theorem stopStream_runs {group : String} (hactive : m.activePlacementGroup.lookup name = some group)
    (hknown : runs.lookup key = some name → key.1 ∈ pool.workers) :
    (stopStream m pool reached name runs).2.lookup key = some name ↔
      runs.lookup key = some name ∧ reached key.1 = false := by
  simp only [stopStream, hactive, stopPipelineRuns_eq_some]
  constructor
  · rintro ⟨hrun, hnot⟩
    have hrun := stopRuns_subset hrun
    exact ⟨hrun, Bool.eq_false_iff.mpr fun hr => hnot ⟨hknown hrun, hr, trivial⟩⟩
  · rintro ⟨hrun, hr⟩
    refine ⟨?_, fun hand => by simp [hr] at hand⟩
    exact (stopRuns_lookup _).elim (·.trans hrun) fun hend => by cases hr.symm.trans hend.2

theorem stopStream_subset {pipeline : String}
    (h : (stopStream m pool reached name runs).2.lookup key = some pipeline) :
    runs.lookup key = some pipeline := by
  unfold stopStream at h
  dsimp only at h
  split at h
  · exact stopRuns_subset h
  · exact stopRuns_subset (stopPipelineRuns_eq_some.mp h).1

/-- The two operations that stop a pipeline. -/
inductive Halt where
  | stop | delete
  deriving DecidableEq, Repr

/-- `_stop_stream` or `delete`, on workers some of which can be reached. -/
def Site.halt (s : Site) (halt : Halt) (reached : String → Bool) (name : String) : Site :=
  let stopped := stopStream s.manager s.pool reached name s.runs
  { s with
    manager := match halt with
      | .stop => stopped.1
      | .delete => (deleteStream s.manager s.pool reached name s.runs).1
    runs := stopped.2
    known := fun url runId pipeline h => s.known url runId pipeline (stopStream_subset h) }

inductive Phase where
  | start
  | claimed (c : Claim)
  | dispatched (c : Claim)
  | returned (result : Bool)
  deriving DecidableEq, Repr

/-- A call of `redispatch_broadcast_slot`, and the worker's answer to it. -/
structure Request where
  placementGroupId : String
  workerIndex : Nat
  replacementWorkerUrl : Option String
  answer : Answer
  now : Time

/-- The site, how far the redispatch is, and the run it has started if any. -/
structure Race where
  site : Site
  phase : Phase
  started : Option (String × String)

namespace Race

def advance (req : Request) (r : Race) : Race :=
  match r.phase with
  | .start =>
    match claimRedispatch r.site.manager r.site.pool req.placementGroupId req.workerIndex
        req.replacementWorkerUrl with
    | none => { r with phase := .returned false }
    | some c => { r with phase := .claimed c }
  | .claimed c =>
    let sent := r.site.dispatchToWorker c req.answer
    { site := sent.2
      phase := if sent.1 then .dispatched c else .returned false
      started := if r.site.starts c req.answer then some (c.workerUrl, c.newRunId) else none }
  | .dispatched c =>
    let done := commitRedispatch r.site.manager r.site.pool c req.now
    { r with site := { r.site with manager := done.2 }, phase := .returned done.1 }
  | .returned _ => r

def before (req : Request) (k : Nat) : Race :=
  Run.exec (fun r _ => r.advance req) ⟨site, .start, none⟩ (replicate k ())

/-- The end of an interleaving: the stop comes after `k` of the three steps. -/
def final (req : Request) (halt : Halt) (reached : String → Bool) (name : String)
    (k : Fin 4) : Race :=
  let r := before site req k
  Run.exec (fun r _ => r.advance req) { r with site := r.site.halt halt reached name }
    (replicate (3 - k) ())

end Race

/-! ## What should hold in the end -/

/-- A run of the pipeline that the manager knows of. -/
def Manager.Recorded (m : Manager) (name runId : String) : Prop :=
  (∃ group p, m.broadcastPlacements.lookup group = some p ∧ p.pipelineName = name ∧
    ∃ s ∈ p.slots, s.currentRunId = some runId) ∨
  runId ∈ (m.streamRunIds.lookup name).getD []

/-- Every run of the pipeline on a worker is one the manager knows of. -/
def Site.Accounted (name : String) : Prop :=
  ∀ workerUrl runId, s.runs.lookup (workerUrl, runId) = some name → s.manager.Recorded name runId

/-- A redispatch that returned False has left no run it started. -/
def Race.Clean (r : Race) : Prop :=
  r.phase = .returned false → ∀ run ∈ r.started, r.site.runs.lookup run = none

/-- The placement group is the pipeline's, which has no other. -/
structure Placed (m : Manager) (group name : String) : Prop where
  active : m.activePlacementGroup.lookup name = some group
  only : ∀ group' p, m.broadcastPlacements.lookup group' = some p →
    (p.pipelineName = name ↔ group' = group)

/-- What a stop leaves of a pipeline in the manager. -/
structure Halted (m : Manager) (group name : String) : Prop where
  gone : m.broadcastPlacements.lookup group = none
  others : ∀ group' p, m.broadcastPlacements.lookup group' = some p → p.pipelineName ≠ name
  runIds : m.streamRunIds.lookup name = none

section

variable {group : String}

theorem Halted.not_recorded (h : Halted m group name) (runId : String) : ¬ m.Recorded name runId := by
  rintro (⟨group', p, hp, hname, -⟩ | hmem)
  · exact h.others group' p hp hname
  · simp [h.runIds] at hmem

theorem Placed.stopStream (h : Placed m group name) (pool : Pool) (reached : String → Bool)
    (runs : Runs) : Halted (stopStream m pool reached name runs).1 group name := by
  have hgone : ∀ group' p, (m.broadcastPlacements.erase group).lookup group' = some p →
      p.pipelineName ≠ name := fun group' p hp hname => by
    rw [lookup_erase_ite] at hp
    split_ifs at hp with hg
    exact hg ((h.only group' p hp).mp hname)
  simp only [Placement.stopStream, h.active]
  cases hp : m.broadcastPlacements.lookup group with
  | none =>
    refine ⟨by simpa using hp, fun group' p hp' hname => ?_, by simp⟩
    obtain rfl := (h.only group' p hp').mp hname
    simp [hp] at hp'
  | some p => exact ⟨by simp, hgone, by simp [persist]⟩

theorem Placed.halt {s : Site} (h : Placed s.manager group name) (halt : Halt)
    (reached : String → Bool) : Halted (s.halt halt reached name).manager group name := by
  have hstop := h.stopStream s.pool reached s.runs
  cases halt with
  | stop => exact hstop
  | delete => exact { hstop with }

theorem Placed.commit (h : Placed m group name) (pool : Pool) (c : Claim) (now : Time) :
    Placed (commitRedispatch m pool c now).2 group name := by
  rcases commitRedispatch_snd m pool c now with heq | ⟨p, hp, heq⟩ <;> rw [heq]
  · exact h
  · refine ⟨by simpa [commitSlots, setPlacement] using h.active, fun group' q hq => ?_⟩
    simp only [commitSlots, broadcastPlacements_persist,
      broadcastPlacements_sync, broadcastPlacements_setPlacement,
      lookup_insert_ite] at hq
    split_ifs at hq with hg
    · subst hg
      cases hq
      exact h.only _ p hp
    · exact h.only group' q hq

theorem placed_record {p : BroadcastPlacement}
    (hno : ∀ group' q, m.broadcastPlacements.lookup group' = some q → q.pipelineName ≠ p.pipelineName) :
    Placed (m.recordBroadcastPlacement p) p.placementGroupId p.pipelineName := by
  refine ⟨by simp [recordBroadcastPlacement], fun group' q hq => ?_⟩
  simp only [recordBroadcastPlacement, broadcastPlacements_sync,
    broadcastPlacements_setPlacement, lookup_insert_ite] at hq
  split_ifs at hq with hg
  · cases hq
    simp [hg]
  · simp [hno group' q hq, hg]

theorem Halted.claim (h : Halted m group name) (pool : Pool) (index : Nat) (url : Option String) :
    claimRedispatch m pool group index url = none := by
  simp [claimRedispatch, h.gone]

theorem Halted.commit (h : Halted m group name) (pool : Pool)
    (hc : c.placementGroupId = group) (now : Time) : commitRedispatch m pool c now = (false, m) := by
  subst hc
  simp [commitRedispatch, h.gone]

end

/-! ## Before the stop -/

/-- The redispatch is one of the pipeline's placement; a run it has started is on its worker. -/
structure Race.Going (req : Request) (name : String) (r : Race) : Prop where
  placed : Placed r.site.manager req.placementGroupId name
  claim : ∀ c, r.phase = .claimed c ∨ r.phase = .dispatched c →
    c.placementGroupId = req.placementGroupId ∧ c.pipelineName = name
  started : ∀ run ∈ r.started, r.site.runs.lookup run = some name

variable {r : Race} {req : Request} {result : Bool}

theorem claimRedispatch_placed {group : String} {index : Nat} {url : Option String}
    (h : Placed m group name) (hc : claimRedispatch m pool group index url = some c) :
    c.placementGroupId = group ∧ c.pipelineName = name := by
  obtain ⟨p, slot, state, hp, -, -, -, heq⟩ := claimRedispatch_eq_some hc
  rw [heq]
  exact ⟨rfl, (h.only group p hp).mpr rfl⟩

theorem dispatchToWorker_manager (c : Claim) (answer : Answer) :
    (s.dispatchToWorker c answer).2.manager = s.manager := by
  simp only [Site.dispatchToWorker]
  split_ifs <;> rfl

theorem dispatchToWorker_runs (c : Claim) (answer : Answer) :
    (s.dispatchToWorker c answer).2.runs = if s.starts c answer then
      s.runs.insert (c.workerUrl, c.newRunId) c.pipelineName else s.runs := by
  simp only [Site.dispatchToWorker]
  split_ifs <;> rfl

theorem Race.Going.advance (h : r.Going req name) :
    (r.advance req).Going req name := by
  unfold Race.advance
  cases hphase : r.phase with
  | start =>
    cases hc : claimRedispatch r.site.manager r.site.pool req.placementGroupId req.workerIndex
        req.replacementWorkerUrl with
    | none => exact ⟨h.placed, by simp, h.started⟩
    | some c =>
      refine ⟨h.placed, fun c' hc' => ?_, h.started⟩
      obtain rfl : c = c' := by simpa using hc'
      exact claimRedispatch_placed h.placed hc
  | claimed c =>
    have hclaim := h.claim c (.inl hphase)
    refine ⟨by simpa [dispatchToWorker_manager] using h.placed, fun c' hc' => ?_, fun run hrun => ?_⟩
    · obtain rfl : c = c' := by
        dsimp only at hc'
        split_ifs at hc'
        · simpa using hc'
        · simp at hc'
      exact hclaim
    · dsimp only at hrun ⊢
      rw [dispatchToWorker_runs]
      split_ifs at hrun ⊢
      · obtain rfl := Option.mem_some_iff.mp hrun
        rw [AList.lookup_insert, hclaim.2]
      · simp at hrun
  | dispatched c => exact ⟨h.placed.commit _ c req.now, by simp, h.started⟩
  | returned result => exact h

theorem Race.going_before {site : Site} (h : Placed site.manager req.placementGroupId name)
    (k : Nat) :
    (Race.before site req k).Going req name :=
  Run.exec_invariant (I := fun r : Race => r.Going req name) (fun _ _ hr => hr.advance)
    ⟨h, by simp, by simp⟩ _

theorem Race.before_succ (req : Request) (k : Nat) :
    before site req (k + 1) = (before site req k).advance req := by
  rw [before, replicate_succ', Run.exec_append]
  rfl

theorem Race.advance_returned (h : r.phase = .returned result) : r.advance req = r := by
  simp [advance, h]

theorem Race.advance_dispatched (req : Request) (h : r.phase = .dispatched c) :
    ∃ result, (r.advance req).phase = .returned result := by
  simp [advance, h]

theorem Race.advance_claimed (req : Request) (h : r.phase = .claimed c) :
    (r.advance req).phase = .dispatched c ∨ ∃ result, (r.advance req).phase = .returned result := by
  simp only [advance, h]
  split_ifs
  · exact .inl rfl
  · exact .inr ⟨false, rfl⟩

/-- How far the redispatch can be after `k` steps. -/
inductive Race.Reaches : Fin 4 → Race → Prop
  | start {r : Race} (h : r.phase = .start) : Reaches 0 r
  | claimed {r : Race} {c : Claim} (h : r.phase = .claimed c) (hs : r.started = none) : Reaches 1 r
  | dispatched {r : Race} {c : Claim} (h : r.phase = .dispatched c) : Reaches 2 r
  | returned {k : Fin 4} {r : Race} {result : Bool} (h : r.phase = .returned result) : Reaches k r

theorem Race.reaches_one (req : Request) : Reaches 1 (before site req 1) := by
  change Reaches 1 (advance req ⟨site, .start, none⟩)
  unfold advance
  dsimp only
  split
  · exact .returned rfl
  · exact .claimed rfl rfl

theorem Race.Reaches.advance :
    (Reaches 1 r → Reaches 2 (r.advance req)) ∧ (Reaches 2 r → Reaches 3 (r.advance req)) := by
  constructor <;> intro h
  · cases h with
    | claimed h _ =>
      rcases advance_claimed req h with h | ⟨result, h⟩
      · exact .dispatched h
      · exact .returned h
    | returned h => exact .returned (advance_returned h ▸ h)
  · cases h with
    | dispatched h =>
      obtain ⟨result, h⟩ := advance_dispatched req h
      exact .returned h
    | returned h => exact .returned (advance_returned h ▸ h)

theorem Race.reaches (req : Request) (k : Fin 4) :
    Reaches k (before site req k) := by
  have h1 := reaches_one site req
  have h2 : Reaches 2 (before site req 2) := before_succ site req 1 ▸ Reaches.advance.1 h1
  have h3 : Reaches 3 (before site req 3) := before_succ site req 2 ▸ Reaches.advance.2 h2
  rcases k with ⟨_ | _ | _ | _ | k, hk⟩
  · exact .start rfl
  · exact h1
  · exact h2
  · exact h3
  · omega

/-! ## After the stop -/

/-- The stop finds the redispatch between its claim and a dispatch that starts a run. -/
def Race.Interrupted (r : Race) (req : Request) (halt : Halt) (reached : String → Bool)
    (name : String) : Prop :=
  ∃ c, r.phase = .claimed c ∧ (r.site.halt halt reached name).starts c req.answer = true

def Site.Reached (reached : String → Bool) (name : String) : Prop :=
  ∀ workerUrl runId, s.runs.lookup (workerUrl, runId) = some name → reached workerUrl = true

/-- What the rest of the redispatch does once the pipeline is stopped. -/
structure Race.Ended (r : Race) (req : Request) (halt : Halt) (reached : String → Bool)
    (name : String) (t : Race) : Prop where
  manager : t.site.manager = (r.site.halt halt reached name).manager
  orphan : r.Interrupted req halt reached name →
    ∃ run, t.site.runs.lookup run = some name
  runs : ¬ r.Interrupted req halt reached name →
    t.site.runs = (r.site.halt halt reached name).runs ∧ t.started = r.started

section

variable {halt : Halt}

theorem Race.exec_returned (h : r.phase = .returned result) (n : Nat) :
    Run.exec (fun r _ => r.advance req) r (replicate n ()) = r :=
  Run.exec_invariant (I := (· = r)) (fun t _ ht => by rw [ht, advance_returned h]) rfl _

theorem Race.not_interrupted (hphase : ∀ c, r.phase ≠ .claimed c) :
    ¬ r.Interrupted req halt reached name := fun ⟨c, hc, _⟩ => hphase c hc

theorem Race.ended_unclaimed (hphase : ∀ c, r.phase ≠ .claimed c) (phase : Phase) :
    r.Ended req halt reached name { r with site := r.site.halt halt reached name, phase } :=
  ⟨rfl, fun hint => absurd hint (not_interrupted hphase), fun _ => ⟨rfl, rfl⟩⟩

variable (h : r.Going req name)
include h

theorem Race.Going.halted_start (hphase : r.phase = .start) :
    Race.advance req { r with site := r.site.halt halt reached name } =
      { r with site := r.site.halt halt reached name, phase := .returned false } := by
  simp only [Race.advance, hphase, (h.placed.halt halt reached).claim]

theorem Race.Going.halted_dispatched
    (hc : c.placementGroupId = req.placementGroupId) {t : Race} (hphase : t.phase = .dispatched c)
    (hm : t.site.manager = (r.site.halt halt reached name).manager) :
    t.advance req = { t with phase := .returned false } := by
  have hcommit := (h.placed.halt halt reached).commit t.site.pool hc req.now
  rw [← hm] at hcommit
  simp only [Race.advance, hphase, hcommit]

theorem Race.Going.ended_claimed (hphase : r.phase = .claimed c)
    (hs : r.started = none) :
    r.Ended req halt reached name (Race.advance req
      (Race.advance req { r with site := r.site.halt halt reached name })) := by
  obtain ⟨hgroup, hname⟩ := h.claim c (.inl hphase)
  set halted := r.site.halt halt reached name with hhalted
  set sent := halted.dispatchToWorker c req.answer with hsent
  have hstep : Race.advance req { r with site := halted } =
      ⟨sent.2, if sent.1 then .dispatched c else .returned false,
        if halted.starts c req.answer then some (c.workerUrl, c.newRunId) else none⟩ := by
    simp only [Race.advance, hphase, hsent]
  have hmanager : sent.2.manager = halted.manager := dispatchToWorker_manager _ _ _
  have hrest : Race.advance req (Race.advance req { r with site := halted }) =
      ⟨sent.2, .returned false,
        if halted.starts c req.answer then some (c.workerUrl, c.newRunId) else none⟩ := by
    rw [hstep]
    cases hok : sent.1 with
    | true => exact h.halted_dispatched hgroup rfl hmanager
    | false => exact Race.advance_returned rfl
  rw [hrest]
  have hruns := dispatchToWorker_runs halted c req.answer
  have hiff : r.Interrupted req halt reached name ↔ halted.starts c req.answer = true := by
    simp [Race.Interrupted, hphase, hhalted]
  refine ⟨hmanager, fun hint => ⟨(c.workerUrl, c.newRunId), ?_⟩, fun hno => ?_⟩
  · rw [hruns, if_pos (hiff.mp hint), AList.lookup_insert, hname]
  · rw [hiff] at hno
    exact ⟨by rw [hruns, if_neg hno], by rw [if_neg hno, hs]⟩

theorem Race.Going.ended {k : Fin 4} (hk : Reaches k r) :
    r.Ended req halt reached name (Run.exec (fun r _ => r.advance req)
      { r with site := r.site.halt halt reached name } (replicate (3 - k) ())) := by
  cases hk with
  | start hphase =>
    change r.Ended req halt reached name (Run.exec (fun r _ => r.advance req)
      (Race.advance req { r with site := r.site.halt halt reached name }) (replicate 2 ()))
    rw [h.halted_start hphase, exec_returned rfl]
    exact ended_unclaimed (by simp [hphase]) _
  | claimed hphase hs => exact h.ended_claimed hphase hs
  | @dispatched _ c hphase =>
    have hc := (h.claim c (.inr hphase)).1
    change Race.Ended _ _ _ _ _ (Race.advance req { r with site := r.site.halt halt reached name })
    rw [h.halted_dispatched hc (t := { r with site := r.site.halt halt reached name }) hphase rfl]
    exact ended_unclaimed (by simp [hphase]) _
  | returned hphase =>
    rw [exec_returned (r := { r with site := r.site.halt halt reached name }) hphase]
    exact ended_unclaimed (by simp [hphase]) _

omit h in
theorem Site.halt_runs {s : Site} {group : String} (h : Placed s.manager group name)
    (run : String × String) :
    (s.halt halt reached name).runs.lookup run = some name ↔
      s.runs.lookup run = some name ∧ reached run.1 = false :=
  stopStream_runs h.active (s.known run.1 run.2 name)

theorem Race.Ended.settled_iff {t : Race} (ht : r.Ended req halt reached name t) :
    t.site.Accounted name ∧ t.Clean ↔
      r.site.Reached reached name ∧ ¬ r.Interrupted req halt reached name := by
  have hhalt := h.placed.halt halt reached
  have hrec : ∀ runId, ¬ t.site.manager.Recorded name runId := ht.manager ▸ hhalt.not_recorded
  constructor
  · rintro ⟨hacc, -⟩
    have hnone : ∀ run, t.site.runs.lookup run ≠ some name := fun run hrun =>
      hrec run.2 (hacc run.1 run.2 hrun)
    have hno : ¬ r.Interrupted req halt reached name := fun hint => by
      obtain ⟨run, hrun⟩ := ht.orphan hint
      exact hnone run hrun
    refine ⟨fun workerUrl runId hrun => ?_, hno⟩
    by_contra hr
    refine hnone (workerUrl, runId) ?_
    rw [(ht.runs hno).1]
    exact (Site.halt_runs h.placed _).mpr ⟨hrun, Bool.eq_false_iff.mpr hr⟩
  · rintro ⟨hreach, hno⟩
    obtain ⟨hruns, hstarted⟩ := ht.runs hno
    have hnone : ∀ run, t.site.runs.lookup run ≠ some name := fun run hrun => by
      rw [hruns, Site.halt_runs h.placed] at hrun
      simp [hreach run.1 run.2 hrun.1] at hrun
    refine ⟨fun workerUrl runId hrun => absurd hrun (hnone _), fun _ run hrun => ?_⟩
    have hmine := h.started run (hstarted ▸ hrun)
    cases hleft : t.site.runs.lookup run with
    | none => rfl
    | some pipeline =>
      rw [hruns] at hleft
      have hsame : r.site.runs.lookup run = some pipeline := stopStream_subset hleft
      obtain rfl : name = pipeline := Option.mem_unique hmine hsame
      exact absurd (hruns ▸ hleft) (hnone run)

end

/-- However a stop or a deletion falls between the steps of a redispatch, every run that is left is
accounted for, unless the stop does not reach a worker or falls between the claim and the dispatch. -/
theorem stop_wins_iff (site : Site) (req : Request) (halt : Halt) (reached : String → Bool)
    (name : String) (k : Fin 4) (h : Placed site.manager req.placementGroupId name) :
    let last := Race.final site req halt reached name k
    last.site.Accounted name ∧ last.Clean ↔
      (Race.before site req k).site.Reached reached name ∧
        ¬ (Race.before site req k).Interrupted req halt reached name := by
  have hgoing := Race.going_before h k
  exact (hgoing.ended (Race.reaches site req k)).settled_iff hgoing

def streamSite : Site where
  manager := (mk ((∅ : Dict String Pipeline).insert "p" ⟨"", .running, true⟩) ∅ ∅ ∅ none)
    |>.recordBroadcastPlacement
      (dispatchedPlacement "g" "p" (.count 1) 0 [⟨some "a", "", none, true⟩])
  pool :=
    { workers := ["a", "b"]
      health := ((∅ : Dict String Health).insert "b" ⟨true, 0⟩).insert "a" ⟨true, 1⟩
      assignments := (∅ : Dict String String).insert "g" "a"
      workerIds := ∅
      urlToWorkerId := ∅ }
  runs := (∅ : Runs).insert ("a", "g") "p"
  healthy := fun url h => by
    simp only [Pool.isWorkerHealthy, lookup_insert_ite] at h
    split_ifs at h with ha hb
    · simp [ha]
    · simp [hb]
    · simp at h
  known := fun url runId name h => by
    rw [lookup_insert_ite] at h
    split_ifs at h with hkey
    · simp [(Prod.mk.inj hkey).1]
    · simp at h

theorem streamSite_placed : Placed streamSite.manager "g" "p" :=
  placed_record (p := dispatchedPlacement "g" "p" (.count 1) 0 [⟨some "a", "", none, true⟩])
    fun group' q hq => by simp at hq

theorem stop_after_redispatch_wins :
    let last := Race.final streamSite ⟨"g", 0, some "b", .accepted, 1⟩ .stop (fun _ => true) "p" 3
    last.site.Accounted "p" ∧ last.Clean :=
  (stop_wins_iff streamSite ⟨"g", 0, some "b", .accepted, 1⟩ .stop (fun _ => true) "p" 3
    streamSite_placed).mpr ⟨fun _ _ _ => rfl, Race.not_interrupted fun c hc => by
      have hdone : (Race.before streamSite ⟨"g", 0, some "b", .accepted, 1⟩ 3).phase =
        .returned true := by decide +kernel
      cases hdone.symm.trans hc⟩

/-- The stream is stopped while the redispatch is between its claim and its dispatch: the new run
goes on, the redispatch returns False and the manager does not know of the run. -/
theorem stop_before_dispatch_loses :
    let last := Race.final streamSite ⟨"g", 0, some "b", .accepted, 1⟩ .stop (fun _ => true) "p" 1
    last.phase = .returned false ∧ last.site.runs.lookup ("b", "g-r1") = some "p" ∧
      ¬ last.site.manager.Recorded "p" "g-r1" := by
  intro last
  have hgone : last.site.manager.broadcastPlacements.entries = [] ∧
      last.site.manager.streamRunIds.lookup "p" = none := by decide +kernel
  refine ⟨by decide +kernel, by decide +kernel, ?_⟩
  rintro (⟨group, p, hp, -⟩ | hmem)
  · have hmem := mem_entries.mpr hp
    rw [hgone.1] at hmem
    simp at hmem
  · simp [hgone.2] at hmem

end Tram.Placement
