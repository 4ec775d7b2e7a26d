import Tram.Controller.Invariant

/-! # The queue of manual runs

Every operation but the enqueue only moves rows along. The enqueue overwrites whatever row its run
has, so it matters that a run comes to the queue at most once: a run that waits in the thread pool,
or whose dispatch is not settled, has no row yet. -/

namespace Tram.Controller

open QueuedRun Run

variable {spares : Prop} {B : Set String} {c : Controller}

def OneActive (rows : Dict String QueuedRun) : Prop :=
  ∀ r₁ q₁ r₂ q₂, rows.lookup r₁ = some q₁ → rows.lookup r₂ = some q₂ → q₁.active = true →
    q₂.active = true → q₁.pipelineName = q₂.pipelineName → r₁ = r₂

theorem OneActive.change {k k' : Core} (h : OneActive k.queuedRuns) (hc : Change spares B k k') :
    OneActive k'.queuedRuns := by
  cases hc with
  | @quiet k' hs =>
    -- an active row was active before
    have hback {r : String} {q' : QueuedRun} (hq' : k'.queuedRuns.lookup r = some q')
        (hact : q'.active = true) : ∃ q, k.queuedRuns.lookup r = some q ∧ q.active = true ∧
          q'.pipelineName = q.pipelineName := by
      cases hq : k.queuedRuns.lookup r with
      | none => cases (hs.unqueued r hq).symm.trans hq'
      | some q =>
        obtain ⟨q'', hq'', hages⟩ := hs.rows r q hq
        cases hq'.symm.trans hq''
        exact ⟨q, rfl, hages.active_back hact, hages.pipelineName⟩
    intro r₁ q₁ r₂ q₂ hq₁ hq₂ hact₁ hact₂ hname
    obtain ⟨p₁, hp₁, hp₁act, hp₁name⟩ := hback hq₁ hact₁
    obtain ⟨p₂, hp₂, hp₂act, hp₂name⟩ := hback hq₂ hact₂
    exact h r₁ p₁ r₂ p₂ hp₁ hp₂ hp₁act hp₂act (hp₁name.symm.trans (hname.trans hp₂name))
  | enqueue hmint hsub hq hd hst halone =>
    intro r₁ q₁ r₂ q₂ hq₁ hq₂ hact₁ hact₂ hname
    rw [Dict.lookup_insert_ite] at hq₁ hq₂
    split_ifs at hq₁ hq₂ with h₁ h₂ h₂
    · exact h₁.trans h₂.symm
    · cases hq₁
      cases hact₂.symm.trans (halone r₂ q₂ hq₂ hname.symm)
    · cases hq₂
      cases hact₁.symm.trans (halone r₁ q₁ hq₁ hname)
    · exact h r₁ q₁ r₂ q₂ hq₁ hq₂ hact₁ hact₂ hname
  | submit | claim | dispatch => exact h

theorem OneActive.changes {k k' : Core} (h : OneActive k.queuedRuns) (hc : Changes spares B k k') :
    OneActive k'.queuedRuns := by
  induction hc with
  | refl => exact h
  | tail _ hstep ih => exact ih.change hstep

theorem oneActive_exec (settings : Settings) (ops : List Op) :
    OneActive (exec step (init settings) ops).queuedRuns :=
  (exec_invariant (I := fun c : Controller => c.core.Placed ∧ OneActive c.core.queuedRuns)
    (fun _ op h => ⟨h.1.changes (changes_step h.1 op), h.2.changes (changes_step h.1 op)⟩)
    ⟨(inv_init settings).toPlaced, fun _ _ _ _ h => nomatch h⟩ ops).2

theorem settled_exec (h : c.core.Placed) {r : String} {q : QueuedRun}
    (hq : c.queuedRuns.lookup r = some q) (hact : q.active = false) (ops : List Op) :
    (exec step c ops).queuedRunStatus r = some q.status := by
  refine (exec_invariant (I := fun c : Controller => c.core.Placed ∧
    c.queuedRunStatus r = some q.status) (fun c op hc => ?_)
    ⟨h, by rw [queuedRunStatus, hq]; rfl⟩ ops).2
  obtain ⟨hplaced, hst⟩ := hc
  have hchanges := changes_step hplaced op
  obtain ⟨q₁, hq₁, hst₁⟩ := Option.map_eq_some_iff.mp hst
  obtain ⟨q', hq', hages⟩ := hchanges.rows hq₁
  refine ⟨hplaced.changes hchanges, Option.map_eq_some_iff.mpr ⟨q', hq', ?_⟩⟩
  rw [hages.settled (by rwa [active_eq_false, hst₁, ← active_eq_false]), hst₁]

def TakesRow (c : Controller) (op : Op) (r : String) : Prop :=
  (∃ env, op = .claimQueuedRun r env) ∧ c.queuedRunStatus r = some .queued ∧
    (c.step op).queuedRunStatus r = some .dispatching

/-- A reverted dispatch or a boot lets the row of the run wait again. -/
def PutsRowBack (c : Controller) (op : Op) (r : String) : Prop :=
  r ∈ op.putsBack ∧ c.queuedRunStatus r = some .dispatching ∧
    (c.step op).queuedRunStatus r = some .queued

theorem exists_putsRowBack (h : c.core.Placed) {r : String}
    (hst : c.queuedRunStatus r = some .dispatching) {ops : List Op}
    (hwaits : (exec step c ops).queuedRunStatus r = some .queued) :
    ∃ ops₁ op ops₂, ops = ops₁ ++ op :: ops₂ ∧ PutsRowBack (exec step c ops₁) op r := by
  induction ops generalizing c with
  | nil => exact absurd (hst.symm.trans hwaits) (by simp)
  | cons op ops ih =>
    have hchanges := changes_step h op
    have hplaced := h.changes hchanges
    obtain ⟨q, hq, hqst⟩ := Option.map_eq_some_iff.mp hst
    obtain ⟨q', hq', hages⟩ := hchanges.rows hq
    have hst' : (c.step op).queuedRunStatus r = some q'.status :=
      Option.map_eq_some_iff.mpr ⟨q', hq', rfl⟩
    by_cases hdone : q'.active = false
    · -- a row settled by this step would never wait again
      have hstays := settled_exec hplaced hq' hdone ops
      rw [exec_cons, hstays, Option.some_inj] at hwaits
      exact absurd hwaits (active_eq_false.mp hdone).1
    simp only [active_eq_false, not_and_or, not_not] at hdone
    rcases hdone with hback | hkept
    · exact ⟨[], op, ops, rfl, hages.waits hqst hback, hst, hback ▸ hst'⟩
    · obtain ⟨ops₁, op', ops₂, rfl, hputs⟩ := ih hplaced (hkept ▸ hst') hwaits
      exact ⟨op :: ops₁, op', ops₂, rfl, hputs⟩

/-- The life of a queued row, over every run of the controller: a pipeline has at most one active
row, a settled row never changes its status, and a row taken twice was put back in between. -/
theorem queued_rows_live_once (settings : Settings) (ops : List Op) :
    OneActive (exec step (init settings) ops).queuedRuns ∧
      (∀ r q more, (exec step (init settings) ops).queuedRuns.lookup r = some q →
        q.active = false →
        (exec step (init settings) (ops ++ more)).queuedRunStatus r = some q.status) ∧
      ∀ r take between take', TakesRow (exec step (init settings) ops) take r →
        TakesRow (exec step (init settings) (ops ++ take :: between)) take' r →
        ∃ ops₁ op ops₂, between = ops₁ ++ op :: ops₂ ∧
          PutsRowBack (exec step (init settings) (ops ++ take :: ops₁)) op r := by
  refine ⟨oneActive_exec settings ops, fun r q more hq hact => ?_, fun r take between _ h h' => ?_⟩
  · rw [exec_append]
    exact settled_exec (placed_exec settings ops) hq hact more
  · have hplaced := (placed_exec settings ops).changes (changes_step (placed_exec settings ops) take)
    have hwaits := h'.2.1
    rw [exec_append, exec_cons] at hwaits
    obtain ⟨ops₁, op, ops₂, hbetween, hputs⟩ := exists_putsRowBack hplaced h.2.2 hwaits
    refine ⟨ops₁, op, ops₂, hbetween, ?_⟩
    rwa [exec_append, exec_cons]

def waitingRun : List Op :=
  [.register "p" ⟨.manual, true, "name: p"⟩, .triggerRun "p" "r" false false 0]

theorem taken_again_after_revert :
    let ops := waitingRun
    let take := Op.claimQueuedRun "r" ⟨1, "t", none, none⟩
    let between := [Op.drainEnds "r" .noCapacity 2]
    ∃ ops₁ op ops₂, between = ops₁ ++ op :: ops₂ ∧
      PutsRowBack (exec step (init ⟨true, 60, 0, 0⟩) (ops ++ take :: ops₁)) op "r" :=
  (queued_rows_live_once ⟨true, 60, 0, 0⟩ waitingRun).2.2 "r" (.claimQueuedRun "r" ⟨1, "t", none, none⟩)
    [.drainEnds "r" .noCapacity 2] (.claimQueuedRun "r" ⟨3, "t'", none, none⟩)
    ⟨⟨_, rfl⟩, by decide +kernel, by decide +kernel⟩ ⟨⟨_, rfl⟩, by decide +kernel, by decide +kernel⟩

end Tram.Controller
