import Tram.Controller.Frames
import Tram.Persistence.Moves

/-! # What the operations of the controller are made of

An operation is a sequence of changes to the ledger and to the tables that say where a run is. Most
changes bring no run to a new place. The others put a run in the queue, in the thread pool or with a
thread, or claim an attempt for it, and each says what it finds. Invariants are proved over changes.
-/

namespace Tram

/-- What an operation may make of a queued row. Only where `back` holds may a row that is being
dispatched wait again. -/
structure QueuedRun.Ages (back : Prop) (q q' : QueuedRun) : Prop where
  pipelineName : q'.pipelineName = q.pipelineName
  settled : q.active = false → q'.status = q.status
  waits : q.status = .dispatching → q'.status = .queued → back

namespace QueuedRun

variable {back : Prop} {q q₁ q' : QueuedRun}

theorem active_eq_false : q.active = false ↔ q.status ≠ .queued ∧ q.status ≠ .dispatching := by
  simp [active]

theorem Ages.refl (back : Prop) (q : QueuedRun) : q.Ages back q :=
  ⟨rfl, fun _ => rfl, fun h h' => by rw [h] at h'; cases h'⟩

theorem Ages.trans (h₁ : q.Ages back q₁) (h₂ : q₁.Ages back q') : q.Ages back q' where
  pipelineName := h₂.pipelineName.trans h₁.pipelineName
  settled := fun hq => by
    have hst := h₁.settled hq
    refine (h₂.settled ?_).trans hst
    rwa [active_eq_false, hst, ← active_eq_false]
  waits := fun hq hq' => by
    by_cases hact : q₁.active = false
    · rw [h₂.settled hact] at hq'
      exact h₁.waits hq hq'
    · simp only [active, Bool.or_eq_false_iff, decide_eq_false_iff_not, not_and_or, not_not] at hact
      rcases hact with hst | hst
      · exact h₁.waits hq hst
      · exact h₂.waits hst hq'

theorem Ages.active_back (h : q.Ages back q') (hq' : q'.active = true) : q.active = true := by
  by_contra hq
  have hst := h.settled (by simpa using hq)
  simp only [active, hst] at hq' hq
  exact hq hq'

theorem Ages.of_update {fence : Prop} [Decidable fence] {set : QueuedRun}
    (hname : set.pipelineName = q.pipelineName) (hfence : fence → q.active = true)
    (hwaits : fence → q.status = .dispatching → set.status = .queued → back) :
    q.Ages back (if fence then set else q) := by
  split_ifs with hq
  · exact ⟨hname, fun hidle => absurd (hfence hq) (by simp [hidle]), hwaits hq⟩
  · exact .refl back q

end QueuedRun

namespace Controller

open Ledger Dict

/-- Where a run can be, and what is claimed for it. -/
structure Core.Placed (k : Core) : Prop where
  /-- A thread whose dispatch is under way knows the generation of its attempt. -/
  own : ∀ r d, k.dispatches.lookup r = some d → d.phase = .sent →
    d.attemptId = mintAttemptId r 1 ∧
      ∀ row, k.ledger.attempts.lookup d.attemptId = some row → row.generation = d.generation
  pending : ∀ r d, k.dispatches.lookup r = some d → d.phase ≠ .leaving →
    k.queuedRuns.lookup r = none
  dispatched : ∀ r d, k.dispatches.lookup r = some d → k.submitted.lookup r = none ∧ r ∈ k.minted
  submitted : ∀ r j, k.submitted.lookup r = some j → k.queuedRuns.lookup r = none ∧ r ∈ k.minted ∧
    ∀ key h, k.ledger.holder? key = some h → h.runId ≠ r
  queued : ∀ r q, k.queuedRuns.lookup r = some q → r ∈ k.minted
  holders : ∀ key h, k.ledger.holder? key = some h → h.runId ∈ k.minted

structure Core.Inv (k : Core) : Prop extends k.Placed where
  agrees : k.ledger.Agrees

/-- No run comes to a new place. The ledger changes quietly, and the rows of the queue age; those
in `B` may go back. -/
structure Shrinks (spares : Prop) (B : Set String) (k k' : Core) : Prop where
  ledger : Quiet spares k.ledger k'.ledger
  rows : ∀ r q, k.queuedRuns.lookup r = some q →
    ∃ q', k'.queuedRuns.lookup r = some q' ∧ q.Ages (r ∈ B) q'
  unqueued : ∀ r, k.queuedRuns.lookup r = none → k'.queuedRuns.lookup r = none
  submitted : ∀ r j, k'.submitted.lookup r = some j → k.submitted.lookup r = some j
  dispatches : ∀ r d', k'.dispatches.lookup r = some d' → ∃ d, k.dispatches.lookup r = some d ∧
    (d'.phase = .sent → d' = d) ∧ (d'.phase ≠ .leaving → d.phase ≠ .leaving)
  minted : k.minted ⊆ k'.minted

inductive Change (spares : Prop) (B : Set String) (k : Core) : Core → Prop where
  | quiet {k' : Core} (h : Shrinks spares B k k') : Change spares B k k'
  /-- A run that is nowhere else comes to the queue, and no other row of its pipeline is active. -/
  | enqueue {r : String} {q : QueuedRun} (hmint : r ∈ k.minted) (hsub : k.submitted.lookup r = none)
      (hq : k.queuedRuns.lookup r = none)
      (hd : ∀ d, k.dispatches.lookup r = some d → d.phase = .leaving) (hst : q.status = .queued)
      (halone : ∀ r₁ q₁, k.queuedRuns.lookup r₁ = some q₁ → q₁.pipelineName = q.pipelineName →
        q₁.active = false) :
      Change spares B k { k with queuedRuns := k.queuedRuns.insert r q }
  /-- A run that was never claimed and is nowhere else waits in the pool. -/
  | submit {r : String} {j : SubmittedRun} (hmint : r ∈ k.minted) (hq : k.queuedRuns.lookup r = none)
      (hd : k.dispatches.lookup r = none)
      (hun : ∀ key x, k.ledger.holder? key = some x → x.runId ≠ r) :
      Change spares B k { k with submitted := k.submitted.insert r j }
  /-- An attempt of a run that no thread is dispatching and that left the pool is claimed. -/
  | claim {r : String} {n g : Nat} {l' : Ledger} (hg : Grows k.ledger l' r (mintAttemptId r n) g)
      (hmint : r ∈ k.minted) (hsub : k.submitted.lookup r = none)
      (hsent : ∀ d, k.dispatches.lookup r = some d → d.phase ≠ .sent) :
      Change spares B k { k with ledger := l' }
  /-- A thread starts dispatching the run it claimed. -/
  | dispatch {r : String} {d : BatchDispatch} (hmint : r ∈ k.minted)
      (hsub : k.submitted.lookup r = none) (hq : k.queuedRuns.lookup r = none)
      (hid : d.attemptId = mintAttemptId r 1)
      (hgen : ∀ row, k.ledger.attempts.lookup d.attemptId = some row → row.generation = d.generation) :
      Change spares B k { k with dispatches := k.dispatches.insert r d }

def Changes (spares : Prop) (B : Set String) : Core → Core → Prop :=
  Relation.ReflTransGen (Change spares B)

variable {spares : Prop} {B : Set String} {k k₁ k' : Core} {r : String}

theorem Changes.refl : Changes spares B k k := Relation.ReflTransGen.refl

theorem Changes.trans (h₁ : Changes spares B k k₁) (h₂ : Changes spares B k₁ k') :
    Changes spares B k k' := Relation.ReflTransGen.trans h₁ h₂

theorem Changes.tail (h : Changes spares B k k₁) (hc : Change spares B k₁ k') : Changes spares B k k' :=
  Relation.ReflTransGen.tail h hc

theorem Shrinks.refl (spares : Prop) (B : Set String) (k : Core) : Shrinks spares B k k where
  ledger := .refl spares _
  rows := fun _ q hq => ⟨q, hq, .refl _ q⟩
  unqueued := fun _ => id
  submitted := fun _ _ => id
  dispatches := fun _ d hd => ⟨d, hd, fun _ => rfl, id⟩
  minted := fun _ => id

theorem Shrinks.changes (h : Shrinks spares B k k') : Changes spares B k k' :=
  Changes.refl.tail (.quiet h)

theorem Changes.ledger {l' : Ledger} (h : Quiet spares k.ledger l') :
    Changes spares B k { k with ledger := l' } :=
  Shrinks.changes { Shrinks.refl spares B k with ledger := h }

theorem Changes.mapVal {f : String → QueuedRun → QueuedRun}
    (hf : ∀ r (q : QueuedRun), q.Ages (r ∈ B) (f r q)) :
    Changes spares B k { k with queuedRuns := mapVal k.queuedRuns f } :=
  Shrinks.changes
    { Shrinks.refl spares B k with
      rows := fun r q hq => ⟨f r q, by simp [lookup_mapVal, hq], hf r q⟩
      unqueued := fun r hr => by simp [lookup_mapVal, hr] }

theorem Changes.modify {f : QueuedRun → QueuedRun} (hf : ∀ q : QueuedRun, q.Ages (r ∈ B) (f q)) :
    Changes spares B k { k with queuedRuns := modify k.queuedRuns r f } := by
  refine .mapVal fun r' q => ?_
  split_ifs with hr
  · exact hr ▸ hf q
  · exact .refl _ q

theorem Changes.mint (r : String) : Changes spares B k { k with minted := insert r k.minted } :=
  Shrinks.changes { Shrinks.refl spares B k with minted := Finset.subset_insert r k.minted }

theorem Changes.drains (drains : Dict String (String × Nat)) :
    Changes spares B k { k with drains := drains } :=
  Shrinks.changes { Shrinks.refl spares B k with }

theorem Changes.of_eq (h : k' = k) : Changes spares B k k' := h ▸ .refl

theorem Changes.mono {spares' : Prop} (hs : spares' → spares) (h : Changes spares B k k') :
    Changes spares' B k k' := by
  induction h with
  | refl => exact .refl
  | tail _ hstep ih =>
    refine ih.tail ?_
    cases hstep with
    | quiet hq => exact .quiet { hq with ledger := ⟨hq.ledger.calm, hq.ledger.agrees ∘ hs⟩ }
    | enqueue hmint hsub hq hd hst halone => exact .enqueue hmint hsub hq hd hst halone
    | submit hmint hq hd hun => exact .submit hmint hq hd hun
    | claim hg hmint hsub hsent => exact .claim hg hmint hsub hsent
    | dispatch hmint hsub hq hid hgen => exact .dispatch hmint hsub hq hid hgen

/-! ## Where runs are -/

theorem Core.Placed.shrinks (h : k.Placed) (hs : Shrinks spares B k k') : k'.Placed where
  own := by
    intro r d' hd' hsent
    obtain ⟨d, hd, heq, -⟩ := hs.dispatches r d' hd'
    obtain rfl := heq hsent
    obtain ⟨hid, hgen⟩ := h.own r d' hd hsent
    refine ⟨hid, fun row' hrow' => ?_⟩
    obtain ⟨row, hrow, hsame⟩ := hs.ledger.calm.rows _ row' hrow'
    exact hsame.generation.trans (hgen row hrow)
  pending := by
    intro r d' hd' hphase
    obtain ⟨d, hd, -, hback⟩ := hs.dispatches r d' hd'
    exact hs.unqueued r (h.pending r d hd (hback hphase))
  dispatched := by
    intro r d' hd'
    obtain ⟨d, hd, -, -⟩ := hs.dispatches r d' hd'
    obtain ⟨hnone, hmint⟩ := h.dispatched r d hd
    refine ⟨Option.eq_none_iff_forall_ne_some.mpr fun j hj => ?_, hs.minted hmint⟩
    cases hnone.symm.trans (hs.submitted r j hj)
  submitted := by
    intro r j hj
    obtain ⟨hq, hmint, hun⟩ := h.submitted r j (hs.submitted r j hj)
    exact ⟨hs.unqueued r hq, hs.minted hmint,
      fun key x hx => hun key x (hs.ledger.calm.holders key x hx)⟩
  queued := by
    intro r q' hq'
    cases hq : k.queuedRuns.lookup r with
    | none => cases (hs.unqueued r hq).symm.trans hq'
    | some q => exact hs.minted (h.queued r q hq)
  holders := fun key x hx => hs.minted (h.holders key x (hs.ledger.calm.holders key x hx))

theorem Core.Placed.change (h : k.Placed) (hc : Change spares B k k') : k'.Placed := by
  cases hc with
  | quiet hs => exact h.shrinks hs
  | @enqueue r q hmint hsub hq hd hst halone =>
    have hother {r'} (hne : r' ≠ r) : (k.queuedRuns.insert r q).lookup r' = k.queuedRuns.lookup r' :=
      AList.lookup_insert_ne hne
    refine { h with pending := fun r' d hd' hphase => ?_, submitted := fun r' j hj => ?_,
                    queued := forall_insert hmint h.queued }
    · have hne : r' ≠ r := by
        rintro rfl
        exact hphase (hd d hd')
      exact (hother hne).trans (h.pending r' d hd' hphase)
    · have hne := ne_of_lookup hsub hj
      obtain ⟨hnone, hrest⟩ := h.submitted r' j hj
      exact ⟨(hother hne).trans hnone, hrest⟩
  | @submit r j hmint hq hd hun =>
    refine { h with dispatched := fun r' d hd' => ?_,
                    submitted := forall_insert ⟨hq, hmint, hun⟩ h.submitted }
    have hne := ne_of_lookup hd hd'
    obtain ⟨hnone, hmint'⟩ := h.dispatched r' d hd'
    exact ⟨(AList.lookup_insert_ne hne).trans hnone, hmint'⟩
  | @claim r n g l' hg hmint hsub hsent =>
    refine { h with own := fun r' d hd hs => ?_, submitted := fun r' j hj => ?_,
                    holders := fun key x hx => ?_ }
    · obtain ⟨hid, hgen⟩ := h.own r' d hd hs
      refine ⟨hid, fun row' hrow' => ?_⟩
      rcases hg.rows _ row' hrow' with ⟨heq, -⟩ | ⟨row, hrow, hsame⟩
      · obtain rfl : r' = r := (mintAttemptId_inj (hid.symm.trans heq)).1
        exact absurd hs (hsent d hd)
      · exact hsame.generation.trans (hgen row hrow)
    · obtain ⟨hq, hm, hun⟩ := h.submitted r' j hj
      refine ⟨hq, hm, fun key x hx => ?_⟩
      rcases hg.holders key x hx with hrun | hold
      · rintro rfl
        cases hsub.symm.trans (hrun ▸ hj)
      · exact hun key x hold
    · rcases hg.holders key x hx with hrun | hold
      · exact hrun ▸ hmint
      · exact h.holders key x hold
  | @dispatch r d hmint hsub hq hid hgen =>
    exact { h with own := forall_insert (fun _ => ⟨hid, hgen⟩) h.own,
                   pending := forall_insert (fun _ => hq) h.pending,
                   dispatched := forall_insert ⟨hsub, hmint⟩ h.dispatched }

theorem Core.Placed.changes (h : k.Placed) (hc : Changes spares B k k') : k'.Placed := by
  induction hc with
  | refl => exact h
  | tail _ hstep ih => exact ih.change hstep

theorem Core.Inv.changes (h : k.Inv) (hs : spares) (hc : Changes spares B k k') : k'.Inv := by
  refine ⟨h.toPlaced.changes hc, ?_⟩
  induction hc with
  | refl => exact h.agrees
  | tail _ hstep ih =>
    cases hstep with
    | quiet hq => exact hq.ledger.agrees hs ih
    | claim hg => exact hg.agrees ih
    | enqueue | submit | dispatch => exact ih

theorem Core.Placed.fresh (h : k.Placed) (hr : r ∉ k.minted) :
    k.dispatches.lookup r = none ∧ k.submitted.lookup r = none ∧ k.queuedRuns.lookup r = none ∧
      ∀ key x, k.ledger.holder? key = some x → x.runId ≠ r := by
  refine ⟨?_, ?_, ?_, fun key x hx heq => hr (heq ▸ h.holders key x hx)⟩ <;>
    refine Option.eq_none_iff_forall_ne_some.mpr fun x hx => hr ?_
  · exact (h.dispatched r x hx).2
  · exact (h.submitted r x hx).2.1
  · exact h.queued r x hx

theorem Changes.rows (hc : Changes spares B k k') {q : QueuedRun}
    (hq : k.queuedRuns.lookup r = some q) :
    ∃ q', k'.queuedRuns.lookup r = some q' ∧ q.Ages (r ∈ B) q' := by
  induction hc with
  | refl => exact ⟨q, hq, .refl _ q⟩
  | tail _ hstep ih =>
    obtain ⟨q₁, hq₁, hages⟩ := ih
    cases hstep with
    | quiet hs =>
      obtain ⟨q', hq', hages'⟩ := hs.rows r q₁ hq₁
      exact ⟨q', hq', hages.trans hages'⟩
    | @enqueue r' q' _ _ hnone =>
      have hne := ne_of_lookup hnone hq₁
      exact ⟨q₁, (AList.lookup_insert_ne hne).trans hq₁, hages⟩
    | submit | claim | dispatch => exact ⟨q₁, hq₁, hages⟩

end Controller

end Tram
