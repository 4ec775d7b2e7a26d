import Tram.Persistence.Checkpoints

/-! # Which request a checkpoint row describes

The store is audited: next to every row stands the request that last advanced it. The upsert of an
existing row writes every column of the request but its run, so the row describes that request as
long as the run is the one the row was created for. -/

namespace Tram

open CheckpointOp CheckpointStore

def CheckpointOp.payload : CheckpointOp → CheckpointPayload
  | .commit _ p => p
  | .commitRow _ p _ => p

/-- The caller is told that the row was written. -/
def CheckpointOp.committed (s : CheckpointStore) : CheckpointOp → Bool
  | .commit id p =>
    match (commitAtomicCheckpoint s id p).1 with
    | .ok reply => !reply.alreadyCommitted
    | .error _ => false
  | .commitRow id p r =>
    match (commitCheckpoint s id p r).1 with
    | .ok (.committed _) => true
    | _ => false

/-- The row holds the run, the attempt, the generation, the frontier and the receipts of `p`. -/
structure Checkpoint.Describes (c : Checkpoint) (p : CheckpointPayload) : Prop where
  runId : c.runId = p.runId
  attemptId : c.attemptId = p.attemptId
  generation : c.generation = p.generation
  frontierJson : c.frontierJson = p.frontier
  frontierSeq : c.frontierSeq = p.frontierSeq
  sinkReceipts : c.sinkReceipts = p.sinkReceipts

/-- A store, and for every row the request that last advanced it. -/
structure AuditedStore where
  store : CheckpointStore
  last : Dict (String × String) CheckpointPayload

namespace AuditedStore

def empty : AuditedStore := ⟨.empty, ∅⟩

def step (a : AuditedStore) (op : CheckpointOp) : AuditedStore :=
  ⟨a.store.step op,
    if op.committed a.store then a.last.insert op.payload.key op.payload else a.last⟩

def Described (a : AuditedStore) : Prop :=
  ∀ key c, a.store.checkpoints.lookup key = some c →
    ∃ p, a.last.lookup key = some p ∧ c.Describes p

end AuditedStore

/-! ## One commit -/

/-- The transaction goes through and writes the row: an inserted row has a new identity, the
frontier is later than the stored one, and for the endpoint the fence of the state lets the writer
pass. -/
def CheckpointOp.Lands (s : CheckpointStore) : CheckpointOp → Prop
  | .commit id p => p.clashes s id = false ∧ p.Fresh s ∧
      ∀ t, s.states.lookup p.pipelineName = some t → t.fence p = true
  | .commitRow id p _ => p.clashes s id = false ∧ p.Fresh s

/-- A commit that writes an existing row is of the run the row names. -/
def CheckpointOp.SameRun (s : CheckpointStore) (op : CheckpointOp) : Prop :=
  op.Lands s → ∀ c, s.checkpoints.lookup op.payload.key = some c → c.runId = op.payload.runId

theorem casTransformState_fst {states : Dict String TransformState} {p : CheckpointPayload} :
    (casTransformState states p).1 = 1 ↔
      ∀ t, states.lookup p.pipelineName = some t → t.fence p = true := by
  unfold casTransformState
  cases h : states.lookup p.pipelineName with
  | none => simp
  | some t => by_cases hf : t.fence p = true <;> simp [hf]

variable {s : CheckpointStore} {op : CheckpointOp}

theorem CheckpointOp.Lands.step (h : op.Lands s) :
    op.committed s = true ∧ ∃ id r, (s.step op).checkpoints =
      s.checkpoints.insert op.payload.key
        (landed (s.checkpoints.lookup op.payload.key) (op.payload.row id r)) := by
  cases op with
  | commit id p =>
    obtain ⟨hid, hfresh, hfence⟩ := h
    have hcas := casTransformState_fst.mpr hfence
    have hcommit := commitAtomicCheckpoint_fresh hid hfresh
    dsimp only at hcommit
    rw [if_neg (not_not.mpr hcas)] at hcommit
    refine ⟨by simp [committed, hcommit], id, p.stateBaseRevision + 1, ?_⟩
    simp only [step, hcommit, payload]
  | commitRow id p r =>
    obtain ⟨hid, hfresh⟩ := h
    refine ⟨?_, id, r, ?_⟩
    · simp [committed, commitCheckpoint, upsertCheckpoint_fresh hid hfresh]
    · simp [step, payload, commitCheckpoint,
        upsertCheckpoint_fresh hid hfresh]

theorem CheckpointOp.step_of_not_lands (h : ¬op.Lands s) :
    op.committed s = false ∧ (s.step op).checkpoints = s.checkpoints := by
  cases op with
  | commit id p =>
    simp only [committed, step]
    cases hid : p.clashes s id with
    | true => simp [commitAtomicCheckpoint_clashes hid]
    | false =>
      rcases covered_or_fresh p s with ⟨c, hc⟩ | hfresh
      · simp [commitAtomicCheckpoint_covered hc]
      · have hcas : (casTransformState s.states p).1 ≠ 1 := fun hone =>
          h ⟨hid, hfresh, casTransformState_fst.mp hone⟩
        have hcommit := commitAtomicCheckpoint_fresh hid hfresh
        dsimp only at hcommit
        rw [if_pos hcas] at hcommit
        simp [hcommit]
  | commitRow id p r =>
    simp only [committed, step]
    cases hid : p.clashes s id with
    | true => simp [commitCheckpoint, upsertCheckpoint_clashes hid]
    | false =>
      rcases covered_or_fresh p s with ⟨c, hc⟩ | hfresh
      · simp [commitCheckpoint, upsertCheckpoint_covered hc]
      · exact absurd ⟨hid, hfresh⟩ h

theorem landed_describes (old : Option Checkpoint) (p : CheckpointPayload) (id : String) (r : Int) :
    (landed old (p.row id r)).Describes p ↔ ∀ c, old = some c → c.runId = p.runId := by
  cases old with
  | none =>
    constructor
    · intro _ c hc
      cases hc
    · exact fun _ => ⟨rfl, rfl, rfl, rfl, rfl, rfl⟩
  | some c =>
    constructor
    · intro h c' hc'
      cases hc'
      exact h.runId
    · exact fun h => ⟨h c rfl, rfl, rfl, rfl, rfl, rfl⟩

namespace AuditedStore

/-- One commit keeps the rows described exactly if it does not write the row of another run. -/
theorem described_step {a : AuditedStore} (h : a.Described) (op : CheckpointOp) :
    (a.step op).Described ↔ op.SameRun a.store := by
  by_cases hlands : op.Lands a.store
  · obtain ⟨hcommitted, id, r, hrows⟩ := hlands.step
    have hlast : (a.step op).last = a.last.insert op.payload.key op.payload := if_pos hcommitted
    have hdescribed := landed_describes (a.store.checkpoints.lookup op.payload.key) op.payload id r
    constructor
    · intro hstep _ c hc
      have hrow : (a.step op).store.checkpoints.lookup op.payload.key = some _ :=
        hrows ▸ AList.lookup_insert _
      obtain ⟨p, hp, hdesc⟩ := hstep _ _ hrow
      rw [hlast, AList.lookup_insert, Option.some_inj] at hp
      exact hdescribed.mp (hp ▸ hdesc) c hc
    · intro hsame key c hc
      change (a.store.step op).checkpoints.lookup key = some c at hc
      rw [hrows, Dict.lookup_insert_ite] at hc
      rw [hlast, Dict.lookup_insert_ite]
      split_ifs at hc ⊢ with hkey
      · cases hc
        exact ⟨op.payload, rfl, hdescribed.mpr (hsame hlands)⟩
      · exact h key c hc
  · obtain ⟨hcommitted, hrows⟩ := step_of_not_lands hlands
    have hlast : (a.step op).last = a.last := if_neg (by simp [hcommitted])
    refine ⟨fun _ hl => absurd hl hlands, fun _ key c hc => ?_⟩
    change (a.store.step op).checkpoints.lookup key = some c at hc
    rw [hrows] at hc
    rw [hlast]
    exact h key c hc

theorem described_empty : empty.Described := fun _ _ h => absurd h (by simp [empty, CheckpointStore.empty])

/-- Over any commits by the endpoint and by the ledger's helper: every row describes one request,
the one that last advanced it, in every state reached, exactly if no commit advances the row of
another run. -/
theorem rows_describe_one_commit (ops : List CheckpointOp) :
    Run.AllSteps step (fun a op => (a.step op).Described) empty ops ↔
      Run.AllSteps step (fun a op => op.SameRun a.store) empty ops :=
  Run.allSteps_iff (I := Described) (fun _ op h => described_step h op) (fun _ _ _ h => h)
    described_empty ops

end AuditedStore

/-- The offset of a partition committed by a run, and then a later one by the next run: the row
names the first run with the attempt of the second, whichever way the two were committed, and
whether or not the caller of the helper names the unit's checkpoint again. -/
theorem row_mixes_two_runs :
    let p : CheckpointPayload := ⟨"orders", 1, "r1-a1", "r1", "topic:0", "", 7, "", "s7", "", 0⟩
    let q : CheckpointPayload := ⟨"orders", 1, "r2-a1", "r2", "topic:0", "", 8, "", "s8", "", 1⟩
    ∀ ops ∈ [[commit "c1" p, .commit "c2" q], [.commitRow "c1" p 1, .commitRow "c2" q 2],
        [.commitRow "c1" p 1, .commitRow "c1" q 2]],
      ∃ c, (Run.exec step .empty ops).checkpoints.lookup p.key = some c ∧
        c.runId = "r1" ∧ c.attemptId = "r2-a1" ∧ ¬c.Describes p ∧ ¬c.Describes q := by
  intro p q ops hops
  have hrow : ∃ c, (Run.exec step .empty ops).checkpoints.lookup p.key = some c ∧
      c.runId = "r1" ∧ c.attemptId = "r2-a1" := by
    simp only [List.mem_cons, List.not_mem_nil, or_false] at hops
    rcases hops with rfl | rfl | rfl
    all_goals exact ⟨⟨"c1", 1, "r2-a1", "r1", "", 8, "", 2⟩, by decide +kernel, rfl, rfl⟩
  obtain ⟨c, hc, hrun, hattempt⟩ := hrow
  refine ⟨c, hc, hrun, hattempt, fun h => ?_, fun h => ?_⟩
  · exact absurd (hattempt.symm.trans h.attemptId) (by decide)
  · exact absurd (hrun.symm.trans h.runId) (by decide)

end Tram
