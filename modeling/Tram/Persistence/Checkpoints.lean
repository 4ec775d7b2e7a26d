import Mathlib.Data.Int.Order.Basic
import Tram.Lib.Dict
import Tram.Lib.Run

/-! # Delivery checkpoints

Two tables: `delivery_checkpoints`, one row for each source unit of a pipeline, and
`transform_state`, one row for each pipeline with the revision that fences its writers. A commit
is one transaction over both. The upsert of the first moves a row only to a later frontier; the
write of the second is a compare-and-swap on the revision the writer last saw. A transaction that
raises is rolled back, so what it returns is the store it found. -/

namespace Tram

/-- A row of `delivery_checkpoints`, under its pipeline and source unit. -/
structure Checkpoint where
  checkpointId : String
  generation : Int
  attemptId : String
  runId : String
  frontierJson : String
  frontierSeq : Int
  sinkReceipts : String
  stateRevision : Int
  deriving DecidableEq, Repr

/-- A row of `transform_state`, under its pipeline. Rows written before revisions existed have
no generation. -/
structure TransformState where
  stateJson : String
  configSha256 : String
  updatedBy : String
  generation : Option Int
  revision : Int
  deriving DecidableEq, Repr

structure CheckpointStore where
  checkpoints : Dict (String × String) Checkpoint
  states : Dict String TransformState

/-- The body of a checkpoint request; `state` and `frontier` are the JSON texts stored. -/
structure CheckpointPayload where
  pipelineName : String
  generation : Int
  attemptId : String
  runId : String
  sourceUnit : String
  frontier : String
  frontierSeq : Int
  sinkReceipts : String
  state : String
  configSha256 : String
  stateBaseRevision : Int
  deriving DecidableEq, Repr

inductive CheckpointError where
  /-- The fence on `transform_state` rejected the writer. -/
  | staleStateRevision
  /-- The `checkpoint_id` of an inserted row is the primary key of another. -/
  | duplicateId
  deriving DecidableEq, Repr

structure CheckpointReply where
  alreadyCommitted : Bool
  checkpointId : String
  stateRevision : Int
  deriving DecidableEq, Repr

/-- What the ledger's own helper returns. -/
inductive CheckpointOutcome where
  | committed (checkpointId : String)
  | stale (checkpointId : String) (existing : Option Checkpoint)
  deriving DecidableEq, Repr

/-- The columns `DO UPDATE SET` writes; the identity and the run of the first commit stay. -/
def Checkpoint.advance (old new : Checkpoint) : Checkpoint :=
  { new with checkpointId := old.checkpointId, runId := old.runId }

def checkpointIdTaken (rows : Dict (String × String) Checkpoint) (checkpointId : String) : Bool :=
  rows.entries.any fun e => e.2.checkpointId = checkpointId

/-- The upsert under the monotonic guard: the number of rows written, and the table. A row of the
unit takes the statement to `DO UPDATE` whatever `checkpoint_id` it was sent with, so the primary
key is met only where a row is inserted. -/
def upsertCheckpoint (rows : Dict (String × String) Checkpoint) (key : String × String)
    (new : Checkpoint) : Except CheckpointError (Nat × Dict (String × String) Checkpoint) :=
  match rows.lookup key with
  | none =>
    if checkpointIdTaken rows new.checkpointId then .error .duplicateId
    else .ok (1, rows.insert key new)
  | some old =>
    if old.frontierSeq < new.frontierSeq then .ok (1, rows.insert key (old.advance new))
    else .ok (0, rows)

def CheckpointPayload.key (p : CheckpointPayload) : String × String := (p.pipelineName, p.sourceUnit)

def CheckpointPayload.row (p : CheckpointPayload) (checkpointId : String) (stateRevision : Int) :
    Checkpoint :=
  ⟨checkpointId, p.generation, p.attemptId, p.runId, p.frontier, p.frontierSeq, p.sinkReceipts,
    stateRevision⟩

/-- The fence of the compare-and-swap: the revision is the writer's base, the generation its own
or none. -/
def TransformState.fence (t : TransformState) (p : CheckpointPayload) : Bool :=
  t.revision = p.stateBaseRevision ∧ (t.generation = none ∨ t.generation = some p.generation)

def CheckpointPayload.stateRow (p : CheckpointPayload) (revision : Int) : TransformState :=
  ⟨p.state, p.configSha256, p.runId, some p.generation, revision⟩

/-- The write of `transform_state`. An absent row is inserted with revision 1, whatever the
writer's base. -/
def casTransformState (states : Dict String TransformState) (p : CheckpointPayload) :
    Nat × Dict String TransformState :=
  match states.lookup p.pipelineName with
  | none => (1, states.insert p.pipelineName (p.stateRow 1))
  | some old =>
    if old.fence p then (1, states.insert p.pipelineName (p.stateRow (old.revision + 1)))
    else (0, states)

def commitAtomicCheckpoint (s : CheckpointStore) (checkpointId : String) (p : CheckpointPayload) :
    Except CheckpointError CheckpointReply × CheckpointStore :=
  match upsertCheckpoint s.checkpoints p.key (p.row checkpointId (p.stateBaseRevision + 1)) with
  | .error e => (.error e, s)
  | .ok (written, rows) =>
    let stored := rows.lookup p.key
    let storedId := (stored.map (·.checkpointId)).getD checkpointId
    if written ≠ 1 then
      let revision := (stored.map (·.stateRevision)).getD p.stateBaseRevision
      (.ok ⟨true, storedId, revision⟩, { s with checkpoints := rows })
    else
      let (swapped, states) := casTransformState s.states p
      if swapped ≠ 1 then (.error .staleStateRevision, s)
      else (.ok ⟨false, storedId, p.stateBaseRevision + 1⟩, ⟨rows, states⟩)

/-- `commit_checkpoint` of the ledger: the same upsert, and no write of the state. -/
def commitCheckpoint (s : CheckpointStore) (checkpointId : String) (p : CheckpointPayload)
    (stateRevision : Int) : Except CheckpointError CheckpointOutcome × CheckpointStore :=
  match upsertCheckpoint s.checkpoints p.key (p.row checkpointId stateRevision) with
  | .error e => (.error e, s)
  | .ok (written, rows) =>
    let stored := rows.lookup p.key
    let storedId := (stored.map (·.checkpointId)).getD checkpointId
    if written = 1 then (.ok (.committed storedId), { s with checkpoints := rows })
    else (.ok (.stale storedId stored), { s with checkpoints := rows })

/-- The row a commit finds covers it: the unit was already committed at this frontier or later. -/
def CheckpointPayload.Covered (p : CheckpointPayload) (s : CheckpointStore) (c : Checkpoint) :
    Prop :=
  s.checkpoints.lookup p.key = some c ∧ p.frontierSeq ≤ c.frontierSeq

def CheckpointPayload.Fresh (p : CheckpointPayload) (s : CheckpointStore) : Prop :=
  ∀ c, s.checkpoints.lookup p.key = some c → c.frontierSeq < p.frontierSeq

/-- The commit would insert a row under the `checkpoint_id` of another. -/
def CheckpointPayload.clashes (p : CheckpointPayload) (s : CheckpointStore) (checkpointId : String) :
    Bool :=
  (s.checkpoints.lookup p.key).isNone && checkpointIdTaken s.checkpoints checkpointId

/-- The row of a unit after a commit that advances it. -/
def landed (old : Option Checkpoint) (new : Checkpoint) : Checkpoint :=
  match old with
  | none => new
  | some old => old.advance new

variable {p : CheckpointPayload} {id : String} {s t : CheckpointStore} {c : Checkpoint}

theorem covered_or_fresh (p : CheckpointPayload) (s : CheckpointStore) :
    (∃ c, p.Covered s c) ∨ p.Fresh s := by
  cases h : s.checkpoints.lookup p.key with
  | none => exact .inr fun c hc => by rw [h] at hc; cases hc
  | some c =>
    rcases le_or_gt p.frontierSeq c.frontierSeq with hle | hlt
    · exact .inl ⟨c, h, hle⟩
    · exact .inr fun d hd => by rw [h] at hd; cases hd; exact hlt

section Upsert

theorem upsertCheckpoint_covered (h : p.Covered s c) (id : String) (r : Int) :
    upsertCheckpoint s.checkpoints p.key (p.row id r) = .ok (0, s.checkpoints) := by
  have hlate : ¬ c.frontierSeq < (p.row id r).frontierSeq := not_lt.mpr h.2
  simp only [upsertCheckpoint, h.1, if_neg hlate]

theorem upsertCheckpoint_clashes (h : p.clashes s id = true) (r : Int) :
    upsertCheckpoint s.checkpoints p.key (p.row id r) = .error .duplicateId := by
  obtain ⟨hnone, htaken⟩ := Bool.and_eq_true_iff.mp h
  have hid : checkpointIdTaken s.checkpoints (p.row id r).checkpointId = true := htaken
  simp only [upsertCheckpoint, Option.isNone_iff_eq_none.mp hnone, if_pos hid]

theorem upsertCheckpoint_fresh (hid : p.clashes s id = false) (h : p.Fresh s) (r : Int) :
    upsertCheckpoint s.checkpoints p.key (p.row id r) =
      .ok (1, s.checkpoints.insert p.key (landed (s.checkpoints.lookup p.key) (p.row id r))) := by
  unfold upsertCheckpoint landed
  cases hc : s.checkpoints.lookup p.key with
  | none =>
    have hnew : checkpointIdTaken s.checkpoints (p.row id r).checkpointId = false := by
      simpa [CheckpointPayload.clashes, CheckpointPayload.row, hc] using hid
    simp only [hnew, Bool.false_eq_true, if_false]
  | some c =>
    have hlate : c.frontierSeq < (p.row id r).frontierSeq := h c hc
    simp only [if_pos hlate]

end Upsert

section Commit

theorem commitAtomicCheckpoint_clashes (h : p.clashes s id = true) :
    commitAtomicCheckpoint s id p = (.error .duplicateId, s) := by
  simp only [commitAtomicCheckpoint, upsertCheckpoint_clashes h]

theorem commitAtomicCheckpoint_covered (h : p.Covered s c) :
    commitAtomicCheckpoint s id p = (.ok ⟨true, c.checkpointId, c.stateRevision⟩, s) := by
  simp [commitAtomicCheckpoint, upsertCheckpoint_covered h, h.1]

theorem commitAtomicCheckpoint_fresh (hid : p.clashes s id = false) (h : p.Fresh s) :
    commitAtomicCheckpoint s id p =
      let row := landed (s.checkpoints.lookup p.key) (p.row id (p.stateBaseRevision + 1))
      if (casTransformState s.states p).1 ≠ 1 then (.error .staleStateRevision, s)
      else (.ok ⟨false, row.checkpointId, p.stateBaseRevision + 1⟩,
        ⟨s.checkpoints.insert p.key row, (casTransformState s.states p).2⟩) := by
  simp [commitAtomicCheckpoint, upsertCheckpoint_fresh hid h]

section

variable (s : CheckpointStore) (id : String) (p : CheckpointPayload)

/-- A commit leaves the store as it was, and is then answered only if the unit was covered; or the
unit was fresh, the commit is answered, and the row has landed. -/
theorem commitAtomicCheckpoint_cases :
    (commitAtomicCheckpoint s id p).2 = s ∧
        (∀ reply, (commitAtomicCheckpoint s id p).1 = .ok reply → ∃ c, p.Covered s c) ∨
      p.Fresh s ∧ (∃ reply, (commitAtomicCheckpoint s id p).1 = .ok reply) ∧
        (commitAtomicCheckpoint s id p).2.checkpoints =
          s.checkpoints.insert p.key
            (landed (s.checkpoints.lookup p.key) (p.row id (p.stateBaseRevision + 1))) := by
  cases hid : p.clashes s id with
  | true =>
    rw [commitAtomicCheckpoint_clashes hid]
    exact .inl ⟨rfl, nofun⟩
  | false =>
    rcases covered_or_fresh p s with ⟨c, hc⟩ | hfresh
    · rw [commitAtomicCheckpoint_covered hc]
      exact .inl ⟨rfl, fun _ _ => ⟨c, hc⟩⟩
    · rw [commitAtomicCheckpoint_fresh hid hfresh]
      by_cases hcas : (casTransformState s.states p).1 ≠ 1
      · rw [if_pos hcas]
        exact .inl ⟨rfl, nofun⟩
      · rw [if_neg hcas]
        exact .inr ⟨hfresh, ⟨_, rfl⟩, rfl⟩

/-- The helper of the ledger is total apart from a clash of identities, and does the same to the
checkpoint table. -/
theorem commitCheckpoint_rows (r : Int) :
    (commitCheckpoint s id p r).2 = s ∨
      p.Fresh s ∧ (commitCheckpoint s id p r).2.checkpoints =
        s.checkpoints.insert p.key (landed (s.checkpoints.lookup p.key) (p.row id r)) := by
  cases hid : p.clashes s id with
  | true => exact .inl (by simp only [commitCheckpoint, upsertCheckpoint_clashes hid])
  | false =>
    rcases covered_or_fresh p s with ⟨c, hc⟩ | hfresh
    · exact .inl (by simp [commitCheckpoint, upsertCheckpoint_covered hc])
    · exact .inr ⟨hfresh, by simp [commitCheckpoint, upsertCheckpoint_fresh hid hfresh]⟩

end

end Commit

/-! ## The store over any sequence of commits -/

/-- A commit by the endpoint, or by the ledger's helper with a revision of the caller's own. -/
inductive CheckpointOp where
  | commit (checkpointId : String) (p : CheckpointPayload)
  | commitRow (checkpointId : String) (p : CheckpointPayload) (stateRevision : Int)

namespace CheckpointStore

def empty : CheckpointStore := ⟨∅, ∅⟩

def step (s : CheckpointStore) : CheckpointOp → CheckpointStore
  | .commit id p => (commitAtomicCheckpoint s id p).2
  | .commitRow id p r => (commitCheckpoint s id p r).2

/-- Every row of `s` is still there in `t`, under its identity and at no earlier frontier. -/
def Advances (s t : CheckpointStore) : Prop :=
  ∀ key c, s.checkpoints.lookup key = some c →
    ∃ d, t.checkpoints.lookup key = some d ∧ d.checkpointId = c.checkpointId ∧
      c.frontierSeq ≤ d.frontierSeq

theorem Advances.refl (s : CheckpointStore) : Advances s s :=
  fun _ c h => ⟨c, h, rfl, le_rfl⟩

theorem Advances.trans {u : CheckpointStore} (h : Advances s t) (h' : Advances t u) :
    Advances s u := by
  intro key c hc
  obtain ⟨d, hd, hid, hle⟩ := h key c hc
  obtain ⟨e, he, hid', hle'⟩ := h' key d hd
  exact ⟨e, he, hid'.trans hid, le_trans hle hle'⟩

theorem Advances.of_landed (hfresh : p.Fresh s) {r : Int} (h : t.checkpoints =
      s.checkpoints.insert p.key (landed (s.checkpoints.lookup p.key) (p.row id r))) :
    Advances s t := by
  intro key c hc
  by_cases hkey : key = p.key
  · subst hkey
    refine ⟨c.advance (p.row id r), ?_, rfl, Int.le_of_lt (hfresh c hc)⟩
    rw [h, AList.lookup_insert, hc]
    rfl
  · exact ⟨c, by rw [h, AList.lookup_insert_ne hkey, hc], rfl, le_rfl⟩

theorem advances_step (s : CheckpointStore) (op : CheckpointOp) : Advances s (s.step op) := by
  cases op with
  | commit id p =>
    rcases commitAtomicCheckpoint_cases s id p with ⟨h, -⟩ | ⟨hfresh, -, h⟩
    · rw [step, h]
      exact .refl s
    · exact .of_landed hfresh h
  | commitRow id p r =>
    rcases commitCheckpoint_rows s id p r with h | ⟨hfresh, h⟩
    · rw [step, h]
      exact .refl s
    · exact .of_landed hfresh h

theorem advances_exec (s : CheckpointStore) (ops : List CheckpointOp) :
    Advances s (Run.exec step s ops) :=
  Run.exec_rel Advances.refl (fun _ _ _ => Advances.trans) advances_step s ops

end CheckpointStore

open CheckpointStore

theorem covered_of_ok {reply : CheckpointReply}
    (h : (commitAtomicCheckpoint s id p).1 = .ok reply) :
    ∃ c, p.Covered (commitAtomicCheckpoint s id p).2 c := by
  rcases commitAtomicCheckpoint_cases s id p with ⟨hs, hc⟩ | ⟨-, -, hrows⟩
  · rw [hs]
    exact hc reply h
  · refine ⟨_, by rw [hrows]; exact AList.lookup_insert _, ?_⟩
    unfold landed
    cases s.checkpoints.lookup p.key <;> exact le_rfl

theorem CheckpointPayload.Covered.advances (h : p.Covered s c) (hst : Advances s t) :
    ∃ d, p.Covered t d := by
  obtain ⟨d, hd, -, hle⟩ := hst p.key c h.1
  exact ⟨d, hd, le_trans h.2 hle⟩

theorem store_of_error {e : CheckpointError} (h : (commitAtomicCheckpoint s id p).1 = .error e) :
    (commitAtomicCheckpoint s id p).2 = s := by
  rcases commitAtomicCheckpoint_cases s id p with ⟨hs, -⟩ | ⟨-, ⟨reply, hok⟩, -⟩
  · exact hs
  · rw [hok] at h
    cases h

theorem store_of_covered (h : p.Covered s c) : (commitAtomicCheckpoint s id p).2 = s := by
  rw [commitAtomicCheckpoint_covered h]

/-- Frontiers only move forward under a fixed identity; a rejected commit leaves both tables as
they were; and a unit that was once answered, sent again after whatever else was committed,
changes nothing. -/
theorem checkpoint_store_safe (s : CheckpointStore) (ops : List CheckpointOp) :
    (∀ key c, s.checkpoints.lookup key = some c →
      ∃ d, (Run.exec step s ops).checkpoints.lookup key = some d ∧
        d.checkpointId = c.checkpointId ∧ c.frontierSeq ≤ d.frontierSeq) ∧
    (∀ id p e, (commitAtomicCheckpoint s id p).1 = .error e → (commitAtomicCheckpoint s id p).2 = s) ∧
    (∀ id p reply, (commitAtomicCheckpoint s id p).1 = .ok reply →
      let t := Run.exec step (commitAtomicCheckpoint s id p).2 ops
      ∀ id' (p' : CheckpointPayload), p'.key = p.key → p'.frontierSeq ≤ p.frontierSeq →
        (commitAtomicCheckpoint t id' p').2 = t) := by
  refine ⟨advances_exec s ops, fun id p e h => store_of_error h, ?_⟩
  intro id p reply h t id' p' hkey hseq
  obtain ⟨c, hc⟩ := covered_of_ok h
  obtain ⟨d, hd, hle⟩ := hc.advances (advances_exec _ ops)
  exact store_of_covered (c := d) ⟨hkey ▸ hd, le_trans hseq hle⟩

theorem checkpoint_store_safe_again :
    let p : CheckpointPayload := ⟨"orders", 1, "a1", "r1", "topic:0", "", 7, "", "s7", "", 0⟩
    let q : CheckpointPayload := ⟨"orders", 1, "a2", "r2", "topic:0", "", 8, "", "s8", "", 1⟩
    let t := Run.exec step (commitAtomicCheckpoint empty "c1" p).2 [.commit "c2" q]
    (commitAtomicCheckpoint t "c3" p).2 = t :=
  (checkpoint_store_safe empty
    [.commit "c2" ⟨"orders", 1, "a2", "r2", "topic:0", "", 8, "", "s8", "", 1⟩]).2.2 "c1"
    ⟨"orders", 1, "a1", "r1", "topic:0", "", 7, "", "s7", "", 0⟩ ⟨false, "c1", 1⟩
    (by decide +kernel) "c3" _ rfl (le_refl (7 : Int))

end Tram
