import Tram.Persistence.Checkpoints

/-! # Chained revisions

An attempt commits one unit after another and sends, as the base of each commit, the revision the
last one returned. The reply to a fresh unit is the base plus one; the reply to a unit committed
before is the revision of that unit's own row, which other units of the pipeline may have left
behind since. -/

namespace Tram

structure CheckpointWriter where
  pipelineName : String
  generation : Int
  attemptId : String
  runId : String

/-- One commit of an attempt: the unit, and the identity the manager mints for the request. -/
structure UnitCommit where
  checkpointId : String
  sourceUnit : String
  frontier : String
  frontierSeq : Int
  sinkReceipts : String
  state : String
  configSha256 : String

def CheckpointWriter.payload (a : CheckpointWriter) (u : UnitCommit) (base : Int) :
    CheckpointPayload :=
  ⟨a.pipelineName, a.generation, a.attemptId, a.runId, u.sourceUnit, u.frontier, u.frontierSeq,
    u.sinkReceipts, u.state, u.configSha256, base⟩

def CheckpointStore.revision (s : CheckpointStore) (pipelineName : String) : Option Int :=
  (s.states.lookup pipelineName).map (·.revision)

/-- The store, and the attempt's copy of the revision. -/
structure RevisionChain where
  store : CheckpointStore
  base : Int

namespace RevisionChain

variable (a : CheckpointWriter)

def commit (c : RevisionChain) (u : UnitCommit) :
    Except CheckpointError CheckpointReply × CheckpointStore :=
  commitAtomicCheckpoint c.store u.checkpointId (a.payload u c.base)

/-- `check_unit` keeps the revision of the reply; a request that failed returned none. -/
def step (c : RevisionChain) (u : UnitCommit) : RevisionChain :=
  match c.commit a u with
  | (.ok reply, s) => ⟨s, reply.stateRevision⟩
  | (.error _, s) => ⟨s, c.base⟩

/-- The commit is not rejected as stale, and the revision it returns is the one stored. -/
def Agrees (c : RevisionChain) (u : UnitCommit) : Prop :=
  match c.commit a u with
  | (.ok reply, s) => s.revision a.pipelineName = some reply.stateRevision
  | (.error .staleStateRevision, _) => False
  | (.error .duplicateId, _) => True

instance (c : RevisionChain) (u : UnitCommit) : Decidable (c.Agrees a u) :=
  match h : c.commit a u with
  | (.ok reply, s) =>
    decidable_of_iff (s.revision a.pipelineName = some reply.stateRevision) (by simp only [Agrees, h])
  | (.error .staleStateRevision, _) => .isFalse (by simp only [Agrees, h, not_false_eq_true])
  | (.error .duplicateId, _) => .isTrue (by simp only [Agrees, h])

/-- The attempt's copy is the stored revision, 0 standing for no row, and the row is fenced by no
other generation. -/
def Based (c : RevisionChain) : Prop :=
  match c.store.states.lookup a.pipelineName with
  | none => c.base = 0
  | some t => t.revision = c.base ∧ (t.generation = none ∨ t.generation = some a.generation)

/-- If the unit was committed before, its row carries the pipeline's current revision. -/
def RepeatsCurrent (c : RevisionChain) (u : UnitCommit) : Prop :=
  ∀ row, (a.payload u c.base).Covered c.store row →
    c.store.revision a.pipelineName = some row.stateRevision

instance (c : RevisionChain) (u : UnitCommit) : Decidable (c.RepeatsCurrent a u) :=
  decidable_of_iff (∀ row ∈ c.store.checkpoints.lookup (a.payload u c.base).key,
      u.frontierSeq ≤ row.frontierSeq → c.store.revision a.pipelineName = some row.stateRevision)
    ⟨fun h row hrow => h row hrow.1 hrow.2, fun h row hrow hle => h row ⟨hrow, hle⟩⟩

/-- If the unit is fresh, the attempt's copy is the stored revision. -/
def FreshBased (c : RevisionChain) (u : UnitCommit) : Prop :=
  (a.payload u c.base).clashes c.store u.checkpointId = false →
    (a.payload u c.base).Fresh c.store → c.Based a

variable {a} {c : RevisionChain} {u : UnitCommit}

theorem not_fresh_of_covered {p : CheckpointPayload} {s : CheckpointStore} {row : Checkpoint}
    (h : p.Covered s row) : ¬ p.Fresh s :=
  fun hfresh => absurd (hfresh row h.1) (not_lt.mpr h.2)

theorem step_clashes (h : (a.payload u c.base).clashes c.store u.checkpointId = true) :
    c.step a u = c := by
  simp only [step, commit, commitAtomicCheckpoint_clashes h]

section

variable {row : Checkpoint} (h : (a.payload u c.base).Covered c.store row)
include h

theorem step_covered : c.step a u = ⟨c.store, row.stateRevision⟩ := by
  simp only [step, commit, commitAtomicCheckpoint_covered h]

theorem agrees_covered : c.Agrees a u ↔ c.store.revision a.pipelineName = some row.stateRevision := by
  simp only [Agrees, commit, commitAtomicCheckpoint_covered h]

end

theorem agrees_written (hid : (a.payload u c.base).clashes c.store u.checkpointId = false)
    (h : (a.payload u c.base).Fresh c.store) {r : Int}
    (hcas : casTransformState c.store.states (a.payload u c.base) =
      (1, c.store.states.insert a.pipelineName ((a.payload u c.base).stateRow r))) :
    (c.Agrees a u ↔ r = c.base + 1) ∧ (r = c.base + 1 → (c.step a u).Based a) := by
  obtain ⟨reply, s, hc, hreply, hs⟩ : ∃ reply s, c.commit a u = (.ok reply, s) ∧
      reply.stateRevision = c.base + 1 ∧
      s.states.lookup a.pipelineName = some ((a.payload u c.base).stateRow r) := by
    rw [commit, commitAtomicCheckpoint_fresh hid h, hcas]
    exact ⟨_, _, rfl, rfl, AList.lookup_insert _⟩
  constructor
  · simp [Agrees, hc, hreply, CheckpointStore.revision, hs, CheckpointPayload.stateRow]
  · rintro rfl
    simp [step, hc, Based, hs, CheckpointPayload.stateRow, CheckpointWriter.payload, hreply]

/-- What a fresh unit meets: a right copy is swapped and stays right; a wrong one is rejected, or
lands in an empty table under a revision that is not the one returned. -/
theorem fresh_cases (hid : (a.payload u c.base).clashes c.store u.checkpointId = false)
    (h : (a.payload u c.base).Fresh c.store) :
    (c.Based a ∧ c.Agrees a u ∧ (c.step a u).Based a) ∨ (¬ c.Based a ∧ ¬ c.Agrees a u) := by
  cases ht : c.store.states.lookup a.pipelineName with
  | none =>
    have hcas : casTransformState c.store.states (a.payload u c.base) =
        (1, c.store.states.insert a.pipelineName ((a.payload u c.base).stateRow 1)) := by
      simp only [casTransformState, CheckpointWriter.payload, ht]
    obtain ⟨hagrees, hstep⟩ := agrees_written hid h hcas
    have hbased : c.Based a ↔ c.base = 0 := by simp only [Based, ht]
    by_cases hzero : c.base = 0
    · exact .inl ⟨hbased.mpr hzero, hagrees.mpr (by omega), hstep (by omega)⟩
    · exact .inr ⟨fun hb => hzero (hbased.mp hb), fun ha => hzero (by have := hagrees.mp ha; omega)⟩
  | some t =>
    have hbased : c.Based a ↔ t.fence (a.payload u c.base) = true := by
      simp only [Based, ht, TransformState.fence, CheckpointWriter.payload]
      exact decide_eq_true_iff.symm
    by_cases hf : t.fence (a.payload u c.base) = true
    · have hrev : t.revision = c.base := (of_decide_eq_true hf).1
      have hcas : casTransformState c.store.states (a.payload u c.base) =
          (1, c.store.states.insert a.pipelineName ((a.payload u c.base).stateRow (c.base + 1))) := by
        have hlook : c.store.states.lookup (a.payload u c.base).pipelineName = some t := ht
        simp only [casTransformState, hlook, if_pos hf, hrev]
        rfl
      obtain ⟨hagrees, hstep⟩ := agrees_written hid h hcas
      exact .inl ⟨hbased.mpr hf, hagrees.mpr rfl, hstep rfl⟩
    · have hcas : casTransformState c.store.states (a.payload u c.base) = (0, c.store.states) := by
        have hlook : c.store.states.lookup (a.payload u c.base).pipelineName = some t := ht
        simp only [casTransformState, hlook, if_neg hf]
      refine .inr ⟨fun hb => hf (hbased.mp hb), ?_⟩
      simp [Agrees, commit, commitAtomicCheckpoint_fresh hid h, hcas]

theorem agrees_iff (a : CheckpointWriter) (c : RevisionChain) (u : UnitCommit) :
    c.Agrees a u ↔ c.RepeatsCurrent a u ∧ c.FreshBased a u := by
  rcases covered_or_fresh (a.payload u c.base) c.store with ⟨row, hrow⟩ | hfresh
  · rw [agrees_covered hrow]
    constructor
    · intro hcur
      refine ⟨fun row' hrow' => ?_, fun _ hf => absurd hf (not_fresh_of_covered hrow)⟩
      obtain rfl := Option.mem_unique hrow.1 hrow'.1
      exact hcur
    · exact fun h => h.1 row hrow
  · have hrepeats : c.RepeatsCurrent a u := fun row hrow => absurd hfresh (not_fresh_of_covered hrow)
    cases hid : (a.payload u c.base).clashes c.store u.checkpointId with
    | true => simp [Agrees, commit, commitAtomicCheckpoint_clashes hid, hrepeats, FreshBased, hid]
    | false =>
      rcases fresh_cases hid hfresh with ⟨hb, ha, -⟩ | ⟨hb, ha⟩
      · exact ⟨fun _ => ⟨hrepeats, fun _ _ => hb⟩, fun _ => ha⟩
      · exact ⟨fun h => absurd h ha, fun h => absurd (h.2 hid hfresh) hb⟩

theorem Based.step (hb : c.Based a) (ha : c.Agrees a u) : (c.step a u).Based a := by
  rcases covered_or_fresh (a.payload u c.base) c.store with ⟨row, hrow⟩ | hfresh
  · have hcur := (agrees_covered hrow).mp ha
    rw [step_covered hrow]
    unfold Based at hb ⊢
    rw [CheckpointStore.revision] at hcur
    cases ht : c.store.states.lookup a.pipelineName with
    | none => rw [ht] at hcur; cases hcur
    | some t =>
      simp only [ht] at hb ⊢
      simp only [ht, Option.map_some, Option.some.injEq] at hcur
      exact ⟨hcur, hb.2⟩
  · cases hid : (a.payload u c.base).clashes c.store u.checkpointId with
    | true => rw [step_clashes hid]; exact hb
    | false =>
      rcases fresh_cases hid hfresh with ⟨-, -, h⟩ | ⟨hn, -⟩
      · exact h
      · exact absurd hb hn

end RevisionChain

open RevisionChain

/-- Every revision returned is the one stored, and no commit is rejected as stale, exactly when a
unit sent again is always the one that moved the revision last, and a fresh unit is sent with the
stored revision. An attempt that starts from the stored revision meets the second by itself. -/
theorem revisions_chain (a : CheckpointWriter) (c : RevisionChain) (units : List UnitCommit) :
    (Run.AllSteps (step a) (Agrees a) c units ↔
      Run.AllSteps (step a) (fun c u => c.RepeatsCurrent a u ∧ c.FreshBased a u) c units) ∧
    (c.Based a →
      (Run.AllSteps (step a) (Agrees a) c units ↔
        Run.AllSteps (step a) (RepeatsCurrent a) c units)) := by
  constructor
  · exact Run.allSteps_iff (I := fun _ => True) (fun c u _ => agrees_iff a c u)
      (fun _ _ _ _ => True.intro) True.intro units
  · intro hb
    refine Run.allSteps_iff (I := Based a) (fun c u hb => ?_) (fun c u hb ha => hb.step ha) hb units
    rw [agrees_iff]
    exact and_iff_left fun _ _ => hb

def ordersWriter : CheckpointWriter := ⟨"orders", 1, "a1", "r1"⟩

def partitionAt (checkpointId sourceUnit : String) (offset : Int) : UnitCommit :=
  ⟨checkpointId, sourceUnit, "", offset, "", "", ""⟩

theorem revisions_chain_repeat :
    Run.AllSteps (step ordersWriter) (Agrees ordersWriter) ⟨.empty, 0⟩
      [partitionAt "c1" "topic:0" 7, partitionAt "c2" "topic:1" 4, partitionAt "c3" "topic:1" 4] := by
  exact ((revisions_chain ordersWriter ⟨.empty, 0⟩ _).2 rfl).mpr (by decide +kernel)

/-- The first of two partitions is sent again after the second: the reply is the revision of its
own row, 1, the revision stored is 2, and the next fresh unit is rejected. -/
theorem revision_left_behind :
    let units := [partitionAt "c1" "topic:0" 7, partitionAt "c2" "topic:1" 4,
      partitionAt "c3" "topic:0" 7]
    let c := Run.exec (step ordersWriter) ⟨.empty, 0⟩ units
    c.base = 1 ∧ c.store.revision "orders" = some 2 ∧
      (c.commit ordersWriter (partitionAt "c4" "topic:2" 1)).1 = .error .staleStateRevision ∧
      ¬ Run.AllSteps (step ordersWriter) (Agrees ordersWriter) ⟨.empty, 0⟩ units := by
  refine ⟨by decide +kernel, by decide +kernel, by decide +kernel, ?_⟩
  rintro ⟨-, -, h, -⟩
  exact absurd h (by decide +kernel)

end Tram
