import Tram.Lib.Run
import Tram.FileSink.Publication

/-! # Publication goes on where it stopped -/

namespace Tram.FileSink

open List RollingWriter PublicationManifest

open Procedure (Triple)

def Holds (I : RollingWriter → Files → Prop) (w : World) : Prop := I w.writer w.files

abbrev HoldsWith (I : RollingWriter → Files → Prop) (F : Files → Prop) : World → Prop :=
  Holds fun writer files => I writer files ∧ F files

abbrev Maintains {α : Type} (I : RollingWriter → Files → Prop) (m : Procedure World Raised α) : Prop :=
  Triple (Holds I) m (fun _ => Holds I) (Holds I)

section

variable {b : Backend} {I E : RollingWriter → Files → Prop}

section

variable (hE : ∀ writer files, I writer files → E writer files)
include hE

theorem call_spec (op : Op) : Triple (Holds I) (b.call op) (fun _ => Holds I) (Holds E) := by
  intro w hw
  unfold Backend.call
  cases b.fails w.clock op
  · exact hw
  · exact hE _ _ hw

theorem existsAt_spec (path : FilePath) : Triple (Holds I) (b.existsAt path)
    (fun found => HoldsWith I fun files => (files.lookup path).isSome = found) (Holds E) :=
  .bind (call_spec hE .existsAt) fun _ => .get_bind fun _ hI => .pure fun _ hw => by
    subst hw
    exact ⟨hI, rfl⟩

theorem fsync_spec (path : FilePath) : Triple (Holds I) (b.fsync path) (fun _ => Holds I) (Holds E) := by
  refine .bind (call_spec hE .fsync) fun _ => .get_bind fun w hI => ?_
  rintro _ rfl
  split_ifs
  · exact hI
  · exact hE _ _ hI

theorem replace_moves {tempPath finalPath : FilePath} {bytes : Bytes} {J : RollingWriter → Files → Prop}
    (htemp : ∀ writer files, I writer files → files.lookup tempPath = some bytes)
    (hmove : ∀ writer files, I writer files → J writer ((files.erase tempPath).insert finalPath bytes)) :
    Triple (Holds I) (b.replace tempPath finalPath) (fun _ => Holds J) (Holds E) := by
  refine .bind (call_spec hE .replace) fun _ => .get_bind fun w hI => ?_
  rintro _ rfl
  simp only [htemp _ _ hI]
  split_ifs
  · exact hE _ _ hI
  · exact hmove _ _ hI

end

theorem call_keeps (op : Op) : Maintains I (b.call op) :=
  call_spec (fun _ _ h => h) op

end

/-- Where the staged bytes of a target are that is not confirmed. -/
def Files.Staged (files : Files) (target : StagedFileTarget) (bytes : Bytes) : Prop :=
  files.lookup target.tempPath = some bytes ∨
    files.lookup target.tempPath = none ∧ files.lookup target.finalPath = some bytes

section

variable {target : StagedFileTarget} {bytes : Bytes} {I : RollingWriter → Files → Prop}

def Moved (target : StagedFileTarget) (bytes : Bytes) (files : Files) : Prop :=
  files.lookup target.tempPath = none ∧ files.lookup target.finalPath = some bytes

variable (b : Backend) (hne : target.tempPath ≠ target.finalPath)
  (hmove : ∀ writer files, I writer files → files.lookup target.tempPath = some bytes →
    I writer ((files.erase target.tempPath).insert target.finalPath bytes))

include hne hmove in
theorem publish_temp : Triple (HoldsWith I (·.lookup target.tempPath = some bytes))
    (do
      b.fsync target.tempPath
      b.replace target.tempPath target.finalPath
      b.fsyncDir target.finalPath)
    (fun _ => HoldsWith I (Moved target bytes)) (HoldsWith I (·.Staged target bytes)) :=
  .bind (fsync_spec (fun _ _ h => ⟨h.1, .inl h.2⟩) _) fun _ =>
    .bind (replace_moves (fun _ _ h => ⟨h.1, .inl h.2⟩) (fun _ _ h => h.2) fun writer files h =>
      ⟨hmove writer files h.1 h.2, by simp [hne], by simp⟩) fun _ =>
        call_spec (fun _ _ h => ⟨h.1, .inr h.2⟩) .fsyncDir

theorem publish_final : Triple (HoldsWith I (Moved target bytes))
    (do
      b.fsync target.finalPath
      b.fsyncDir target.finalPath)
    (fun _ => HoldsWith I (Moved target bytes)) (HoldsWith I (·.Staged target bytes)) :=
  .bind (fsync_spec (fun _ _ h => ⟨h.1, .inr h.2⟩) _) fun _ =>
    call_spec (fun _ _ h => ⟨h.1, .inr h.2⟩) .fsyncDir

include hne hmove in
/-- A target whose bytes are staged is published, or its bytes are still there. -/
theorem publishStagedTarget_spec : Triple (HoldsWith I (·.Staged target bytes))
    (publishStagedTarget b target) (fun _ => HoldsWith I (Moved target bytes))
    (HoldsWith I (·.Staged target bytes)) := by
  refine .bind (existsAt_spec (fun _ _ h => h) target.finalPath) fun finalExists => ?_
  refine .bind (existsAt_spec (fun _ _ h => h.1) target.tempPath) fun tempExists => ?_
  cases tempExists with
  | true =>
    refine (publish_temp b hne hmove).pre fun w h => ?_
    obtain ⟨⟨⟨hI, htemp | ⟨hgone, -⟩⟩, -⟩, hsome⟩ := h
    · exact ⟨hI, htemp⟩
    · simp [hgone] at hsome
  | false =>
    cases finalExists with
    | true =>
      refine (publish_final b).pre fun w h => ?_
      obtain ⟨⟨⟨hI, htemp | hmoved⟩, -⟩, hnone⟩ := h
      · simp [htemp] at hnone
      · exact ⟨hI, hmoved⟩
    | false =>
      refine .raise fun w h => ?_
      obtain ⟨⟨⟨-, htemp | hmoved⟩, hfinal⟩, hnone⟩ := h
      · simp [htemp] at hnone
      · simp [hmoved.2] at hfinal

end

/-! ## All targets of a unit -/

structure Disjoint (targets : List StagedFileTarget) : Prop where
  finals : ∀ t ∈ targets, ∀ t' ∈ targets, t.finalPath = t'.finalPath → t = t'
  temps : ∀ t ∈ targets, ∀ t' ∈ targets, t.tempPath = t'.tempPath → t = t'
  apart : ∀ t ∈ targets, ∀ t' ∈ targets, t.finalPath ≠ t'.tempPath

/-- The manifest of the unit is pending, a confirmed target has its bytes at its final path, any
other has them staged; the targets `kept` are confirmed. -/
structure Resumable (sourceKey : SourceKey) (targets : List StagedFileTarget)
    (staged : StagedFileTarget → Bytes) (kept : List StagedFileTarget) (writer : RollingWriter)
    (files : Files) : Prop where
  manifest : ∃ confirmed, writer.manifests.lookup sourceKey = some ⟨targets, confirmed⟩
  confirmed : ∀ t ∈ targets, writer.isConfirmed sourceKey t.finalPath = true →
    files.lookup t.finalPath = some (staged t)
  pending : ∀ t ∈ targets, writer.isConfirmed sourceKey t.finalPath = false → files.Staged t (staged t)
  kept : ∀ t ∈ kept, writer.isConfirmed sourceKey t.finalPath = true

section

variable {sourceKey : SourceKey} {targets kept : List StagedFileTarget}
  {staged : StagedFileTarget → Bytes} {writer : RollingWriter} {files : Files}

theorem isConfirmed_confirm (h : ∃ m, writer.manifests.lookup sourceKey = some m)
    (finalPath path : FilePath) :
    (writer.confirm sourceKey finalPath).isConfirmed sourceKey path =
      (decide (path = finalPath) || writer.isConfirmed sourceKey path) := by
  obtain ⟨m, hm⟩ := h
  simp [isConfirmed, confirm, Dict.lookup_modify, hm]

/-- What of `Resumable` is about the targets other than `t`, which is not confirmed yet. -/
def Others (sourceKey : SourceKey) (targets : List StagedFileTarget) (staged : StagedFileTarget → Bytes)
    (t : StagedFileTarget) (writer : RollingWriter) (files : Files) : Prop :=
  (∃ confirmed, writer.manifests.lookup sourceKey = some ⟨targets, confirmed⟩) ∧
    ∀ t' ∈ targets, t' ≠ t →
      (writer.isConfirmed sourceKey t'.finalPath = true → files.lookup t'.finalPath = some (staged t')) ∧
      (writer.isConfirmed sourceKey t'.finalPath = false → files.Staged t' (staged t'))

theorem isConfirmed_confirm_mono (h : ∃ m, writer.manifests.lookup sourceKey = some m)
    (finalPath : FilePath) {path : FilePath} (hc : writer.isConfirmed sourceKey path = true) :
    (writer.confirm sourceKey finalPath).isConfirmed sourceKey path = true := by
  simp [isConfirmed_confirm h, hc]

theorem Disjoint.move (h : Disjoint targets) {t : StagedFileTarget} (ht : t ∈ targets) {bytes : Bytes}
    (hothers : Others sourceKey targets staged t writer files) :
    Others sourceKey targets staged t writer ((files.erase t.tempPath).insert t.finalPath bytes) := by
  refine ⟨hothers.1, fun t' ht' hne => ?_⟩
  have hfinal : ((files.erase t.tempPath).insert t.finalPath bytes).lookup t'.finalPath =
      files.lookup t'.finalPath := by
    rw [AList.lookup_insert_ne fun he => hne (h.finals t' ht' t ht he),
      AList.lookup_erase_ne (h.apart t' ht' t ht)]
  have htemp : ((files.erase t.tempPath).insert t.finalPath bytes).lookup t'.tempPath =
      files.lookup t'.tempPath := by
    rw [AList.lookup_insert_ne (h.apart t ht t' ht').symm,
      AList.lookup_erase_ne fun he => hne (h.temps t' ht' t ht he)]
  simpa only [Files.Staged, hfinal, htemp] using hothers.2 t' ht' hne

theorem Others.of_resumable (h : Resumable sourceKey targets staged kept writer files)
    (t : StagedFileTarget) :
    Others sourceKey targets staged t writer files :=
  ⟨h.manifest, fun t' ht' _ => ⟨h.confirmed t' ht', h.pending t' ht'⟩⟩

section

variable {t : StagedFileTarget} (h : Others sourceKey targets staged t writer files)
  (hkept : ∀ t ∈ kept, writer.isConfirmed sourceKey t.finalPath = true)
include h hkept

theorem Others.resumable (hno : writer.isConfirmed sourceKey t.finalPath = false)
    (hstaged : files.Staged t (staged t)) : Resumable sourceKey targets staged kept writer files := by
  refine ⟨h.1, fun t' ht' hc => ?_, fun t' ht' hc => ?_, hkept⟩
  · by_cases he : t' = t
    · subst he
      simp [hno] at hc
    · exact (h.2 t' ht' he).1 hc
  · by_cases he : t' = t
    · exact he ▸ hstaged
    · exact (h.2 t' ht' he).2 hc

theorem Others.confirm (hd : Disjoint targets) (ht : t ∈ targets)
    (hfinal : files.lookup t.finalPath = some (staged t)) :
    Resumable sourceKey targets staged kept (writer.confirm sourceKey t.finalPath) files := by
  obtain ⟨⟨confirmed, hm⟩, hothers⟩ := h
  refine ⟨⟨t.finalPath :: confirmed, by simp [RollingWriter.confirm, Dict.lookup_modify, hm]⟩,
    fun t' ht' hc => ?_, fun t' ht' hc => ?_,
    fun t' ht' => isConfirmed_confirm_mono ⟨_, hm⟩ _ (hkept t' ht')⟩ <;>
  rw [isConfirmed_confirm ⟨_, hm⟩] at hc <;>
  by_cases he : t' = t
  · exact he ▸ hfinal
  · have hpath : t'.finalPath ≠ t.finalPath := fun hp => he (hd.finals t' ht' t ht hp)
    exact (hothers t' ht' he).1 (by simpa [hpath] using hc)
  · simp [he] at hc
  · have hpath : t'.finalPath ≠ t.finalPath := fun hp => he (hd.finals t' ht' t ht hp)
    exact (hothers t' ht' he).2 (by simpa [hpath] using hc)

end

theorem Resumable.mono {kept' : List StagedFileTarget}
    (h : Resumable sourceKey targets staged kept writer files) (hsub : kept' ⊆ kept) :
    Resumable sourceKey targets staged kept' writer files :=
  ⟨h.manifest, h.confirmed, h.pending, fun t ht => h.kept t (hsub ht)⟩

theorem Resumable.keep (h : Resumable sourceKey targets staged kept writer files) {t : StagedFileTarget}
    (hc : writer.isConfirmed sourceKey t.finalPath = true) :
    Resumable sourceKey targets staged (kept ++ [t]) writer files := by
  exact ⟨h.manifest, h.confirmed, h.pending, forall_mem_concat h.kept hc⟩

variable (staged) in
theorem publishTargets_spec (b : Backend) (hd : Disjoint targets) {rest : List StagedFileTarget}
    (hrest : ∀ t ∈ rest, t ∈ targets) (kept : List StagedFileTarget) :
    Triple (Holds (Resumable sourceKey targets staged kept)) (publishTargets b sourceKey rest)
      (fun _ => Holds (Resumable sourceKey targets staged (kept ++ rest)))
      (Holds (Resumable sourceKey targets staged kept)) := by
  induction rest generalizing kept with
  | nil => exact .pure fun w h => by rwa [append_nil]
  | cons t rest ih =>
    have ht := hrest t mem_cons_self
    have htail : Triple (Holds (Resumable sourceKey targets staged (kept ++ [t])))
        (publishTargets b sourceKey rest)
        (fun _ => Holds (Resumable sourceKey targets staged (kept ++ t :: rest)))
        (Holds (Resumable sourceKey targets staged kept)) := by
      refine (ih (fun t' ht' => hrest t' (mem_cons_of_mem _ ht')) (kept ++ [t])).consequence
        (fun _ h => h) (fun _ _ h => ?_) fun _ h => h.mono (subset_append_left _ _)
      rwa [append_assoc] at h
    refine .get_bind fun w hres => ?_
    split_ifs with hc
    · refine htail.pre ?_
      rintro _ rfl
      exact hres.keep hc
    · have hno : w.writer.isConfirmed sourceKey t.finalPath = false := by simpa using hc
      refine .bind (Triple.mapError _ ((publishStagedTarget_spec b (hd.apart t ht t ht).symm
        fun writer files h _ => ⟨hd.move ht h.1, h.2⟩ : Triple (HoldsWith (fun writer files =>
            Others sourceKey targets staged t writer files ∧
            writer.isConfirmed sourceKey t.finalPath = false ∧
            ∀ t' ∈ kept, writer.isConfirmed sourceKey t'.finalPath = true)
          (·.Staged t (staged t))) _ _ _).consequence ?_ (fun _ _ h => h) ?_)) fun _ => ?_
      · rintro _ rfl
        exact ⟨⟨.of_resumable hres t, hno, hres.kept⟩, hres.pending t ht hno⟩
      · exact fun w' h => h.1.1.resumable h.1.2.2 h.1.2.1 h.2
      · refine .bind (R := fun _ => Holds (Resumable sourceKey targets staged (kept ++ [t])))
          (.modify fun w' h => ?_) fun _ => htail
        obtain ⟨⟨hothers, -, hkept⟩, hmoved⟩ := h
        refine (hothers.confirm hkept hd ht hmoved.2).keep ?_
        obtain ⟨confirmed, hm⟩ := hothers.1
        simp [isConfirmed_confirm ⟨_, hm⟩]

/-- The manifest of the unit is gone, and every target has its bytes at its final path. -/
structure Published (sourceKey : SourceKey) (targets : List StagedFileTarget)
    (staged : StagedFileTarget → Bytes) (writer : RollingWriter) (files : Files) : Prop where
  manifest : writer.manifests.lookup sourceKey = none
  finals : ∀ t ∈ targets, files.lookup t.finalPath = some (staged t)

@[simp] theorem manifests_clearUnitBookkeeping (writer : RollingWriter) (m : PublicationManifest) :
    (writer.clearUnitBookkeeping m).manifests = writer.manifests := by
  unfold clearUnitBookkeeping
  induction m.targets generalizing writer with
  | nil => rfl
  | cons t targets ih => exact ih _

theorem Resumable.settle (h : Resumable sourceKey targets staged (kept ++ targets) writer files) :
    Published sourceKey targets staged (writer.settle sourceKey) files := by
  obtain ⟨confirmed, hm⟩ := h.manifest
  have hall := fun t ht => h.kept t (mem_append_right kept ht)
  have hcomplete : complete ⟨targets, confirmed⟩ = true := by
    simp only [complete, all_eq_true]
    intro t ht
    simpa [isConfirmed, hm] using hall t ht
  refine ⟨?_, fun t ht => h.confirmed t ht (hall t ht)⟩
  simp [RollingWriter.settle, hm, hcomplete]

theorem publishSource_resumable (b : Backend) (hd : Disjoint targets) :
    Triple (Holds (Resumable sourceKey targets staged kept)) (publishSource b sourceKey)
      (fun _ => Holds (Published sourceKey targets staged))
      (Holds (Resumable sourceKey targets staged kept)) := by
  refine .get_bind fun w hres => ?_
  rintro _ rfl
  obtain ⟨confirmed, hm⟩ := hres.manifest
  simp only [hm]
  have hrun := Triple.bind (publishTargets_spec staged b hd (fun t ht => ht) kept)
    fun _ => Triple.modify (ε := Raised) (E := Holds (Resumable sourceKey targets staged kept))
      (Q := fun _ => Holds (Published sourceKey targets staged))
      (f := fun w : World => { w with writer := w.writer.settle sourceKey })
      fun w h => h.settle
  exact hrun w hres

theorem publishSource_published (b : Backend) {w : World}
    (h : Holds (Published sourceKey targets staged) w) : publishSource b sourceKey w = (.ok (), w) :=
  publishSource_none h.manifest

end

/-! ## Attempts -/

def attempts (b : Backend) (sourceKey : SourceKey) (w : World) (n : Nat) : World :=
  Run.exec (fun w _ => (publishSource b sourceKey w).2) w (replicate n ())

/-- The target is confirmed, or the whole manifest was and is gone. -/
def World.Confirmed (w : World) (sourceKey : SourceKey) (finalPath : FilePath) : Prop :=
  ∀ manifest, w.writer.manifests.lookup sourceKey = some manifest → finalPath ∈ manifest.confirmed

variable {runId : String}

theorem tempPath_inj {p q : FilePath} (h : tempPath p runId = tempPath q runId) : p = q := by
  obtain ⟨parent, name⟩ := p
  obtain ⟨parent', name'⟩ := q
  simp only [tempPath, FilePath.mk.injEq] at h ⊢
  refine ⟨h.1, String.toList_inj.mp ?_⟩
  simpa using congrArg String.toList h.2

theorem disjoint_of_tempPath {targets : List StagedFileTarget}
    (htemp : ∀ t ∈ targets, t.tempPath = tempPath t.finalPath runId)
    (hfinal : (targets.map (·.finalPath)).Nodup)
    (hapart : ∀ t ∈ targets, ∀ t' ∈ targets, t.finalPath ≠ t'.tempPath) : Disjoint targets := by
  have hinj : ∀ t ∈ targets, ∀ t' ∈ targets, t.finalPath = t'.finalPath → t = t' :=
    fun t ht t' ht' he => inj_on_of_nodup_map hfinal ht ht' he
  refine ⟨hinj, fun t ht t' ht' he => hinj t ht t' ht' ?_, hapart⟩
  rw [htemp t ht, htemp t' ht'] at he
  exact tempPath_inj he

section

variable {b : Backend} {sourceKey : SourceKey} {targets kept : List StagedFileTarget}
  {staged : StagedFileTarget → Bytes} {w : World}

def Pending (sourceKey : SourceKey) (targets : List StagedFileTarget)
    (staged : StagedFileTarget → Bytes) (kept : List StagedFileTarget) (w : World) : Prop :=
  Holds (Resumable sourceKey targets staged kept) w ∨ Holds (Published sourceKey targets staged) w

section

variable (hd : Disjoint targets) (h : Pending sourceKey targets staged kept w)
include hd h

theorem Pending.attempt :
    Pending sourceKey targets staged kept (publishSource b sourceKey w).2 ∧
      ((publishSource b sourceKey w).1 = .ok () →
        Holds (Published sourceKey targets staged) (publishSource b sourceKey w).2) := by
  rcases h with h | h
  · have hspec := publishSource_resumable b hd w h
    cases hrun : publishSource b sourceKey w with
    | mk r t =>
      rw [hrun] at hspec
      cases r with
      | ok u => exact ⟨.inr hspec, fun _ => hspec⟩
      | error e => exact ⟨.inl hspec, nofun⟩
  · rw [publishSource_published b h]
    exact ⟨.inr h, fun _ => h⟩

theorem Pending.attempts (n : Nat) :
    Pending sourceKey targets staged kept (attempts b sourceKey w n) :=
  Run.exec_invariant (fun _ _ hw => (hw.attempt hd).1) h _

end

section

variable (h : Pending sourceKey targets staged kept w) {t : StagedFileTarget}
include h

theorem Pending.final_kept (ht : t ∈ targets) (hk : t ∈ kept) :
    w.files.lookup t.finalPath = some (staged t) := by
  rcases h with h | h
  · exact h.confirmed t ht (h.kept t hk)
  · exact h.finals t ht

theorem Pending.keep (hc : w.Confirmed sourceKey t.finalPath) : Pending sourceKey targets staged [t] w := by
  refine h.imp_left fun h => (h.keep ?_).mono (subset_append_right kept [t])
  obtain ⟨confirmed, hm⟩ := h.manifest
  simpa [isConfirmed, hm] using hc _ hm

theorem Pending.staged_or_moved (ht : t ∈ targets) (hc : ¬ w.Confirmed sourceKey t.finalPath) :
    w.files.lookup t.tempPath = some (staged t) ∨ w.files.lookup t.finalPath = some (staged t) := by
  rcases h with h | h
  · obtain ⟨confirmed, hm⟩ := h.manifest
    have hno : w.writer.isConfirmed sourceKey t.finalPath = false := by
      rw [Bool.eq_false_iff]
      intro htrue
      refine hc fun manifest hm' => ?_
      obtain rfl := Option.mem_unique hm hm'
      simpa [isConfirmed, hm] using htrue
    exact (h.pending t ht hno).imp_right (·.2)
  · exact .inr (h.finals t ht)

end

end

/-- Over any number of attempts and under any pattern of failures: the file of a confirmed target
does not change, an attempt that returns leaves at every final path what was staged for it, and the
staged bytes of a target that is not confirmed are at its temporary or at its final path. -/
theorem publication_resumes (b : Backend) (sourceKey : SourceKey) (runId : String) (w : World)
    (targets : List StagedFileTarget)
    (hmanifest : w.writer.manifests.lookup sourceKey = some ⟨targets, []⟩)
    (htemp : ∀ t ∈ targets, t.tempPath = tempPath t.finalPath runId)
    (hstaged : ∀ t ∈ targets, (w.files.lookup t.tempPath).isSome)
    (hfinal : (targets.map (·.finalPath)).Nodup)
    (hapart : ∀ t ∈ targets, ∀ t' ∈ targets, t.finalPath ≠ t'.tempPath) (n : Nat) :
    let before := attempts b sourceKey w n
    (∀ t ∈ targets, before.Confirmed sourceKey t.finalPath → ∀ k,
      (attempts b sourceKey before k).files.lookup t.finalPath = before.files.lookup t.finalPath) ∧
    ((publishSource b sourceKey before).1 = .ok () → ∀ t ∈ targets,
      (publishSource b sourceKey before).2.files.lookup t.finalPath = w.files.lookup t.tempPath) ∧
    (∀ t ∈ targets, ¬ before.Confirmed sourceKey t.finalPath →
      before.files.lookup t.tempPath = w.files.lookup t.tempPath ∨
        before.files.lookup t.finalPath = w.files.lookup t.tempPath) := by
  have hd := disjoint_of_tempPath htemp hfinal hapart
  set staged : StagedFileTarget → Bytes := fun t => (w.files.lookup t.tempPath).getD [] with hdef
  have hbytes : ∀ t ∈ targets, w.files.lookup t.tempPath = some (staged t) := fun t ht => by
    obtain ⟨bytes, hb⟩ := Option.isSome_iff_exists.mp (hstaged t ht)
    simp [hdef, hb]
  have hstart : Pending sourceKey targets staged [] w := by
    refine .inl ⟨⟨[], hmanifest⟩, fun t _ hc => ?_, fun t ht _ => .inl (hbytes t ht), by simp⟩
    simp [isConfirmed, hmanifest] at hc
  intro before
  have hbefore : Pending sourceKey targets staged [] before := hstart.attempts hd n
  refine ⟨fun t ht hc k => ?_, fun hok t ht => ?_, fun t ht hc => ?_⟩
  · have hkept := hbefore.keep hc
    rw [hkept.final_kept ht mem_cons_self,
      (hkept.attempts hd k).final_kept ht mem_cons_self]
  · rw [hbytes t ht]
    exact ((hbefore.attempt hd).2 hok).finals t ht
  · rw [hbytes t ht]
    exact hbefore.staged_or_moved ht hc

def stagedTarget (finalPath : FilePath) : StagedFileTarget := ⟨[], tempPath finalPath "r", finalPath⟩

def stagedWorld (finalPaths : List FilePath) : World where
  writer := { new with
    manifests := (∅ : Dict SourceKey PublicationManifest).insert ("", "data", "r")
      ⟨finalPaths.map stagedTarget, []⟩ }
  files := finalPaths.zipIdx.foldl
    (fun files e => files.insert (tempPath e.1 "r") [UInt8.ofNat e.2]) ∅
  clock := 0

theorem publication_resumes_after_fsync_dir :
    let b : Backend := ⟨true, fun clock op => clock = 4 && op = .fsyncDir⟩
    let w := stagedWorld [⟨"d", "a"⟩, ⟨"d", "b"⟩]
    let before := attempts b ("", "data", "r") w 1
    (publishSource b ("", "data", "r") before).1 = .ok () ∧
      (publishSource b ("", "data", "r") before).2.files.lookup ⟨"d", "a"⟩ = some [0] := by
  intro b w before
  have hok : (publishSource b ("", "data", "r") before).1 = .ok () := by decide +kernel
  have h := publication_resumes b ("", "data", "r") "r" w
    [stagedTarget ⟨"d", "a"⟩, stagedTarget ⟨"d", "b"⟩] (by decide +kernel) (by decide +kernel)
    (by decide +kernel) (by decide +kernel) (by decide +kernel) 1
  refine ⟨hok, (h.2.1 hok (stagedTarget ⟨"d", "a"⟩) mem_cons_self).trans ?_⟩
  decide +kernel

/-- A final path that is the temporary path of the next target: what was staged there is lost, and
the file published first is gone. -/
theorem final_path_is_temp_path :
    let b : Backend := ⟨true, fun _ _ => false⟩
    let w := stagedWorld [⟨"d", ".a.tram-r.tmp"⟩, ⟨"d", "a"⟩]
    (publishSource b ("", "data", "r") w).1 = .ok () ∧
      w.files.lookup (tempPath ⟨"d", "a"⟩ "r") = some [1] ∧
      (publishSource b ("", "data", "r") w).2.files.lookup ⟨"d", "a"⟩ = some [0] ∧
      (publishSource b ("", "data", "r") w).2.files.lookup ⟨"d", ".a.tram-r.tmp"⟩ = none := by
  decide +kernel

end Tram.FileSink
