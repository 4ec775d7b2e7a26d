import Tram.FileSink.Resume
import Tram.FileSink.Write

/-! # Publication on a backend that does not fail

Each target of a unit is moved to its final path, the manifest is dropped, and no part of the unit's
keys is open any more. -/

namespace Tram.FileSink

open List RollingWriter PublicationManifest Files
open Procedure (bind_run_ok get_run mapError)

structure Apart (t t' : StagedFileTarget) : Prop where
  finals : t.finalPath ≠ t'.finalPath
  temps : t.tempPath ≠ t'.tempPath
  final_temp : t.finalPath ≠ t'.tempPath
  temp_final : t.tempPath ≠ t'.finalPath

theorem Apart.symm {t t' : StagedFileTarget} (h : Apart t t') : Apart t' t :=
  ⟨h.finals.symm, h.temps.symm, h.temp_final.symm, h.final_temp.symm⟩

def Files.moved (files : Files) (t : StagedFileTarget) : Files :=
  (files.erase t.tempPath).insert t.finalPath ((files.lookup t.tempPath).getD [])

theorem Files.lookup_moved (files : Files) (t : StagedFileTarget) (path : FilePath) :
    (files.moved t).lookup path =
      if path = t.finalPath then some ((files.lookup t.tempPath).getD [])
      else if path = t.tempPath then none else files.lookup path := by
  rw [moved, Dict.lookup_insert_ite, Dict.lookup_erase_ite]

variable {path : FilePath}

theorem Files.lookup_moved_other (files : Files) {t : StagedFileTarget}
    (hfinal : path ≠ t.finalPath) (htemp : path ≠ t.tempPath) :
    (files.moved t).lookup path = files.lookup path := by
  rw [lookup_moved, if_neg hfinal, if_neg htemp]

variable {targets : List StagedFileTarget}

theorem Files.lookup_foldl_moved_other (files : Files)
    (h : ∀ t ∈ targets, path ≠ t.finalPath ∧ path ≠ t.tempPath) :
    (targets.foldl moved files).lookup path = files.lookup path := by
  induction targets generalizing files with
  | nil => rfl
  | cons t targets ih =>
    have ht := h t mem_cons_self
    rw [foldl_cons, ih _ fun t' ht' => h t' (mem_cons_of_mem _ ht'),
      files.lookup_moved_other ht.1 ht.2]

theorem Files.lookup_foldl_moved (files : Files) (hapart : targets.Pairwise Apart)
    {t : StagedFileTarget} (ht : t ∈ targets) :
    (targets.foldl moved files).lookup t.finalPath = some ((files.lookup t.tempPath).getD []) := by
  induction targets generalizing files with
  | nil => cases ht
  | cons u targets ih =>
    obtain ⟨hu, hrest⟩ := pairwise_cons.mp hapart
    rw [foldl_cons]
    rcases mem_cons.mp ht with rfl | ht
    · rw [lookup_foldl_moved_other _ fun t' ht' => ⟨(hu t' ht').finals, (hu t' ht').final_temp⟩,
        lookup_moved, if_pos rfl]
    · rw [ih _ hrest ht, files.lookup_moved_other (hu t ht).final_temp.symm (hu t ht).temps.symm]

section

variable {b : Backend} {w : World} {sourceKey : SourceKey} {manifest : PublicationManifest}

theorem existsAt_sound (hsound : ∀ n op, b.fails n op = false) (w : World) (path : FilePath) :
    b.existsAt path w = (.ok (w.files.lookup path).isSome, { w with clock := w.clock + 1 }) :=
  bind_run_ok (call_ok (hsound _ _)) _

theorem fsync_sound (hsound : ∀ n op, b.fails n op = false) {path : FilePath}
    (h : (w.files.lookup path).isSome) : b.fsync path w = (.ok (), { w with clock := w.clock + 1 }) := by
  rw [Backend.fsync, bind_run_ok (call_ok (hsound _ _)), bind_run_ok (get_run _), if_pos h]
  rfl

section

variable (hsound : ∀ n op, b.fails n op = false) {t : StagedFileTarget}
  (htemp : (w.files.lookup t.tempPath).isSome)
  (hfinal : b.overwrite = true ∨ w.files.lookup t.finalPath = none)
include hsound htemp hfinal

theorem replace_sound :
    b.replace t.tempPath t.finalPath w = (.ok (), ⟨w.writer, w.files.moved t, w.clock + 1⟩) := by
  obtain ⟨bytes, hbytes⟩ := Option.isSome_iff_exists.mp htemp
  have hok : ((w.files.lookup t.finalPath).isSome && !b.overwrite) = false := by
    rcases hfinal with h | h <;> simp [h]
  rw [Backend.replace, bind_run_ok (call_ok (hsound _ _)),
    bind_run_ok (get_run _)]
  simp only [hbytes, hok]
  simp [moved, hbytes, Procedure.modify]

theorem publishStagedTarget_sound :
    publishStagedTarget b t w = (.ok (), ⟨w.writer, w.files.moved t, w.clock + 5⟩) := by
  rw [publishStagedTarget, bind_run_ok (existsAt_sound hsound _ _),
    bind_run_ok (existsAt_sound hsound _ _)]
  simp only [htemp, if_true]
  rw [bind_run_ok (fsync_sound hsound (w := ⟨w.writer, w.files, w.clock + 2⟩) htemp),
    bind_run_ok (replace_sound hsound (w := ⟨w.writer, w.files, w.clock + 3⟩) htemp hfinal)]
  exact call_ok (hsound _ _)

end

theorem publishTargets_sound (hsound : ∀ n op, b.fails n op = false)
    (hmanifest : ∃ m, w.writer.manifests.lookup sourceKey = some m)
    (hapart : targets.Pairwise Apart) (htemp : ∀ t ∈ targets, (w.files.lookup t.tempPath).isSome)
    (hfinal : ∀ t ∈ targets, b.overwrite = true ∨ w.files.lookup t.finalPath = none)
    (hno : ∀ t ∈ targets, w.writer.isConfirmed sourceKey t.finalPath = false) :
    ∃ clock, publishTargets b sourceKey targets w =
      (.ok (), ⟨targets.foldl (fun writer t => writer.confirm sourceKey t.finalPath) w.writer,
        targets.foldl moved w.files, clock⟩) := by
  induction targets generalizing w with
  | nil => exact ⟨w.clock, rfl⟩
  | cons t targets ih =>
    obtain ⟨ht, hrest⟩ := pairwise_cons.mp hapart
    have hpublish := publishStagedTarget_sound hsound (htemp t mem_cons_self)
      (hfinal t mem_cons_self)
    obtain ⟨clock, hrun⟩ := ih (w := ⟨w.writer.confirm sourceKey t.finalPath, w.files.moved t, w.clock + 5⟩)
      (by
        obtain ⟨m, hm⟩ := hmanifest
        exact ⟨_, by rw [confirm, Dict.lookup_modify, if_pos rfl, hm]; rfl⟩)
      hrest
      (fun t' ht' => by
        rw [w.files.lookup_moved_other (ht t' ht').final_temp.symm (ht t' ht').temps.symm]
        exact htemp t' (mem_cons_of_mem _ ht'))
      (fun t' ht' => by
        rw [w.files.lookup_moved_other (ht t' ht').finals.symm (ht t' ht').temp_final.symm]
        exact hfinal t' (mem_cons_of_mem _ ht'))
      (fun t' ht' => by
        rw [isConfirmed_confirm hmanifest, hno t' (mem_cons_of_mem _ ht')]
        simpa using (ht t' ht').finals.symm)
    refine ⟨clock, ?_⟩
    change (if w.writer.isConfirmed sourceKey t.finalPath then _ else _ : Action Unit) w = _
    rw [hno t mem_cons_self, if_neg (by simp), bind_run_ok (t := ⟨w.writer, w.files.moved t,
      w.clock + 5⟩) (a := ()) (by rw [mapError, hpublish])]
    exact hrun

/-! ## The writer after it -/

theorem confirm_frame (targets : List StagedFileTarget) (writer : RollingWriter)
    (hm : writer.manifests.lookup sourceKey = some manifest) :
    let confirmed := targets.foldl (fun writer t => writer.confirm sourceKey t.finalPath) writer
    (confirmed.currentPaths = writer.currentPaths ∧ confirmed.partCounters = writer.partCounters) ∧
      (∀ key ≠ sourceKey, confirmed.manifests.lookup key = writer.manifests.lookup key) ∧
      ∃ finals, confirmed.manifests.lookup sourceKey = some ⟨manifest.targets, finals⟩ ∧
        (∀ path ∈ manifest.confirmed, path ∈ finals) ∧ ∀ t ∈ targets, t.finalPath ∈ finals := by
  induction targets generalizing writer manifest with
  | nil => exact ⟨⟨rfl, rfl⟩, fun _ _ => rfl, manifest.confirmed, hm, fun _ h => h, by simp⟩
  | cons t targets ih =>
    have hm' : (writer.confirm sourceKey t.finalPath).manifests.lookup sourceKey =
        some ⟨manifest.targets, t.finalPath :: manifest.confirmed⟩ := by
      rw [confirm, Dict.lookup_modify, if_pos rfl, hm]
      rfl
    obtain ⟨hpaths, hother, finals, hfinals, hkept, hall⟩ := ih _ hm'
    refine ⟨hpaths, fun key hkey => (hother key hkey).trans ?_, finals, hfinals, fun path hpath => ?_,
      forall_mem_cons.mpr ⟨hkept _ mem_cons_self, hall⟩⟩
    · rw [confirm, Dict.lookup_modify, if_neg hkey]
    · exact hkept path (mem_cons_of_mem _ hpath)

theorem lookup_clearUnitBookkeeping (manifest : PublicationManifest) (writer : RollingWriter)
    (key : StateKey) :
    (writer.clearUnitBookkeeping manifest).currentPaths.lookup key =
        (if key ∈ manifest.targets.map (·.stateKey) then none else writer.currentPaths.lookup key) ∧
      (writer.clearUnitBookkeeping manifest).partCounters.lookup key =
        if key ∈ manifest.targets.map (·.stateKey) then none else writer.partCounters.lookup key := by
  unfold clearUnitBookkeeping
  induction manifest.targets generalizing writer with
  | nil => exact ⟨rfl, rfl⟩
  | cons t targets ih =>
    rw [foldl_cons, (ih _).1, (ih _).2, Dict.lookup_erase_ite, Dict.lookup_erase_ite, map_cons]
    by_cases hkey : key = t.stateKey
    · simp [hkey]
    · simp only [mem_cons, hkey, false_or, if_false, and_self]

structure Settled (sourceKey : SourceKey) (manifest : PublicationManifest) (w w' : World) : Prop where
  files : w'.files = manifest.targets.foldl moved w.files
  manifests : ∀ key, w'.writer.manifests.lookup key =
    if key = sourceKey then none else w.writer.manifests.lookup key
  currentPaths : ∀ key, w'.writer.currentPaths.lookup key =
    if key ∈ manifest.targets.map (·.stateKey) then none else w.writer.currentPaths.lookup key
  counters : ∀ key ∉ manifest.targets.map (·.stateKey), w'.writer.counter key = w.writer.counter key

theorem finalizeSource_sound (hsound : ∀ n op, b.fails n op = false)
    (hm : w.writer.manifests.lookup sourceKey = some manifest)
    (hapart : manifest.targets.Pairwise Apart)
    (htemp : ∀ t ∈ manifest.targets, (w.files.lookup t.tempPath).isSome)
    (hfinal : ∀ t ∈ manifest.targets, b.overwrite = true ∨ w.files.lookup t.finalPath = none)
    (hno : manifest.confirmed = []) :
    ∃ w', finalizeSource b sourceKey true w = (.ok (), w') ∧ Settled sourceKey manifest w w' := by
  obtain ⟨clock, hrun⟩ := publishTargets_sound hsound ⟨manifest, hm⟩ hapart htemp hfinal
    fun t _ => by simp [isConfirmed, hm, hno]
  obtain ⟨hpaths, hother, finals, hfinals, -, hall⟩ := confirm_frame manifest.targets w.writer hm
  set confirmed := manifest.targets.foldl
    (fun writer t => writer.confirm sourceKey t.finalPath) w.writer with hconfirmed
  refine ⟨⟨confirmed.settle sourceKey, manifest.targets.foldl moved w.files, clock⟩, ?_, rfl,
    ?_, ?_, ?_⟩
  · rw [finalizeSource, if_pos rfl, publishSource, bind_run_ok (get_run w)]
    simp only [hm]
    exact bind_run_ok hrun _
  all_goals
    have hcomplete : complete ⟨manifest.targets, finals⟩ = true := by
      simpa [complete] using hall
    have hsettle : confirmed.settle sourceKey =
        { confirmed with manifests := confirmed.manifests.erase sourceKey }.clearUnitBookkeeping
          ⟨manifest.targets, finals⟩ := by
      simp [settle, hfinals, hcomplete]
    intro key
    rw [hsettle]
  · rw [manifests_clearUnitBookkeeping, Dict.lookup_erase_ite]
    split_ifs with hkey
    · rfl
    · exact hother key hkey
  · rw [(lookup_clearUnitBookkeeping _ _ key).1, hpaths.1]
  · intro hkey
    rw [counter, (lookup_clearUnitBookkeeping _ _ key).2, if_neg hkey, hpaths.2]
    rfl

end

end Tram.FileSink
