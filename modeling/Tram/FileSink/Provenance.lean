import Tram.FileSink.SoundPublish

/-! # Where the paths of a writer come from

Every path a rolling writer remembers was rendered for a chunk it was given: the paths of its open
parts, and those of the files it has staged. A call changes only the files at paths it takes from
there or renders itself. -/

namespace Tram.FileSink

open List Option
open Procedure (Triple bind_run_error bind_run_ok)

/-- A call to a writer. The commit barrier comes with the order in which it takes the units. -/
inductive Call where
  | write (data : Bytes) (m : Meta) (now : Time)
  | finalizeSource (sourceKey : SourceKey) (success : Bool)
  | publishAll (order : List SourceKey)

section

variable (cfg : Config) (py : Platform) (b : Backend)

/-- The first loop of `publish_all` -/
def publishSources : List SourceKey → Action Unit
  | [] => pure ()
  | sourceKey :: order => do
    publishSource b sourceKey
    publishSources order

/-- The second loop of `publish_all` -/
def syncPaths : List FilePath → Action Unit
  | [] => pure ()
  | path :: paths => do
    b.fsync path
    b.fsyncDir path
    syncPaths paths

def publishAll (order : List SourceKey) : Action Unit := do
  publishSources b order
  let w ← .get
  syncPaths b (w.writer.currentPaths.entries.map (·.2))

/-- The world after a call; what a call raises is left to its caller. -/
def World.called (w : World) : Call → World
  | .write data m now => (write cfg py b data m now w).2
  | .finalizeSource sourceKey success => (finalizeSource b sourceKey success w).2
  | .publishAll order => (publishAll b order w).2

end

/-! ## What a write can do -/

section

variable (cfg : Config) (py : Platform)

/-- A part of a chunk's key: where it is published, and where it is written. -/
def PartOf (m : Meta) (now : Time) (final dest : FilePath) : Prop :=
  ∃ partIndex, 1 ≤ partIndex ∧ partIndex ≤ cfg.maxIndex ∧
    (renderFilename py cfg.filenameTemplate now partIndex cfg.maxIndex m).map py.joinRoot = some final ∧
    destFor py m final = some dest

/-- The path of the part a chunk is appended to, if it opens none. -/
def reusedPath (writer : RollingWriter) (m : Meta) (now : Time) (data : Bytes) : Option FilePath :=
  match cfg.fileMode with
  | .append => openPath cfg py writer m now data
  | .single => none

/-- The world once a write has chosen a new part: nothing but the part is open, a target of its unit,
or written to; the files that an earlier run has left in its place may be gone. -/
structure Touched (m : Meta) (final dest : FilePath) (w w' : World) : Prop where
  currentPaths : ∀ key path, w'.writer.currentPaths.lookup key = some path →
    w.writer.currentPaths.lookup key = some path ∨
      key = fileStateKey py cfg.filenameTemplate m ∧ path = dest
  manifests : ∀ sourceKey manifest, w'.writer.manifests.lookup sourceKey = some manifest →
    ∀ t ∈ manifest.targets,
      (∃ before, w.writer.manifests.lookup sourceKey = some before ∧ t ∈ before.targets) ∨
        t = ⟨fileStateKey py cfg.filenameTemplate m, dest, final⟩
  files : ∀ p, p ≠ dest → (shouldStageFileOutput py m = true → Backend.isStaleTemp py final dest p = false) →
    w'.files.lookup p = w.files.lookup p

/-- All a write can do, in either mode, to the paths of the writer and to the files. -/
inductive Effect (m : Meta) (now : Time) (data : Bytes) (w : World) :
    Except Raised (Option FilePath) × World → Prop
  | raised {e : Raised} {w' : World} (h : Unwritten w w') : Effect m now data w (.error e, w')
  | reused {dest : FilePath} {r : Except Raised (Option FilePath)} {w' : World}
    (hdest : reusedPath cfg py w.writer m now data = some dest)
    (hpaths : w'.writer.currentPaths = w.writer.currentPaths)
    (hmanifests : w'.writer.manifests = w.writer.manifests)
    (hfiles : ∀ p, p ≠ dest → w'.files.lookup p = w.files.lookup p)
    (hr : ∀ path, r = .ok (some path) → path = dest) : Effect m now data w (r, w')
  | opened {final dest : FilePath} {r : Except Raised (Option FilePath)} {w' : World}
    (hnone : reusedPath cfg py w.writer m now data = none)
    (hfinal : nextFinal cfg py w.writer m now = some final) (hdest : destFor py m final = some dest)
    (h : Touched cfg py m final dest w w') (hr : ∀ path, r = .ok (some path) → path = dest) :
    Effect m now data w (r, w')

end

variable {sourceKey : SourceKey} {manifest : PublicationManifest}

section

variable {cfg : Config} {py : Platform} {b : Backend} {m : Meta} {now : Time} {data : Bytes} {w w' : World}
  {final dest : FilePath} {writer : RollingWriter}

theorem partOf_nextFinal (hfinal : nextFinal cfg py w.writer m now = some final)
    (hdest : destFor py m final = some dest) : PartOf cfg py m now final dest := by
  unfold nextFinal at hfinal
  split_ifs at hfinal with hcap
  exact ⟨nextIndex cfg py w.writer m, Nat.le_add_left 1 _, Nat.le_of_not_lt hcap, hfinal, hdest⟩

theorem mem_targets_addStagedTarget {key : SourceKey} {target t : StagedFileTarget}
    (hm : (writer.addStagedTarget sourceKey target).manifests.lookup key = some manifest)
    (ht : t ∈ manifest.targets) :
    (∃ before, writer.manifests.lookup key = some before ∧ t ∈ before.targets) ∨ t = target := by
  rw [RollingWriter.addStagedTarget, Dict.lookup_insert_ite] at hm
  split_ifs at hm with hkey
  · cases hm
    subst hkey
    unfold PublicationManifest.addTarget at ht
    cases hbefore : writer.manifests.lookup key with
    | none =>
      rw [hbefore] at ht
      split_ifs at ht
      · cases ht
      · exact .inr (mem_singleton.mp ht)
    | some before =>
      rw [hbefore] at ht
      split_ifs at ht
      · exact .inl ⟨before, rfl, ht⟩
      · rcases mem_append.mp ht with ht | ht
        · exact .inl ⟨before, rfl, ht⟩
        · exact .inr (mem_singleton.mp ht)
  · exact .inl ⟨manifest, hm, ht⟩

section

variable (h : Touched cfg py m final dest w w')
include h

theorem Touched.clock (clock : Nat) : Touched cfg py m final dest w { w' with clock } := { h with }

theorem Touched.insert (bytes : Bytes) (clock : Nat) :
    Touched cfg py m final dest w ⟨w'.writer, w'.files.insert dest bytes, clock⟩ :=
  ⟨h.currentPaths, h.manifests, fun p hp hstale => (AList.lookup_insert_ne hp).trans (h.files p hp hstale)⟩

theorem Touched.openPart (state : FilePartState) :
    Touched cfg py m final dest w
      { w' with writer := w'.writer.openPart (fileStateKey py cfg.filenameTemplate m) dest state } := by
  refine ⟨fun key path hpath => ?_, h.manifests, h.files⟩
  rw [RollingWriter.openPart, Dict.lookup_insert_ite] at hpath
  split_ifs at hpath with hkey
  · exact .inr ⟨hkey, (some.inj hpath).symm⟩
  · exact h.currentPaths key path hpath

end

theorem Touched.staged (hw : Unwritten w w') :
    Touched cfg py m final dest w
      (w'.staged py m (fileStateKey py cfg.filenameTemplate m) final dest) := by
  unfold World.staged
  split_ifs with hstage
  · refine ⟨fun key path hpath => .inl (hw.currentPaths key path hpath), fun sourceKey manifest hm t ht => ?_,
      fun p _ hstale => ?_⟩
    · rw [← hw.manifests]
      exact mem_targets_addStagedTarget hm ht
    · rw [← hw.files]
      refine ext fun bytes => ?_
      simp [Dict.lookup_retain_eq_some, hstale hstage]
  · exact ⟨fun key path hpath => .inl (hw.currentPaths key path hpath),
      fun sourceKey manifest hm t ht => .inl ⟨manifest, hw.manifests ▸ hm, ht⟩,
      fun p _ _ => by rw [hw.files]⟩

theorem Touched.opened_append :
    Touched cfg py m final dest w (w.opened cfg py m now data final dest) := by
  refine ⟨fun key path hpath => ?_, fun sourceKey manifest hm t ht => ?_,
    fun p _ hstale => lookup_files_opened hstale⟩
  · have hcurrent := currentPaths_opened cfg py m now data
      w.writer final dest key
    rw [World.opened, hcurrent] at hpath
    split_ifs at hpath with hkey
    · exact .inr ⟨hkey, (some.inj hpath).symm⟩
    · exact .inl hpath
  · simp only [World.opened, RollingWriter.opened] at hm
    split_ifs at hm
    · have h := mem_targets_addStagedTarget hm ht
      rwa [manifests_rolled] at h
    · rw [manifests_rolled] at hm
      exact .inl ⟨manifest, hm, ht⟩

theorem newPart_eq_some (h : newPart cfg py writer m now data = some (final, dest)) :
    openPath cfg py writer m now data = none ∧ nextFinal cfg py writer m now = some final ∧
      destFor py m final = some dest := by
  unfold newPart at h
  split at h
  · cases h
  · next hopen =>
    obtain ⟨path, hpath, h⟩ := bind_eq_some_iff.mp h
    obtain ⟨dest', hdest, h⟩ := bind_eq_some_iff.mp h
    obtain ⟨rfl, rfl⟩ := Prod.mk.inj (some.inj h)
    exact ⟨hopen, hpath, hdest⟩

theorem effect_append (hmode : cfg.fileMode = .append) (b : Backend) (m : Meta) (now : Time) (data : Bytes)
    (w : World) : Effect cfg py m now data w (write cfg py b data m now w) := by
  have hreused : reusedPath cfg py w.writer m now data = openPath cfg py w.writer m now data := by
    rw [reusedPath, hmode]
  have hout := write_outcome py b m now data hmode w
  generalize write cfg py b data m now w = result at hout
  cases hout with
  | raised h => exact .raised h
  | empty h hpayload =>
    cases h with
    | current hopen =>
      exact .reused (hreused.trans hopen) rfl rfl (fun _ _ => rfl) nofun
    | new hpart =>
      obtain ⟨hopen, hfinal, hdest⟩ := newPart_eq_some hpart
      exact .opened (hreused.trans hopen) hfinal hdest .opened_append nofun
  | failed h hfails =>
    cases h with
    | current hopen =>
      exact .reused (hreused.trans hopen) rfl rfl (fun _ _ => rfl) nofun
    | new hpart =>
      obtain ⟨hopen, hfinal, hdest⟩ := newPart_eq_some hpart
      exact .opened (hreused.trans hopen) hfinal hdest (Touched.opened_append.clock _) nofun
  | @written dest isNewFile chosen h hpayload hfails =>
    have hpath : ∀ path, (Except.ok (some dest) : Except Raised _) = .ok (some path) → path = dest :=
      fun path h => (some.inj (Except.ok.inj h)).symm
    cases h with
    | current hopen =>
      exact .reused (hreused.trans hopen) rfl rfl (fun _ hp => AList.lookup_insert_ne hp) hpath
    | @new final _ hpart =>
      obtain ⟨hopen, hfinal, hdest⟩ := newPart_eq_some hpart
      have h : Touched cfg py m final dest w (w.opened cfg py m now data final dest) := .opened_append
      exact .opened (hreused.trans hopen) hfinal hdest
        ⟨h.currentPaths, h.manifests, (h.insert _ 0).files⟩ hpath

theorem effect_of_triple {action : Action (Option FilePath)}
    (hnone : reusedPath cfg py w.writer m now data = none)
    (hfinal : nextFinal cfg py w.writer m now = some final) (hdest : destFor py m final = some dest)
    (h : Triple (Touched cfg py m final dest w) action
      (fun r w' => Touched cfg py m final dest w w' ∧ r = some dest) (Touched cfg py m final dest w))
    (hw' : Touched cfg py m final dest w w') : Effect cfg py m now data w (action w') := by
  have hrun := h w' hw'
  cases hresult : action w' with
  | mk r u =>
    rw [hresult] at hrun
    cases r with
    | ok r =>
      refine .opened hnone hfinal hdest hrun.1 fun path hpath => ?_
      rw [hrun.2] at hpath
      exact (some.inj (Except.ok.inj hpath)).symm
    | error e => exact .opened hnone hfinal hdest hrun nofun

theorem change_touches (op : Op) (f : Files → Files)
    (hf : ∀ files p, p ≠ dest → (f files).lookup p = files.lookup p) :
    Triple (Touched cfg py m final dest w) (b.change op f) (fun _ => Touched cfg py m final dest w)
      (Touched cfg py m final dest w) := by
  intro u hu
  cases hfails : b.fails u.clock op with
  | true => rw [change_error f hfails]; exact hu.clock _
  | false =>
    rw [change_ok f hfails]
    exact ⟨hu.currentPaths, hu.manifests, fun p hp hstale => (hf _ p hp).trans (hu.files p hp hstale)⟩

theorem openPart_touches (state : FilePartState) :
    Triple (Touched cfg py m final dest w)
      (World.updateWriter fun writer =>
        writer.openPart (fileStateKey py cfg.filenameTemplate m) dest state)
      (fun _ => Touched cfg py m final dest w) (Touched cfg py m final dest w) :=
  .modify fun _ hu => hu.openPart state

theorem existsAt_touches (path : FilePath) :
    Triple (Touched cfg py m final dest w) (b.existsAt path) (fun _ => Touched cfg py m final dest w)
      (Touched cfg py m final dest w) := by
  refine .bind (R := fun _ => Touched cfg py m final dest w) (fun u hu => ?_) fun _ =>
    .bind (.get fun _ hu => hu) fun _ => .pure fun _ hu => hu
  unfold Backend.call
  cases b.fails u.clock .existsAt <;> exact hu.clock _

theorem effect_single (hmode : cfg.fileMode = .single) (b : Backend) (m : Meta) (now : Time) (data : Bytes)
    (w : World) : Effect cfg py m now data w (write cfg py b data m now w) := by
  have hnone : reusedPath cfg py w.writer m now data = none := by rw [reusedPath, hmode]
  unfold write
  cases hdir : b.fails w.clock .ensureDir with
  | true =>
    rw [bind_run_error (m := b.ensureDir) (call_error hdir)]
    exact .raised (.refl w _)
  | false =>
    rw [bind_run_ok (m := b.ensureDir) (call_ok hdir), hmode]
    change Effect cfg py m now data w (writeSingle cfg py b data m now { w with clock := w.clock + 1 })
    unfold writeSingle
    cases hfinal : nextFinal cfg py w.writer m now with
    | none =>
      obtain ⟨e, u, hpath, h⟩ := nextPath_error (w := { w with clock := w.clock + 1 }) hfinal
      rw [bind_run_error hpath]
      exact .raised ((Unwritten.refl w (w.clock + 1)).trans h)
    | some final =>
      rw [bind_run_ok (nextPath_ok (w := { w with clock := w.clock + 1 }) hfinal)]
      have hcounted : Unwritten w ⟨w.writer.counted (fileStateKey py cfg.filenameTemplate m)
          (nextIndex cfg py w.writer m), w.files, w.clock + 1⟩ :=
        (Unwritten.refl w (w.clock + 1)).trans (.counted _ (Nat.le_succ _))
      dsimp only
      rcases stagePath_outcome (w := ⟨w.writer.counted (fileStateKey py cfg.filenameTemplate m)
          (nextIndex cfg py w.writer m), w.files, w.clock + 1⟩)
          (fileStateKey py cfg.filenameTemplate m) final with ⟨e, u, hstage, h⟩ | ⟨dest, hdest, hstage⟩
      · rw [bind_run_error hstage]
        exact .raised (hcounted.trans h)
      · rw [bind_run_ok hstage]
        refine effect_of_triple hnone hfinal hdest ?_ (Touched.staged hcounted)
        have hinsert : ∀ (files : Files) (bytes : Bytes) (p : FilePath), p ≠ dest →
            (files.insert dest bytes).lookup p = files.lookup p :=
          fun files bytes p hp => AList.lookup_insert_ne hp
        refine .bind (existsAt_touches dest) fun existing => ?_
        split_ifs
        · exact .bind (openPart_touches _) fun _ => .pure fun _ h => ⟨h, rfl⟩
        · exact .bind (change_touches _ _ fun files p hp => hinsert files _ p hp) fun _ =>
            .bind (openPart_touches _) fun _ => .pure fun _ h => ⟨h, rfl⟩
        · exact .raise fun _ h => h
        · exact .bind (change_touches _ _ fun files p hp => hinsert files _ p hp) fun _ =>
            .bind (openPart_touches _) fun _ => .pure fun _ h => ⟨h, rfl⟩

variable (cfg py b m now data w) in
theorem write_effect : Effect cfg py m now data w (write cfg py b data m now w) := by
  cases hmode : cfg.fileMode with
  | append => exact effect_append hmode b m now data w
  | single => exact effect_single hmode b m now data w

end

/-! ## What a publication can do -/

structure Shrunk (before after : RollingWriter) : Prop where
  currentPaths : ∀ key path, after.currentPaths.lookup key = some path →
    before.currentPaths.lookup key = some path
  manifests : ∀ sourceKey manifest, after.manifests.lookup sourceKey = some manifest →
    ∃ manifest', before.manifests.lookup sourceKey = some manifest' ∧ manifest'.targets = manifest.targets

namespace Shrunk

variable {u v x : RollingWriter}

theorem refl (u : RollingWriter) : Shrunk u u := ⟨fun _ _ h => h, fun _ m h => ⟨m, h, rfl⟩⟩

theorem trans (h : Shrunk u v) (h' : Shrunk v x) : Shrunk u x := by
  refine ⟨fun k p hp => h.currentPaths k p (h'.currentPaths k p hp), fun k m hm => ?_⟩
  obtain ⟨m', hm', ht⟩ := h'.manifests k m hm
  obtain ⟨m'', hm'', ht'⟩ := h.manifests k m' hm'
  exact ⟨m'', hm'', ht'.trans ht⟩

section

variable (u : RollingWriter)

theorem confirm (sourceKey : SourceKey) (finalPath : FilePath) :
    Shrunk u (u.confirm sourceKey finalPath) :=
  ⟨fun _ _ h => h, Dict.forall_modify (fun before h => ⟨before, h, rfl⟩) fun _ m h => ⟨m, h, rfl⟩⟩

theorem eraseManifest (sourceKey : SourceKey) :
    Shrunk u { u with manifests := u.manifests.erase sourceKey } :=
  ⟨fun _ _ h => h, fun _ manifest hm => ⟨manifest, Dict.lookup_of_erase hm, rfl⟩⟩

theorem clearUnitBookkeeping (manifest : PublicationManifest) :
    Shrunk u (u.clearUnitBookkeeping manifest) := by
  refine ⟨fun key path hpath => ?_, fun key before hm => ⟨before, ?_, rfl⟩⟩
  · rw [(lookup_clearUnitBookkeeping _ _ _).1] at hpath
    split_ifs at hpath
    exact hpath
  · rwa [manifests_clearUnitBookkeeping] at hm

theorem settle (sourceKey : SourceKey) : Shrunk u (u.settle sourceKey) := by
  unfold RollingWriter.settle
  split
  · exact .refl u
  · split_ifs
    · exact (eraseManifest u sourceKey).trans (clearUnitBookkeeping _ _)
    · exact .refl u

end

end Shrunk

/-- Since `w₀` the writer has learnt no path, and no file has changed outside `H`. -/
structure Within (H : FilePath → Prop) (w₀ : World) (writer : RollingWriter) (files : Files) : Prop where
  shrunk : Shrunk w₀.writer writer
  files : ∀ p, ¬ H p → files.lookup p = w₀.files.lookup p

def Staged (H : FilePath → Prop) (writer : RollingWriter) (sourceKey : SourceKey) : Prop :=
  ∀ manifest, writer.manifests.lookup sourceKey = some manifest →
    ∀ t ∈ manifest.targets, H t.tempPath ∧ H t.finalPath

section

variable {b : Backend} {H : FilePath → Prop} {w₀ : World} {writer writer' : RollingWriter} {files : Files}

theorem Within.update (h : Within H w₀ writer files) (hs : Shrunk writer writer') :
    Within H w₀ writer' files := ⟨h.shrunk.trans hs, h.files⟩

theorem Within.targets (h : Within H w₀ writer files) (hH : Staged H w₀.writer sourceKey)
    (hm : writer.manifests.lookup sourceKey = some manifest) :
    ∀ t ∈ manifest.targets, H t.tempPath ∧ H t.finalPath := by
  obtain ⟨manifest', hm', ht⟩ := h.shrunk.manifests sourceKey manifest hm
  exact ht ▸ hH manifest' hm'

theorem replace_within {tempPath finalPath : FilePath} (htemp : H tempPath) (hfinal : H finalPath) :
    Maintains (Within H w₀) (b.replace tempPath finalPath) := by
  refine .bind (call_keeps .replace) fun _ => .get_bind fun w hw => ?_
  rintro _ rfl
  cases htaken : w.files.lookup tempPath with
  | none => exact hw
  | some bytes =>
    split_ifs
    · exact hw
    · refine ⟨hw.shrunk, fun p hp => ?_⟩
      have hne : p ≠ finalPath := fun h => hp (h ▸ hfinal)
      have hne' : p ≠ tempPath := fun h => hp (h ▸ htemp)
      exact ((AList.lookup_insert_ne hne).trans (AList.lookup_erase_ne hne')).trans (hw.files p hp)

theorem publishStagedTarget_within {t : StagedFileTarget} (ht : H t.tempPath ∧ H t.finalPath) :
    Maintains (Within H w₀) (publishStagedTarget b t) := by
  have hexists : ∀ path, Maintains (Within H w₀) (b.existsAt path) := fun path =>
    (existsAt_spec (fun _ _ h => h) path).consequence (fun _ h => h) (fun _ _ h => h.1) fun _ h => h
  refine .bind (hexists t.finalPath) fun finalExists =>
    .bind (hexists t.tempPath) fun tempExists => ?_
  split_ifs
  · exact .bind (fsync_spec (fun _ _ h => h) _) fun _ =>
      .bind (replace_within ht.1 ht.2) fun _ => call_keeps .fsyncDir
  · exact .bind (fsync_spec (fun _ _ h => h) _) fun _ => call_keeps .fsyncDir
  · exact .raise fun _ h => h

variable {targets : List StagedFileTarget}

theorem publishTargets_within (sourceKey : SourceKey)
    (ht : ∀ t ∈ targets, H t.tempPath ∧ H t.finalPath) :
    Maintains (Within H w₀) (publishTargets b sourceKey targets) := by
  induction targets with
  | nil => exact .pure fun _ h => h
  | cons t targets ih =>
    have ih := ih fun t' ht' => ht t' (mem_cons_of_mem _ ht')
    refine .bind (.get fun _ hw => hw) fun w => ?_
    split_ifs
    · exact ih
    · exact .bind (.mapError _ (publishStagedTarget_within (ht t mem_cons_self))) fun _ =>
        .bind (.modify fun _ h => h.update (.confirm _ _ _)) fun _ => ih

theorem publishSource_within (hH : Staged H w₀.writer sourceKey) :
    Maintains (Within H w₀) (publishSource b sourceKey) := by
  refine .get_bind fun w hw => ?_
  rintro _ rfl
  cases hm : w.writer.manifests.lookup sourceKey with
  | none => exact hw
  | some manifest =>
    exact Triple.bind (publishTargets_within sourceKey (hw.targets hH hm))
      (fun _ => .modify fun _ h => h.update (.settle _ _)) w hw

theorem removeStaged_within (manifest : PublicationManifest)
    (ht : ∀ t ∈ targets, H t.tempPath ∧ H t.finalPath) :
    Maintains (Within H w₀) (removeStaged b manifest targets) := by
  induction targets with
  | nil => exact .pure fun _ h => h
  | cons t targets ih =>
    intro w hw
    refine ih (fun t' ht' => ht t' (mem_cons_of_mem _ ht')) _ ?_
    split_ifs
    · exact hw
    · cases hfails : b.fails w.clock .remove with
      | true => rw [Backend.remove, change_error _ hfails]; exact hw
      | false =>
        rw [Backend.remove, change_ok _ hfails]
        refine ⟨hw.shrunk, fun p hp => ?_⟩
        have hne : p ≠ t.tempPath := fun h => hp (h ▸ (ht t mem_cons_self).1)
        exact (AList.lookup_erase_ne hne).trans (hw.files p hp)

theorem discardSource_within (hH : Staged H w₀.writer sourceKey) :
    Maintains (Within H w₀) (discardSource b sourceKey) := by
  refine .get_bind fun w hw => ?_
  rintro _ rfl
  cases hm : w.writer.manifests.lookup sourceKey with
  | none => exact hw
  | some manifest =>
    exact Triple.bind (R := fun _ => Holds (Within H w₀))
      (.modify fun _ h => h.update (.eraseManifest _ _)) (fun _ =>
        .bind (removeStaged_within manifest (hw.targets hH hm)) fun _ =>
          .modify fun _ h => h.update (.clearUnitBookkeeping _ _)) w hw

theorem finalizeSource_within (hH : Staged H w₀.writer sourceKey) (success : Bool) :
    Maintains (Within H w₀) (finalizeSource b sourceKey success) := by
  cases success with
  | true => exact publishSource_within hH
  | false => exact discardSource_within hH

theorem publishAll_within {order : List SourceKey} (hH : ∀ sourceKey ∈ order, Staged H w₀.writer sourceKey) :
    Maintains (Within H w₀) (publishAll b order) := by
  have hsources : Maintains (Within H w₀) (publishSources b order) := by
    induction order with
    | nil => exact .pure fun _ h => h
    | cons sourceKey order ih =>
      exact .bind (publishSource_within (hH sourceKey mem_cons_self)) fun _ =>
        ih fun key hkey => hH key (mem_cons_of_mem _ hkey)
  have hsync : ∀ paths, Maintains (Within H w₀) (syncPaths b paths) := by
    intro paths
    induction paths with
    | nil => exact .pure fun _ h => h
    | cons path paths ih =>
      exact .bind (fsync_spec (fun _ _ h => h) _) fun _ => .bind (call_keeps .fsyncDir) fun _ => ih
  exact .bind hsources fun _ => .bind (.get fun _ h => h) fun _ => hsync _

theorem within_of_triple {action : Action Unit}
    (h : Maintains (Within H w₀) action) :
    Within H w₀ (action w₀).2.writer (action w₀).2.files := by
  have hrun := h w₀ ⟨.refl _, fun _ _ => rfl⟩
  cases hresult : action w₀ with
  | mk r u =>
    rw [hresult] at hrun
    cases r <;> exact hrun

end

/-! ## Runs -/

/-- Every path the writer remembers stands in `Q` with its key: those of its open parts, and those of
the targets it has staged. -/
structure Named (Q : StateKey → FilePath → FilePath → Prop) (writer : RollingWriter) : Prop where
  current : ∀ key dest, writer.currentPaths.lookup key = some dest → ∃ final, Q key final dest
  staged : ∀ sourceKey manifest, writer.manifests.lookup sourceKey = some manifest →
    ∀ t ∈ manifest.targets, Q t.stateKey t.finalPath t.tempPath

section

variable {cfg : Config} {py : Platform} {b : Backend} {Q : StateKey → FilePath → FilePath → Prop}
  {data : Bytes} {w : World}

theorem Named.new : Named Q .new := ⟨fun _ _ h => by simp [RollingWriter.new] at h, fun _ _ h => by
  simp [RollingWriter.new] at h⟩

theorem Named.shrunk {u v : RollingWriter} (h : Named Q u) (hs : Shrunk u v) : Named Q v := by
  refine ⟨fun key dest hdest => h.current key dest (hs.currentPaths key dest hdest),
    fun sourceKey manifest hm => ?_⟩
  obtain ⟨manifest', hm', ht⟩ := hs.manifests sourceKey manifest hm
  exact ht ▸ h.staged sourceKey manifest' hm'

/-- The call is no write, or `Q` has every part of its chunk. -/
def Call.Names (cfg : Config) (py : Platform) (Q : StateKey → FilePath → FilePath → Prop) : Call → Prop
  | .write _ m now => ∀ final dest, PartOf cfg py m now final dest →
      Q (fileStateKey py cfg.filenameTemplate m) final dest
  | _ => True

theorem Named.effect {m : Meta} {now : Time} {result : Except Raised (Option FilePath) × World}
    (h : Named Q w.writer) (hQ : (Call.write data m now).Names cfg py Q)
    (heffect : Effect cfg py m now data w result) : Named Q result.2.writer := by
  cases heffect with
  | raised hw =>
    exact h.shrunk ⟨hw.currentPaths, fun _ manifest hm => ⟨manifest, hw.manifests ▸ hm, rfl⟩⟩
  | reused _ hpaths hmanifests =>
    exact h.shrunk ⟨fun _ _ hp => hpaths ▸ hp, fun _ manifest hm => ⟨manifest, hmanifests ▸ hm, rfl⟩⟩
  | opened _ hfinal hdest htouched =>
    have hpart := hQ _ _ (partOf_nextFinal hfinal hdest)
    refine ⟨fun key dest hp => ?_, fun sourceKey manifest hm t ht => ?_⟩
    · rcases htouched.currentPaths key dest hp with hp | ⟨rfl, rfl⟩
      · exact h.current key dest hp
      · exact ⟨_, hpart⟩
    · rcases htouched.manifests sourceKey manifest hm t ht with ⟨before, hbefore, ht⟩ | rfl
      · exact h.staged sourceKey before hbefore t ht
      · exact hpart

variable (cfg py b) in
theorem Named.called (h : Named Q w.writer) (call : Call) (hQ : call.Names cfg py Q) :
    Named Q (w.called cfg py b call).writer := by
  have hall : ∀ sourceKey, Staged (fun _ => True) w.writer sourceKey :=
    fun _ _ _ _ _ => ⟨trivial, trivial⟩
  cases call with
  | write data m now => exact h.effect hQ (write_effect cfg py b m now data w)
  | finalizeSource sourceKey success =>
    exact h.shrunk (within_of_triple (finalizeSource_within (hall sourceKey) success)).shrunk
  | publishAll order =>
    exact h.shrunk (within_of_triple (publishAll_within fun sourceKey _ => hall sourceKey)).shrunk

theorem Named.written {w' : World} {m : Meta} {now : Time} {dest : FilePath} (h : Named Q w.writer)
    (hQ : (Call.write data m now).Names cfg py Q)
    (hrun : write cfg py b data m now w = (.ok (some dest), w')) :
    ∃ final, Q (fileStateKey py cfg.filenameTemplate m) final dest := by
  have heffect := write_effect cfg py b m now data w
  rw [hrun] at heffect
  cases heffect with
  | reused hdest _ _ _ hr =>
    obtain rfl := hr dest rfl
    unfold reusedPath at hdest
    split at hdest
    · obtain ⟨-, -, hcurrent⟩ := lookup_of_openPath hdest
      exact h.current _ _ hcurrent
    · cases hdest
  | opened _ hfinal hdest _ hr =>
    obtain rfl := hr dest rfl
    exact ⟨_, hQ _ _ (partOf_nextFinal hfinal hdest)⟩

end

end Tram.FileSink
