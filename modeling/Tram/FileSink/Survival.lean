import Tram.FileSink.UnitNames

/-! # What was published stays

A run writes the output of several source units, in any order, and publishes each unit when it is
done. Where the parts are is known per state key, which need not tell the units apart, and is
forgotten when a unit is published: the next part of the key then has the number, and the path, of a
part that is published already, and takes its place. -/

namespace Tram.FileSink

open List Dict

structure StagedWrite (py : Platform) where
  data : Bytes
  m : Meta
  now : Time
  newline : Bytes
  ndjson : m.serializer = .ndjson newline
  staged : shouldStageFileOutput py m = true

def StagedWrite.payload {py : Platform} (op : StagedWrite py) : Bytes :=
  preparePayloadForAppend op.m.serializer true op.data

theorem StagedWrite.payload_eq {py : Platform} (op : StagedWrite py) (isNewFile : Bool) :
    preparePayloadForAppend op.m.serializer isNewFile op.data = op.payload := by
  rw [StagedWrite.payload, op.ndjson]
  rfl

theorem StagedWrite.data_eq_nil {py : Platform} {op : StagedWrite py} (h : op.payload = []) :
    op.data = [] := by
  rw [StagedWrite.payload, op.ndjson, preparePayloadForAppend] at h
  split_ifs at h with hdata
  · exact h
  · exact (append_eq_nil_iff.mp h).1

inductive UnitOp (py : Platform) where
  | write (op : StagedWrite py)
  | finalize (sourceKey : SourceKey)

namespace UnitOp

variable {py : Platform}

def chunk : UnitOp py → Option (Meta × Time)
  | .write op => some (op.m, op.now)
  | .finalize _ => none

/-- The second operation does not write to the unit that the first one finalizes. -/
def Precedes : UnitOp py → UnitOp py → Prop
  | .finalize sourceKey, .write op => sourceUnitKey py op.m ≠ sourceKey
  | _, _ => True

instance : DecidableRel (@Precedes py) := fun op op' => by
  cases op <;> cases op' <;> unfold Precedes <;> infer_instance

end UnitOp

/-- The names of the run tell its units apart, each write has something to write, no unit is written
to once it is finalized, and no file is there to begin with at the temporary path of a part, nor at
the final path one that may not be replaced. -/
structure Orderly (cfg : Config) (py : Platform) (b : Backend) (sep : Char → Bool) (files : Files)
    (ops : List (UnitOp py)) : Prop where
  tells : TellsUnits cfg py sep (ops.filterMap UnitOp.chunk)
  data : ∀ op, UnitOp.write op ∈ ops → op.data ≠ []
  once : ops.Pairwise UnitOp.Precedes
  free : ∀ c ∈ ops.filterMap UnitOp.chunk, ∀ final dest, PartOf cfg py c.1 c.2 final dest →
    files.lookup dest = none ∧ (b.overwrite = true ∨ files.lookup final = none)

/-- The world, each payload that was written with the path `write` returned, and the targets of the
units that were published. -/
structure Session where
  world : World
  log : List (FilePath × Bytes)
  published : List StagedFileTarget

namespace Session

def start (files : Files) : Session := ⟨⟨.new, files, 0⟩, [], []⟩

def writtenTo (s : Session) (path : FilePath) : Bytes := (s.log.filter (·.1 = path)).flatMap (·.2)

def AllFinalized (s : Session) : Prop := ∀ sourceKey, s.world.writer.manifests.lookup sourceKey = none

section

variable (cfg : Config) (py : Platform) (b : Backend)

def step (s : Session) : UnitOp py → Session
  | .write op =>
    match FileSink.write cfg py b op.data op.m op.now s.world with
    | (.ok (some dest), w) => { s with world := w, log := s.log ++ [(dest, op.payload)] }
    | (_, w) => { s with world := w }
  | .finalize sourceKey =>
    match finalizeSource b sourceKey true s.world with
    | (.ok (), w) => { s with
        world := w
        published := s.published ++
          ((s.world.writer.manifests.lookup sourceKey).map (·.targets)).getD [] }
    | (.error _, w) => { s with world := w }

end

end Session

/-- What was published stays published, and nothing more is written to it. -/
def Session.Keeps (s s' : Session) : Prop :=
  ∀ t ∈ s.published, t ∈ s'.published ∧ s'.writtenTo t.tempPath = s.writtenTo t.tempPath

theorem Session.Keeps.refl (s : Session) (w : World) : s.Keeps { s with world := w } :=
  fun _ ht => ⟨ht, rfl⟩

theorem Session.Keeps.trans {s₁ s₂ s₃ : Session} (h : s₁.Keeps s₂) (h' : s₂.Keeps s₃) : s₁.Keeps s₃ :=
  fun t ht => ⟨(h' t (h t ht).1).1, ((h' t (h t ht).1).2).trans (h t ht).2⟩

/-! ## The invariant -/

def unitTargets (pending : List (SourceKey × StagedFileTarget)) (sourceKey : SourceKey) :
    List StagedFileTarget :=
  (pending.filter (·.1 = sourceKey)).map (·.2)

theorem unitTargets_concat (pending : List (SourceKey × StagedFileTarget)) (sourceKey key : SourceKey)
    (t : StagedFileTarget) :
    unitTargets (pending ++ [(sourceKey, t)]) key =
      if key = sourceKey then unitTargets pending key ++ [t] else unitTargets pending key := by
  unfold unitTargets
  split_ifs with h
  · simp [h]
  · simp [Ne.symm h]

variable {sourceKey : SourceKey}

theorem mem_unitTargets {pending : List (SourceKey × StagedFileTarget)} {t : StagedFileTarget} :
    t ∈ unitTargets pending sourceKey ↔ (sourceKey, t) ∈ pending := by
  simp [unitTargets]

/-- The targets of the run are apart, those that are published have their bytes at the final path,
the others at the temporary one, and only these are written to. -/
structure Intact (b : Backend) (s : Session) (pending : List (SourceKey × StagedFileTarget)) : Prop where
  apart : (s.published ++ pending.map (·.2)).Pairwise Apart
  proper : ∀ t ∈ s.published ++ pending.map (·.2), t.finalPath ≠ t.tempPath
  manifests : ∀ key, s.world.writer.manifests.lookup key =
    if unitTargets pending key = [] then none else some ⟨unitTargets pending key, []⟩
  published : ∀ t ∈ s.published, s.world.files.lookup t.finalPath = some (s.writtenTo t.tempPath)
  staged : ∀ e ∈ pending, s.world.files.lookup e.2.tempPath = some (s.writtenTo e.2.tempPath)
  free : ∀ e ∈ pending, b.overwrite = true ∨ s.world.files.lookup e.2.finalPath = none
  logged : ∀ e ∈ s.log, ∃ t ∈ s.published ++ pending.map (·.2), t.tempPath = e.1
  current : ∀ key path, s.world.writer.currentPaths.lookup key = some path →
    ∃ e ∈ pending, e.2.tempPath = path ∧ e.2.stateKey = key

namespace Intact

variable {cfg : Config} {py : Platform} {b : Backend} {s : Session}
  {pending : List (SourceKey × StagedFileTarget)}

variable {t t' new : StagedFileTarget} {e : SourceKey × StagedFileTarget} {w : World}

theorem start (files : Files) : Intact b (Session.start files) [] where
  apart := .nil
  proper := by simp [Session.start]
  manifests _ := rfl
  published := by simp [Session.start]
  staged := by simp
  free := by simp
  logged := by simp [Session.start]
  current := nofun

theorem mem_published (ht : t ∈ s.published) :
    t ∈ s.published ++ pending.map (·.2) := mem_append_left _ ht

theorem mem_pending (he : e ∈ pending) :
    e.2 ∈ s.published ++ pending.map (·.2) := mem_append_right _ (mem_map_of_mem he)

theorem writtenTo_log_append (w : World) (dest path : FilePath) (payload : Bytes) :
    Session.writtenTo { s with world := w, log := s.log ++ [(dest, payload)] } path =
      if path = dest then s.writtenTo path ++ payload else s.writtenTo path := by
  unfold Session.writtenTo
  split_ifs with h
  · subst h
    simp
  · simp [Ne.symm h]

structure Fresh (py : Platform) (b : Backend) (s : Session) (pending : List (SourceKey × StagedFileTarget))
    (new : StagedFileTarget) : Prop where
  temp : s.world.files.lookup new.tempPath = none
  final : b.overwrite = true ∨ s.world.files.lookup new.finalPath = none
  unused : ∀ t ∈ s.published ++ pending.map (·.2), Apart t new ∧ ∀ path ∈ [t.finalPath, t.tempPath],
    Backend.isStaleTemp py new.finalPath new.tempPath path = false

theorem Fresh.kept (h : Fresh py b s pending new) (ht : t ∈ s.published ++ pending.map (·.2))
    {path : FilePath}
    (hpath : path ∈ [t.finalPath, t.tempPath]) (m : Meta) (now : Time) (data : Bytes) :
    (s.world.opened cfg py m now data new.finalPath new.tempPath).files.lookup path =
      s.world.files.lookup path :=
  lookup_files_opened fun _ => (h.unused t ht).2 path hpath

def otherTargets (pending : List (SourceKey × StagedFileTarget)) (sourceKey : SourceKey) :
    List (SourceKey × StagedFileTarget) :=
  pending.filter (·.1 ≠ sourceKey)

theorem targets_perm (s : Session) (pending : List (SourceKey × StagedFileTarget)) (sourceKey : SourceKey) :
    Perm (s.published ++ pending.map (·.2))
      (s.published ++ unitTargets pending sourceKey ++ (otherTargets pending sourceKey).map (·.2)) := by
  rw [append_assoc, unitTargets, otherTargets, ← map_append]
  refine Perm.append_left _ (Perm.map _ ?_)
  simpa using (filter_append_perm (fun e => decide (e.1 = sourceKey)) pending).symm

theorem unitTargets_otherTargets (pending : List (SourceKey × StagedFileTarget)) (sourceKey key : SourceKey) :
    unitTargets (otherTargets pending sourceKey) key =
      if key = sourceKey then [] else unitTargets pending key := by
  unfold unitTargets otherTargets
  rw [filter_filter]
  split_ifs with h
  · subst h
    simp
  · congr 1
    refine filter_congr fun e _ => ?_
    by_cases he : e.1 = key
    · simp [he, h]
    · simp [he]

variable (h : Intact b s pending)
include h

theorem final_ne_temp (ht : t ∈ s.published ++ pending.map (·.2))
    (ht' : t' ∈ s.published ++ pending.map (·.2)) : t.finalPath ≠ t'.tempPath := by
  have : Std.Symm fun t t' : StagedFileTarget =>
      t.finalPath ≠ t'.tempPath ∧ t'.finalPath ≠ t.tempPath := ⟨fun _ _ h => h.symm⟩
  have hpair : (s.published ++ pending.map (·.2)).Pairwise fun t t' : StagedFileTarget =>
      t.finalPath ≠ t'.tempPath ∧ t'.finalPath ≠ t.tempPath :=
    h.apart.imp fun h => ⟨h.final_temp, h.temp_final.symm⟩
  exact (hpair.forall_of_forall (fun t ht => ⟨h.proper t ht, h.proper t ht⟩) ht ht').1

theorem published_apart_pending (ht : t ∈ s.published) (he : e ∈ pending) :
    Apart t e.2 :=
  (pairwise_append.mp h.apart).2.2 t ht e.2 (mem_map_of_mem he)

/-! ## Writes -/

theorem unwritten (hw : Unwritten s.world w) :
    Intact b { s with world := w } pending where
  __ := h
  manifests key := by rw [hw.manifests]; exact h.manifests key
  published t ht := by rw [hw.files]; exact h.published t ht
  staged e he := by rw [hw.files]; exact h.staged e he
  free e he := by rw [hw.files]; exact h.free e he
  current key path hp := h.current key path (hw.currentPaths key path hp)

variable (cfg py) in
theorem appended (he : e ∈ pending) (m : Meta) (payload : Bytes)
    (clock : Nat) :
    Intact b { s with
      world := World.appended cfg py { s.world with clock } m e.2.tempPath payload
      log := s.log ++ [(e.2.tempPath, payload)] } pending where
  __ := h
  published t ht := by
    have hapart := h.published_apart_pending ht he
    rw [writtenTo_log_append, if_neg hapart.temps, World.appended, lookup_insert_ite,
      if_neg hapart.final_temp]
    exact h.published t ht
  staged e' he' := by
    rw [writtenTo_log_append]
    simp only [World.appended, lookup_insert_ite]
    split_ifs with hpath
    · rw [hpath, h.staged e he, Option.getD_some]
    · exact h.staged e' he'
  free e' he' := by
    refine (h.free e' he').imp_right fun hnone => ?_
    rw [World.appended, lookup_insert_ite, if_neg (h.final_ne_temp (mem_pending he') (mem_pending he))]
    exact hnone
  logged := forall_mem_concat h.logged ⟨e.2, mem_pending he, rfl⟩

omit h in
theorem keeps {dest : FilePath} {payload : Bytes}
    (h : Intact b { s with world := w, log := s.log ++ [(dest, payload)] } pending)
    (hdest : ∃ e ∈ pending, e.2.tempPath = dest) :
    s.Keeps { s with world := w, log := s.log ++ [(dest, payload)] } := by
  intro t ht
  obtain ⟨e, he, rfl⟩ := hdest
  exact ⟨ht, by rw [writtenTo_log_append, if_neg (h.published_apart_pending ht he).temps]⟩

theorem manifests_opened (hf : Fresh py b s pending new) {m : Meta}
    (hkey : new.stateKey = fileStateKey py cfg.filenameTemplate m)
    (hstage : shouldStageFileOutput py m = true) (now : Time) (data : Bytes) (key : SourceKey) :
    let pending' := pending ++ [(sourceUnitKey py m, new)]
    (s.world.writer.opened cfg py m now data new.finalPath new.tempPath).manifests.lookup key =
      if unitTargets pending' key = [] then none else some ⟨unitTargets pending' key, []⟩ := by
  intro pending'
  have hunused : ((s.world.writer.manifests.lookup (sourceUnitKey py m)).getD ⟨[], []⟩) =
      ⟨unitTargets pending (sourceUnitKey py m), []⟩ := by
    rw [h.manifests]
    split_ifs with hnil
    · simp [hnil]
    · rfl
  have hnew : (unitTargets pending (sourceUnitKey py m)).any (fun existing =>
      existing.tempPath = new.tempPath ∧ existing.finalPath = new.finalPath) = false := by
    refine any_eq_false.mpr fun t ht => ?_
    have hne := (hf.unused _ (mem_pending (mem_unitTargets.mp ht))).1.finals
    simpa using fun _ => hne
  rw [RollingWriter.opened]
  simp only [← hkey, hstage, if_true, RollingWriter.addStagedTarget, manifests_rolled, lookup_insert_ite,
    hunused, PublicationManifest.addTarget, hnew, pending', unitTargets_concat, Bool.false_eq_true, if_false]
  by_cases hkey : key = sourceUnitKey py m
  · simp [hkey]
  · simp only [if_neg hkey]
    exact h.manifests key

variable (cfg) in
theorem opened (hf : Fresh py b s pending new) {m : Meta}
    (hkey : new.stateKey = fileStateKey py cfg.filenameTemplate m) (hproper : new.finalPath ≠ new.tempPath)
    (hstage : shouldStageFileOutput py m = true) (now : Time) (data payload : Bytes) :
    Intact b { s with
      world := (s.world.opened cfg py m now data new.finalPath new.tempPath).appended cfg py m
        new.tempPath payload
      log := s.log ++ [(new.tempPath, payload)] } (pending ++ [(sourceUnitKey py m, new)]) := by
  have hapart : ∀ t ∈ s.published ++ pending.map (·.2), Apart t new := fun t ht => (hf.unused t ht).1
  have hempty : s.writtenTo new.tempPath = [] := by
    refine flatMap_eq_nil_iff.mpr fun e he => ?_
    obtain ⟨t, ht, htemp⟩ := h.logged e (mem_of_mem_filter he)
    exact absurd (htemp.trans (by simpa using of_mem_filter he)) (hapart t ht).temps
  refine ⟨?_, ?_, h.manifests_opened hf hkey hstage now data, fun t ht => ?_,
    forall_mem_concat (fun e he => ?_) ?_, forall_mem_concat (fun e he => ?_) ?_,
    forall_mem_concat (fun e he => ?_) ⟨_, mem_pending (mem_append_right _ mem_cons_self), rfl⟩,
    fun key path hp => ?_⟩
  · rw [map_append, ← append_assoc]
    exact pairwise_append.mpr ⟨h.apart, pairwise_singleton _ _, fun t ht u hu => by
      rw [mem_singleton.mp hu]
      exact hapart t ht⟩
  · rw [map_append, ← append_assoc]
    exact forall_mem_concat h.proper hproper
  · have ht' : t ∈ s.published ++ pending.map (·.2) := mem_published ht
    rw [writtenTo_log_append, if_neg (hapart t ht').temps, World.appended, lookup_insert_ite,
      if_neg (hapart t ht').final_temp, hf.kept ht' (by simp)]
    exact h.published t ht
  · have he' := mem_pending (s := s) he
    rw [writtenTo_log_append, World.appended, lookup_insert_ite, if_neg (hapart e.2 he').temps,
      if_neg (hapart e.2 he').temps, hf.kept he' (by simp)]
    exact h.staged e he
  · rw [writtenTo_log_append, World.appended, lookup_insert_ite, if_pos rfl, if_pos rfl, hempty,
      lookup_files_opened_none hf.temp]
    rfl
  · have he' := mem_pending (s := s) he
    rw [World.appended, lookup_insert_ite, if_neg (hapart e.2 he').final_temp,
      hf.kept he' (by simp)]
    exact h.free e he
  · rw [World.appended, lookup_insert_ite, if_neg hproper]
    exact hf.final.imp_right lookup_files_opened_none
  · obtain ⟨t, ht, htemp⟩ := h.logged e he
    refine ⟨t, ?_, htemp⟩
    rw [map_append, ← append_assoc]
    exact mem_append_left _ ht
  · change (s.world.writer.opened cfg py m now data new.finalPath new.tempPath).currentPaths.lookup key =
      some path at hp
    rw [currentPaths_opened] at hp
    split_ifs at hp with hkey'
    · exact ⟨_, mem_append_right _ mem_cons_self, Option.some.inj hp, hkey.trans hkey'.symm⟩
    · obtain ⟨e, he, hpath⟩ := h.current key path hp
      exact ⟨e, mem_append_left _ he, hpath⟩

/-! ## Publications -/

theorem settled (hw : Settled sourceKey ⟨unitTargets pending sourceKey, []⟩ s.world w) :
    Intact b { s with world := w, published := s.published ++ unitTargets pending sourceKey }
      (otherTargets pending sourceKey) := by
  have hperm := targets_perm s pending sourceKey
  have hapart : (s.published ++ unitTargets pending sourceKey ++
      (otherTargets pending sourceKey).map (·.2)).Pairwise Apart :=
    (hperm.pairwise_iff Apart.symm).mp h.apart
  obtain ⟨hdone, hwaiting, hbetween⟩ := pairwise_append.mp hapart
  obtain ⟨-, hunit, hbefore⟩ := pairwise_append.mp hdone
  have hother (e) (he : e ∈ otherTargets pending sourceKey) (t) (ht : t ∈ unitTargets pending sourceKey) :
      Apart t e.2 := hbetween t (mem_append_right _ ht) e.2 (mem_map_of_mem he)
  refine ⟨hapart, fun t ht => h.proper t (hperm.mem_iff.mpr ht), fun key => ?_, fun t ht => ?_,
    fun e he => ?_, fun e he => ?_, fun e he => ?_, fun key path hp => ?_⟩
  · rw [hw.manifests, unitTargets_otherTargets]
    by_cases hkey : key = sourceKey
    · simp [hkey]
    · simp only [if_neg hkey]
      exact h.manifests key
  · rw [hw.files]
    rcases mem_append.mp ht with ht | ht
    · rw [Files.lookup_foldl_moved_other _ fun t' ht' =>
        ⟨(hbefore t ht t' ht').finals, (hbefore t ht t' ht').final_temp⟩]
      exact h.published t ht
    · rw [Files.lookup_foldl_moved _ hunit ht, h.staged _ (mem_unitTargets.mp ht)]
      rfl
  · rw [hw.files, Files.lookup_foldl_moved_other _ fun t ht =>
      ⟨(hother e he t ht).final_temp.symm, (hother e he t ht).temps.symm⟩]
    exact h.staged e (mem_of_mem_filter he)
  · rw [hw.files, Files.lookup_foldl_moved_other _ fun t ht =>
      ⟨(hother e he t ht).finals.symm, (hother e he t ht).temp_final.symm⟩]
    exact h.free e (mem_of_mem_filter he)
  · obtain ⟨t, ht, htemp⟩ := h.logged e he
    exact ⟨t, hperm.mem_iff.mp ht, htemp⟩
  · rw [hw.currentPaths] at hp
    split_ifs at hp with hkey
    obtain ⟨e, he, hpath, hstate⟩ := h.current key path hp
    refine ⟨e, mem_filter.mpr ⟨he, ?_⟩, hpath, hstate⟩
    -- a part of the unit itself would have been closed
    rw [decide_eq_true_eq]
    rintro rfl
    exact hkey (mem_map.mpr ⟨e.2, mem_unitTargets.mpr he, hstate⟩)

theorem pending_eq_nil (hall : s.AllFinalized) : pending = [] := by
  refine eq_nil_iff_forall_not_mem.mpr fun e he => ?_
  have hm := (h.manifests e.1).symm.trans (hall e.1)
  rw [if_neg (ne_nil_of_mem (mem_unitTargets.mpr he))] at hm
  cases hm

theorem eq_of_tempPath (ht : t ∈ s.published) (ht' : t' ∈ s.published)
    (he : t.tempPath = t'.tempPath) : t = t' := by
  have hnodup : (s.published.map (·.tempPath)).Nodup :=
    pairwise_map.mpr ((pairwise_append.mp h.apart).1.imp fun h => h.temps)
  exact inj_on_of_nodup_map hnodup ht ht' he

end Intact

/-- Each target is a part of a chunk of the run: a published one of a unit that is finalized, a waiting
one of its own unit, with a number that the counter of its key has reached. Other paths have only
the files that were there to begin with. -/
structure Numbered (cfg : Config) (py : Platform) (files : Files) (chunks : List (Meta × Time))
    (done : List (UnitOp py)) (s : Session) (pending : List (SourceKey × StagedFileTarget)) : Prop where
  published : ∀ t ∈ s.published, ∃ c ∈ chunks, ∃ k, PartAt cfg py c k t ∧
    UnitOp.finalize (sourceUnitKey py c.1) ∈ done
  waiting : ∀ e ∈ pending, ∃ c ∈ chunks, ∃ k, PartAt cfg py c k e.2 ∧ sourceUnitKey py c.1 = e.1 ∧
    k ≤ s.world.writer.counter e.2.stateKey
  untouched : ∀ p, files.lookup p = none →
    (∀ t ∈ s.published ++ pending.map (·.2), p ≠ t.finalPath ∧ p ≠ t.tempPath) →
      s.world.files.lookup p = none

theorem partAt_newPart {cfg : Config} {py : Platform} {writer : RollingWriter} {m : Meta}
    {now : Time} {data : Bytes}
    {path dest : FilePath} (h : newPart cfg py writer m now data = some (path, dest))
    (hstage : shouldStageFileOutput py m = true) :
    PartAt cfg py (m, now) (nextIndex cfg py writer m)
      ⟨fileStateKey py cfg.filenameTemplate m, dest, path⟩ := by
  obtain ⟨-, hfinal, hdest⟩ := newPart_eq_some h
  unfold nextFinal at hfinal
  split_ifs at hfinal with hcap
  exact ⟨rfl, Nat.le_add_left 1 _, Nat.le_of_not_lt hcap, hfinal, hdest, destFor_staged hdest hstage⟩

namespace Numbered

open Intact

variable {cfg : Config} {py : Platform} {b : Backend} {sep : Char → Bool} {files : Files}
  {chunks : List (Meta × Time)} {done : List (UnitOp py)} {s : Session}
  {pending : List (SourceKey × StagedFileTarget)} {c : Meta × Time} {new : StagedFileTarget} {w : World}

theorem start (files : Files) : Numbered cfg py files chunks [] (.start files) [] :=
  ⟨by simp [Session.start], by simp, fun _ hp _ => hp⟩

variable (h : Numbered cfg py files chunks done s pending)
include h

theorem later (op : UnitOp py) : Numbered cfg py files chunks (done ++ [op]) s pending where
  __ := h
  published t ht := by
    obtain ⟨c, hc, k, hpart, hdone⟩ := h.published t ht
    exact ⟨c, hc, k, hpart, mem_append_left _ hdone⟩

theorem unwritten (hw : Unwritten s.world w) :
    Numbered cfg py files chunks done { s with world := w } pending where
  __ := h
  waiting e he := by
    obtain ⟨c, hc, k, hpart, hunit, hk⟩ := h.waiting e he
    exact ⟨c, hc, k, hpart, hunit, hk.trans (hw.counters _)⟩
  untouched p hp hne := by rw [hw.files]; exact h.untouched p hp hne

theorem appended {e : SourceKey × StagedFileTarget} (he : e ∈ pending) (m : Meta) (payload : Bytes)
    (clock : Nat) :
    Numbered cfg py files chunks done { s with
      world := World.appended cfg py { s.world with clock } m e.2.tempPath payload
      log := s.log ++ [(e.2.tempPath, payload)] } pending where
  __ := h
  untouched p hp hne := by
    rw [World.appended, AList.lookup_insert_ne (hne e.2 (mem_pending (s := s) he)).2]
    exact h.untouched p hp hne

theorem opened (hc : c ∈ chunks) (hnew : PartAt cfg py c (nextIndex cfg py s.world.writer c.1) new)
    (data payload : Bytes) :
    Numbered cfg py files chunks done { s with
      world := (s.world.opened cfg py c.1 c.2 data new.finalPath new.tempPath).appended cfg py c.1
        new.tempPath
        payload
      log := s.log ++ [(new.tempPath, payload)] } (pending ++ [(sourceUnitKey py c.1, new)]) where
  published := h.published
  waiting := by
    refine forall_mem_concat (fun e he => ?_) ⟨c, hc, _, hnew, rfl, ?_⟩
    · obtain ⟨c, hc, k, hpart, hunit, hk⟩ := h.waiting e he
      exact ⟨c, hc, k, hpart, hunit, hk.trans (counter_le_opened _ new.finalPath new.tempPath _)⟩
    · rw [hnew.key]
      exact (counter_opened _ new.finalPath new.tempPath).ge
  untouched p hp hne := by
    rw [map_append, ← append_assoc] at hne
    have hlast := hne new (mem_append_right _ (by simp))
    rw [World.appended, AList.lookup_insert_ne hlast.2]
    exact lookup_files_opened_none (h.untouched p hp fun t ht => hne t (mem_append_left _ ht))

theorem fresh (htells : TellsUnits cfg py sep chunks) (hjoin : py.KeepsNames) (hglob : py.GlobsNames)
    (hc : c ∈ chunks) (hopen : UnitOp.finalize (sourceUnitKey py c.1) ∉ done)
    (hnew : PartAt cfg py c (nextIndex cfg py s.world.writer c.1) new)
    (hfree : files.lookup new.tempPath = none ∧ (b.overwrite = true ∨ files.lookup new.finalPath = none)) :
    Fresh py b s pending new := by
  have hunused : ∀ t ∈ s.published ++ pending.map (·.2), Apart t new ∧ ∀ path ∈ [t.finalPath, t.tempPath],
      Backend.isStaleTemp py new.finalPath new.tempPath path = false := by
    intro t ht
    rcases mem_append.mp ht with ht | ht
    · obtain ⟨c', hc', k, hpart, hdone⟩ := h.published t ht
      refine htells.apart hjoin hc' hc hpart hnew hglob fun hkey => absurd ?_ hopen
      rw [← htells.told c' hc' c hc (by rw [← hpart.key, hkey, hnew.key])]
      exact hdone
    · obtain ⟨e, he, rfl⟩ := mem_map.mp ht
      obtain ⟨c', hc', k, hpart, -, hk⟩ := h.waiting e he
      refine htells.apart hjoin hc' hc hpart hnew hglob fun hkey heq => ?_
      rw [hkey, hnew.key, heq] at hk
      exact absurd hk (Nat.not_succ_le_self _)
  refine ⟨h.untouched _ hfree.1 fun t ht => ?_, hfree.2.imp_right fun hf => h.untouched _ hf fun t ht => ?_,
    hunused⟩
  · exact ⟨(hunused t ht).1.final_temp.symm, (hunused t ht).1.temps.symm⟩
  · exact ⟨(hunused t ht).1.finals.symm, (hunused t ht).1.temp_final.symm⟩

theorem settled (htells : TellsUnits cfg py sep chunks)
    (hw : Settled sourceKey ⟨unitTargets pending sourceKey, []⟩ s.world w) :
    Numbered cfg py files chunks (done ++ [.finalize sourceKey])
      { s with world := w, published := s.published ++ unitTargets pending sourceKey }
      (otherTargets pending sourceKey) where
  published t ht := by
    rcases mem_append.mp ht with ht | ht
    · exact (h.later _).published t ht
    · obtain ⟨c, hc, k, hpart, hunit, -⟩ := h.waiting _ (mem_unitTargets.mp ht)
      exact ⟨c, hc, k, hpart, mem_append_right _ (by simp [hunit])⟩
  waiting e he := by
    obtain ⟨c, hc, k, hpart, hunit, hk⟩ := h.waiting e (mem_of_mem_filter he)
    refine ⟨c, hc, k, hpart, hunit, ?_⟩
    rw [hw.counters]
    · exact hk
    · intro hmem
      obtain ⟨t, ht, hkey⟩ := mem_map.mp hmem
      obtain ⟨c', hc', k', hpart', hunit', -⟩ := h.waiting _ (mem_unitTargets.mp ht)
      have hsame := htells.told c' hc' c hc (by rw [← hpart'.key, hkey, hpart.key])
      exact absurd (hunit.symm.trans (hsame.symm.trans hunit')) (by simpa using (mem_filter.mp he).2)
  untouched p hp hne := by
    rw [hw.files, Files.lookup_foldl_moved_other _ fun t ht =>
      hne t (mem_append_left _ (mem_append_right _ ht))]
    exact h.untouched p hp fun t ht => hne t ((targets_perm s pending sourceKey).mem_iff.mp ht)

end Numbered

/-! ## Runs -/

section

variable {cfg : Config} {py : Platform} {b : Backend} {sep : Char → Bool} {files : Files}
  {all done rest : List (UnitOp py)} {s : Session} {pending : List (SourceKey × StagedFileTarget)}

variable (hmode : cfg.fileMode = .append) (hsound : ∀ n op, b.fails n op = false) (hjoin : py.KeepsNames)
  (hglob : py.GlobsNames) (horderly : Orderly cfg py b sep files all) (h : Intact b s pending)
  (hn : Numbered cfg py files (all.filterMap UnitOp.chunk) done s pending)

include hmode hsound hjoin hglob horderly h hn in
theorem Intact.write {op : StagedWrite py} (hall : all = done ++ .write op :: rest) :
    ∃ pending', Intact b (s.step cfg py b (.write op)) pending' ∧
      Numbered cfg py files (all.filterMap UnitOp.chunk) (done ++ [.write op]) (s.step cfg py b (.write op))
        pending' ∧ s.Keeps (s.step cfg py b (.write op)) := by
  have hmem : UnitOp.write op ∈ all := by simp [hall]
  have hc : (op.m, op.now) ∈ all.filterMap UnitOp.chunk := mem_filterMap.mpr ⟨_, hmem, rfl⟩
  have hout := write_outcome py b op.m op.now op.data hmode s.world
  dsimp only [Session.step]
  cases hrun : FileSink.write cfg py b op.data op.m op.now s.world with
  | mk r w =>
    rw [hrun] at hout
    cases hout with
    | raised hw => exact ⟨pending, h.unwritten hw, (hn.later _).unwritten hw, .refl s _⟩
    | failed hw hfails => exact absurd (hfails.symm.trans (hsound _ _)) (by simp)
    | empty hw hpayload =>
      exact absurd (StagedWrite.data_eq_nil ((op.payload_eq _).symm.trans hpayload)) (horderly.data op hmem)
    | @written dest isNewFile w' hw hpayload hfails =>
      rw [op.payload_eq]
      cases hw with
      | current hopen =>
        obtain ⟨state, -, hp⟩ := lookup_of_openPath hopen
        obtain ⟨e, he, rfl, -⟩ := h.current _ _ hp
        have h' := h.appended cfg py he op.m op.payload (s.world.clock + 1)
        exact ⟨pending, h', (hn.later _).appended he op.m op.payload _, h'.keeps ⟨e, he, rfl⟩⟩
      | @new path _ hpart =>
        have hnew := partAt_newPart hpart op.staged
        have hunit : UnitOp.finalize (sourceUnitKey py op.m) ∉ done := fun hdone => by
          have hpair := horderly.once
          rw [hall] at hpair
          exact (pairwise_append.mp hpair).2.2 _ hdone _ mem_cons_self rfl
        have hfresh := hn.fresh horderly.tells hjoin hglob hc hunit hnew
          (horderly.free _ hc path dest ⟨_, hnew.pos, hnew.le, hnew.final, hnew.dest⟩)
        have hproper : path ≠ dest := fun he => tempPath_ne path (stagingRun op.m)
          (hnew.temp.symm.trans he.symm)
        have h' := h.opened cfg hfresh rfl hproper op.staged op.now op.data op.payload
        exact ⟨_, h', (hn.later _).opened hc hnew op.data op.payload,
          h'.keeps ⟨_, mem_append_right _ mem_cons_self, rfl⟩⟩

include hsound horderly h hn in
theorem Intact.finalize (sourceKey : SourceKey) :
    ∃ pending', Intact b (s.step cfg py b (.finalize sourceKey)) pending' ∧
      Numbered cfg py files (all.filterMap UnitOp.chunk) (done ++ [.finalize sourceKey])
        (s.step cfg py b (.finalize sourceKey)) pending' ∧
          s.Keeps (s.step cfg py b (.finalize sourceKey)) := by
  dsimp only [Session.step]
  cases hm : s.world.writer.manifests.lookup sourceKey with
  | none =>
    have hrun : finalizeSource b sourceKey true s.world = (.ok (), s.world) := publishSource_none hm
    rw [hrun]
    simp only [Option.map_none, Option.getD_none, append_nil]
    exact ⟨pending, h, hn.later _, .refl s s.world⟩
  | some manifest =>
    have hmanifest := h.manifests sourceKey
    rw [hm] at hmanifest
    split_ifs at hmanifest
    cases hmanifest
    have hmem : ∀ t ∈ unitTargets pending sourceKey, (sourceKey, t) ∈ pending :=
      fun t ht => mem_unitTargets.mp ht
    have hpair : (unitTargets pending sourceKey).Pairwise Apart :=
      (pairwise_append.mp h.apart).2.1.sublist (filter_sublist.map _)
    obtain ⟨w, hrun, hw⟩ := finalizeSource_sound hsound hm hpair
      (fun t ht => by rw [h.staged _ (hmem t ht)]; rfl) (fun t ht => h.free _ (hmem t ht)) rfl
    rw [hrun]
    exact ⟨_, h.settled hw, hn.settled horderly.tells hw, fun t ht => ⟨mem_append_left _ ht, rfl⟩⟩

include hmode hsound hjoin hglob horderly h hn in
theorem Intact.run {ops : List (UnitOp py)} (hall : all = done ++ (ops ++ rest)) :
    ∃ pending', Intact b (Run.exec (Session.step cfg py b) s ops) pending' ∧
      Numbered cfg py files (all.filterMap UnitOp.chunk) (done ++ ops)
        (Run.exec (Session.step cfg py b) s ops) pending' ∧
      s.Keeps (Run.exec (Session.step cfg py b) s ops) := by
  induction ops generalizing s pending done with
  | nil => exact ⟨pending, h, by simpa using hn, .refl s s.world⟩
  | cons op ops ih =>
    obtain ⟨pending₁, h₁, hn₁, hkeeps₁⟩ : ∃ pending', Intact b (s.step cfg py b op) pending' ∧
        Numbered cfg py files (all.filterMap UnitOp.chunk) (done ++ [op]) (s.step cfg py b op) pending' ∧
        s.Keeps (s.step cfg py b op) := by
      cases op with
      | write op => exact write hmode hsound hjoin hglob horderly h hn hall
      | finalize sourceKey => exact finalize hsound horderly h hn sourceKey
    obtain ⟨pending₂, h₂, hn₂, hkeeps₂⟩ := ih h₁ hn₁ (by simpa using hall)
    exact ⟨pending₂, h₂, by simpa using hn₂, hkeeps₁.trans hkeeps₂⟩

end

/-- In every orderly run, whatever its order of writes and publications, a file that was published does
not change any more. Each published file holds what was written to its target, no two targets have
one final path, and when every unit is finalized each payload was written to one published target. -/
theorem published_output_survives (cfg : Config) (py : Platform) (b : Backend) (sep : Char → Bool)
    (hmode : cfg.fileMode = .append) (hsound : ∀ n op, b.fails n op = false) (hjoin : py.KeepsNames)
    (hglob : py.GlobsNames) (files : Files) (before later : List (UnitOp py))
    (hops : Orderly cfg py b sep files (before ++ later)) :
    let s := Run.exec (Session.step cfg py b) (.start files) before
    let s' := Run.exec (Session.step cfg py b) s later
    (∀ t ∈ s.published, s'.world.files.lookup t.finalPath = s.world.files.lookup t.finalPath) ∧
    (∀ t ∈ s'.published, s'.world.files.lookup t.finalPath = some (s'.writtenTo t.tempPath)) ∧
    (s'.published.map (·.finalPath)).Nodup ∧
    (s'.AllFinalized → ∀ e ∈ s'.log, ∃! t, t ∈ s'.published ∧ t.tempPath = e.1) := by
  intro s s'
  obtain ⟨pending, h, hn, -⟩ := Intact.run hmode hsound hjoin hglob hops (.start files) (.start files)
    (show before ++ later = [] ++ (before ++ later) from rfl)
  obtain ⟨pending', h', -, hkeeps⟩ := Intact.run hmode hsound hjoin hglob hops h hn
    (show before ++ later = ([] ++ before) ++ (later ++ []) by simp)
  have hapart := (pairwise_append.mp h'.apart).1
  refine ⟨fun t ht => ?_, h'.published, ?_, fun hall e he => ?_⟩
  · rw [h'.published t (hkeeps t ht).1, (hkeeps t ht).2, h.published t ht]
  · exact pairwise_map.mpr (hapart.imp fun h => h.finals)
  · obtain ⟨t, ht, htemp⟩ := h'.logged e he
    have hnone : pending' = [] := h'.pending_eq_nil hall
    simp only [hnone, map_nil, append_nil] at ht
    refine ⟨t, ⟨ht, htemp⟩, fun u hu => ?_⟩
    exact h'.eq_of_tempPath hu.1 ht (hu.2.trans htemp.symm)

def oneLine (ofB : Bool) (byte : UInt8) : StagedWrite plainPlatform where
  data := [byte]
  m := oneRecord (if ofB then "b" else "a") true (.ndjson [10])
  now := 0
  newline := [10]
  ndjson := rfl
  staged := by cases ofB <;> decide +kernel

theorem plainPlatform_globsNames : plainPlatform.GlobsNames := by
  intro name other hplain hmatch
  have hfree : ∀ char ∈ '.' :: name.toList ++ ".tram-".toList, (decide (char ≠ '*')) = true := by
    intro char hchar
    refine decide_eq_true fun hstar => ?_
    subst hstar
    rcases mem_append.mp hchar with hname | htram
    · rcases mem_cons.mp hname with hdot | hname
      · cases hdot
      · exact hplain _ hname mem_cons_self
    · exact absurd htram (by decide)
  have htake : ("." ++ name ++ ".tram-*.tmp").toList.takeWhile (· ≠ '*') =
      '.' :: name.toList ++ ".tram-".toList := by
    have hsplit : ("." ++ name ++ ".tram-*.tmp").toList =
        ('.' :: name.toList ++ ".tram-".toList) ++ "*.tmp".toList := by simp
    rw [hsplit, takeWhile_append_of_pos hfree]
    simp
  exact htake ▸ (of_decide_eq_true hmatch).1

def sourceParts : Config := { numberedParts with
  filenameTemplate := [⟨"", some ⟨.sourceFilename, none, ""⟩⟩, ⟨"_", some ⟨.part, none, ""⟩⟩] }

def twoUnits : List (UnitOp plainPlatform) × List (UnitOp plainPlatform) :=
  ([.write (oneLine false 1), .write (oneLine true 2), .finalize ("", "a", "r")],
    [.write (oneLine true 3), .finalize ("", "b", "r")])

theorem orderly_twoUnits :
    Orderly sourceParts plainPlatform ⟨true, fun _ _ => false⟩ (· = '_') ∅ (twoUnits.1 ++ twoUnits.2) where
  tells :=
    { spaced := ⟨.inr (by decide), True.intro⟩
      literals := by decide
      plain := by decide
      values := fun c hc k hk piece hpiece => by
        rw [← all_iff_forall_prop]
        revert c k piece
        decide +kernel
      visible := by decide +kernel
      runs := by decide +kernel
      asIs := by decide
      counted := by decide
      told := by decide +kernel
      unmarked := fun c hc k hk name hname => by
        refine ⟨?_, all_iff_forall_prop.mp ?_⟩ <;> revert c k name <;> decide +kernel }
  data op hop := by
    simp only [twoUnits, cons_append, nil_append, mem_cons, UnitOp.write.injEq, reduceCtorEq,
      or_false, false_or, not_mem_nil] at hop
    rcases hop with rfl | rfl | rfl <;> exact cons_ne_nil _ _
  once := by decide +kernel
  free _ _ _ _ _ := ⟨rfl, .inl rfl⟩

theorem published_output_survives_two_units :
    let s := Run.exec (Session.step sourceParts plainPlatform ⟨true, fun _ _ => false⟩) (.start ∅) twoUnits.1
    let s' := Run.exec (Session.step sourceParts plainPlatform ⟨true, fun _ _ => false⟩) s twoUnits.2
    s.published.length = 1 ∧ s'.published.length = 2 ∧
      (∀ t ∈ s.published, s'.world.files.lookup t.finalPath = s.world.files.lookup t.finalPath) ∧
      ∀ t ∈ s'.published, s'.world.files.lookup t.finalPath = some (s'.writtenTo t.tempPath) := by
  have h := published_output_survives sourceParts plainPlatform ⟨true, fun _ _ => false⟩ (· = '_') rfl
    (fun _ _ => rfl) (fun _ _ => rfl) plainPlatform_globsNames ∅ twoUnits.1 twoUnits.2 orderly_twoUnits
  exact ⟨by decide +kernel, by decide +kernel, h.1, h.2.1⟩

/-- Two units one after the other, with a template that does not tell them apart: the second is
published in the place of the first. -/
theorem next_unit_replaces_published :
    let first : List (UnitOp plainPlatform) := [.write (oneLine false 1), .finalize ("", "a", "r")]
    let second : List (UnitOp plainPlatform) := [.write (oneLine true 2), .finalize ("", "b", "r")]
    let s := Run.exec (Session.step numberedParts plainPlatform ⟨true, fun _ _ => false⟩) (.start ∅) first
    let s' := Run.exec (Session.step numberedParts plainPlatform ⟨true, fun _ _ => false⟩) s second
    s.world.files.lookup ⟨"d", "out_1"⟩ = some [1, 10] ∧ s'.log.map (·.2) = [[1, 10], [2, 10]] ∧
      s'.world.writer.manifests.keys = [] ∧ s'.world.files.keys = [⟨"d", "out_1"⟩] ∧
      s'.world.files.lookup ⟨"d", "out_1"⟩ = some [2, 10] := by
  decide +kernel

end Tram.FileSink
