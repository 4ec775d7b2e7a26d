import Tram.FileSink.Partitions

/-! # Files under the root

The names of files are rendered from what comes from outside: the values of fields, the names of
source files. Nothing in the writer or in the backend checks them for slashes. -/

namespace Tram.FileSink

open List Option World

instance (name : String) : Decidable (IsEntry name) := decidable_of_iff' _ (isEntry_iff name)

/-- The platform of a local backend: names are joined to its root, and a pattern is matched against the
entries of a directory. -/
def Platform.onDisk (py : Platform) (root : String) : Platform :=
  { py with
    joinRoot := localJoinRoot root
    globMatch := fun pattern name => decide (IsEntry name) && py.globMatch pattern name }

def FilePath.Inside (root : String) (p : FilePath) : Prop := (PosixPath.parse root).Inside p.path

instance (root : String) (p : FilePath) : Decidable (p.Inside root) :=
  inferInstanceAs (Decidable ((PosixPath.parse root).Inside p.path))

def FilePath.IsChild (root : String) (p : FilePath) : Prop :=
  p.parent = (PosixPath.parse root).str ∧ IsEntry p.name

theorem FilePath.IsChild.inside {root : String} {p : FilePath} (h : p.IsChild root) : p.Inside root := by
  obtain ⟨parent, name⟩ := p
  obtain ⟨rfl, hname⟩ := h
  exact hname.inside root

/-! ## What a call gets at -/

section

variable (cfg : Config) (py : Platform)

def RollingWriter.stagedPaths (writer : RollingWriter) (sourceKey : SourceKey) : List FilePath :=
  match writer.manifests.lookup sourceKey with
  | none => []
  | some manifest => manifest.targets.flatMap fun t => [t.tempPath, t.finalPath]

/-- The part a chunk opens, if it does not go to an open one. -/
def openedFinal (writer : RollingWriter) (m : Meta) (now : Time) (data : Bytes) : Option FilePath :=
  match reusedPath cfg py writer m now data with
  | some _ => none
  | none => nextFinal cfg py writer m now

/-- The paths a call hands to the backend: to write to, to stage, to rename, to remove or to sync. -/
def World.handed (w : World) : Call → List FilePath
  | .write data m now =>
    (reusedPath cfg py w.writer m now data).toList ++
      (openedFinal cfg py w.writer m now data).toList.flatMap fun final =>
        final :: (destFor py m final).toList
  | .finalizeSource sourceKey _ => w.writer.stagedPaths sourceKey
  | .publishAll order =>
    order.flatMap w.writer.stagedPaths ++ w.writer.currentPaths.entries.map (·.2)

/-- What the backend may delete on its own: files beside a final path that look like its temporary
ones. -/
def World.Stale (w : World) (call : Call) (p : FilePath) : Prop :=
  match call with
  | .write data m now => ∃ final ∈ openedFinal cfg py w.writer m now data, ∃ dest ∈ destFor py m final,
      Backend.isStaleTemp py final dest p = true
  | _ => False

end

section

variable {cfg : Config} {py : Platform} {b : Backend} {w : World} {p : FilePath}

variable {call : Call} {m : Meta} {root : String} {final : FilePath}

theorem staged_stagedPaths (writer : RollingWriter) (sourceKey : SourceKey) :
    Staged (· ∈ writer.stagedPaths sourceKey) writer sourceKey := by
  intro manifest hm t ht
  simp only [RollingWriter.stagedPaths, hm]
  exact ⟨mem_flatMap.mpr ⟨t, ht, by simp⟩, mem_flatMap.mpr ⟨t, ht, by simp⟩⟩

variable (cfg py b w) in
theorem lookup_files_called (hp : p ∉ w.handed cfg py call) (hstale : ¬ w.Stale cfg py call p) :
    (w.called cfg py b call).files.lookup p = w.files.lookup p := by
  cases call with
  | write data m now =>
    have heffect := write_effect cfg py b m now data w
    change (write cfg py b data m now w).2.files.lookup p = _
    generalize write cfg py b data m now w = result at heffect
    cases heffect with
    | raised h => rw [h.files]
    | reused hdest _ _ hfiles _ =>
      refine hfiles p fun heq => hp ?_
      simp [handed, hdest, heq]
    | @opened final dest _ _ hnone hfinal hdest h _ =>
      have hopened : openedFinal cfg py w.writer m now data = some final := by rw [openedFinal, hnone, hfinal]
      refine h.files p (fun heq => hp ?_) fun _ => ?_
      · simp [handed, hopened, hdest, heq]
      · rw [← Bool.not_eq_true]
        exact fun h => hstale ⟨final, hopened, dest, hdest, h⟩
  | finalizeSource sourceKey success =>
    exact (within_of_triple (finalizeSource_within (staged_stagedPaths w.writer sourceKey)
      success)).files p hp
  | publishAll order =>
    refine (within_of_triple (H := (· ∈ order.flatMap w.writer.stagedPaths))
      (publishAll_within fun sourceKey hkey manifest hm t ht => ?_)).files p fun h => hp ?_
    · have hstaged := staged_stagedPaths w.writer sourceKey manifest hm t ht
      exact ⟨mem_flatMap.mpr ⟨sourceKey, hkey, hstaged.1⟩,
        mem_flatMap.mpr ⟨sourceKey, hkey, hstaged.2⟩⟩
    · exact mem_append_left _ h

/-! ## Confinement -/

/-- No value that is filled in has a slash, and the name is not made of dots only. -/
def Call.Tame (cfg : Config) (py : Platform) : Call → Prop
  | .write _ m now => ∀ k ≤ cfg.maxIndex,
      (∀ piece ∈ cfg.filenameTemplate, '/' ∉ (pieceText py now k cfg.maxIndex m piece).toList) ∧
      ∃ piece ∈ cfg.filenameTemplate, ∃ char ∈ piece.literalText.toList ++
        (pieceText py now k cfg.maxIndex m piece).toList, char ≠ '.'
  | _ => True

def Below (root : String) (_key : StateKey) (final dest : FilePath) : Prop :=
  final.IsChild root ∧ dest.IsChild root

theorem isEntry_renderFilename {openedAt : Time} {k maxIndex : Nat} {template : Template}
    {name : String} (hname : renderFilename py template openedAt k maxIndex m = some name)
    (hliterals : ∀ piece ∈ template, '/' ∉ piece.literalText.toList)
    (hvalues : ∀ piece ∈ template, '/' ∉ (pieceText py openedAt k maxIndex m piece).toList)
    (hdots : ∃ piece ∈ template, ∃ char ∈ piece.literalText.toList ++ (pieceText py openedAt k
      maxIndex m piece).toList, char ≠ '.') : IsEntry name := by
  have hchars := toList_renderFilename hname
  have hmem : ∀ char, char ∈ name.toList ↔ ∃ piece ∈ template, char ∈ piece.literalText.toList ++
      (pieceText py openedAt k maxIndex m piece).toList := fun char => by
    simp [hchars, Weave.weave, pieces]
  obtain ⟨piece, hpiece, char, hchar, hdot⟩ := hdots
  have hin := (hmem char).mpr ⟨piece, hpiece, hchar⟩
  refine ⟨?_, ?_, ?_, fun hslash => ?_⟩
  · rintro rfl; cases hin
  · rintro rfl; exact hdot (by simpa using hin)
  · rintro rfl; exact hdot (by simpa using hin)
  · obtain ⟨piece, hpiece, hslash⟩ := (hmem '/').mp hslash
    exact (mem_append.mp hslash).elim (hliterals piece hpiece) (hvalues piece hpiece)

theorem isChild_tempPath {runId : String} (h : final.IsChild root)
    (hok : tempPathOk final runId = true) : (tempPath final runId).IsChild root := by
  simp only [tempPathOk, Bool.and_eq_true, Bool.not_eq_true', decide_eq_true_eq] at hok
  have hlong : 3 ≤ (tempPath final runId).name.length := by
    simp only [tempPath, String.length_append]
    have : ".tram-".length = 6 := rfl
    omega
  refine ⟨h.1, ?_, ?_, ?_, by simpa using hok.2⟩
  all_goals
    intro hname
    rw [hname] at hlong
    exact absurd hlong (by decide)

theorem isChild_joinRoot {now : Time} {data : Bytes} {k : Nat}
    (hliterals : ∀ piece ∈ cfg.filenameTemplate, '/' ∉ piece.literalText.toList)
    (htame : (Call.write data m now).Tame cfg (py.onDisk root)) (hk : k ≤ cfg.maxIndex)
    (hfinal : (renderFilename (py.onDisk root) cfg.filenameTemplate now k cfg.maxIndex m).map
      (py.onDisk root).joinRoot = some final) : final.IsChild root := by
  obtain ⟨name, hname, rfl⟩ := map_eq_some_iff.mp hfinal
  have hentry := isEntry_renderFilename hname hliterals (htame k hk).1 (htame k hk).2
  change (localJoinRoot root name).IsChild root
  rw [hentry.localJoinRoot_eq]
  exact ⟨rfl, hentry⟩

theorem isChild_destFor {dest : FilePath} (h : final.IsChild root)
    (hdest : destFor py m final = some dest) : dest.IsChild root := by
  unfold destFor at hdest
  split_ifs at hdest with _ hok
  · exact some.inj hdest ▸ isChild_tempPath h hok
  · exact some.inj hdest ▸ h

section

variable (hliterals : ∀ piece ∈ cfg.filenameTemplate, '/' ∉ piece.literalText.toList)
  (htame : call.Tame cfg (py.onDisk root))
include hliterals htame

theorem Call.Tame.names : call.Names cfg (py.onDisk root) (Below root) := by
  cases call with
  | write data m now =>
    rintro final dest ⟨k, -, hk, hfinal, hdest⟩
    have hchild := isChild_joinRoot hliterals htame hk hfinal
    exact ⟨hchild, isChild_destFor hchild hdest⟩
  | finalizeSource | publishAll => exact True.intro

theorem isChild_reached (hnamed : Named (Below root) w.writer)
    (hp : p ∈ w.handed cfg (py.onDisk root) call ∨ w.Stale cfg (py.onDisk root) call p) :
    p.IsChild root := by
  have hstaged : ∀ sourceKey, p ∈ w.writer.stagedPaths sourceKey → p.IsChild root := by
    intro sourceKey hmem
    unfold RollingWriter.stagedPaths at hmem
    split at hmem
    · cases hmem
    · next manifest hm =>
      obtain ⟨t, ht, hmem⟩ := mem_flatMap.mp hmem
      have hbelow := hnamed.staged sourceKey manifest hm t ht
      rcases mem_cons.mp hmem with rfl | hmem
      · exact hbelow.2
      · exact mem_singleton.mp hmem ▸ hbelow.1
  cases call with
  | write data m now =>
    have hopened : ∀ final ∈ openedFinal cfg (py.onDisk root) w.writer m now data, final.IsChild root := by
      intro final hfinal
      unfold openedFinal nextFinal at hfinal
      split at hfinal
      · cases hfinal
      · split_ifs at hfinal with hcap
        · cases hfinal
        · exact isChild_joinRoot hliterals htame (Nat.le_of_not_lt hcap) hfinal
    rcases hp with hp | ⟨final, hfinal, dest, hdest, hstale⟩
    · rcases mem_append.mp hp with hp | hp
      · -- the open part of the key
        rw [mem_toList] at hp
        unfold reusedPath at hp
        split at hp
        · obtain ⟨-, -, hcurrent⟩ := lookup_of_openPath hp
          obtain ⟨final, hbelow⟩ := hnamed.current _ _ hcurrent
          exact hbelow.2
        · cases hp
      · obtain ⟨final, hfinal, hp⟩ := mem_flatMap.mp hp
        have hchild := hopened final (mem_toList.mp hfinal)
        rcases mem_cons.mp hp with rfl | hp
        · exact hchild
        · exact isChild_destFor hchild (mem_toList.mp hp)
    · obtain ⟨hparent, hglob, -⟩ := of_decide_eq_true hstale
      exact ⟨hparent.trans (hopened final hfinal).1, of_decide_eq_true (Bool.and_eq_true_iff.mp hglob).1⟩
  | finalizeSource sourceKey success =>
    rcases hp with hp | hp
    · exact hstaged sourceKey hp
    · cases hp
  | publishAll order =>
    rcases hp with hp | hp
    · rcases mem_append.mp hp with hp | hp
      · obtain ⟨sourceKey, -, hp⟩ := mem_flatMap.mp hp
        exact hstaged sourceKey hp
      · obtain ⟨entry, hentry, rfl⟩ := mem_map.mp hp
        obtain ⟨final, hbelow⟩ := hnamed.current entry.1 entry.2 (Dict.mem_entries.mp hentry)
        exact hbelow.2
    · cases hp

end

end

/-- Paths stay below the root of a local backend, for a template without slashes of its own, in every
run in which no value that is filled in has one: every path that a call hands to the backend leads to
something below the root, and no file outside it changes. -/
theorem paths_confined (cfg : Config) (py : Platform) (b : Backend) (root : String)
    (hliterals : ∀ piece ∈ cfg.filenameTemplate, '/' ∉ piece.literalText.toList) (calls : List Call)
    (htame : ∀ call ∈ calls, call.Tame cfg (py.onDisk root)) (files : Files) (clock : Nat) :
    Run.AllSteps (called cfg (py.onDisk root) b)
        (fun w call => ∀ p ∈ w.handed cfg (py.onDisk root) call, p.Inside root) ⟨.new, files, clock⟩ calls ∧
      ∀ p : FilePath, ¬ p.Inside root →
        (Run.exec (called cfg (py.onDisk root) b) ⟨.new, files, clock⟩ calls).files.lookup p =
          files.lookup p := by
  suffices h : ∀ w : World, Named (Below root) w.writer →
      Run.AllSteps (called cfg (py.onDisk root) b)
          (fun w call => ∀ p ∈ w.handed cfg (py.onDisk root) call, p.Inside root) w calls ∧
        ∀ p : FilePath, ¬ p.Inside root →
          (Run.exec (called cfg (py.onDisk root) b) w calls).files.lookup p = w.files.lookup p from
    h ⟨.new, files, clock⟩ Named.new
  induction calls with
  | nil => exact fun w _ => ⟨True.intro, fun _ _ => rfl⟩
  | cons call calls ih =>
    intro w hw
    have hcall := htame call mem_cons_self
    have hreached := fun {p} => isChild_reached (p := p) hliterals hcall hw
    obtain ⟨hsteps, hfiles⟩ := ih (fun c hc => htame c (mem_cons_of_mem _ hc)) _
      (hw.called cfg (py.onDisk root) b _ (hcall.names hliterals))
    refine ⟨⟨fun p hp => (hreached (.inl hp)).inside, hsteps⟩, fun p hp => (hfiles p hp).trans ?_⟩
    exact lookup_files_called cfg (py.onDisk root) b w (fun h => hp (hreached (.inl h)).inside)
      fun h => hp (hreached (.inr h)).inside

def byField : Config := { numberedParts with
  filenameTemplate := [⟨"", some ⟨.field "a", none, ""⟩⟩]
  maxRecords := none }

def fieldChunk (value : String) : Meta :=
  { oneRecord "in" true (.csv false) with fieldValue := fun _ => value }

theorem paths_confined_value :
    Run.AllSteps (called byField (plainPlatform.onDisk "out") ⟨true, fun _ _ => false⟩)
        (fun w call => ∀ p ∈ w.handed byField (plainPlatform.onDisk "out") call, p.Inside "out")
        ⟨.new, ∅, 0⟩ [.write [120] (fieldChunk "x") 0, .publishAll [("", "in", "r")]] ∧
      ∀ p : FilePath, ¬ p.Inside "out" →
        (Run.exec (called byField (plainPlatform.onDisk "out") ⟨true, fun _ _ => false⟩) ⟨.new, ∅, 0⟩
          [.write [120] (fieldChunk "x") 0, .publishAll [("", "in", "r")]]).files.lookup p = none := by
  refine paths_confined byField plainPlatform ⟨true, fun _ _ => false⟩ "out" (by decide) _ ?_ ∅ 0
  intro call hcall
  rcases mem_cons.mp hcall with rfl | hcall
  · intro k _
    exact ⟨by simp [byField, pieceText, tokenValue, fieldChunk, Value.text],
      ⟨"", some ⟨.field "a", none, ""⟩⟩, mem_cons_self, 'x', by
        simp [pieceText, tokenValue, fieldChunk, Value.text], by decide⟩
  · rw [mem_singleton.mp hcall]
    exact True.intro

/-- The template has neither a slash nor two dots, but the value of the field does: the file is written
beside the root. -/
theorem path_leaves_root :
    (∀ piece ∈ byField.filenameTemplate,
      '/' ∉ piece.literalText.toList ∧ ¬ ['.', '.'] <:+: piece.literalText.toList) ∧
    ¬ Run.AllSteps (called byField (plainPlatform.onDisk "out") ⟨true, fun _ _ => false⟩)
        (fun w call => ∀ p ∈ w.handed byField (plainPlatform.onDisk "out") call, p.Inside "out")
        ⟨.new, ∅, 0⟩ [.write [120] (fieldChunk "../x") 0, .publishAll [("", "in", "r")]] ∧
      (Run.exec (called byField (plainPlatform.onDisk "out") ⟨true, fun _ _ => false⟩) ⟨.new, ∅, 0⟩
        [.write [120] (fieldChunk "../x") 0, .publishAll [("", "in", "r")]]).files.lookup ⟨"out/..", "x"⟩ =
          some [120] ∧ ¬ (FilePath.mk "out/.." "x").Inside "out" := by
  decide +kernel

end Tram.FileSink
