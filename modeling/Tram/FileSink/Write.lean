import Tram.FileSink.RollingWriter

/-! # What a write in append mode does

A write raises before it has chosen a part, or it chooses the open part or opens a new one and then
appends to it. The world a new part leaves is given in full, so that what a write keeps can be read
off it. -/

namespace Tram.FileSink

open RollingWriter Option Dict
open Procedure (bind_run_error bind_run_ok get_run modify_run)

def RollingWriter.counter (writer : RollingWriter) (key : StateKey) : Nat :=
  (writer.partCounters.lookup key).getD 0

section

variable (cfg : Config) (py : Platform)

def nextIndex (writer : RollingWriter) (m : Meta) : Nat :=
  (writer.partCounters.lookup (fileStateKey py cfg.filenameTemplate m)).getD 0 + 1

/-- The path the next part of a chunk's key is published at, or written to if nothing is staged. -/
def nextFinal (writer : RollingWriter) (m : Meta) (now : Time) : Option FilePath :=
  if cfg.maxIndex < nextIndex cfg py writer m then none
  else (renderFilename py cfg.filenameTemplate now (nextIndex cfg py writer m) cfg.maxIndex m).map
    py.joinRoot

/-- The path a part is written to; none where the name is not one. -/
def destFor (m : Meta) (path : FilePath) : Option FilePath :=
  if shouldStageFileOutput py m then
    if tempPathOk path (stagingRun m) then some (tempPath path (stagingRun m)) else none
  else some path

/-- The part a chunk opens, if it does: the path it is published at and the one it is written to. -/
def newPart (writer : RollingWriter) (m : Meta) (now : Time) (data : Bytes) :
    Option (FilePath × FilePath) :=
  match openPath cfg py writer m now data with
  | some _ => none
  | none => do
    let path ← nextFinal cfg py writer m now
    let dest ← destFor py m path
    some (path, dest)

def RollingWriter.opened (writer : RollingWriter) (m : Meta) (now : Time) (data : Bytes)
    (path dest : FilePath) : RollingWriter :=
  let stateKey := fileStateKey py cfg.filenameTemplate m
  let rolled := writer.rolled cfg py m now data
  { states := rolled.states.insert stateKey ⟨nextIndex cfg py writer m, now, 0, 0⟩
    currentPaths := rolled.currentPaths.insert stateKey dest
    partCounters := rolled.partCounters.insert stateKey (nextIndex cfg py writer m)
    manifests :=
      if shouldStageFileOutput py m then
        (rolled.addStagedTarget (sourceUnitKey py m) ⟨stateKey, dest, path⟩).manifests
      else rolled.manifests
    droppedAfterCap := rolled.droppedAfterCap }

/-- The world once a part is open: the backend was asked for the directory and, if the output is
staged, to clean up. -/
def World.opened (w : World) (m : Meta) (now : Time) (data : Bytes) (path dest : FilePath) : World where
  writer := w.writer.opened cfg py m now data path dest
  files :=
    if shouldStageFileOutput py m then
      retain w.files fun p _ => !Backend.isStaleTemp py path dest p
    else w.files
  clock := if shouldStageFileOutput py m then w.clock + 2 else w.clock + 1

def World.appended (w : World) (m : Meta) (dest : FilePath) (payload : Bytes) : World where
  writer := w.writer.count (fileStateKey py cfg.filenameTemplate m) m.outputRecordCount payload.length
  files := w.files.insert dest ((w.files.lookup dest).getD [] ++ payload)
  clock := w.clock + 1

/-- What a write that raises before it has chosen a part leaves as it was: it may close the part of
its key, and opens none. -/
structure Unwritten (w w' : World) : Prop where
  files : w'.files = w.files
  manifests : w'.writer.manifests = w.writer.manifests
  states : ∀ key s, w'.writer.states.lookup key = some s → w.writer.states.lookup key = some s
  currentPaths : ∀ key path, w'.writer.currentPaths.lookup key = some path →
    w.writer.currentPaths.lookup key = some path
  counters : ∀ key, w.writer.counter key ≤ w'.writer.counter key

inductive Chosen (m : Meta) (now : Time) (data : Bytes) (w : World) : FilePath → Bool → World → Prop
  | current {dest : FilePath} (h : openPath cfg py w.writer m now data = some dest) :
    Chosen m now data w dest false { w with clock := w.clock + 1 }
  | new {path dest : FilePath} (h : newPart cfg py w.writer m now data = some (path, dest)) :
    Chosen m now data w dest true (w.opened cfg py m now data path dest)

/-- All a write in append mode can come to. -/
inductive Outcome (b : Backend) (m : Meta) (now : Time) (data : Bytes) (w : World) :
    Except Raised (Option FilePath) × World → Prop
  | raised {e : Raised} {w' : World} (h : Unwritten w w') : Outcome b m now data w (.error e, w')
  | empty {dest : FilePath} {isNewFile : Bool} {w' : World} (h : Chosen cfg py m now data w dest isNewFile w')
    (hpayload : preparePayloadForAppend m.serializer isNewFile data = []) :
    Outcome b m now data w (.ok none, w')
  | failed {dest : FilePath} {isNewFile : Bool} {w' : World}
    (h : Chosen cfg py m now data w dest isNewFile w') (hfails : b.fails w'.clock .append = true) :
    Outcome b m now data w (.error (.failed .append), { w' with clock := w'.clock + 1 })
  | written {dest : FilePath} {isNewFile : Bool} {w' : World}
    (h : Chosen cfg py m now data w dest isNewFile w')
    (hpayload : preparePayloadForAppend m.serializer isNewFile data ≠ [])
    (hfails : b.fails w'.clock .append = false) :
    Outcome b m now data w (.ok (some dest),
      w'.appended cfg py m dest (preparePayloadForAppend m.serializer isNewFile data))

end

section

variable {cfg : Config} {py : Platform} {b : Backend} {m : Meta} {now : Time} {data : Bytes} {w : World}

variable {op : Op} {dest path p : FilePath} {key : StateKey} {writer : RollingWriter}

theorem Unwritten.refl (w : World) (clock : Nat) : Unwritten w { w with clock } :=
  ⟨rfl, rfl, fun _ _ h => h, fun _ _ h => h, fun _ => Nat.le_refl _⟩

theorem Unwritten.trans {w₁ w₂ w₃ : World} (h : Unwritten w₁ w₂) (h' : Unwritten w₂ w₃) :
    Unwritten w₁ w₃ :=
  ⟨h'.files.trans h.files, h'.manifests.trans h.manifests, fun k s hk => h.states k s (h'.states k s hk),
    fun k p hk => h.currentPaths k p (h'.currentPaths k p hk), fun k => (h.counters k).trans (h'.counters k)⟩

theorem Unwritten.rolled (w : World) (clock : Nat) :
    Unwritten w ⟨w.writer.rolled cfg py m now data, w.files, clock⟩ := by
  unfold RollingWriter.rolled
  dsimp only
  split_ifs
  · exact ⟨rfl, rfl, fun _ _ => lookup_of_erase, fun _ _ => lookup_of_erase, fun _ => Nat.le_refl _⟩
  · exact .refl w clock

theorem counter_le_counted {stateKey : StateKey} {partIndex : Nat} (h : writer.counter stateKey ≤ partIndex)
    (key : StateKey) : writer.counter key ≤ (writer.counted stateKey partIndex).counter key := by
  rw [counter, counter, counted, lookup_insert_ite]
  split_ifs with hkey
  · subst hkey
    exact h
  · exact Nat.le_refl _

theorem Unwritten.counted (w : World) {stateKey : StateKey} {partIndex : Nat}
    (h : w.writer.counter stateKey ≤ partIndex) :
    Unwritten w ⟨w.writer.counted stateKey partIndex, w.files, w.clock⟩ :=
  ⟨rfl, rfl, fun _ _ h => h, fun _ _ h => h, counter_le_counted h⟩

theorem call_ok (h : b.fails w.clock op = false) :
    b.call op w = (.ok (), { w with clock := w.clock + 1 }) := by
  simp [Backend.call, h]

theorem call_error (h : b.fails w.clock op = true) :
    b.call op w = (.error (.failed op), { w with clock := w.clock + 1 }) := by
  simp [Backend.call, h]

theorem change_ok (f : Files → Files) (h : b.fails w.clock op = false) :
    b.change op f w = (.ok (), ⟨w.writer, f w.files, w.clock + 1⟩) :=
  bind_run_ok (call_ok h) _

theorem change_error (f : Files → Files) (h : b.fails w.clock op = true) :
    b.change op f w = (.error (.failed op), { w with clock := w.clock + 1 }) :=
  bind_run_error (call_error h) _

theorem nextPath_ok (h : nextFinal cfg py w.writer m now = some path) :
    nextPath cfg py m now (fileStateKey py cfg.filenameTemplate m) w =
      (.ok (path, ⟨nextIndex cfg py w.writer m, now, 0, 0⟩),
        ⟨w.writer.counted (fileStateKey py cfg.filenameTemplate m) (nextIndex cfg py w.writer m),
          w.files, w.clock⟩) := by
  unfold nextFinal at h
  split_ifs at h with hcap
  obtain ⟨filename, hname, rfl⟩ := map_eq_some_iff.mp h
  change (if cfg.maxIndex < nextIndex cfg py w.writer m then _ else _ : Action _) w = _
  rw [if_neg hcap]
  refine (bind_run_ok (modify_run _ w) _).trans ?_
  simp only [nextIndex] at hname
  simp only [hname]
  rfl

theorem nextPath_error (h : nextFinal cfg py w.writer m now = none) :
    ∃ e w', nextPath cfg py m now (fileStateKey py cfg.filenameTemplate m) w = (.error e, w') ∧
      Unwritten w w' := by
  unfold nextFinal at h
  change ∃ e w', (if cfg.maxIndex < nextIndex cfg py w.writer m then _ else _ : Action _) w = _ ∧ _
  split_ifs at h ⊢ with hcap
  · exact ⟨_, _, rfl, rfl, rfl, fun _ _ h => h, fun _ _ h => h, fun _ => Nat.le_refl _⟩
  · rw [map_eq_none_iff] at h
    refine ⟨.badTemplate, _, ?_,
      .counted w (Nat.le_succ (w.writer.counter (fileStateKey py cfg.filenameTemplate m)))⟩
    refine (bind_run_ok (modify_run _ w) _).trans ?_
    simp only [nextIndex] at h
    simp only [h]
    rfl

def World.staged (py : Platform) (w : World) (m : Meta) (stateKey : StateKey)
    (path dest : FilePath) : World :=
  if shouldStageFileOutput py m then
    { writer := w.writer.addStagedTarget (sourceUnitKey py m) ⟨stateKey, dest, path⟩
      files := retain w.files fun p _ => !Backend.isStaleTemp py path dest p
      clock := w.clock + 1 }
  else w

theorem stagePath_outcome (stateKey : StateKey) (path : FilePath) :
    (∃ e w', stagePath py b m stateKey path w = (.error e, w') ∧ Unwritten w w') ∨
      ∃ dest, destFor py m path = some dest ∧
        stagePath py b m stateKey path w = (.ok dest, w.staged py m stateKey path dest) := by
  unfold stagePath destFor World.staged
  split_ifs with hstage hok
  · cases hfails : b.fails w.clock .cleanupStaleTemp with
    | true =>
      exact .inl ⟨_, _, bind_run_error (change_error _ hfails) _, .refl w (w.clock + 1)⟩
    | false => exact .inr ⟨_, rfl, bind_run_ok (change_ok _ hfails) _⟩
  · exact .inl ⟨_, _, rfl, .refl w w.clock⟩
  · exact .inr ⟨_, rfl, rfl⟩

section

variable (cfg : Config) (py : Platform) (writer : RollingWriter) (m : Meta) (now : Time) (data : Bytes)

theorem counter_rolled (key : StateKey) :
    (writer.rolled cfg py m now data).counter key = writer.counter key := by
  unfold rolled
  dsimp only
  split_ifs <;> rfl

theorem nextIndex_rolled :
    nextIndex cfg py (writer.rolled cfg py m now data) m = nextIndex cfg py writer m :=
  congrArg (· + 1) (counter_rolled cfg py writer m now data _)

theorem nextFinal_rolled :
    nextFinal cfg py (writer.rolled cfg py m now data) m now = nextFinal cfg py writer m now := by
  unfold nextFinal
  rw [nextIndex_rolled]

end

theorem partFor_outcome (cfg : Config) (py : Platform) (b : Backend) (m : Meta) (now : Time) (data : Bytes)
    (w : World) :
    (∃ e w', partFor cfg py b m now data { w with clock := w.clock + 1 } = (.error e, w') ∧
      Unwritten w w') ∨
    ∃ dest isNewFile w', partFor cfg py b m now data { w with clock := w.clock + 1 } =
      (.ok (dest, isNewFile), w') ∧ Chosen cfg py m now data w dest isNewFile w' := by
  cases hopen : openPath cfg py w.writer m now data with
  | some dest =>
    refine .inr ⟨dest, false, _, ?_, .current hopen⟩
    rw [partFor, bind_run_ok (get_run _)]
    simp only [hopen]
    rfl
  | none =>
    have hrun : partFor cfg py b m now data { w with clock := w.clock + 1 } = (do
        let next ← nextPath cfg py m now (fileStateKey py cfg.filenameTemplate m)
        let dest ← stagePath py b m (fileStateKey py cfg.filenameTemplate m) next.1
        World.updateWriter fun writer =>
          writer.openPart (fileStateKey py cfg.filenameTemplate m) dest next.2
        pure (dest, true) : Action (FilePath × Bool))
          ⟨w.writer.rolled cfg py m now data, w.files, w.clock + 1⟩ := by
      rw [partFor, bind_run_ok (get_run _)]
      simp only [hopen]
      rfl
    rw [hrun]
    have hnext := nextFinal_rolled cfg py w.writer m now data
    cases hfinal : nextFinal cfg py w.writer m now with
    | none =>
      obtain ⟨e, w', hpath, h⟩ := nextPath_error
        (w := ⟨w.writer.rolled cfg py m now data, w.files, w.clock + 1⟩) (hnext.trans hfinal)
      exact .inl ⟨e, w', bind_run_error hpath _, (Unwritten.rolled w _).trans h⟩
    | some path =>
      rw [bind_run_ok (nextPath_ok (hnext.trans hfinal)), nextIndex_rolled]
      rcases stagePath_outcome (fileStateKey py cfg.filenameTemplate m) path with
        ⟨e, w', hstage, h⟩ | ⟨dest, hdest, hstage⟩
      · exact .inl ⟨e, w', bind_run_error hstage _,
          ((Unwritten.rolled w _).trans (.counted _
            ((counter_rolled cfg py w.writer m now data _).le.trans (Nat.le_succ _)))).trans h⟩
      · refine .inr ⟨dest, true, _, ?_, @Chosen.new _ _ _ _ _ _ path _ ?_⟩
        swap
        · simp [newPart, hopen, hfinal, hdest]
        rw [bind_run_ok hstage]
        unfold World.opened opened World.staged
        split_ifs <;> rfl

variable (py b m now data) in
theorem write_outcome (hmode : cfg.fileMode = .append) (w : World) :
    Outcome cfg py b m now data w (write cfg py b data m now w) := by
  unfold write
  cases hdir : b.fails w.clock .ensureDir with
  | true =>
    rw [bind_run_error (m := b.ensureDir) (call_error hdir)]
    exact .raised (.refl w _)
  | false =>
    rw [bind_run_ok (m := b.ensureDir) (call_ok hdir), hmode]
    change Outcome cfg py b m now data w (writeAppend cfg py b data m now _)
    rcases partFor_outcome cfg py b m now data w with ⟨e, w', hrun, h⟩ | ⟨dest, isNewFile, w', hrun, h⟩
    · rw [writeAppend, bind_run_error hrun]
      exact .raised h
    · rw [writeAppend, bind_run_ok hrun]
      dsimp only
      split_ifs with hpayload
      · exact .empty h hpayload
      · cases hfails : b.fails w'.clock .append with
        | true =>
          rw [bind_run_error (m := b.append _ _) (change_error _ hfails)]
          exact .failed h hfails
        | false =>
          rw [bind_run_ok (m := b.append _ _) (change_ok _ hfails)]
          exact .written h hpayload hfails

/-! ## What an open part changes -/

theorem manifests_rolled (writer : RollingWriter) :
    (writer.rolled cfg py m now data).manifests = writer.manifests := by
  unfold rolled
  dsimp only
  split_ifs <;> rfl

theorem rolled_other (writer : RollingWriter)
    (hkey : key ≠ fileStateKey py cfg.filenameTemplate m) :
    (writer.rolled cfg py m now data).states.lookup key = writer.states.lookup key ∧
      (writer.rolled cfg py m now data).currentPaths.lookup key = writer.currentPaths.lookup key := by
  unfold rolled
  dsimp only
  split_ifs
  · exact ⟨AList.lookup_erase_ne hkey, AList.lookup_erase_ne hkey⟩
  · exact ⟨rfl, rfl⟩

variable (cfg py m now data) in
theorem currentPaths_opened (writer : RollingWriter) (path dest : FilePath) (key : StateKey) :
    (writer.opened cfg py m now data path dest).currentPaths.lookup key =
      if key = fileStateKey py cfg.filenameTemplate m then some dest
      else writer.currentPaths.lookup key := by
  rw [opened, lookup_insert_ite]
  split_ifs with hkey
  · rfl
  · exact (rolled_other writer hkey).2

theorem counter_le_opened (writer : RollingWriter) (path dest : FilePath) (key : StateKey) :
    writer.counter key ≤ (writer.opened cfg py m now data path dest).counter key :=
  (counter_rolled cfg py writer m now data key).ge.trans
    (counter_le_counted ((counter_rolled cfg py writer m now data _).le.trans (Nat.le_succ _)) key)

theorem counter_opened (writer : RollingWriter) (path dest : FilePath) :
    (writer.opened cfg py m now data path dest).counter (fileStateKey py cfg.filenameTemplate m) =
      nextIndex cfg py writer m := by
  simp [counter, opened]

theorem states_opened_other (writer : RollingWriter) (path dest : FilePath)
    (hkey : key ≠ fileStateKey py cfg.filenameTemplate m) :
    (writer.opened cfg py m now data path dest).states.lookup key = writer.states.lookup key := by
  rw [opened, AList.lookup_insert_ne hkey]
  exact (rolled_other writer hkey).1

theorem lookup_files_opened
    (h : shouldStageFileOutput py m = true → Backend.isStaleTemp py path dest p = false) :
    (w.opened cfg py m now data path dest).files.lookup p = w.files.lookup p := by
  unfold World.opened
  split_ifs with hstage
  · refine ext fun bytes => ?_
    simp [lookup_retain_eq_some, h hstage]
  · rfl

theorem lookup_files_opened_none (h : w.files.lookup p = none) :
    (w.opened cfg py m now data path dest).files.lookup p = none := by
  unfold World.opened
  split_ifs
  · refine eq_none_iff_forall_ne_some.mpr fun bytes hbytes => ?_
    rw [(lookup_retain_eq_some.mp hbytes).1] at h
    cases h
  · exact h

theorem states_of_count {stateKey : StateKey} {records bytes : Nat} {state : FilePartState}
    (h : (writer.count stateKey records bytes).states.lookup key = some state) :
    ∃ state, writer.states.lookup key = some state :=
  forall_modify (P := fun key _ => ∃ state, writer.states.lookup key = some state)
    (fun s hs => ⟨s, hs⟩) (fun _ s hs => ⟨s, hs⟩) key state h

theorem tempPath_ne (path : FilePath) (runId : String) : tempPath path runId ≠ path := by
  intro h
  have hlength := congrArg (fun p => p.name.length) h
  simp only [tempPath, String.length_append] at hlength
  have hdot : ".".length = 1 := rfl
  omega

theorem destFor_staged (hdest : destFor py m path = some dest)
    (hstage : shouldStageFileOutput py m = true) : dest = tempPath path (stagingRun m) := by
  unfold destFor at hdest
  rw [if_pos hstage] at hdest
  split_ifs at hdest
  exact (some.inj hdest).symm

theorem lookup_of_openPath (h : openPath cfg py writer m now data = some dest) :
    ∃ s, writer.states.lookup (fileStateKey py cfg.filenameTemplate m) = some s ∧
      writer.currentPaths.lookup (fileStateKey py cfg.filenameTemplate m) = some dest := by
  unfold openPath at h
  dsimp only at h
  split_ifs at h
  obtain ⟨s, hs, hpath⟩ := bind_eq_some_iff.mp h
  exact ⟨s, hs, hpath⟩

end

/-- One directory `d`, and shell patterns with one star; it formats nothing. -/
def plainPlatform : Platform where
  strftime _ := "now"
  format v _ _ := v.text
  strip s := s
  stem s := s
  suffix _ := ""
  joinRoot filename := ⟨"d", filename⟩
  globMatch pattern name :=
    pattern.toList.takeWhile (· ≠ '*') <+: name.toList ∧
      (pattern.toList.dropWhile (· ≠ '*')).tail <:+ name.toList ∧ pattern.length ≤ name.length + 1

def numberedParts : Config where
  filenameTemplate := [⟨"out_", some ⟨.part, none, ""⟩⟩]
  fileMode := .append
  maxRecords := some 2
  maxTime := none
  maxBytes := none
  maxIndex := 9

def oneRecord (sourceFilename : String) (enableSafeFinalize : Bool) (serializer : Serializer) : Meta where
  pipelineName := "p"
  runTimestamp := "now"
  runId := "r"
  sourcePath := ""
  sourceFilename := sourceFilename
  enableSafeFinalize := enableSafeFinalize
  serializer := serializer
  outputRecordCount := 1
  fieldValue _ := ""

end Tram.FileSink
