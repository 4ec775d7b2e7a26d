import Tram.Lib.Run
import Tram.FileSink.Write

/-! # The header of a CSV file

Every chunk of CSV comes with its header line; only the chunk that opens a part keeps it. Whether a
part is open is known from the bookkeeping, which is made before the first bytes are written: if
these do not arrive, the next chunk finds the part open and leaves its header out. -/

namespace Tram.FileSink

open List Lines

structure CsvChunk where
  newline : Newline
  header : Bytes
  rows : List Bytes
  unbroken : ∀ line ∈ header :: rows, Unbroken line

namespace CsvChunk

variable (c : CsvChunk)

def data : Bytes := join c.newline (c.header :: c.rows)

def headerLine : Bytes := c.header ++ c.newline.bytes

def rowLines : Bytes := join c.newline c.rows

theorem data_eq : c.data = c.headerLine ++ c.rowLines := by
  simp [data, headerLine, rowLines, join]

theorem data_ne_nil : c.data ≠ [] := by
  cases hn : c.newline <;> simp [data_eq, headerLine, hn, Newline.bytes]

/-- A chunk that opens a part is written as it is, any other without its header. -/
theorem payload (isNewFile : Bool) :
    preparePayloadForAppend (.csv true) isNewFile c.data = if isNewFile then c.data else c.rowLines := by
  cases isNewFile with
  | true => rfl
  | false =>
    have hsplit : splitLines c.data = (c.header :: c.rows).map (· ++ c.newline.bytes) :=
      splitLines_join c.newline c.unbroken
    simp only [preparePayloadForAppend, hsplit]
    rfl

end CsvChunk

structure CsvWrite where
  chunk : CsvChunk
  m : Meta
  now : Time
  csv : m.serializer = .csv true

/-- The world, and each chunk that was written with the path `write` returned. -/
structure CsvSession where
  world : World
  log : List (FilePath × CsvChunk)

def CsvSession.start (files : Files) : CsvSession := ⟨⟨.new, files, 0⟩, []⟩

def CsvSession.chunksAt (s : CsvSession) (path : FilePath) : List CsvChunk :=
  (s.log.filter (·.1 = path)).map (·.2)

/-- The file the chunks make: one header, then all their rows. -/
def csvText : List CsvChunk → Bytes
  | [] => []
  | c :: cs => c.headerLine ++ (c :: cs).flatMap (·.rowLines)

theorem csvText_concat {cs : List CsvChunk} (h : cs ≠ []) (c : CsvChunk) :
    csvText (cs ++ [c]) = csvText cs ++ c.rowLines := by
  cases cs with
  | nil => exact absurd rfl h
  | cons d ds => simp [csvText]

section

variable (cfg : Config) (py : Platform) (b : Backend)

variable (s : CsvSession)

def CsvSession.step (op : CsvWrite) : CsvSession :=
  match write cfg py b op.chunk.data op.m op.now s.world with
  | (.ok (some dest), w) => ⟨w, s.log ++ [(dest, op.chunk)]⟩
  | (_, w) => ⟨w, s.log⟩

def CsvSession.WellFormed : Prop :=
  ∀ path, s.chunksAt path ≠ [] → s.world.files.lookup path = some (csvText (s.chunksAt path))

/-- If the write opens a part, then its append does not fail, there is no file yet at the path it
goes to, and the files written so far are not taken for stale ones. -/
def CsvSession.OpensAfresh (op : CsvWrite) : Prop :=
  ∀ part ∈ newPart cfg py s.world.writer op.m op.now op.chunk.data,
    b.fails (if shouldStageFileOutput py op.m then s.world.clock + 2 else s.world.clock + 1) .append = false ∧
      s.world.files.lookup part.2 = none ∧
      (shouldStageFileOutput py op.m = true →
        ∀ written ∈ s.log, Backend.isStaleTemp py part.1 part.2 written.1 = false)

instance (s : CsvSession) (op : CsvWrite) : Decidable (s.OpensAfresh cfg py b op) := by
  unfold CsvSession.OpensAfresh
  infer_instance

end

/-- Every file is a CSV file, and an open part has its header. -/
structure CsvSession.Tidy (s : CsvSession) : Prop where
  wellFormed : s.WellFormed
  started : ∀ key state path, s.world.writer.states.lookup key = some state →
    s.world.writer.currentPaths.lookup key = some path → s.chunksAt path ≠ []

namespace CsvSession

variable {cfg : Config} {py : Platform} {b : Backend} {s : CsvSession} {op : CsvWrite} {w : World}
  {isNewFile : Bool} {dest : FilePath}

theorem chunksAt_log_append (w : World) (dest path : FilePath) (c : CsvChunk) :
    chunksAt ⟨w, s.log ++ [(dest, c)]⟩ path =
      if path = dest then s.chunksAt path ++ [c] else s.chunksAt path := by
  unfold chunksAt
  split_ifs with h
  · subst h
    simp
  · simp [Ne.symm h]

theorem Tidy.start (files : Files) : (start files).Tidy :=
  ⟨fun _ h => absurd rfl h, nofun⟩

theorem Tidy.unwritten (h : s.Tidy) (hw : Unwritten s.world w) : Tidy ⟨w, s.log⟩ :=
  ⟨fun path hpath => by rw [hw.files]; exact h.wellFormed path hpath,
    fun key state path hs hp => h.started key state path (hw.states _ _ hs) (hw.currentPaths _ _ hp)⟩

/-- What holds once the part of a chunk is chosen: only that part may be without its header, and it
is if it is new. -/
structure Ready (s : CsvSession) (dest : FilePath) (isNewFile : Bool) (w : World) : Prop where
  written : ∀ path, s.chunksAt path ≠ [] → w.files.lookup path = some (csvText (s.chunksAt path))
  started : ∀ key state path, w.writer.states.lookup key = some state →
    w.writer.currentPaths.lookup key = some path → path = dest ∨ s.chunksAt path ≠ []
  chosen : if isNewFile then w.files.lookup dest = none else s.chunksAt dest ≠ []

theorem mem_of_chunksAt {path : FilePath} (h : s.chunksAt path ≠ []) :
    ∃ written ∈ s.log, written.1 = path := by
  obtain ⟨c, hc⟩ := exists_mem_of_ne_nil _ h
  obtain ⟨written, hw, -⟩ := mem_map.mp hc
  exact ⟨written, mem_of_mem_filter hw, by simpa using of_mem_filter hw⟩

theorem Tidy.ready (h : s.Tidy) (hop : s.OpensAfresh cfg py b op)
    (hw : Chosen cfg py op.m op.now op.chunk.data s.world dest isNewFile w) :
    s.Ready dest isNewFile w := by
  cases hw with
  | current hopen =>
    obtain ⟨state, hs, hp⟩ := lookup_of_openPath hopen
    exact ⟨h.wellFormed, fun key state path hs hp => .inr (h.started key state path hs hp),
      h.started _ _ _ hs hp⟩
  | @new path _ hpart =>
    obtain ⟨-, hnone, hstale⟩ := hop _ hpart
    refine ⟨fun p hp => ?_, fun key state p hs hp => ?_, ?_⟩
    · obtain ⟨written, hmem, rfl⟩ := mem_of_chunksAt hp
      rw [lookup_files_opened fun hstage => hstale hstage written hmem]
      exact h.wellFormed _ hp
    · by_cases hkey : key = fileStateKey py cfg.filenameTemplate op.m
      · rw [World.opened, currentPaths_opened, if_pos hkey] at hp
        exact .inl (Option.some.inj hp).symm
      · rw [World.opened, currentPaths_opened, if_neg hkey] at hp
        rw [World.opened, states_opened_other _ _ _ hkey] at hs
        exact .inr (h.started key state p hs hp)
    · exact lookup_files_opened_none hnone

theorem Ready.appended (h : s.Ready dest isNewFile w) (m : Meta) (c : CsvChunk) :
    Tidy ⟨w.appended cfg py m dest (if isNewFile then c.data else c.rowLines), s.log ++ [(dest, c)]⟩ := by
  refine ⟨fun path hpath => ?_, fun key state path hs hp => ?_⟩
  · rw [chunksAt_log_append] at hpath ⊢
    simp only [World.appended, Dict.lookup_insert_ite]
    split_ifs at hpath ⊢ with hdest hnew
    · subst hdest
      have hnone : w.files.lookup path = none := by simpa [hnew] using h.chosen
      have hempty : s.chunksAt path = [] := by
        by_contra hne
        rw [h.written path hne] at hnone
        cases hnone
      simp [hnone, hempty, csvText, c.data_eq]
    · subst hdest
      have hne : s.chunksAt path ≠ [] := by simpa [hnew] using h.chosen
      rw [h.written path hne, csvText_concat hne]
      rfl
    · exact h.written path hpath
  · rw [chunksAt_log_append]
    split_ifs with hdest
    · simp
    · obtain ⟨state, hstate⟩ := states_of_count hs
      exact (h.started key state path hstate hp).resolve_left hdest

theorem Tidy.step (hmode : cfg.fileMode = .append) (h : s.Tidy) (hop : s.OpensAfresh cfg py b op) :
    (s.step cfg py b op).Tidy := by
  have hout := write_outcome py b op.m op.now op.chunk.data hmode s.world
  unfold CsvSession.step
  cases hrun : write cfg py b op.chunk.data op.m op.now s.world with
  | mk r w =>
    rw [hrun] at hout
    cases hout with
    | raised hw => exact h.unwritten hw
    | empty hw hpayload =>
      cases hw with
      | current => exact h.unwritten (.refl s.world _)
      | new =>
        rw [op.csv, op.chunk.payload] at hpayload
        exact absurd hpayload op.chunk.data_ne_nil
    | failed hw hfails =>
      cases hw with
      | current => exact h.unwritten (.refl s.world _)
      | new hpart =>
        -- the part is open but its header never arrived
        have hopen := (hop _ hpart).1
        exact absurd (hfails.symm.trans hopen) (by simp)
    | written hw hpayload hfails =>
      rw [op.csv, op.chunk.payload]
      exact (h.ready hop hw).appended op.m op.chunk

end CsvSession

/-- In every run in which each write that opens a part does so afresh, every file that was written to
is one header line and the rows of the chunks that were written to it, in order and each once. -/
theorem csv_files_well_formed (cfg : Config) (py : Platform) (b : Backend)
    (hmode : cfg.fileMode = .append) (files : Files) (ops : List CsvWrite)
    (hops : Run.AllSteps (CsvSession.step cfg py b) (CsvSession.OpensAfresh cfg py b) (.start files) ops) :
    (Run.exec (CsvSession.step cfg py b) (.start files) ops).WellFormed :=
  (Run.AllSteps.invariant (fun _ _ h hop => h.step hmode hop) (CsvSession.Tidy.start files) hops).wellFormed

def oneRow : CsvWrite where
  chunk := ⟨.lf, [104], [[49]], by simp [Unbroken, lf, cr]⟩
  m := oneRecord "a" false (.csv true)
  now := 0
  csv := rfl

theorem csv_files_well_formed_after_retry :
    (Run.exec (CsvSession.step numberedParts plainPlatform ⟨true, fun clock _ => clock = 3⟩) (.start ∅)
      [oneRow, oneRow, oneRow]).WellFormed :=
  csv_files_well_formed numberedParts plainPlatform ⟨true, fun clock _ => clock = 3⟩ rfl ∅ _
    (by decide +kernel)

/-- The first append fails and is tried again: the file has no header. -/
theorem retry_leaves_header_out :
    let s := Run.exec (CsvSession.step numberedParts plainPlatform ⟨true, fun clock _ => clock = 1⟩)
      (.start ∅) [oneRow, oneRow]
    s.log.map (·.1) = [⟨"d", "out_1"⟩] ∧ s.world.files.lookup ⟨"d", "out_1"⟩ = some [49, 10] ∧
      ¬ s.WellFormed := by
  intro s
  refine ⟨by decide +kernel, by decide +kernel, fun h => ?_⟩
  have hfile := h ⟨"d", "out_1"⟩ (fun hnil => absurd (congrArg length hnil) (by decide +kernel))
  exact absurd hfile (by decide +kernel)

end Tram.FileSink
