import Tram.FileSink.CsvFiles
import Tram.Serializers.Csv

/-! # Records of a CSV file

A chunk of records is serialized with the columns of its first record. In a file that several chunks
are appended to, only the header of the first one is kept, so the rows of the others are read in the
columns of a record they do not have in common. -/

namespace Tram.FileSink

open List Csv

open Tram.Serializers (CsvRecord CsvSerializer ParsedRow stripBom dictRow)

instance (text : Bytes) : Decidable (Lines.Unbroken text) :=
  List.decidableBAll (fun c => c ≠ Lines.lf ∧ c ≠ Lines.cr) text

instance (s : String) : Decidable (Unbroken s) :=
  inferInstanceAs (Decidable (Lines.Unbroken (utf8 s)))

/-! ## Chunks of records -/

/-- Some records with the same keys in any order, whose values have no line breaks. -/
structure RecordChunk where
  first : CsvRecord
  others : List CsvRecord
  sameKeys : ∀ r ∈ others, ∀ key, key ∈ r.keys ↔ key ∈ first.keys
  unbroken : ∀ r ∈ first :: others, ∀ entry ∈ r.entries, Unbroken entry.2

variable {c header : RecordChunk}

namespace RecordChunk

def records (c : RecordChunk) : List CsvRecord := c.first :: c.others

def columns (c : RecordChunk) : List String := c.first.keys

def rows (c : RecordChunk) : List (List String) := c.records.map (·.row c.columns)

def Plain (c : RecordChunk) : Prop := c.columns ≠ [] ∧ ∀ key ∈ c.columns, Unbroken key

/-- The records of the chunk have their values in the columns of another one, too. -/
def Fits (c header : RecordChunk) : Prop :=
  ((∀ key ∈ c.columns, key ∈ header.columns) ∧ ∀ key ∈ header.columns, key ∈ c.columns) ∧
    ∀ r ∈ c.records, r.row c.columns = r.row header.columns

theorem Fits.refl (c : RecordChunk) : c.Fits c := ⟨⟨fun _ h => h, fun _ h => h⟩, fun _ _ => rfl⟩

theorem Fits.keys (h : c.Fits header) {r : CsvRecord} (hr : r ∈ c.records) (key : String) :
    key ∈ r.keys ↔ key ∈ header.columns := by
  have hcolumns : key ∈ r.keys ↔ key ∈ c.columns := by
    rcases mem_cons.mp hr with rfl | hr
    · exact Iff.rfl
    · exact c.sameKeys r hr key
  exact hcolumns.trans ⟨h.1.1 key, h.1.2 key⟩

theorem unbroken_row (c : RecordChunk) {r : CsvRecord} (hr : r ∈ c.records) (columns : List String) :
    ∀ field ∈ r.row columns, Unbroken field := by
  intro field hfield
  obtain ⟨key, -, rfl⟩ := mem_map.mp hfield
  cases hvalue : r.entries.lookup key with
  | none => exact fun _ h => absurd h not_mem_nil
  | some value =>
    obtain ⟨before, after, hentries, -⟩ := lookup_eq_some_iff.mp hvalue
    exact c.unbroken r hr (key, value) (by simp [hentries])

variable (d : Dialect)

def lines (c : RecordChunk) : CsvChunk where
  newline := .crlf
  header := if ∀ key ∈ c.columns, Unbroken key then d.writeLine c.columns else []
  rows := c.rows.map d.writeLine
  unbroken := by
    intro line hline
    rcases mem_cons.mp hline with rfl | hline
    · split_ifs with h
      · exact d.unbroken h
      · exact fun _ h => absurd h not_mem_nil
    · obtain ⟨row, hrow, rfl⟩ := mem_map.mp hline
      obtain ⟨r, hr, rfl⟩ := mem_map.mp hrow
      exact d.unbroken (c.unbroken_row hr c.columns)

theorem headerLine_lines (h : c.Plain) : (c.lines d).headerLine = d.writeRow c.columns := by
  change (if ∀ key ∈ c.columns, Unbroken key then d.writeLine c.columns else []) ++ _ = _
  rw [if_pos h.2]
  rfl

theorem rowLines_lines (c : RecordChunk) : (c.lines d).rowLines = c.rows.flatMap d.writeRow := by
  rw [CsvChunk.rowLines, lines, Lines.join, flatMap_map]
  rfl

theorem data_lines {ser : CsvSerializer} (hheader : ser.hasHeader = true) (h : c.Plain) :
    (c.lines ser.dialect).data = ser.serialize c.records := by
  rw [CsvChunk.data_eq, headerLine_lines ser.dialect h, rowLines_lines]
  simp [CsvSerializer.serialize, records, rows, hheader, columns, flatMap_map]

end RecordChunk

/-! ## Sessions -/

/-- One call of `write` with a chunk of records, by a sink with a header. -/
structure RecordWrite where
  chunk : RecordChunk
  m : Meta
  now : Time
  csv : m.serializer = .csv true

def RecordWrite.toCsv (ser : CsvSerializer) (op : RecordWrite) : CsvWrite :=
  ⟨op.chunk.lines ser.dialect, op.m, op.now, op.csv⟩

structure RecordSession where
  world : World
  log : List (FilePath × RecordChunk)

def bom : Bytes := [0xEF, 0xBB, 0xBF]

namespace RecordSession

def start (files : Files) : RecordSession := ⟨⟨.new, files, 0⟩, []⟩

def chunksAt (s : RecordSession) (path : FilePath) : List RecordChunk :=
  (s.log.filter (·.1 = path)).map (·.2)

def recordsAt (s : RecordSession) (path : FilePath) : List CsvRecord :=
  (s.chunksAt path).flatMap (·.records)

section

variable (cfg : Config) (py : Platform) (b : Backend) (ser : CsvSerializer)

def step (s : RecordSession) (op : RecordWrite) : RecordSession :=
  match write cfg py b (ser.serialize op.chunk.records) op.m op.now s.world with
  | (.ok (some dest), w) => ⟨w, s.log ++ [(dest, op.chunk)]⟩
  | (_, w) => ⟨w, s.log⟩

def toCsv (s : RecordSession) : CsvSession := ⟨s.world, s.log.map fun e => (e.1, e.2.lines ser.dialect)⟩

def ParsesBack (s : RecordSession) : Prop :=
  ∀ path, s.chunksAt path ≠ [] → ∃ bytes, s.world.files.lookup path = some bytes ∧
    List.Forall₂ ParsedRow.Reads (ser.parse bytes) (s.recordsAt path)

/-- The chunk has columns whose names have no line breaks. If it opens a part, then it does so afresh
and does not begin with a byte order mark; if it goes to an open one, then its records have their values
in the columns of the chunk that opened it. -/
def Suits (s : RecordSession) (op : RecordWrite) : Prop :=
  op.chunk.Plain ∧ (s.toCsv ser).OpensAfresh cfg py b (op.toCsv ser) ∧
    (∀ _part ∈ newPart cfg py s.world.writer op.m op.now (ser.serialize op.chunk.records),
      ¬ bom <+: ser.serialize op.chunk.records) ∧
    ∀ dest ∈ openPath cfg py s.world.writer op.m op.now (ser.serialize op.chunk.records),
      ∀ header ∈ (s.chunksAt dest).head?, op.chunk.Fits header

instance (c header : RecordChunk) : Decidable (c.Fits header) :=
  inferInstanceAs (Decidable (_ ∧ _))

instance (c : RecordChunk) : Decidable c.Plain := inferInstanceAs (Decidable (_ ∧ _))

instance (s : RecordSession) (op : RecordWrite) : Decidable (s.Suits cfg py b ser op) :=
  inferInstanceAs (Decidable (_ ∧ _ ∧ _ ∧ _))

/-- Every file is a CSV file, and every chunk fits the one that its file begins with. -/
structure Readable (s : RecordSession) : Prop where
  tidy : (s.toCsv ser).Tidy
  plain : ∀ e ∈ s.log, e.2.Plain
  unmarked : ∀ path, ∀ header ∈ (s.chunksAt path).head?, ¬ bom <+: ser.serialize header.records
  fits : ∀ path, ∀ header ∈ (s.chunksAt path).head?, ∀ c ∈ s.chunksAt path, c.Fits header

end

variable {cfg : Config} {py : Platform} {b : Backend} {ser : CsvSerializer} {s : RecordSession}
  {op : RecordWrite} {chunks : List RecordChunk}

theorem chunksAt_log_append (w : World) (dest path : FilePath) (c : RecordChunk) :
    chunksAt ⟨w, s.log ++ [(dest, c)]⟩ path =
      if path = dest then s.chunksAt path ++ [c] else s.chunksAt path := by
  unfold chunksAt
  split_ifs with h
  · subst h
    simp
  · simp [Ne.symm h]

theorem chunksAt_toCsv (s : RecordSession) (path : FilePath) :
    (s.toCsv ser).chunksAt path = (s.chunksAt path).map (·.lines ser.dialect) := by
  simp [CsvSession.chunksAt, chunksAt, toCsv, filter_map, Function.comp_def]

theorem toCsv_step (hheader : ser.hasHeader = true) (hplain : op.chunk.Plain) :
    (s.step cfg py b ser op).toCsv ser = (s.toCsv ser).step cfg py b (op.toCsv ser) := by
  have hdata := RecordChunk.data_lines hheader hplain
  unfold step CsvSession.step
  simp only [RecordWrite.toCsv, hdata]
  change toCsv ser (match write cfg py b (ser.serialize op.chunk.records) op.m op.now s.world with
    | (.ok (some dest), w) => ⟨w, s.log ++ [(dest, op.chunk)]⟩
    | (_, w) => ⟨w, s.log⟩) = _
  split <;> simp_all [toCsv]

theorem Readable.start (files : Files) : Readable ser (start files) where
  tidy := CsvSession.Tidy.start files
  plain _ h := absurd h not_mem_nil
  unmarked := nofun
  fits := nofun

theorem Readable.logged (h : Readable ser s) {w : World} {dest : FilePath}
    (htidy : (toCsv ser ⟨w, s.log ++ [(dest, c)]⟩).Tidy) (hplain : c.Plain)
    (hnew : s.chunksAt dest = [] → ¬ bom <+: ser.serialize c.records)
    (hfits : ∀ header ∈ (s.chunksAt dest).head?, c.Fits header) :
    Readable ser ⟨w, s.log ++ [(dest, c)]⟩ := by
  refine ⟨htidy, forall_mem_concat h.plain hplain, fun path header hheader => ?_,
    fun path header hheader c' hc' => ?_⟩
  · rw [chunksAt_log_append] at hheader
    split_ifs at hheader with hdest
    · subst hdest
      cases hchunks : s.chunksAt path with
      | nil =>
        obtain rfl : c = header := by simpa [hchunks] using hheader
        exact hnew hchunks
      | cons first rest =>
        obtain rfl : first = header := by simpa [hchunks] using hheader
        exact h.unmarked path first (by simp [hchunks])
    · exact h.unmarked path header hheader
  · rw [chunksAt_log_append] at hheader hc'
    split_ifs at hheader hc' with hdest
    · subst hdest
      cases hchunks : s.chunksAt path with
      | nil =>
        obtain rfl : c = header := by simpa [hchunks] using hheader
        obtain rfl : c' = c := by simpa [hchunks] using hc'
        exact .refl c'
      | cons first rest =>
        obtain rfl : first = header := by simpa [hchunks] using hheader
        exact forall_mem_concat (h.fits path first (by simp [hchunks]))
          (hfits first (by simp [hchunks])) c' hc'
    · exact h.fits path header hheader c' hc'

theorem Readable.step (hmode : cfg.fileMode = .append) (hheader : ser.hasHeader = true)
    (h : Readable ser s) (hop : s.Suits cfg py b ser op) : Readable ser (s.step cfg py b ser op) := by
  obtain ⟨hplain, hfresh, hunmarked, hfits⟩ := hop
  have htidy := h.tidy.step hmode hfresh
  rw [← toCsv_step hheader hplain] at htidy
  have hout := write_outcome py b op.m op.now (ser.serialize op.chunk.records) hmode s.world
  unfold RecordSession.step at htidy ⊢
  cases hrun : write cfg py b (ser.serialize op.chunk.records) op.m op.now s.world with
  | mk r w =>
    rw [hrun] at hout htidy
    cases hout with
    | raised | empty | failed => exact ⟨htidy, h.plain, h.unmarked, h.fits⟩
    | @written dest _ _ hw =>
      cases hw with
      | current hopen =>
        obtain ⟨state, hs, hp⟩ := lookup_of_openPath hopen
        have hne := h.tidy.started _ state _ hs hp
        rw [chunksAt_toCsv] at hne
        exact h.logged htidy hplain (fun hnil => absurd (by simp [hnil]) hne) (hfits _ hopen)
      | @new final _ hpart =>
        have hnil : s.chunksAt dest = [] := by
          by_contra hne
          have hfile := h.tidy.wellFormed dest (by rw [chunksAt_toCsv]; simpa using hne)
          have hnone := (hfresh (final, dest) (by
            rw [RecordWrite.toCsv, RecordChunk.data_lines hheader hplain]
            exact hpart)).2.1
          rw [hfile] at hnone
          cases hnone
        exact h.logged htidy hplain (fun _ => hunmarked _ hpart) fun header hhead => by
          rw [hnil] at hhead
          cases hhead

/-! ## Reading a file -/

theorem stripBom_of_not_prefix {data : Bytes} (h : ¬ bom <+: data) : stripBom data = data := by
  unfold stripBom
  split
  · next data => exact absurd ⟨data, rfl⟩ h
  · rfl

theorem csvText_lines (hheader : header.Plain) :
    csvText ((header :: chunks).map (·.lines ser.dialect)) =
      ser.dialect.writeRow header.columns ++
        ((header :: chunks).flatMap (·.rows)).flatMap ser.dialect.writeRow := by
  have hrows : ∀ chunks : List RecordChunk, (chunks.map (·.lines ser.dialect)).flatMap (·.rowLines) =
      (chunks.flatMap (·.rows)).flatMap ser.dialect.writeRow := fun chunks => by
    rw [flatMap_map, flatMap_assoc]
    exact congrArg₂ _ (funext fun c => c.rowLines_lines ser.dialect) rfl
  rw [map_cons, csvText, RecordChunk.headerLine_lines ser.dialect hheader, ← map_cons, hrows]

theorem rows_of_fits (h : ∀ c ∈ chunks, c.Fits header) :
    chunks.flatMap (·.rows) = (chunks.flatMap (·.records)).map (·.row header.columns) := by
  rw [map_flatMap]
  exact flatMap_congr fun c hc => map_congr_left (h c hc).2

theorem serialize_records (hser : ser.hasHeader = true) (c : RecordChunk) :
    ser.serialize c.records =
      ser.dialect.writeRow c.columns ++ (c.records.map (·.row c.columns)).flatMap ser.dialect.writeRow := by
  simp [CsvSerializer.serialize, RecordChunk.records, RecordChunk.columns, hser, flatMap_map]

theorem not_bom_append (hser : ser.hasHeader = true) (h : ¬ bom <+: ser.serialize c.records)
    (more : Bytes) : ¬ bom <+: ser.serialize c.records ++ more := by
  intro hbom
  refine h (prefix_of_prefix_length_le hbom (prefix_append _ _) ?_)
  have hlength : bom.length = 3 := rfl
  rw [hlength, serialize_records hser]
  simp only [RecordChunk.records, map_cons, flatMap_cons, length_append, Dialect.writeRow,
    Lines.Newline.bytes, length_cons, length_nil]
  omega

theorem Readable.parsesBack (hser : ser.hasHeader = true) (h : Readable ser s) : s.ParsesBack ser := by
  intro path hpath
  obtain ⟨header, chunks, hchunks⟩ := exists_cons_of_ne_nil hpath
  have hhead : header ∈ (s.chunksAt path).head? := by simp [hchunks]
  have hplain : header.Plain := by
    have hmem : header ∈ s.chunksAt path := by simp [hchunks]
    obtain ⟨e, he, rfl⟩ := mem_map.mp hmem
    exact h.plain e (mem_of_mem_filter he)
  have hfits := h.fits path header hhead
  have hfile := h.tidy.wellFormed path (by rw [chunksAt_toCsv]; simpa using hpath)
  rw [chunksAt_toCsv, hchunks, csvText_lines hplain, ← hchunks, rows_of_fits hfits] at hfile
  refine ⟨_, hfile, ?_⟩
  rw [Serializers.parse_rows hser hplain.1, map_map]
  · refine forall₂_map_left_iff.mpr (forall₂_same.mpr fun r hr => ?_)
    obtain ⟨c, hc, hr⟩ := mem_flatMap.mp hr
    exact Serializers.dictRow_reads header.first.nodup fun key => (hfits c hc).keys hr key
  · intro row hrow
    obtain ⟨r, -, rfl⟩ := mem_map.mp hrow
    simpa [CsvRecord.row] using hplain.1
  · -- the file begins with the payload of the first chunk
    refine stripBom_of_not_prefix ?_
    have hpayload := not_bom_append hser (h.unmarked path header hhead)
      (((chunks.flatMap (·.records)).map (·.row header.columns)).flatMap ser.dialect.writeRow)
    rw [serialize_records hser] at hpayload
    simpa [hchunks] using hpayload

end RecordSession

/-- Appended CSV parses back in every run without failures in which each chunk suits the file it goes
to: every file that was written to is read as the records that were written to it, in order. -/
theorem csv_parses_back (cfg : Config) (py : Platform) (b : Backend) (ser : CsvSerializer)
    (hmode : cfg.fileMode = .append) (hser : ser.hasHeader = true) (files : Files) (ops : List RecordWrite)
    (hops : Run.AllSteps (RecordSession.step cfg py b ser) (RecordSession.Suits cfg py b ser)
      (.start files) ops) :
    (Run.exec (RecordSession.step cfg py b ser) (.start files) ops).ParsesBack ser :=
  (Run.AllSteps.invariant (fun _ _ h hop => h.step hmode hser hop) (RecordSession.Readable.start files)
    hops).parsesBack hser

def writeOf (r : CsvRecord) (h : ∀ entry ∈ r.entries, Unbroken entry.2) : RecordWrite where
  chunk := ⟨r, [], fun _ h => absurd h not_mem_nil, fun _ hr => mem_singleton.mp hr ▸ h⟩
  m := oneRecord "in" false (.csv true)
  now := 0
  csv := rfl

def oneTwo : RecordWrite := writeOf ⟨[("a", "1"), ("b", "2")], by decide⟩ (by decide)

def threeFour : RecordWrite := writeOf ⟨[("a", "3"), ("b", "4")], by decide⟩ (by decide)

def fourThree : RecordWrite := writeOf ⟨[("b", "4"), ("a", "3")], by decide⟩ (by decide)

def quotedCsv : CsvSerializer := ⟨quoted, quoted, true⟩

def csvRun (ops : List RecordWrite) : RecordSession :=
  Run.exec (RecordSession.step numberedParts plainPlatform ⟨true, fun _ _ => false⟩ quotedCsv) (.start ∅) ops

theorem csv_parses_back_two : (csvRun [oneTwo, threeFour]).ParsesBack quotedCsv :=
  csv_parses_back numberedParts plainPlatform ⟨true, fun _ _ => false⟩ quotedCsv rfl rfl ∅ _
    (by decide +kernel)

/-- The second record has its keys in the other order: its values are read in the wrong columns. -/
theorem columns_change_places : ¬ (csvRun [oneTwo, fourThree]).ParsesBack quotedCsv := by
  intro h
  have hlength : ((csvRun [oneTwo, fourThree]).chunksAt ⟨"d", "out_1"⟩).length = 2 := by decide +kernel
  obtain ⟨bytes, hfile, hreads⟩ := h ⟨"d", "out_1"⟩ (ne_nil_of_length_pos (by omega))
  -- the column `a` of the file, and of the records
  have hread : ((csvRun [oneTwo, fourThree]).world.files.lookup ⟨"d", "out_1"⟩).map (fun bytes =>
      (quotedCsv.parse bytes).map (·.fields.lookup "a")) = some [some (some "1"), some (some "4")] := by
    decide +kernel
  have hwritten : ((csvRun [oneTwo, fourThree]).recordsAt ⟨"d", "out_1"⟩).map (fun r =>
      (r.entries.lookup "a").map some) = [some (some "1"), some (some "3")] := by
    decide +kernel
  rw [hfile, Option.map_some, Serializers.column_of_reads hreads, hwritten] at hread
  exact absurd hread (by decide)

end Tram.FileSink
