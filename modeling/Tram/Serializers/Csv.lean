import Tram.Lib.Csv
import Tram.Lib.Dict

/-! # The CSV serializer

The columns of a payload are the keys of its first record, in their order. A payload with a header
names them in its first line; the reader takes the names from there and gives each row back as a
dictionary. What the `csv` module does to single rows is a dialect. -/

namespace Tram.Serializers

open List

/-- A dictionary of texts, in the order of insertion. -/
structure CsvRecord where
  entries : List (String × String)
  nodup : (entries.map (·.1)).Nodup

namespace CsvRecord

def keys (r : CsvRecord) : List String := r.entries.map (·.1)

/-- The row of a record in some columns, as `DictWriter` makes it: a column it does not have is
empty. -/
def row (r : CsvRecord) (fieldnames : List String) : List String :=
  fieldnames.map fun key => (r.entries.lookup key).getD ""

end CsvRecord

/-- A configured serializer. Without a header it reads with the default quote character. -/
structure CsvSerializer where
  dialect : Csv.Dialect
  unquoted : Csv.Dialect
  hasHeader : Bool

/-- A row as it is read: by column, with none where the row is too short, and what is left of a row
that is too long. -/
structure ParsedRow where
  fields : Dict String (Option String)
  rest : Option (List String)

/-- `data.decode("utf-8-sig")` -/
def stripBom : List UInt8 → List UInt8
  | 0xEF :: 0xBB :: 0xBF :: data => data
  | data => data

def dictRow (fieldnames row : List String) : ParsedRow where
  fields := (fieldnames.zip (row.map some ++ List.replicate (fieldnames.length - row.length) none)).foldl
    (fun d cell => d.insert cell.1 cell.2) ∅
  rest := if fieldnames.length < row.length then some (row.drop fieldnames.length) else none

def positionalRow (row : List String) : ParsedRow where
  fields := row.zipIdx.foldl (fun d cell => d.insert ("field_" ++ toString cell.2) (some cell.1)) ∅
  rest := none

namespace CsvSerializer

variable (c : CsvSerializer)

def parse (data : List UInt8) : List ParsedRow :=
  if c.hasHeader then
    match c.dialect.readRows (stripBom data) with
    | [] => []
    | fieldnames :: rows => (rows.filter (· ≠ [])).map (dictRow fieldnames)
  else (c.unquoted.readRows (stripBom data)).map positionalRow

def serialize : List CsvRecord → List UInt8
  | [] => []
  | first :: rest =>
    (if c.hasHeader then c.dialect.writeRow first.keys else []) ++
      (first :: rest).flatMap fun r => c.dialect.writeRow (r.row first.keys)

end CsvSerializer

/-- The row that is read is the record, as a map from keys to values. -/
def ParsedRow.Reads (parsed : ParsedRow) (r : CsvRecord) : Prop :=
  parsed.rest = none ∧ ∀ key, parsed.fields.lookup key = (r.entries.lookup key).map some

theorem column_of_reads {rows : List ParsedRow} {records : List CsvRecord}
    (h : List.Forall₂ ParsedRow.Reads rows records) (key : String) :
    rows.map (·.fields.lookup key) = records.map fun r => (r.entries.lookup key).map some := by
  induction h with
  | nil => rfl
  | cons hrow _ ih => rw [map_cons, map_cons, ih, hrow.2 key]

variable {fieldnames : List String}

theorem dictRow_reads (hnodup : fieldnames.Nodup) {r : CsvRecord}
    (hkeys : ∀ key, key ∈ r.keys ↔ key ∈ fieldnames) :
    (dictRow fieldnames (r.row fieldnames)).Reads r := by
  have hlength : (r.row fieldnames).length = fieldnames.length := length_map ..
  have hcells : fieldnames.zip ((r.row fieldnames).map some ++
      List.replicate (fieldnames.length - (r.row fieldnames).length) none) =
      fieldnames.map fun key => (key, some ((r.entries.lookup key).getD "")) := by
    rw [hlength, Nat.sub_self, replicate_zero, append_nil, CsvRecord.row, map_map]
    simpa using zip_map' (l := fieldnames) (f := id) (g := some ∘ fun key => (r.entries.lookup key).getD "")
  refine ⟨if_neg (by simp [hlength]), fun key => ?_⟩
  have hnames : ((fieldnames.map fun key =>
      (key, some ((r.entries.lookup key).getD ""))).map (·.1)).Nodup := by
    simpa [map_map, Function.comp_def] using hnodup
  rw [dictRow, hcells, Dict.lookup_foldl_insert hnames, Dict.lookup_graph]
  cases hvalue : r.entries.lookup key with
  | none =>
    have hmem : key ∉ fieldnames := fun hmem => by
      obtain ⟨entry, hentry, rfl⟩ := mem_map.mp ((hkeys key).mpr hmem)
      simpa using lookup_eq_none_iff.mp hvalue entry hentry
    simp [hmem]
  | some value =>
    obtain ⟨before, after, hentries, -⟩ := lookup_eq_some_iff.mp hvalue
    have hmem : key ∈ fieldnames := (hkeys key).mp (mem_map.mpr ⟨(key, value), by simp [hentries], rfl⟩)
    simp [hmem]

theorem parse_rows {c : CsvSerializer} (hheader : c.hasHeader = true) (hne : fieldnames ≠ [])
    {rows : List (List String)} (hrows : ∀ row ∈ rows, row ≠ [])
    (hbom : stripBom (c.dialect.writeRow fieldnames ++ rows.flatMap c.dialect.writeRow) =
      c.dialect.writeRow fieldnames ++ rows.flatMap c.dialect.writeRow) :
    c.parse (c.dialect.writeRow fieldnames ++ rows.flatMap c.dialect.writeRow) =
      rows.map (dictRow fieldnames) := by
  have hread : c.dialect.readRows (c.dialect.writeRow fieldnames ++ rows.flatMap c.dialect.writeRow) =
      fieldnames :: rows :=
    c.dialect.readRows_writeRows (fieldnames :: rows) (forall_mem_cons.mpr ⟨hne, hrows⟩)
  have hkept : rows.filter (· ≠ []) = rows :=
    filter_eq_self.mpr fun row hrow => decide_eq_true (hrows row hrow)
  rw [CsvSerializer.parse, if_pos hheader, hbom, hread]
  simp only [hkept]

end Tram.Serializers
