import Tram.Lib.Lines

/-! # Rows of delimited text

What writes and reads the rows of a table: a row is written as a line, and whoever reads a row that
was written goes on behind it. The fields of a row are texts; if none of them has a line break, the
line has none. -/

namespace Csv

open List Lines

/-- The bytes of a text in UTF-8. -/
def utf8 (s : String) : List UInt8 := s.toByteArray.data.toList

def ofUtf8 (bytes : List UInt8) : String := (String.fromUTF8? ⟨bytes.toArray⟩).getD ""

theorem fromUTF8_utf8 (s : String) : String.fromUTF8? ⟨(utf8 s).toArray⟩ = some s := by
  have hbytes : (⟨(utf8 s).toArray⟩ : ByteArray) = s.toByteArray := by simp [utf8]
  rw [hbytes, String.fromUTF8?, dif_pos s.isValidUTF8]
  rfl

theorem ofUtf8_utf8 (s : String) : ofUtf8 (utf8 s) = s := by
  rw [ofUtf8, fromUTF8_utf8, Option.getD_some]

/-- A text without line breaks. -/
def Unbroken (s : String) : Prop := Lines.Unbroken (utf8 s)

structure Dialect where
  writeLine : List String → List UInt8
  readRows : List UInt8 → List (List String)
  readRows_nil : readRows [] = []
  readRows_line : ∀ {fields : List String} (rest : List UInt8), fields ≠ [] →
    readRows (writeLine fields ++ Newline.crlf.bytes ++ rest) = fields :: readRows rest
  unbroken : ∀ {fields : List String}, (∀ field ∈ fields, Unbroken field) →
    Lines.Unbroken (writeLine fields)

namespace Dialect

variable (d : Dialect)

def writeRow (fields : List String) : List UInt8 := d.writeLine fields ++ Newline.crlf.bytes

theorem readRows_writeRows (rows : List (List String)) (h : ∀ row ∈ rows, row ≠ []) :
    d.readRows (rows.flatMap d.writeRow) = rows := by
  induction rows with
  | nil => exact d.readRows_nil
  | cons row rows ih =>
    rw [flatMap_cons, writeRow, d.readRows_line _ (h row mem_cons_self),
      ih fun r hr => h r (mem_cons_of_mem _ hr)]

end Dialect

/-! ## A dialect that quotes every field -/

def quote : UInt8 := 34

def comma : UInt8 := 44

/-- A quote inside a field is written twice. -/
def escape : List UInt8 → List UInt8
  | [] => []
  | c :: rest => if c = quote then quote :: quote :: escape rest else c :: escape rest

def quoteField (field : String) : List UInt8 := quote :: (escape (utf8 field) ++ [quote])

def quoteLine : List String → List UInt8
  | [] => []
  | [field] => quoteField field
  | field :: next :: fields => quoteField field ++ comma :: quoteLine (next :: fields)

/-- Where a reader is: between two fields, inside one, or behind a quote that ends it or is the first
of two. -/
inductive Position where
  | between
  | inside (bytes : List UInt8)
  | behind (bytes : List UInt8)

def read (row : List String) : Position → List UInt8 → List (List String)
  | _, [] => []
  | .between, c :: rest => read row (if c = quote then .inside [] else .between) rest
  | .inside bytes, c :: rest => read row (if c = quote then .behind bytes else .inside (bytes ++ [c])) rest
  | .behind bytes, c :: rest =>
    if c = quote then read row (.inside (bytes ++ [c])) rest
    else if c = comma then read (row ++ [ofUtf8 bytes]) .between rest
    else (row ++ [ofUtf8 bytes]) :: read [] .between rest

theorem read_escape (row : List String) (text bytes rest : List UInt8) :
    read row (.inside bytes) (escape text ++ rest) = read row (.inside (bytes ++ text)) rest := by
  induction text generalizing bytes with
  | nil => simp [escape]
  | cons c text ih =>
    rw [escape]
    split_ifs with hc
    · subst hc
      simp [read, ih]
    · simp [read, hc, ih]

theorem read_quoteField (row : List String) (field : String) (rest : List UInt8) :
    read row .between (quoteField field ++ rest) = read row (.behind (utf8 field)) rest := by
  simp [quoteField, read, read_escape]

variable {fields : List String}

theorem read_quoteLine (row : List String) (h : fields ≠ []) (rest : List UInt8) :
    read row .between (quoteLine fields ++ Newline.crlf.bytes ++ rest) =
      (row ++ fields) :: read [] .between rest := by
  induction fields generalizing row with
  | nil => exact absurd rfl h
  | cons field fields ih =>
    cases fields with
    | nil =>
      rw [quoteLine, append_assoc, read_quoteField]
      simp [Newline.bytes, cr, lf, read, quote, comma, ofUtf8_utf8]
    | cons next fields =>
      rw [quoteLine, append_assoc, append_assoc, read_quoteField]
      have hnext := ih (row ++ [field]) (by simp)
      simpa [read, quote, comma, ofUtf8_utf8] using hnext

theorem unbroken_escape {text : List UInt8} (h : Lines.Unbroken text) : Lines.Unbroken (escape text) := by
  induction text with
  | nil => simp [escape, Lines.Unbroken]
  | cons c text ih =>
    have hc := h c mem_cons_self
    have htext := ih fun x hx => h x (mem_cons_of_mem _ hx)
    rw [escape]
    split_ifs with hq
    · subst hq
      exact forall_mem_cons.mpr ⟨hc, forall_mem_cons.mpr ⟨hc, htext⟩⟩
    · exact forall_mem_cons.mpr ⟨hc, htext⟩

theorem unbroken_quoteField {field : String} (h : Unbroken field) : Lines.Unbroken (quoteField field) := by
  have hquote : quote ≠ Lines.lf ∧ quote ≠ Lines.cr := by decide
  intro x hx
  simp only [quoteField, mem_cons, mem_append, not_mem_nil, or_false] at hx
  rcases hx with rfl | hx | rfl
  · exact hquote
  · exact unbroken_escape h x hx
  · exact hquote

theorem unbroken_quoteLine (h : ∀ field ∈ fields, Unbroken field) :
    Lines.Unbroken (quoteLine fields) := by
  induction fields with
  | nil => simp [quoteLine, Lines.Unbroken]
  | cons field fields ih =>
    have hfield := unbroken_quoteField (h field mem_cons_self)
    cases fields with
    | nil => exact hfield
    | cons next fields =>
      have hnext := ih fun f hf => h f (mem_cons_of_mem _ hf)
      rw [quoteLine]
      exact forall_mem_append.mpr ⟨hfield, forall_mem_cons.mpr ⟨by decide, hnext⟩⟩

def quoted : Dialect where
  writeLine := quoteLine
  readRows := read [] .between
  readRows_nil := by rw [read]
  readRows_line rest h := read_quoteLine [] h rest
  unbroken := unbroken_quoteLine

end Csv
