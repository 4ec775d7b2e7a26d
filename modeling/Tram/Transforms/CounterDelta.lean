import Tram.Lib.DateTime
import Tram.Lib.Dict
import Tram.Transforms.Record

/-! # The counter_delta transform

Deltas and rates of cumulative counters. The previous sample of each series is kept under an
identity string made of the source host, the key fields and the field's path. A decrease is a
wrap or, if the corrected delta is too large, a reset. The threshold, the timestamps and the rates
are exact rationals. -/

namespace Tram.CounterDelta

inductive Width where
  | auto | bits32 | bits64
  deriving DecidableEq, Repr

inductive Output where
  | delta | rate | both
  deriving DecidableEq, Repr

inductive FirstSample where
  | pass | drop
  deriving DecidableEq, Repr

inductive OnError where
  | raise | null | keep
  deriving DecidableEq, Repr

structure Config where
  fields : List Path
  keyFields : List Path := [["_index"]]
  timestampFields : List Path := [["_polled_at"], ["timestamp"]]
  width : Width := .auto
  output : Output := .both
  keepRaw : Bool := true
  firstSample : FirstSample := .pass
  resetThreshold : ℚ := 1 / 2
  maxGapSeconds : Option ℚ := none
  onError : OnError := .raise
  fields_ne : fields ≠ []
  fields_split : ∀ field ∈ fields, field ≠ []
  timestamp_ne : timestampFields ≠ []
  threshold_pos : 0 < resetThreshold
  threshold_lt : resetThreshold < 1
  gap_pos : ∀ g ∈ maxGapSeconds, 0 < g

inductive Fault where
  | transformError (message : String)
  | other

/-- What the transform calls outside: `_parse_timestamp`, `str` and `repr`. -/
structure Python where
  parseTimestamp : Json → Except Fault DateTime
  str : Json → String
  repr : Json → String

/-- The previous sample of a series: `{"v": v, "t": t}`. -/
structure Sample where
  v : Int
  t : ℚ

/-- `_state`, by identity. Written as JSON and read back it is the same. -/
abbrev Table := Dict String Sample

structure State where
  runtimeMeta : Record
  table : Table

def State.init : State := ⟨[], ∅⟩

variable (py : Python) (cfg : Config)

/-! ## Reading a record -/

def resolveTimestamp (r : Record) : Except Fault ℚ :=
  let candidate := cfg.timestampFields.findSome? fun field =>
    match r.getPath field with
    | some .null | some (.str "") | none => none
    | some value => some value
  match candidate with
  | some value => (py.parseTimestamp value).map fun t => t.us / 1000000
  | none => .error (.transformError ("counter_delta: no parseable timestamp in " ++
      py.repr (.arr (cfg.timestampFields.map fun field => .str field.text))))

/-- The texts of the key fields' values; `none` where one is missing or null. -/
def keyTexts (r : Record) : Option (List String) :=
  cfg.keyFields.mapM fun key =>
    match r.getPath key with
    | none | some .null => none
    | some value => some (py.str value)

def joinIdentity (host : String) (keys : List String) (field : Path) : String :=
  "\x1f".intercalate
    (host :: cfg.keyFields.zipWith (fun key value => key.text ++ "=" ++ value) keys ++ [field.text])

def identity (host : String) (r : Record) (field : Path) : Option String :=
  (keyTexts py cfg r).map fun keys => joinIdentity cfg host keys field

/-- The value of a counter; `none` where it is missing, null, a `bool` or no number. -/
def counter? (r : Record) (field : Path) : Option Int :=
  match r.getPath field with
  | none | some .null | some (.bool _) => none
  | some value => value.toInt?

/-- The checks on a field: its value and its identity, or the message for a bad record. -/
def readField (host : String) (r : Record) (field : Path) : Except String (Int × String) :=
  match counter? r field with
  | none => .error <|
    match r.getPath field with
    | none | some .null | some (.bool _) =>
      "counter_delta: field " ++ py.repr (.str field.text) ++ " not found or null"
    | some value =>
      "counter_delta: field " ++ py.repr (.str field.text) ++ " is not a number: " ++ py.repr value
  | some v =>
    match identity py cfg host r field with
    | none => .error ("counter_delta: key field missing for " ++ py.repr (.str field.text) ++
        " (key_fields=" ++ py.repr (.arr (cfg.keyFields.map fun key => .str key.text)) ++ ")")
    | some id => .ok (v, id)

/-- `_resolve_width`; `none` where `_snmp_widths` is no dictionary. -/
def resolveWidth (r : Record) (field : Path) (prev now : Int) : Option Nat :=
  let chosen : Nat :=
    match cfg.width with
    | .bits32 => 32
    | .bits64 => 64
    | .auto => if prev ≥ 2 ^ 32 ∨ now ≥ 2 ^ 32 then 64 else 32
  let widths := r.lookup "_snmp_widths" |>.getD .null
  if widths.falsy then some chosen
  else
    match widths with
    | .obj widths =>
      match (widths.lookup (field.getLast?.getD "")).bind Json.num? with
      | some 32 => some 32
      | some 64 => some 64
      | _ => some chosen
    | _ => none

/-- `_delta_for`: the delta, and whether it is a reset. -/
def deltaFor (prev now : Int) (width : Nat) : Int × Bool :=
  let modulus : Int := if width = 64 then 2 ^ 64 else 2 ^ 32
  if now ≥ prev then (now - prev, false)
  else
    let corrected := now + modulus - prev
    if (corrected : ℚ) > cfg.resetThreshold * modulus then (now, true) else (corrected, false)

def deltaPath (field : Path) : Path := field.extend "_delta"
def ratePath (field : Path) : Path := field.extend "_rate"

/-- `set_path` as `apply` calls it. -/
def write (r : Record) (path : Path) (value : Json) : Except Fault Record :=
  (r.setPath path value).mapError .transformError

def setOutputs (r : Record) (field : Path) (delta rate : Json) : Except Fault Record :=
  (if cfg.output = .delta ∨ cfg.output = .both then write r (deltaPath field) delta else .ok r) >>=
  fun r => if cfg.output = .rate ∨ cfg.output = .both then write r (ratePath field) rate else .ok r

inductive Verdict where
  | raised (fault : Fault)
  | emitted (r : Record)
  | dropped

def Verdict.output : Verdict → Option Record
  | .emitted r => some r
  | _ => none

/-- `_handle_bad_record`, with the fields from the failing one on. -/
def handleBadRecord (r : Record) (fields : List Path) (message : String) (snapshot : Record) :
    Verdict :=
  match cfg.onError with
  | .raise => .raised (.transformError message)
  | .null =>
    match fields.foldlM (fun r field => setOutputs cfg r field .null .null) r with
    | .ok r => .emitted r
    | .error fault => .raised fault
  | .keep => .emitted snapshot

/-! ## Apply -/

/-- The variables of the loop over the fields. -/
structure Cursor where
  record : Record
  firstSight : Bool
  table : Table

inductive Visit where
  | next (c : Cursor)
  | bad (message : String)
  | raised (fault : Fault) (table : Table)

/-- A sample of a series that has a previous one: the new record. -/
def compare (r : Record) (field : Path) (prev : Sample) (v : Int) (tNow : ℚ) :
    Except Fault Record := do
  let elapsed := tNow - prev.t
  match resolveWidth cfg r field prev.v v with
  | none => .error .other
  | some width =>
    let result : Int × Bool :=
      match cfg.maxGapSeconds with
      | some gap => if elapsed > gap then (v, true) else deltaFor cfg prev.v v width
      | none => deltaFor cfg prev.v v width
    let r := if result.2 then r.put "_counter_reset" (.bool true) else r
    let r ← setOutputs cfg r field (.int result.1)
      (if elapsed > 0 then .float (result.1 / elapsed) else .null)
    return if cfg.keepRaw then r else r.deletePath field

def visit (host : String) (tNow : ℚ) (c : Cursor) (field : Path) : Visit :=
  match readField py cfg host c.record field with
  | .error message => .bad message
  | .ok (v, id) =>
    match c.table.lookup id with
    | none =>
      let table := c.table.insert id ⟨v, tNow⟩
      match setOutputs cfg c.record field .null .null with
      | .ok r => .next ⟨r, true, table⟩
      | .error fault => .raised fault table
    | some prev =>
      match compare cfg c.record field prev v tNow with
      | .ok r => .next ⟨r, c.firstSight, c.table.insert id ⟨v, tNow⟩⟩
      | .error fault => .raised fault c.table

/-- The loop over the fields and what follows it. -/
def visitFields (host : String) (tNow : ℚ) (snapshot : Record) :
    List Path → Cursor → Verdict × Table
  | [], c => (if cfg.firstSample = .drop ∧ c.firstSight then .dropped else .emitted c.record, c.table)
  | field :: fields, c =>
    match visit py cfg host tNow c field with
    | .next c => visitFields host tNow snapshot fields c
    | .bad message => (handleBadRecord cfg c.record (field :: fields) message snapshot, c.table)
    | .raised fault table => (.raised fault, table)

namespace State

/-- `str(self._meta.get("source_host", ""))` -/
def host (s : State) : String := py.str ((s.runtimeMeta.lookup "source_host").getD (.str ""))

def record (s : State) (r : Record) : Verdict × State :=
  match resolveTimestamp py cfg r with
  | .error .other => (.raised .other, s)
  | .error (.transformError message) => (handleBadRecord cfg r cfg.fields message r, s)
  | .ok tNow =>
    let result := visitFields py cfg (s.host py) tNow r cfg.fields ⟨r, false, s.table⟩
    (result.1, { s with table := result.2 })

/-- `apply`, with one result for each record: `none` for a record that is dropped. -/
def applyEach (s : State) : List Record → Except Fault (List (Option Record)) × State
  | [] => (.ok [], s)
  | r :: records =>
    let first := s.record py cfg r
    match first.1 with
    | .raised fault => (.error fault, first.2)
    | verdict =>
      let rest := applyEach first.2 records
      (rest.1.map (verdict.output :: ·), rest.2)

def apply (s : State) (records : List Record) : Except Fault (List Record) × State :=
  let result := s.applyEach py cfg records
  (result.1.map List.reduceOption, result.2)

def setRuntimeMeta (s : State) (runtimeMeta : Record) : State := { s with runtimeMeta }

def getState (s : State) : Table := s.table

/-- `set_state` on a new transform. -/
def setState (blob : Table) : State := { State.init with table := blob }

end State
end Tram.CounterDelta
