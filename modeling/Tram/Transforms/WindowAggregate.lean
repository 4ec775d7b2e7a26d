import Mathlib.Data.List.Sort
import Mathlib.Data.Prod.Lex
import Mathlib.Data.String.Basic
import Tram.Lib.DateTime
import Tram.Lib.Nested
import Tram.Transforms.Record

/-! # The window_aggregate transform

Tumbling windows over event time, aligned to the epoch. A record is folded into the open window of
its group; a window is emitted once the watermark, the latest event time less the allowed
lateness, has passed its end. The due heap is a derived index of the open windows, ordered by
their end; here it is the list in the order in which `heappop` yields it. Timestamps and numbers
are exact rationals. -/

namespace Tram.WindowAggregate

open Nested

inductive Op where
  | sum | avg | min | max | count | first | last
  deriving DecidableEq, Repr

structure Operation where
  outField : String
  op : Op
  srcField : List String

structure Config where
  windowSeconds : Int
  allowedLatenessSeconds : ℚ
  timestampFields : List (List String)
  groupBy : List (List String)
  operations : List Operation
  window_pos : 0 < windowSeconds
  lateness_nonneg : 0 ≤ allowedLatenessSeconds

/-- What the transform calls outside: `_parse_timestamp`, `none` where it raises, and `str`. -/
structure Python where
  parseTimestamp : Json → Option DateTime
  str : Json → String

/-- The running value of one operation. -/
inductive Accumulator where
  | avg (sum : ℚ) (count : Nat)
  | count (value : Nat)
  /-- `sum`, `min`, `max` and `first` -/
  | seen (value : Json) (seen : Bool)
  | last (value : Json)

/-- An open window of a group; one accumulator for each operation, in their order. -/
structure Entry where
  start : Int
  stop : Int
  groupValues : List Json
  sampleCount : Nat
  acc : List Accumulator

/-- An output record by its parts, with the group it was emitted for. -/
structure Emitted where
  groupKey : String
  groupFields : List (List String × Json)
  windowStart : Int
  windowEnd : Int
  values : List (String × Json)
  sampleCount : Nat
  windowComplete : Bool

structure State where
  maxTs : Option ℚ
  windows : Dict String (Dict Int Entry)
  dueHeap : List (Int ×ₗ String)

def State.init : State := ⟨none, ∅, []⟩

def newAccumulator : Op → Accumulator
  | .avg => .avg 0 0
  | .count => .count 0
  | .first | .sum | .min | .max => .seen .null false
  | .last => .last .null

/-- `min(a, b)` and `max(a, b)` keep the first of two equal values. -/
def pick (better : ℚ → ℚ → Bool) (a b : Json) : Json :=
  match a.num?, b.num? with
  | some x, some y => if better y x then b else a
  | _, _ => a

def updateAccumulator (acc : Accumulator) (op : Op) (value : Json) : Accumulator :=
  match op, acc with
  | .sum, .seen old _ =>
    match value.num? with
    | some x => .seen (.float ((old.num?).getD 0 + x)) true
    | none => acc
  | .avg, .avg sum count =>
    match value.num? with
    | some x => .avg (sum + x) (count + 1)
    | none => acc
  | .min, .seen old seen =>
    if value.num?.isSome then .seen (if seen then pick (· < ·) old value else value) true else acc
  | .max, .seen old seen =>
    if value.num?.isSome then .seen (if seen then pick (· > ·) old value else value) true else acc
  | .count, .count n => if value.isNull then acc else .count (n + 1)
  | .first, .seen _ seen => if seen ∨ value.isNull then acc else .seen value true
  | .last, .last _ => if value.isNull then acc else .last value
  | _, _ => acc

def emitValue (acc : Accumulator) (op : Op) : Json :=
  match op, acc with
  | .sum, .seen value seen => if seen then value else .null
  | .avg, .avg sum count => if count = 0 then .null else .float (sum / count)
  | .count, .count n => .int n
  | _, .seen value _ => value
  | _, .last value => value
  | _, _ => .null

/-! ## Windows -/

variable (py : Python) (cfg : Config)

/-- `_resolve_timestamp`: the first candidate that is there and not empty has to parse. -/
def resolveTimestamp (record : Record) : Option ℚ :=
  let candidate := cfg.timestampFields.findSome? fun field =>
    match record.getPath field with
    | some .null | some (.str "") | none => none
    | some value => some value
  (candidate.bind py.parseTimestamp).map fun t => t.us / 1000000

def windowEnd (ts : ℚ) : Int :=
  ⌊ts / cfg.windowSeconds⌋ * cfg.windowSeconds + cfg.windowSeconds

def groupKey (record : Record) : String × List Json :=
  let values := cfg.groupBy.map record.getPathD
  ("\x1f".intercalate (values.map fun v => if v.isNull then "" else py.str v), values)

/-- `_emit_window`; `none` where a bound is no date. -/
def emitWindow (complete : Bool) (key : String) (entry : Entry) : Option Emitted :=
  match DateTime.fromTimestamp? entry.start, DateTime.fromTimestamp? entry.stop with
  | some _, some _ => some
    { groupKey := key
      groupFields := cfg.groupBy.zip entry.groupValues
      windowStart := entry.start
      windowEnd := entry.stop
      values := cfg.operations.zipWith (fun o acc => (o.outField, emitValue acc o.op)) entry.acc
      sampleCount := entry.sampleCount
      windowComplete := complete }
  | _, _ => none

/-- `_finalize_due_windows`, the loop: pop what is due and emit it. An exception leaves what was
popped so far popped. -/
def finalizeDue {α : Type} (emit : String → α → Option Emitted) (watermark : ℚ) :
    List (Int ×ₗ String) → Dict String (Dict Int α) →
      Option (List Emitted) × Dict String (Dict Int α) × List (Int ×ₗ String)
  | [], windows => (some [], windows, [])
  | due :: heap, windows =>
    let (stop, key) := ofLex due
    if stop ≤ watermark then
      match look windows key stop with
      | none => finalizeDue emit watermark heap windows
      | some entry =>
        match emit key entry with
        | none => (none, pop windows key stop, heap)
        | some out =>
          let (rest, windows, heap) := finalizeDue emit watermark heap (pop windows key stop)
          (rest.map (out :: ·), windows, heap)
    else (some [], windows, due :: heap)

def newEntry (stop : Int) (values : List Json) : Entry :=
  ⟨stop - cfg.windowSeconds, stop, values, 0, cfg.operations.map fun o => newAccumulator o.op⟩

def Entry.fold (entry : Entry) (record : Record) : Entry :=
  { entry with
    sampleCount := entry.sampleCount + 1
    acc := cfg.operations.zipWith
      (fun o acc => updateAccumulator acc o.op (record.getPathD o.srcField)) entry.acc }

/-- The watermark passed the end of the record's window before the record came. -/
def isLate (maxTs : Option ℚ) (stop : Int) : Bool :=
  match maxTs with
  | some m => stop ≤ m - cfg.allowedLatenessSeconds
  | none => false

def latest (maxTs : Option ℚ) (ts : ℚ) : ℚ :=
  match maxTs with
  | some m => if ts > m then ts else m
  | none => ts

inductive Verdict where
  | raised
  | late
  | counted (emitted : List Emitted)

section Loop

variable {σ : Type}

/-- The body of `apply`'s loop, from what finalizes the windows that are due at a latest event time
and what adds the record to the window with the given end. -/
def recordWith (maxTs : σ → Option ℚ) (finalize : σ → ℚ → Option (List Emitted) × σ)
    (add : σ → Record → Int → σ) (s : σ) (record : Record) : Verdict × σ :=
  match resolveTimestamp py cfg record with
  | none => (.raised, s)
  | some ts =>
    let stop := windowEnd cfg ts
    if isLate cfg (maxTs s) stop then (.late, s)
    else
      match finalize s (latest (maxTs s) ts) with
      | (none, s) => (.raised, s)
      | (some emitted, s) => (.counted emitted, add s record stop)

/-- `apply`; `none` where it raises, and the records behind the one that raised are not read. -/
def applyWith (record : σ → Record → Verdict × σ) (s : σ) : List Record → Option (List Emitted) × σ
  | [] => (some [], s)
  | r :: records =>
    match record s r with
    | (.raised, s) => (none, s)
    | (.late, s) => applyWith record s records
    | (.counted emitted, s) =>
      let (rest, s) := applyWith record s records
      (rest.map (emitted ++ ·), s)

end Loop

section Restore

variable {α : Type}

def restoreWindow (w : String × α) : Option (Σ _ : Int, α) :=
  (PyInt.parse w.1).map fun stop => ⟨stop, w.2⟩

def restoreGroup (g : String × List (String × α)) : Option (Σ _ : String, Dict Int α) :=
  (g.2.mapM restoreWindow).map fun ws => ⟨g.1, ws.toAList⟩

/-- The dictionaries `set_state` makes; `none` where a key does not read as an integer. -/
def restoreWindows (groups : List (String × List (String × α))) : Option (Dict String (Dict Int α)) :=
  (groups.mapM restoreGroup).map (·.toAList)

def rebuildDueHeap (windows : Dict String (Dict Int α)) : List (Int ×ₗ String) :=
  ((pairs windows).map fun w => toLex (w.1.2, w.1.1)).insertionSort (· ≤ ·)

end Restore

namespace State

/-- The latest event time moves to `m`, and what is then due is finalized. -/
def finalize (s : State) (m : ℚ) : Option (List Emitted) × State :=
  let (emitted, windows, heap) :=
    finalizeDue (emitWindow cfg true) (m - cfg.allowedLatenessSeconds) s.dueHeap s.windows
  (emitted, ⟨some m, windows, heap⟩)

/-- The record goes into the open window of its group, which it opens if need be. -/
def add (s : State) (record : Record) (stop : Int) : State :=
  let group := groupKey py cfg record
  match look s.windows group.1 stop with
  | some entry => { s with windows := put s.windows group.1 stop (entry.fold cfg record) }
  | none => { s with
      windows := put s.windows group.1 stop ((newEntry cfg stop group.2).fold cfg record)
      dueHeap := s.dueHeap.orderedInsert (· ≤ ·) (toLex (stop, group.1)) }

def record : State → Record → Verdict × State :=
  recordWith py cfg maxTs (finalize cfg) (add py cfg)

def apply : State → List Record → Option (List Emitted) × State := applyWith (record py cfg)

/-- `close`: with `flush`, emit every open window as partial and clear them. -/
def close (s : State) (flush : Bool) : Option (List Emitted) × State :=
  if ¬flush ∨ s.windows.entries.isEmpty then (some [], s)
  else
    match (pairs s.windows).mapM fun w => emitWindow cfg false w.1.1 w.2 with
    | some emitted => (some emitted, { s with windows := ∅, dueHeap := [] })
    | none => (none, s)

/-- The state as JSON: the keys of the windows become text. -/
structure Blob where
  maxTs : Option ℚ
  windows : List (String × List (String × Entry))

def getState (s : State) : Blob :=
  ⟨s.maxTs, s.windows.entries.map fun g => (g.1, g.2.entries.map fun w => (w.1.repr, w.2))⟩

def setState (blob : Blob) : Option State :=
  (restoreWindows blob.windows).map fun windows => ⟨blob.maxTs, windows, rebuildDueHeap windows⟩

end State
end Tram.WindowAggregate
