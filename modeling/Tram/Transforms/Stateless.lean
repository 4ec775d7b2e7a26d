import Tram.Lib.Rowwise
import Tram.Transforms.RecordWise
import Tram.Transforms.WindowAggregate

/-! # The stateless transforms

Four of them look at the list of records as a whole: deduplicate, aggregate, sort and limit. -/

namespace Tram

open List

/-- A hashable value, up to `==`. -/
inductive Scalar where
  | none
  | num (q : ℚ)
  | str (s : String)
  deriving DecidableEq

/-- The value as (part of) a dictionary key, with the message of the `TypeError`. -/
def Json.hashed : Json → Except String Scalar
  | .null => .ok .none
  | .str s => .ok (.str s)
  | .arr _ => .error "unhashable type: 'list'"
  | .obj _ => .error "unhashable type: 'dict'"
  | .bool b => .ok (.num (if b then 1 else 0))
  | .int n => .ok (.num n)
  | .float q => .ok (.num q)

namespace Record

/-- `tuple(record.get(f) for f in fields)` as a dictionary key. -/
def keyOf (fields : List String) (r : Record) : Except String (List Scalar) :=
  fields.mapM fun field => (r.get field).hashed

end Record

namespace Stateless

/-- A record with the moment at which it is evaluated: an expression may ask for the time or for a
random number. -/
abbrev Row := Nat × Record

/-- A row that is made from another is evaluated at the same moment. -/
def Pass.apply (pass : Pass) (rows : List Row) : Except String (List Row) :=
  match pass.refuses with
  | some text => .error text
  | none => Rowwise.each (fun row => (pass.row row.1 row.2).map fun out => out.map (row.1, ·)) rows

def applyPasses : List Pass → List Row → Except String (List Row)
  | [], rows => .ok rows
  | pass :: passes, rows => (pass.apply rows).bind (applyPasses passes)

inductive Keep where
  | first | last
  deriving DecidableEq, Repr

/-- The index that is kept for each key, from the ith key on. -/
def seenIndices (keep : Keep) : Nat → Dict (List Scalar) Nat → List (List Scalar) → Dict (List Scalar) Nat
  | _, seen, [] => seen
  | i, seen, key :: keys =>
    match keep with
    | .first => seenIndices keep (i + 1) (Dict.setdefault seen key i) keys
    | .last => seenIndices keep (i + 1) (seen.insert key i) keys

def deduplicate (fields : List String) (keep : Keep) (rows : List Row) : Except String (List Row) :=
  (rows.mapM fun row : Row => row.2.keyOf fields).map fun keys =>
    let kept := (seenIndices keep 0 ∅ keys).entries.map (·.2)
    (rows.zipIdx.filter fun row => kept.contains row.2).map (·.1)

open WindowAggregate (Op)

structure Operation where
  outField : String
  op : Op
  srcField : String

/-- The groups in the order of their first records. -/
def addToGroup (key : List Scalar) (row : Row) :
    List (List Scalar × List Row) → List (List Scalar × List Row)
  | [] => [(key, [row])]
  | group :: groups =>
    if group.1 = key then (key, group.2 ++ [row]) :: groups else group :: addToGroup key row groups

/-- `sum`, which starts from the integer 0. -/
def sumOf (numeric : List Json) : Json :=
  let total := (numeric.filterMap Json.numeric?).sum
  if numeric.all fun v => v matches .int _ | .bool _ then .int total.num else .float total

/-- `min` and `max` keep the first of equal values. -/
def bestOf (better : ℚ → ℚ → Bool) : List Json → Json
  | [] => .null
  | v :: vs =>
    vs.foldl (fun best v =>
      match v.numeric?, best.numeric? with
      | some x, some y => if better x y then v else best
      | _, _ => best) v

def operate (op : Op) (values : List Json) : Json :=
  let numeric := values.filter fun v => v.numeric?.isSome
  match op with
  | .sum => if numeric = [] then .null else sumOf numeric
  | .avg =>
    if numeric = [] then .null
    else .float ((numeric.filterMap Json.numeric?).sum / numeric.length)
  | .min => bestOf (· < ·) numeric
  | .max => bestOf (· > ·) numeric
  | .count => .int (values.filter fun v => !v.isNull).length
  | .first => values.head?.getD .null
  | .last => values.getLast?.getD .null

/-- The output record of a group, evaluated at the moment of its first record. -/
def collapse (groupBy : List String) (operations : List Operation) : List Row → List Row
  | [] => []
  | first :: rest =>
    let fields : Record := Record.update [] (groupBy.map fun key => (key, first.2.get key))
    [(first.1, Record.update fields (operations.map fun o =>
      (o.outField, operate o.op ((first :: rest).map fun row => row.2.get o.srcField))))]

def aggregate (groupBy : List String) (operations : List Operation) (rows : List Row) :
    Except String (List Row) :=
  (rows.mapM fun row : Row => row.2.keyOf groupBy).map fun keys =>
    let groups := (keys.zip rows).foldl (fun groups entry => addToGroup entry.1 entry.2 groups) []
    groups.flatMap fun group => collapse groupBy operations group.2

/-- The values a record is sorted by; a missing one sorts before all others. -/
def sortKey (fields : List String) (r : Record) : List (Option Json) :=
  fields.map fun field => if (r.get field).isNull then none else some (r.get field)

def compareKeys? : List (Option Json) → List (Option Json) → Option Ordering
  | none :: xs, none :: ys => compareKeys? xs ys
  | none :: _, some _ :: _ => some .lt
  | some _ :: _, none :: _ => some .gt
  | some x :: xs, some y :: ys =>
    match x.compare? y with
    | some .eq => compareKeys? xs ys
    | other => other
  | _, _ => some .eq

/-- `sorted` compares every two records that end up next to each other, so it raises if two of the
records cannot be compared. It is stable, in either direction. -/
def sort (fields : List String) (reverse : Bool) (rows : List Row) : Except String (List Row) :=
  let order (a b : Row) := compareKeys? (sortKey fields a.2) (sortKey fields b.2)
  if rows.all fun a => rows.all fun b => (order a b).isSome then
    .ok (rows.mergeSort fun a b => (if reverse then order b a else order a b) ≠ some .gt)
  else .error "sort: incomparable values"

inductive Builtin where
  | recordWise (py : Library) (transform : RowTransform)
  | deduplicate (fields : List String) (keep : Keep)
  | aggregate (groupBy : List String) (operations : List Operation)
  | sort (fields : List String) (reverse : Bool)
  | limit (count : Nat) (pos : 0 < count)

namespace Builtin

def apply : Builtin → List Row → Except String (List Row)
  | .recordWise py transform, rows => applyPasses (passes py transform) rows
  | .deduplicate fields keep, rows => Stateless.deduplicate fields keep rows
  | .aggregate groupBy operations, rows => Stateless.aggregate groupBy operations rows
  | .sort fields reverse, rows => Stateless.sort fields reverse rows
  | .limit count _, rows => .ok (rows.take count)

/-- The transform looks at the list as a whole. -/
def crossRecord : Builtin → Bool
  | .recordWise _ _ => false
  | _ => true

end Builtin

def chain : List Builtin → List Row → Except String (List Row)
  | [], rows => .ok rows
  | t :: ts, rows => (t.apply rows).bind (chain ts)

open Rowwise
open Traverse (bind_eq_ok)

variable {ts : List Builtin} {out rows : List Row} {fields : List String} {t : Builtin}

theorem Pass.distributes (pass : Pass) : Distributes pass.apply := by
  cases hrefuses : pass.refuses with
  | some text =>
    rw [show pass.apply = fun _ => .error text from funext fun rows => by rw [Pass.apply, hrefuses]]
    exact distributes_error text
  | none =>
    rw [show pass.apply = each (fun row => (pass.row row.1 row.2).map fun out => out.map (row.1, ·)) from
      funext fun rows => by rw [Pass.apply, hrefuses]]
    exact distributes_each _

theorem distributes_applyPasses (passes : List Pass) : Distributes (applyPasses passes) := by
  induction passes with
  | nil => exact distributes_ok
  | cons pass passes ih => exact pass.distributes.bind ih

theorem Builtin.distributes (h : t.crossRecord = false) : Distributes t.apply := by
  cases t with
  | recordWise py transform => exact distributes_applyPasses _
  | deduplicate | aggregate | sort | limit => cases h

theorem distributes_chain (h : ∀ t ∈ ts, t.crossRecord = false) :
    Distributes (chain ts) := by
  induction ts with
  | nil => exact distributes_ok
  | cons t ts ih =>
    exact (Builtin.distributes (h t mem_cons_self)).bind
      (ih fun t' ht' => h t' (mem_cons_of_mem t ht'))

/-! ## The moments of the rows -/

/-- Every row of `out` is evaluated at the moment of a row of `rows`. -/
def Inherits (rows out : List Row) : Prop := ∀ row ∈ out, ∃ source ∈ rows, source.1 = row.1

theorem Inherits.trans {mid : List Row} (h : Inherits rows mid) (h' : Inherits mid out) :
    Inherits rows out := by
  intro row hrow
  obtain ⟨between, hbetween, hmoment⟩ := h' row hrow
  obtain ⟨source, hsource, hmoment'⟩ := h between hbetween
  exact ⟨source, hsource, hmoment'.trans hmoment⟩

theorem Inherits.of_subset (h : ∀ row ∈ out, row ∈ rows) : Inherits rows out :=
  fun row hrow => ⟨row, h row hrow, rfl⟩

theorem Pass.inherits {pass : Pass} (h : pass.apply rows = .ok out) :
    Inherits rows out := by
  intro row hrow
  unfold Pass.apply at h
  split at h
  · cases h
  · obtain ⟨source, hsource, made, hmade, hmem⟩ := mem_of_each h hrow
    refine ⟨source, hsource, ?_⟩
    cases hone : pass.row source.1 source.2 with
    | error e =>
      rw [hone] at hmade
      cases hmade
    | ok records =>
      rw [hone] at hmade
      cases hmade
      obtain ⟨record, -, rfl⟩ := mem_map.mp hmem
      rfl

theorem applyPasses_inherits {passes : List Pass} (h : applyPasses passes rows = .ok out) :
    Inherits rows out := by
  induction passes generalizing rows with
  | nil =>
    cases h
    exact .of_subset fun _ hrow => hrow
  | cons pass passes ih =>
    obtain ⟨mid, hmid, h⟩ := bind_eq_ok.mp h
    exact (Pass.inherits hmid).trans (ih h)

theorem map_eq_ok {ε α β : Type} {x : Except ε α} {f : α → β} {b : β} :
    x.map f = .ok b ↔ ∃ a, x = .ok a ∧ f a = b := by
  cases x <;> simp [Except.map]

theorem deduplicate_inherits {keep : Keep} (h : deduplicate fields keep rows = .ok out) :
    Inherits rows out := by
  obtain ⟨keys, -, rfl⟩ := map_eq_ok.mp h
  refine .of_subset fun row hrow => ?_
  obtain ⟨entry, hentry, rfl⟩ := mem_map.mp hrow
  exact fst_mem_of_mem_zipIdx (mem_filter.mp hentry).1

section

variable {groups : List (List Scalar × List Row)} {group : List Scalar × List Row} {r : Row}

theorem mem_addToGroup {key : List Scalar} {row : Row} (h : group ∈ addToGroup key row groups)
    (hr : r ∈ group.2) : r = row ∨ ∃ group' ∈ groups, r ∈ group'.2 := by
  induction groups with
  | nil =>
    rw [addToGroup, mem_singleton] at h
    subst h
    exact .inl (mem_singleton.mp hr)
  | cons first groups ih =>
    rw [addToGroup] at h
    split_ifs at h with hkey
    · rcases mem_cons.mp h with rfl | h
      · rcases mem_append.mp hr with hold | hnew
        · exact .inr ⟨first, mem_cons_self, hold⟩
        · exact .inl (mem_singleton.mp hnew)
      · exact .inr ⟨group, mem_cons_of_mem first h, hr⟩
    · rcases mem_cons.mp h with rfl | h
      · exact .inr ⟨group, mem_cons_self, hr⟩
      · rcases ih h with hnew | ⟨group', hgroup', hold⟩
        · exact .inl hnew
        · exact .inr ⟨group', mem_cons_of_mem first hgroup', hold⟩

theorem mem_groups {entries : List (List Scalar × Row)}
    (h : group ∈ entries.foldl (fun groups entry => addToGroup entry.1 entry.2 groups) groups)
    (hr : r ∈ group.2) : (∃ entry ∈ entries, entry.2 = r) ∨ ∃ group' ∈ groups, r ∈ group'.2 := by
  induction entries generalizing groups with
  | nil => exact .inr ⟨group, h, hr⟩
  | cons entry entries ih =>
    rcases ih h with ⟨entry', hentry', hrow⟩ | ⟨group', hgroup', hold⟩
    · exact .inl ⟨entry', mem_cons_of_mem entry hentry', hrow⟩
    · rcases mem_addToGroup hgroup' hold with hnew | hkept
      · exact .inl ⟨entry, mem_cons_self, hnew.symm⟩
      · exact .inr hkept

end

theorem aggregate_inherits {groupBy : List String} {operations : List Operation}
    (h : aggregate groupBy operations rows = .ok out) : Inherits rows out := by
  obtain ⟨keys, -, rfl⟩ := map_eq_ok.mp h
  intro row hrow
  obtain ⟨group, hgroup, hcollapsed⟩ := mem_flatMap.mp hrow
  cases hrows : group.2 with
  | nil =>
    rw [hrows] at hcollapsed
    cases hcollapsed
  | cons first rest =>
    rw [hrows, collapse, mem_singleton] at hcollapsed
    subst hcollapsed
    rcases mem_groups hgroup (r := first) (by rw [hrows]; exact mem_cons_self) with
      ⟨entry, hentry, rfl⟩ | ⟨group', hgroup', -⟩
    · exact ⟨entry.2, (of_mem_zip hentry).2, rfl⟩
    · cases hgroup'

theorem sort_inherits {reverse : Bool} (h : sort fields reverse rows = .ok out) : Inherits rows out := by
  unfold sort at h
  dsimp only at h
  split at h
  · cases h
    exact .of_subset fun row hrow => mem_mergeSort.mp hrow
  · cases h

theorem Builtin.inherits (h : t.apply rows = .ok out) : Inherits rows out := by
  cases t with
  | recordWise py transform => exact applyPasses_inherits h
  | deduplicate fields keep => exact deduplicate_inherits h
  | aggregate groupBy operations => exact aggregate_inherits h
  | sort fields reverse => exact sort_inherits h
  | limit count pos =>
    cases h
    exact .of_subset fun row hrow => mem_of_mem_take hrow

theorem chain_inherits (h : chain ts rows = .ok out) :
    Inherits rows out := by
  induction ts generalizing rows with
  | nil =>
    cases h
    exact .of_subset fun _ hrow => hrow
  | cons t ts ih =>
    obtain ⟨mid, hmid, h⟩ := bind_eq_ok.mp h
    exact (Builtin.inherits hmid).trans (ih h)

theorem eq_nil_of_chain_nil (h : chain ts [] = .ok out) : out = [] :=
  eq_nil_iff_forall_not_mem.mpr fun row hrow => by
    obtain ⟨source, hsource, -⟩ := chain_inherits h row hrow
    cases hsource

end Stateless
end Tram
