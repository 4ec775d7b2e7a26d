import Tram.Executor.Sink
import Tram.Transforms.Stateless

/-! # The global transform chain

`_apply_global_transforms` gives each record of a chunk to the whole chain as a list of its own. For
the transforms that look at one record at a time that is the chain on the chunk. For deduplicate,
aggregate, sort and limit it is not: they never see two records of the chunk together. -/

namespace Tram.Executor

open List Stateless

def ofBuiltin (t : Builtin) : Transform Record := fun now records =>
  (t.apply (records.map (now, ·))).map fun rows => rows.map (·.2)

/-- The records from the nth on with the moments at which they are evaluated. -/
def timed (moment : Nat → Nat) : Nat → List Record → List Row
  | _, [] => []
  | n, record :: records => (moment n, record) :: timed moment (n + 1) records

variable {records : List Record} {rows : List Row} {ts : List Builtin}

theorem retimed {now : Nat} (h : Inherits (records.map (now, ·)) rows) :
    (rows.map (·.2)).map (now, ·) = rows := by
  rw [map_map]
  refine (map_congr_left fun row hrow => ?_).trans (map_id rows)
  obtain ⟨source, hsource, hmoment⟩ := h row hrow
  obtain ⟨record, -, rfl⟩ := mem_map.mp hsource
  exact Prod.ext hmoment rfl

theorem applyTransforms_ofBuiltin {now : Nat} (records : List Record)
    (h : chain ts (records.map (now, ·)) = .ok rows) :
    applyTransforms now (ts.map ofBuiltin) records = .ok (rows.map (·.2)) := by
  induction ts generalizing records with
  | nil =>
    cases h
    simp [applyTransforms]
  | cons t ts ih =>
    obtain ⟨mid, hmid, h⟩ := Traverse.bind_eq_ok.mp h
    have hcall : ofBuiltin t now records = .ok (mid.map (·.2)) := by
      rw [ofBuiltin, hmid]
      rfl
    rw [map_cons, applyTransforms, hcall]
    exact ih _ (by rw [retimed (Builtin.inherits hmid)]; exact h)

theorem applyGlobalTransforms_rows (p : Pipeline Record) (c : Call) (ts : List Builtin) {n : Nat}
    {outs : List (List Row)} (h : Forall₂ (fun row out => chain ts [row] = .ok out)
      (timed c.answers.transformAt n records) outs) (s : State Record) :
    applyGlobalTransforms p c (ts.map ofBuiltin) n records s =
      (.ok (outs.flatten.map (·.2)), s) := by
  induction records generalizing n outs with
  | nil =>
    cases h
    rfl
  | cons record records ih =>
    obtain ⟨out, rest, hout, hrest, rfl⟩ := forall₂_cons_left_iff.mp h
    rw [applyGlobalTransforms, applyTransforms_ofBuiltin [record] hout]
    dsimp only
    rw [Procedure.bind_run_ok (ih hrest)]
    simp [Procedure.pure_run]

theorem timed_length (moment : Nat → Nat) (n : Nat) (records : List Record) :
    (timed moment n records).length = records.length := by
  induction records generalizing n with
  | nil => rfl
  | cons record records ih => exact congrArg (· + 1) (ih (n + 1))

theorem chain_rows {out : List Row} (hts : (∀ t ∈ ts, t.crossRecord = false) ∨ rows.length ≤ 1)
    (h : chain ts rows = .ok out) :
    ∃ outs, Forall₂ (fun row o => chain ts [row] = .ok o) rows outs ∧ out = outs.flatten := by
  rcases hts with hts | hshort
  · exact (distributes_chain hts).singletons h
  · match rows, hshort with
    | [], _ => exact ⟨[], .nil, eq_nil_of_chain_nil h⟩
    | [row], _ => exact ⟨[out], .cons h .nil, by simp⟩

/-- For every chain of built-in stateless transforms and every chunk: if the chain raises on no
record alone, the survivors are what it makes of each record alone, in order. They are what it makes
of the whole list wherever that raises nothing either, if none of the transforms is cross-record, or
if the chunk has no two records. -/
theorem global_chain_per_record (p : Pipeline Record) (c : Call) (ts : List Builtin)
    (records : List Record) (s : State Record) :
    (∀ outs, Forall₂ (fun row out => chain ts [row] = .ok out)
        (timed c.answers.transformAt 0 records) outs →
      applyGlobalTransforms p c (ts.map ofBuiltin) 0 records s =
        (.ok (outs.flatten.map (·.2)), s)) ∧
    ((∀ t ∈ ts, t.crossRecord = false) ∨ records.length ≤ 1 →
      ∀ out, chain ts (timed c.answers.transformAt 0 records) = .ok out →
        applyGlobalTransforms p c (ts.map ofBuiltin) 0 records s = (.ok (out.map (·.2)), s)) := by
  refine ⟨fun outs h => applyGlobalTransforms_rows p c ts h s, fun hts out h => ?_⟩
  obtain ⟨outs, houts, rfl⟩ := chain_rows (hts.imp_right (timed_length _ 0 records).trans_le) h
  exact applyGlobalTransforms_rows p c ts houts s

/-- A pipeline without sinks: what it does to a chunk is up to its transforms. -/
def transforming (ts : List Builtin) : Pipeline Record where
  name := "p"
  onError := .abort
  dlqSink := true
  parallelSinks := false
  transforms := ts.map ofBuiltin
  sinks := []
  lookupField _ _ := ""
  dlqSink_of_dlq _ := rfl

def tagged : List Builtin :=
  [.recordWise default (.explode ["tags"] none true), .recordWise default (.rename [(["tags"], ["tag"])])]

theorem global_chain_per_record_tags :
    applyGlobalTransforms (transforming tagged) ⟨⟨none, true⟩, .quiet⟩ (tagged.map ofBuiltin) 0
      [[("tags", .arr [.int 1, .int 2])], [("tags", .arr [.int 3])]] State.new =
        (.ok [[("tag", .int 1)], [("tag", .int 2)], [("tag", .int 3)]], State.new) :=
  (global_chain_per_record (transforming tagged) ⟨⟨none, true⟩, .quiet⟩ tagged
    [[("tags", .arr [.int 1, .int 2])], [("tags", .arr [.int 3])]] State.new).2
    (.inl (forall_mem_cons.mpr ⟨rfl, forall_mem_singleton.mpr rfl⟩))
    [(0, [("tag", .int 1)]), (0, [("tag", .int 2)]), (0, [("tag", .int 3)])] rfl

/-- Two records pass a limit of one, which lets through one of the two as a list. -/
theorem limit_passes_both :
    (chain [.limit 1 Nat.one_pos] (timed (fun _ => 0) 0 [[("a", .int 1)], [("a", .int 2)]])).map
        (·.map (·.2)) = .ok [[("a", .int 1)]] ∧
      applyGlobalTransforms (transforming [.limit 1 Nat.one_pos]) ⟨⟨none, true⟩, .quiet⟩
        ([.limit 1 Nat.one_pos].map ofBuiltin) 0 [[("a", .int 1)], [("a", .int 2)]] State.new =
          (.ok [[("a", .int 1)], [("a", .int 2)]], State.new) :=
  ⟨rfl, rfl⟩

end Tram.Executor
