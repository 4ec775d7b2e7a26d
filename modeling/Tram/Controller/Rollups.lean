import Tram.Interfaces
import Tram.Lib.DateTime
import Tram.Lib.Run

/-! # History rows of a standalone stream

A stats tick that sees activity closes a segment: it records a row with what the counters have
grown by since the last boundary, and moves the boundary. A quiet tick, and every tick after
`_STREAM_ROLLUP_ROWS_MAX` rows, leaves the boundary where it is, so that the next row makes up
for it. -/

namespace Tram.Controller

open List

/-- The keys of `_segment_delta`. -/
inductive Counter
  | recordsIn | recordsOut | recordsSkipped | dlqCount | bytesIn | bytesOut

/-- The cumulative counters of a stream and the errors of its current window. -/
structure Snapshot where
  counters : Counter → Nat
  errorsLastWindow : List String

structure RunResult where
  runId : String
  pipelineName : String
  status : RunStatus
  startedAt : DateTime
  finishedAt : DateTime
  counters : Counter → Int
  error : Option String
  nodeId : String
  errors : List String

/-- A `_LocalRun` whose `schedule_type` is "stream". -/
structure LocalRun where
  runId : String
  pipelineName : String
  startedAt : DateTime
  /-- `none` is the empty dict. -/
  lastRollup : Option (Counter → Nat) := none
  lastRollupAt : Option DateTime := none
  rollupRows : Nat := 0

def streamRollupRowsMax : Nat := 500

def maxRunHistory : Nat := 500

def segmentDelta (snapshot : Counter → Nat) : Option (Counter → Nat) → Counter → Int
  | some lastRollup => fun k => snapshot k - lastRollup k
  | none => fun k => snapshot k

namespace LocalRun

def segmentRow (run : LocalRun) (nodeId runId : String) (now : DateTime) (snapshot : Snapshot)
    (status : RunStatus) (error : Option String) : RunResult :=
  { runId, pipelineName := run.pipelineName, status
    startedAt := run.lastRollupAt.getD run.startedAt
    finishedAt := now
    counters := segmentDelta snapshot.counters run.lastRollup
    error, nodeId, errors := snapshot.errorsLastWindow }

/-- The run after `_maybe_record_stream_rollup`, and the row it records. -/
def maybeRecordStreamRollup (run : LocalRun) (nodeId : String) (now : DateTime) (snapshot : Snapshot) :
    LocalRun × Option RunResult :=
  if streamRollupRowsMax ≤ run.rollupRows then (run, none)
  else
    let delta := segmentDelta snapshot.counters run.lastRollup
    let activity := delta .recordsIn + delta .recordsOut + delta .recordsSkipped + delta .dlqCount
    if activity ≤ 0 ∧ snapshot.errorsLastWindow = [] then (run, none)
    else
      ({ run with lastRollup := some snapshot.counters, lastRollupAt := some now,
                  rollupRows := run.rollupRows + 1 },
        run.segmentRow nodeId (run.runId ++ "-seg" ++ toString (run.rollupRows + 1)) now snapshot
          .success none)

def finalStreamRow (run : LocalRun) (nodeId : String) (now : DateTime) (snapshot : Snapshot)
    (crashed : Bool) (error : Option String) : RunResult :=
  run.segmentRow nodeId run.runId now snapshot (if crashed then .failed else .success)
    (if crashed then error else none)

end LocalRun

structure Reading where
  now : DateTime
  snapshot : Snapshot
  /-- Whether the pipeline still exists when the row is committed. -/
  registered : Bool

inductive StreamEvent
  | tick (reading : Reading)
  | finish (reading : Reading) (crashed : Bool) (error : Option String)

structure Lifecycle where
  run : LocalRun
  /-- Whether the run is in `_local_active_stats`. -/
  active : Bool := true
  rows : List RunResult := []
  /-- The rows of the pipeline in the database. -/
  history : List RunResult := []
  /-- `run_history` of the pipeline, the newest row first. -/
  recent : List RunResult := []

namespace Lifecycle

variable {nodeId : String} {s : Lifecycle} {R : DateTime → DateTime → Prop} {C : Prop}

def commitStreamRow (s : Lifecycle) (registered : Bool) (row : RunResult) : Lifecycle :=
  { s with
    rows := s.rows ++ [row]
    history := if registered then s.history ++ [row] else s.history
    recent := if registered then (row :: s.recent).take maxRunHistory else s.recent }

/-- A tick is the turn of this run in `_emit_local_stats_once`, from where it holds the lock. -/
def step (nodeId : String) (s : Lifecycle) : StreamEvent → Lifecycle
  | .tick reading =>
    if s.active then
      let (run, row?) := s.run.maybeRecordStreamRollup nodeId reading.now reading.snapshot
      row?.elim { s with run } ({ s with run }.commitStreamRow reading.registered)
    else s
  | .finish reading crashed error =>
    if s.active then
      { s with active := false }.commitStreamRow reading.registered
        (s.run.finalStreamRow nodeId reading.now reading.snapshot crashed error)
    else s

theorem tick_cases (h : s.active = true) (reading : Reading) :
    s.step nodeId (.tick reading) = s ∨ ∃ runId n, s.step nodeId (.tick reading) =
      { s with run := { s.run with lastRollup := some reading.snapshot.counters,
                                   lastRollupAt := some reading.now, rollupRows := n } }.commitStreamRow
        reading.registered
        (s.run.segmentRow nodeId runId reading.now reading.snapshot .success none) := by
  simp only [step, if_pos h, LocalRun.maybeRecordStreamRollup]
  split_ifs
  · exact .inl rfl
  · exact .inl rfl
  · exact .inr ⟨_, _, rfl⟩

/-- Once the stream has ended, a tick that had read its stats before records no row. -/
theorem exec_ended (h : s.active = false) (later : List StreamEvent) :
    Run.exec (step nodeId) s later = s := by
  refine Run.exec_invariant (I := (· = s)) ?_ rfl later
  rintro _ event rfl
  cases event <;> simp [step, h]

/-- The rows make up the counters `base` of the last boundary, one after the other. -/
structure AddsUp (R : DateTime → DateTime → Prop) (C : Prop) (base : Counter → Nat)
    (boundary : DateTime) (rows history recent : List RunResult) : Prop where
  sum : ∀ k, (rows.map (·.counters k)).sum = base k
  nonneg : ∀ row ∈ rows, ∀ k, 0 ≤ row.counters k
  chain : rows.IsChain fun a b => a.finishedAt = b.startedAt
  ends : ∀ row ∈ rows.getLast?, row.finishedAt = boundary
  ranges : ∀ row ∈ rows, R row.startedAt row.finishedAt
  committed : C → history = rows ∧ recent = rows.reverse.take maxRunHistory

theorem AddsUp.concat {run : LocalRun} {rows history recent : List RunResult} {reading : Reading}
    (h : AddsUp R C (run.lastRollup.getD 0) (run.lastRollupAt.getD run.startedAt) rows history recent)
    (hle : run.lastRollup.getD 0 ≤ reading.snapshot.counters)
    (hnow : R (run.lastRollupAt.getD run.startedAt) reading.now) (hreg : C → reading.registered = true)
    {row : RunResult} {runId : String} {status : RunStatus} {error : Option String}
    (hrow : row = run.segmentRow nodeId runId reading.now reading.snapshot status error) :
    AddsUp R C reading.snapshot.counters reading.now (rows ++ [row])
      (if reading.registered then history ++ [row] else history)
      (if reading.registered then (row :: recent).take maxRunHistory else recent) := by
  have hdelta (k : Counter) :
      row.counters k = reading.snapshot.counters k - (run.lastRollup.getD 0 k : Nat) := by
    rw [hrow, LocalRun.segmentRow]
    cases run.lastRollup <;> simp [segmentDelta]
  constructor
  · intro k
    rw [map_append, sum_append, h.sum k]
    simp [hdelta]
  · intro other hother k
    rcases mem_append.1 hother with hother | hother
    · exact h.nonneg other hother k
    · have hk : run.lastRollup.getD 0 k ≤ reading.snapshot.counters k := hle k
      rw [mem_singleton.1 hother, hdelta]
      omega
  · refine isChain_append.2 ⟨h.chain, .singleton _, fun other hother next hnext => ?_⟩
    rw [h.ends other hother, ← Option.some.inj hnext, hrow]
    rfl
  · simp [hrow, LocalRun.segmentRow]
  · intro other hother
    rcases mem_append.1 hother with hother | hother
    · exact h.ranges other hother
    · rw [mem_singleton.1 hother, hrow]
      exact hnow
  · intro hc
    rw [if_pos (hreg hc), if_pos (hreg hc), (h.committed hc).1, (h.committed hc).2, reverse_append]
    exact ⟨rfl, by simp [maxRunHistory, take_take]⟩

/-- The end of the stream makes up for whatever boundary the ticks have left behind. -/
theorem addsUp_finish {ticks : List Reading} {last : Reading} (crashed : Bool) (error : Option String)
    (later : List StreamEvent) (hs : s.active = true)
    (h : AddsUp R C (s.run.lastRollup.getD 0) (s.run.lastRollupAt.getD s.run.startedAt) s.rows
      s.history s.recent)
    (hbase : ∀ r ∈ ticks ++ [last], s.run.lastRollup.getD 0 ≤ r.snapshot.counters ∧
      R (s.run.lastRollupAt.getD s.run.startedAt) r.now)
    (hmono : (ticks ++ [last]).Pairwise fun a b =>
      a.snapshot.counters ≤ b.snapshot.counters ∧ R a.now b.now)
    (hreg : ∀ r ∈ ticks ++ [last], C → r.registered = true) :
    let s' := Run.exec (step nodeId) s (ticks.map .tick ++ .finish last crashed error :: later)
    AddsUp R C last.snapshot.counters last.now s'.rows s'.history s'.recent := by
  induction ticks generalizing s with
  | nil =>
    obtain ⟨hle, hnow⟩ := hbase last mem_cons_self
    simp only [map_nil, nil_append, Run.exec_cons, step, if_pos hs]
    rw [exec_ended rfl]
    exact h.concat hle hnow (hreg last mem_cons_self) rfl
  | cons tick ticks ih =>
    rw [cons_append, pairwise_cons] at hmono
    obtain ⟨hle, hnow⟩ := hbase tick mem_cons_self
    have hreg' (r : Reading) (hr : r ∈ ticks ++ [last]) := hreg r (mem_cons_of_mem _ hr)
    rw [map_cons, cons_append, Run.exec_cons]
    rcases tick_cases hs tick with heq | ⟨runId, n, heq⟩ <;> rw [heq]
    · exact ih hs h (fun r hr => hbase r (mem_cons_of_mem _ hr)) hmono.2 hreg'
    · exact ih hs (h.concat hle hnow (hreg tick mem_cons_self) rfl) hmono.1 hmono.2 hreg'

end Lifecycle

open Lifecycle in
/-- Whatever its ticks see, the rows of a stream that has ended make up its counters, none of them
negative, and each begins where the one before ends and does not end before it begins unless the
clock goes back. Unless the pipeline is deleted, all rows are in the database if there is one, and
the last 500 in memory. -/
theorem stream_rows_add_up (nodeId runId pipelineName : String) (startedAt : DateTime)
    (ticks : List Reading) (last : Reading) (crashed : Bool) (error : Option String)
    (later : List StreamEvent)
    (hmono : (ticks ++ [last]).Pairwise fun a b => a.snapshot.counters ≤ b.snapshot.counters) :
    let s := Run.exec (step nodeId) { run := { runId, pipelineName, startedAt } }
      (ticks.map .tick ++ .finish last crashed error :: later)
    (∀ k, (s.rows.map (·.counters k)).sum = last.snapshot.counters k) ∧
      (∀ row ∈ s.rows, ∀ k, 0 ≤ row.counters k) ∧
      s.rows.IsChain (fun a b => a.finishedAt = b.startedAt) ∧
      ((startedAt :: (ticks ++ [last]).map (·.now)).Pairwise (· ≤ ·) →
        ∀ row ∈ s.rows, row.startedAt ≤ row.finishedAt) ∧
      ((∀ r ∈ ticks ++ [last], r.registered = true) →
        s.history = s.rows ∧ s.recent = s.rows.reverse.take maxRunHistory) := by
  intro s
  have key {R : DateTime → DateTime → Prop} (hstart : ∀ r ∈ ticks ++ [last], R startedAt r.now)
      (hclock : (ticks ++ [last]).Pairwise fun a b => R a.now b.now) :
      AddsUp R (∀ r ∈ ticks ++ [last], r.registered = true) last.snapshot.counters last.now s.rows
        s.history s.recent :=
    addsUp_finish crashed error later rfl
      ⟨by simp, by simp, .nil, by simp, by simp, fun _ => ⟨rfl, rfl⟩⟩
      (fun r hr => ⟨fun _ => Nat.zero_le _, hstart r hr⟩) (hmono.and hclock) fun r hr h => h r hr
  have h := key (R := fun _ _ => True) (fun _ _ => trivial) (hmono.imp fun _ => trivial)
  refine ⟨h.sum, h.nonneg, h.chain, fun hclock => ?_, h.committed⟩
  rw [pairwise_cons, forall_mem_map, pairwise_map] at hclock
  exact (key hclock.1 hclock.2).ranges

theorem rows_add_up_over_quiet_tick :
    let reading (n : Nat) : Reading := ⟨⟨0, by decide, by decide⟩, ⟨fun _ => n, []⟩, true⟩
    let s := Run.exec (Lifecycle.step "n") { run := ⟨"r", "p", (reading 0).now, none, none, 0⟩ }
      [.tick (reading 2), .tick (reading 2), .finish (reading 5) false none]
    s.rows.length = 2 ∧ ∀ k, (s.rows.map (·.counters k)).sum = 5 :=
  ⟨by decide, (stream_rows_add_up _ _ _ _ [_, _] _ _ _ [] (by simp [Pi.le_def])).1⟩

end Tram.Controller
