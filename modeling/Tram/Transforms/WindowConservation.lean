import Tram.Lib.Run
import Tram.Transforms.WindowRecords

/-! # No sample lost, none counted twice

Any sequence of batches, flushes and restarts from a fresh transform. A restart exports the state,
writes it as JSON and restores it, which succeeds unless the windows are absurdly wide. -/

namespace Tram.WindowAggregate

inductive Call where
  | apply (records : List Record)
  | close (flush : Bool)
  | restart

/-- The transform, all it has emitted, and the records it took that were not late. -/
structure History where
  state : State
  emitted : List Emitted
  counted : Nat

namespace History

variable (py : Python) (cfg : Config)

def init : History := ⟨State.init, [], 0⟩

def step (h : History) : Call → History
  | .apply records =>
    let r := h.state.apply py cfg records
    ⟨r.2, h.emitted ++ r.1.getD [], h.counted + h.state.nonLate py cfg records⟩
  | .close flush =>
    let r := h.state.close cfg flush
    { h with state := r.2, emitted := h.emitted ++ r.1.getD [] }
  | .restart =>
    match State.setState h.state.getState with
    | some s => { h with state := s }
    | none => h

def Returns (h : History) : Call → Prop
  | .apply records => (h.state.apply py cfg records).1.isSome
  | _ => True

instance (h : History) (call : Call) : Decidable (h.Returns py cfg call) :=
  match call with
  | .apply records => inferInstanceAs (Decidable ((h.state.apply py cfg records).1.isSome = true))
  | .close _ => .isTrue True.intro
  | .restart => .isTrue True.intro

variable {py cfg}

theorem sound_step {h : History} {call : Call} (hs : Sound cfg h.state h.emitted h.counted)
    (hret : h.Returns py cfg call) :
    Sound cfg (h.step py cfg call).state (h.step py cfg call).emitted (h.step py cfg call).counted := by
  cases call with
  | apply records =>
    obtain ⟨out, hout⟩ := Option.isSome_iff_exists.mp hret
    simp only [step, hout, Option.getD_some]
    exact hs.apply hout
  | close flush => exact hs.close flush
  | restart =>
    unfold step
    cases hset : State.setState h.state.getState with
    | none => exact hs
    | some s => exact hs.restart hset

theorem sound_exec {calls : List Call}
    (hret : Run.AllSteps (step py cfg) (Returns py cfg) init calls) :
    let h := Run.exec (step py cfg) init calls
    Sound cfg h.state h.emitted h.counted :=
  Run.AllSteps.invariant (I := fun h : History => Sound cfg h.state h.emitted h.counted)
    (fun _ _ hs hcall => sound_step hs hcall) Sound.init hret

theorem counted_exec (calls : List Call) :
    let h := Run.exec (step py cfg) init calls
    AllCounted py cfg h.state.windows ∧ ∀ em ∈ h.emitted, Emerges py cfg em := by
  refine Run.exec_invariant (I := fun h : History => AllCounted py cfg h.state.windows ∧
    ∀ em ∈ h.emitted, Emerges py cfg em) ?_ ⟨.empty, fun _ hem => by cases hem⟩ calls
  rintro h call ⟨hwindows, hemitted⟩
  cases call with
  | apply records =>
    obtain ⟨hnext, hout⟩ := hwindows.apply records
    exact ⟨hnext, List.forall_mem_append.mpr ⟨hemitted, hout⟩⟩
  | close flush =>
    obtain ⟨hnext, hout⟩ := hwindows.close flush
    exact ⟨hnext, List.forall_mem_append.mpr ⟨hemitted, hout⟩⟩
  | restart =>
    unfold step
    cases hset : State.setState h.state.getState with
    | none => exact ⟨hwindows, hemitted⟩
    | some s =>
      refine ⟨fun key stop entry he => ?_, hemitted⟩
      rw [(restored hset).look] at he
      exact hwindows key stop entry he

end History

open List History

/-- After any batches that return, flushes and restarts: the records that were not late are the
samples emitted and those in open windows; no window is emitted as complete twice; every open window
ends after the watermark and is once in the due heap; and the exported state can be restored. -/
theorem windows_conserve (py : Python) (cfg : Config) (calls : List Call)
    (hret : Run.AllSteps (step py cfg) (Returns py cfg) init calls) :
    let h := Run.exec (step py cfg) init calls
    h.counted = (h.emitted.map (·.sampleCount)).sum + h.state.openSamples ∧
    (∀ key stop, (h.emitted.countP fun em =>
      em.windowComplete ∧ em.groupKey = key ∧ em.windowEnd = stop) ≤ 1) ∧
    (∀ key (stop : Int), (Nested.look h.state.windows key stop).isSome →
      ∃ m, h.state.maxTs = some m ∧ m - cfg.allowedLatenessSeconds < stop) ∧
    (∀ key stop, h.state.dueHeap.count (toLex (stop, key)) =
      if (Nested.look h.state.windows key stop).isSome then 1 else 0) ∧
    (cfg.windowSeconds < 10 ^ 4299 → (State.setState h.state.getState).isSome) := by
  intro h
  have hs := sound_exec hret
  refine ⟨hs.balance, fun key stop => ?_, hs.ahead, fun key stop => ?_,
    (counted_exec calls).1.setState_getState⟩
  · have honce := nodup_iff_count_le_one.mp hs.once (key, stop)
    rw [count, completed, countP_map, countP_filter] at honce
    refine le_trans (countP_mono_left fun em _ hem => ?_) honce
    simpa [and_comm, and_assoc, Prod.ext_iff] using hem
  · split_ifs with hopen
    · exact count_eq_one_of_mem hs.indexed.nodup ((hs.indexed.mem key stop).mpr hopen)
    · exact count_eq_zero.mpr fun hin => hopen ((hs.indexed.mem key stop).mp hin)

def plainPython : Python where
  parseTimestamp
    | .int n => DateTime.fromTimestamp? n
    | _ => none
  str
    | .str s => s
    | _ => "?"

def tenSeconds : Config where
  windowSeconds := 10
  allowedLatenessSeconds := 0
  timestampFields := [["t"]]
  groupBy := [["host"]]
  operations := [⟨"n", .count, ["host"]⟩]
  window_pos := by decide
  lateness_nonneg := by decide

def sampleAt (host : String) (t : Int) : Record := [("t", .int t), ("host", .str host)]

theorem windows_conserve_flushed :
    let calls := [Call.apply [sampleAt "a" 1, sampleAt "b" 2], .close true, .restart,
      .apply [sampleAt "a" 3, sampleAt "b" 12, sampleAt "a" 4], .close true]
    let h := Run.exec (step plainPython tenSeconds) init calls
    h.counted = 4 ∧ h.counted = (h.emitted.map (·.sampleCount)).sum + h.state.openSamples := by
  intro calls h
  have hret : Run.AllSteps (step plainPython tenSeconds) (Returns plainPython tenSeconds)
      init calls :=
    ⟨by decide +kernel, True.intro, True.intro, by decide +kernel, True.intro, True.intro⟩
  exact ⟨by decide +kernel, (windows_conserve plainPython tenSeconds calls hret).1⟩

end Tram.WindowAggregate
