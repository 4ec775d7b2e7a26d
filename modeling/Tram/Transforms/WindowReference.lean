import Tram.Transforms.WindowConservation

/-! # The heap against a full scan

The reference keeps the open windows of all groups in one table and scans it after every record that
is not late. -/

namespace Tram.WindowAggregate

open List History

/-- The reference: the latest event time and all open windows. -/
structure Reference where
  maxTs : Option ℚ
  opened : Dict (String × Int) Entry

namespace Reference

variable (py : Python) (cfg : Config)

def init : Reference := ⟨none, ∅⟩

def latest (s : Reference) (ts : ℚ) : ℚ :=
  match s.maxTs with
  | some m => max m ts
  | none => ts

def due (s : Reference) (watermark : ℚ) : List ((String × Int) × Entry) :=
  (s.opened.entries.map fun w => (w.1, w.2)).filter fun w => (w.1.2 : ℚ) ≤ watermark

/-- The watermark moves to `m` less the lateness, what is due goes, and the record is folded in. -/
def advance (s : Reference) (r : Record) (m : ℚ) (stop : Int) : Reference :=
  let opened := Dict.retain s.opened fun k _ => ¬ (k.2 : ℚ) ≤ m - cfg.allowedLatenessSeconds
  let group := groupKey py cfg r
  let entry := (opened.lookup (group.1, stop)).getD (newEntry cfg stop group.2)
  ⟨some m, opened.insert (group.1, stop) (entry.fold cfg r)⟩

def record (s : Reference) (r : Record) : Option (List Emitted × Reference) := do
  let ts ← resolveTimestamp py cfg r
  let stop := windowEnd cfg ts
  if isLate cfg s.maxTs stop then return ([], s)
  let m := s.latest ts
  let out ← (s.due (m - cfg.allowedLatenessSeconds)).mapM fun w => emitWindow cfg true w.1.1 w.2
  return (out, s.advance py cfg r m stop)

def run (s : Reference) : List Record → Option (List Emitted × Reference)
  | [] => some ([], s)
  | r :: records => do
    let (out, s) ← s.record py cfg r
    let (rest, s) ← run s records
    return (out ++ rest, s)

end Reference

variable {py : Python} {cfg : Config}

structure Simulates (s : State) (ref : Reference) : Prop where
  maxTs : ref.maxTs = s.maxTs
  look : ∀ key stop, ref.opened.lookup (key, stop) = Nested.look s.windows key stop

variable {ref : Reference} {s : State} {out : List Emitted}

theorem Simulates.init : Simulates State.init Reference.init := ⟨rfl, fun _ _ => rfl⟩

theorem Reference.mem_due {watermark : ℚ} {key : String} {stop : Int} {entry : Entry} :
    ((key, stop), entry) ∈ ref.due watermark ↔
      ref.opened.lookup (key, stop) = some entry ∧ (stop : ℚ) ≤ watermark := by
  unfold due
  rw [mem_filter, mem_map, ← Dict.mem_entries]
  simp

theorem Reference.nodup_due (ref : Reference) (watermark : ℚ) : (ref.due watermark).Nodup := by
  refine Nodup.filter _ (ref.opened.nodupKeys.nodup.map ?_)
  rintro ⟨k, e⟩ ⟨k', e'⟩ heq
  cases heq
  rfl

theorem Simulates.latest_eq (h : Simulates s ref) (ts : ℚ) : ref.latest ts = latest s.maxTs ts := by
  unfold Reference.latest
  rw [h.maxTs]
  cases s.maxTs with
  | none => rfl
  | some m =>
    simp only [latest]
    split_ifs with hlt
    · exact max_eq_right hlt.le
    · exact max_eq_left (not_lt.mp hlt)

theorem Simulates.counted {s' : State} {r : Record} (hs : Simulates s ref) (hi : Indexed s)
    (h : s.record py cfg r = (.counted out, s')) :
    ∃ out' ref', ref.record py cfg r = some (out', ref') ∧ out'.Perm out ∧ Simulates s' ref' := by
  obtain ⟨ts, t, hts, hlate, hfin, rfl⟩ := record_counted h
  obtain ⟨-, hmax, hlook, dues, hdues, hin, hemits⟩ := hi.finalize hfin
  -- both sides found the same windows due
  have hperm : (ref.due (latest s.maxTs ts - cfg.allowedLatenessSeconds)).Perm dues := by
    refine (perm_ext_iff_of_nodup (ref.nodup_due _) hdues).mpr ?_
    rintro ⟨⟨key, stop⟩, entry⟩
    rw [Reference.mem_due, hin, hs.look]
  obtain ⟨out', hemits', hout⟩ := perm_comp_forall₂ hperm hemits
  have hkept : ∀ key (stop : Int), (Dict.retain ref.opened fun k _ =>
      ¬ (k.2 : ℚ) ≤ latest s.maxTs ts - cfg.allowedLatenessSeconds).lookup (key, stop) =
        Nested.look t.windows key stop := by
    intro key stop
    refine Option.ext fun entry => ?_
    rw [Dict.lookup_retain_eq_some, hs.look, hlook]
    split_ifs with hle <;> simp [hle]
  refine ⟨out', ref.advance py cfg r (latest s.maxTs ts) (windowEnd cfg ts), ?_, hout, ?_⟩
  · unfold Reference.record
    simp only [hts, hs.maxTs, hlate, hs.latest_eq, Traverse.mapM_eq_some_iff.mpr hemits',
      Option.bind_eq_bind, Option.bind_some, Bool.false_eq_true, if_false]
    rfl
  · refine ⟨by rw [State.add_maxTs, hmax]; rfl, fun key stop => ?_⟩
    rw [State.look_add, Reference.advance, Dict.lookup_insert_ite]
    simp only [hkept, Prod.mk.injEq, State.folded]

theorem Simulates.apply {records : List Record} {emitted : List Emitted} {n : Nat}
    (hs : Simulates s ref) (hsound : Sound cfg s emitted n)
    (h : (s.apply py cfg records).1 = some out) :
    ∃ out' ref', ref.run py cfg records = some (out', ref') ∧ out'.Perm out ∧
      Simulates (s.apply py cfg records).2 ref' := by
  unfold State.apply at h ⊢
  induction records generalizing s ref out emitted n with
  | nil =>
    cases h
    exact ⟨[], ref, rfl, .refl _, hs⟩
  | cons r records ih =>
    rw [applyWith] at h ⊢
    cases hr : s.record py cfg r with
    | mk verdict s' =>
      rw [hr] at h
      cases verdict with
      | raised => cases h
      | late =>
        obtain ⟨rfl, ts, hts, hlate⟩ := record_late hr
        obtain ⟨out', ref', hrun, hperm, hs'⟩ := ih hs hsound h
        refine ⟨out', ref', ?_, hperm, hs'⟩
        have hrec : ref.record py cfg r = some ([], ref) := by
          simp only [Reference.record, hts, hs.maxTs, hlate, Option.bind_eq_bind, Option.bind_some,
            if_true]
          rfl
        simp only [Reference.run, hrec, hrun, Option.bind_eq_bind, Option.bind_some]
        rfl
      | counted em =>
        simp only [Option.map_eq_some_iff] at h
        obtain ⟨rest, hrest, rfl⟩ := h
        obtain ⟨em', ref', hrec, hperm, hs'⟩ := hs.counted hsound.indexed hr
        obtain ⟨rest', ref'', hrun, hperm', hs''⟩ := ih hs' (hsound.counted hr) hrest
        refine ⟨em' ++ rest', ref'', ?_, hperm.append hperm', hs''⟩
        simp only [Reference.run, hrec, hrun, Option.bind_eq_bind, Option.bind_some]
        rfl

theorem Reference.run_append (ref : Reference) (l l' : List Record) :
    ref.run py cfg (l ++ l') = (do
      let (out, ref) ← ref.run py cfg l
      let (rest, ref) ← ref.run py cfg l'
      return (out ++ rest, ref)) := by
  induction l generalizing ref with
  | nil => simp [run]
  | cons r l ih => simp [run, ih, Option.bind_assoc, append_assoc]

def Call.records : Call → List Record
  | .apply records => records
  | _ => []

/-- A batch, or a restart between batches. -/
def Call.feeds : Call → Bool
  | .apply _ | .restart => true
  | .close _ => false

theorem Simulates.exec {h : History} {calls : List Call} (hs : Simulates h.state ref)
    (hsound : Sound cfg h.state h.emitted h.counted) (hcalls : ∀ call ∈ calls, call.feeds = true)
    (hret : Run.AllSteps (step py cfg) (Returns py cfg) h calls) :
    ∃ new out ref', (Run.exec (step py cfg) h calls).emitted = h.emitted ++ new ∧
      ref.run py cfg (calls.flatMap Call.records) = some (out, ref') ∧ new.Perm out ∧
      Simulates (Run.exec (step py cfg) h calls).state ref' := by
  induction calls generalizing h ref with
  | nil => exact ⟨[], [], ref, (append_nil _).symm, rfl, .refl _, hs⟩
  | cons call calls ih =>
    have hnext := sound_step hsound hret.1
    have hrest : ∀ c ∈ calls, c.feeds = true := fun c hc => hcalls c (mem_cons_of_mem call hc)
    cases call with
    | close flush => cases hcalls (.close flush) mem_cons_self
    | apply records =>
      obtain ⟨em, hem⟩ := Option.isSome_iff_exists.mp hret.1
      obtain ⟨em', ref₁, hrun, hperm, hs₁⟩ := hs.apply hsound hem
      obtain ⟨new, out, ref₂, hnew, hrun₂, hperm₂, hs₂⟩ := ih hs₁ hnext hrest hret.2
      refine ⟨em ++ new, em' ++ out, ref₂, ?_, ?_, hperm.symm.append hperm₂, hs₂⟩
      · rw [Run.exec_cons, hnew, ← append_assoc]
        simp only [step, hem, Option.getD_some]
      · rw [flatMap_cons, Call.records, Reference.run_append, hrun]
        simp only [Option.bind_eq_bind, Option.bind_some, hrun₂]
        rfl
    | restart =>
      have hs₁ : Simulates (h.step py cfg .restart).state ref := by
        unfold step
        cases hset : State.setState h.state.getState with
        | none => exact hs
        | some s =>
          have hr := restored hset
          exact ⟨hs.maxTs.trans hr.maxTs.symm, fun key stop =>
            (hs.look key stop).trans (hr.look key stop).symm⟩
      have hemitted : (h.step py cfg .restart).emitted = h.emitted := by
        unfold step
        cases State.setState h.state.getState with
        | none | some => rfl
      obtain ⟨new, out, ref₂, hnew, hrun₂, hperm₂, hs₂⟩ := ih hs₁ hnext hrest hret.2
      rw [hemitted] at hnew
      exact ⟨new, out, ref₂, hnew, hrun₂, hperm₂, hs₂⟩

/-- However the records are cut into batches that return, and wherever the state is exported,
written as JSON and restored between them: the windows emitted are those of the full scan of the
same records, and so are the windows left open. -/
theorem windows_match_full_scan (py : Python) (cfg : Config) (calls : List Call)
    (hcalls : ∀ call ∈ calls, call.feeds = true)
    (hret : Run.AllSteps (step py cfg) (Returns py cfg) init calls) :
    let h := Run.exec (step py cfg) init calls
    ∃ out ref, Reference.init.run py cfg (calls.flatMap Call.records) = some (out, ref) ∧
      h.emitted.Perm out ∧
      ∀ key stop, Nested.look h.state.windows key stop = ref.opened.lookup (key, stop) := by
  obtain ⟨new, out, ref, hnew, hrun, hperm, hs⟩ :=
    Simulates.init.exec (h := init) Sound.init hcalls hret
  rw [show init.emitted ++ new = new from rfl] at hnew
  exact ⟨out, ref, hrun, hnew ▸ hperm, fun key stop => (hs.look key stop).symm⟩

theorem windows_match_full_scan_restart :
    let calls := [Call.apply [sampleAt "a" 1, sampleAt "b" 2], .restart, .apply [sampleAt "b" 12]]
    let h := Run.exec (step plainPython tenSeconds) init calls
    ∃ out ref, Reference.init.run plainPython tenSeconds
        [sampleAt "a" 1, sampleAt "b" 2, sampleAt "b" 12] = some (out, ref) ∧
      h.emitted.Perm out ∧
      ∀ key stop, Nested.look h.state.windows key stop = ref.opened.lookup (key, stop) :=
  windows_match_full_scan plainPython tenSeconds
    [Call.apply [sampleAt "a" 1, sampleAt "b" 2], .restart, .apply [sampleAt "b" 12]] (by decide)
    ⟨by decide +kernel, True.intro, by decide +kernel, True.intro⟩

/-- A record without a timestamp at the end: read in one batch with the others, the batch raises
and the window the batch had completed is lost; cut before it, the window is emitted. -/
theorem windows_lost_with_batch :
    let records := [sampleAt "a" 1, sampleAt "a" 12]
    let one := Run.exec (step plainPython tenSeconds) init [.apply (records ++ [[]])]
    let two := Run.exec (step plainPython tenSeconds) init
      [.apply records, .apply [[]]]
    one.emitted.length = 0 ∧ two.emitted.length = 1 ∧
      ((one.state.windows.lookup "a").map (·.keys)) = ((two.state.windows.lookup "a").map (·.keys)) := by
  decide +kernel

end Tram.WindowAggregate
