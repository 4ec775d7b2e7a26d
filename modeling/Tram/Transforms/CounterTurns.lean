import Tram.Transforms.CounterTelescope

/-! # The turns of a history

All turns of the fields in the loop of `apply`, over any batches, metadata and restarts. Every turn
begins with the table that the turn before it left, so that the previous sample of a series is the
one stored last. -/

namespace Tram.CounterDelta

open List State

structure Turn where
  host : String
  tNow : ℚ
  before : Cursor
  field : Path

section Turns

variable (py : Python) (cfg : Config)

namespace Turn

def reading (t : Turn) : Except String (Int × String) :=
  readField py cfg t.host t.before.record t.field

def visit (t : Turn) : Visit := CounterDelta.visit py cfg t.host t.tNow t.before t.field

def sample (id : String) (t : Turn) : Option Int :=
  match t.reading py cfg with
  | .ok (v, id') => if id' = id then some v else none
  | .error _ => none

def leave (t : Turn) : Table := (t.visit py cfg).table t.before.table

def delta (t : Turn) : Option Int :=
  match t.visit py cfg with
  | .next c =>
    if cfg.output = .rate then none
    else
      match c.record.getPath (deltaPath t.field) with
      | some (.int d) => some d
      | _ => none
  | _ => none

def Chained (table : Table) (turns : List Turn) : Prop :=
  Run.AllSteps (fun _ t => t.leave py cfg) (fun table t => t.before.table = table) table turns

end Turn

def turnsFrom (host : String) (tNow : ℚ) : List Path → Cursor → List Turn
  | [], _ => []
  | field :: fields, c =>
    ⟨host, tNow, c, field⟩ ::
      match visit py cfg host tNow c field with
      | .next c => turnsFrom host tNow fields c
      | _ => []

namespace State

def turnsOf (s : State) (r : Record) : List Turn :=
  match resolveTimestamp py cfg r with
  | .ok tNow => turnsFrom py cfg (s.host py) tNow cfg.fields ⟨r, false, s.table⟩
  | .error _ => []

/-- A batch ends with the first record that raises. -/
def turns (s : State) : List Record → List Turn
  | [] => []
  | r :: records =>
    s.turnsOf py cfg r ++
      if (s.record py cfg r).1.returns then (s.record py cfg r).2.turns records else []

end State

structure Journal where
  state : State
  log : List Turn

def Journal.step (j : Journal) (call : Call) : Journal where
  state := (History.step py cfg ⟨j.state, []⟩ call).state
  log := j.log ++
    match call with
    | .apply records => j.state.turns py cfg records
    | _ => []

def turnsIn (calls : List Call) : List Turn :=
  (Run.exec (Journal.step py cfg) ⟨init, []⟩ calls).log

end Turns

variable {py : Python} {cfg : Config} {s : State} {r : Record} {t : Turn}

def Leads (py : Python) (cfg : Config) (table : Table) (turns : List Turn) (table' : Table) : Prop :=
  Turn.Chained py cfg table turns ∧ Run.exec (fun _ t => t.leave py cfg) table turns = table'

theorem Leads.append {table₀ table₁ table₂ : Table} {xs ys : List Turn}
    (hx : Leads py cfg table₀ xs table₁) (hy : Leads py cfg table₁ ys table₂) :
    Leads py cfg table₀ (xs ++ ys) table₂ := by
  obtain ⟨hchain, rfl⟩ := hx
  exact ⟨Run.allSteps_append.mpr ⟨hchain, hy.1⟩, (Run.exec_append _ _ xs ys).trans hy.2⟩

theorem Leads.cons {table : Table} {turns : List Turn}
    (h : Leads py cfg (t.leave py cfg) turns table) : Leads py cfg t.before.table (t :: turns) table :=
  ⟨⟨rfl, h.1⟩, h.2⟩

theorem leads_turnsFrom (host : String) (tNow : ℚ) (r₀ : Record) (fields : List Path) (c : Cursor) :
    Leads py cfg c.table (turnsFrom py cfg host tNow fields c)
      (visitFields py cfg host tNow r₀ fields c).2 := by
  induction fields generalizing c with
  | nil => exact ⟨True.intro, rfl⟩
  | cons field fields ih =>
    unfold turnsFrom visitFields
    refine Leads.cons (t := ⟨host, tNow, c, field⟩) ?_
    unfold Turn.leave Turn.visit
    cases visit py cfg host tNow c field with
    | next c' => exact ih c'
    | bad | raised => exact ⟨True.intro, rfl⟩

theorem leads_turnsOf (s : State) (r : Record) :
    Leads py cfg s.table (s.turnsOf py cfg r) (s.record py cfg r).2.table := by
  unfold turnsOf record
  cases resolveTimestamp py cfg r with
  | ok tNow => exact leads_turnsFrom _ tNow r cfg.fields ⟨r, false, s.table⟩
  | error fault => cases fault <;> exact ⟨True.intro, rfl⟩

theorem leads_turns (s : State) (records : List Record) :
    Leads py cfg s.table (s.turns py cfg records) (s.applyEach py cfg records).2.table := by
  induction records generalizing s with
  | nil => exact ⟨True.intro, rfl⟩
  | cons r records ih =>
    have hfirst : Leads py cfg s.table (s.turnsOf py cfg r) (s.record py cfg r).2.table :=
      leads_turnsOf s r
    rw [turns]
    cases hreturns : (s.record py cfg r).1.returns with
    | true =>
      rw [applyEach_returns hreturns, if_pos rfl]
      exact hfirst.append (ih _)
    | false =>
      obtain ⟨fault, hfault⟩ := applyEach_raised hreturns
      rw [hfault, if_neg Bool.false_ne_true, append_nil]
      exact hfirst

theorem chained_turnsIn (calls : List Call) : Turn.Chained py cfg ∅ (turnsIn py cfg calls) := by
  have hinit : Leads py cfg ∅ [] init.table := ⟨True.intro, rfl⟩
  refine (Run.exec_invariant (I := fun j : Journal => Leads py cfg ∅ j.log j.state.table) ?_
    hinit calls).1
  intro j call hj
  refine hj.append ?_
  cases call with
  | apply records => exact leads_turns j.state records
  | setRuntimeMeta | restart => exact ⟨True.intro, rfl⟩

variable {v : Int} {id : String} {p : Sample} {c : Cursor} {field : Path}

theorem Turn.sample_eq_some : t.sample py cfg id = some v ↔ t.reading py cfg = .ok (v, id) := by
  unfold Turn.sample
  cases t.reading py cfg with
  | error message => simp
  | ok read => simp [Prod.ext_iff, and_comm]

theorem Turn.field_ne (h : t.sample py cfg id = some v) : t.field ≠ [] := by
  intro hnil
  have hcounter := (readField_ok.mp (Turn.sample_eq_some.mp h)).1
  rw [hnil] at hcounter
  cases hcounter

theorem Turn.writes (hv : t.sample py cfg id = some v) (hnext : t.visit py cfg = .next c) :
    (t.before.table.lookup id = none ∧
      setOutputs cfg t.before.record t.field .null .null = .ok c.record) ∨
    ∃ p, t.before.table.lookup id = some p ∧
      compare cfg t.before.record t.field p v t.tNow = .ok c.record := by
  obtain ⟨v', id', hv', hid', -, hwrote⟩ := visit_next hnext
  cases (readField_ok.mpr ⟨hv', hid'⟩).symm.trans (Turn.sample_eq_some.mp hv)
  obtain ⟨hnone, -, hset⟩ | ⟨p, hp, -, hcmp⟩ := hwrote
  · exact .inl ⟨hnone, hset⟩
  · exact .inr ⟨p, hp, hcmp⟩

theorem Turn.delta_eq_some {d : Int} (h : t.delta py cfg = some d) :
    cfg.output ≠ .rate ∧ ∃ c, t.visit py cfg = .next c ∧
      c.record.getPath (deltaPath t.field) = some (.int d) := by
  unfold Turn.delta at h
  cases hv : t.visit py cfg with
  | bad | raised => rw [hv] at h; cases h
  | next c =>
    rw [hv] at h
    dsimp only at h
    split_ifs at h with hout
    refine ⟨hout, c, rfl, ?_⟩
    split at h
    · next hget => rw [hget, Option.some.inj h]
    · cases h

def modulus (width : Nat) : Int := if width = 64 then 2 ^ 64 else 2 ^ 32

theorem deltaFor_nonneg {prev now : Int} {width : Nat} (hnow : 0 ≤ now)
    (hprev : prev ≤ now + modulus width) : 0 ≤ (deltaFor cfg prev now width).1 := by
  unfold modulus at hprev
  unfold deltaFor
  dsimp only
  split_ifs at hprev ⊢
  all_goals dsimp only; omega

theorem deltaFor_bits64 {prev now : Int}
    (hsmall : ((prev - now : Int) : ℚ) < (1 - cfg.resetThreshold) * 2 ^ 64) :
    deltaFor cfg prev now 64 = if now < prev then (now, true) else (now - prev, false) := by
  unfold deltaFor
  simp only [if_true]
  by_cases hlt : now < prev
  · have hreset : ((now + 2 ^ 64 - prev : Int) : ℚ) > cfg.resetThreshold * (2 ^ 64 : Int) := by
      push_cast at hsmall ⊢
      linarith
    rw [if_neg (not_le.mpr hlt), if_pos hreset, if_pos hlt]
  · rw [if_pos (not_lt.mp hlt), if_neg hlt]

/-! ## Histories of one series -/

/-- The samples of the series are not negative, and unless the gap since the previous sample is
longer than configured, that sample lies at most the modulus of the resolved width above the new
one. Then no delta emitted for the series is negative. -/
theorem deltas_not_negative (py : Python) (cfg : Config) (id : String) (calls : List Call)
    (hsamples : ∀ t ∈ turnsIn py cfg calls, ∀ v ∈ t.sample py cfg id, 0 ≤ v)
    (hreach : ∀ t ∈ turnsIn py cfg calls, ∀ v ∈ t.sample py cfg id,
      ∀ p ∈ t.before.table.lookup id, outage cfg (t.tNow - p.t) = false →
        ∀ width ∈ resolveWidth cfg t.before.record t.field p.v v, p.v ≤ v + modulus width) :
    Turn.Chained py cfg ∅ (turnsIn py cfg calls) ∧
      ∀ t ∈ turnsIn py cfg calls, (t.sample py cfg id).isSome → ∀ d ∈ t.delta py cfg, 0 ≤ d := by
  refine ⟨chained_turnsIn calls, fun t ht hcarries d hdelta => ?_⟩
  obtain ⟨v, hv⟩ := Option.isSome_iff_exists.mp hcarries
  obtain ⟨hout, c, hnext, hget⟩ := Turn.delta_eq_some hdelta
  have hnonneg := hsamples t ht v hv
  obtain ⟨-, hset⟩ | ⟨p, hp, hcmp⟩ := Turn.writes hv hnext
  · have hnull := setOutputs_delta (Turn.field_ne hv) hout hset
    cases hnull.symm.trans hget
  · obtain ⟨width, result, hwidth, hres, hwritten, -⟩ := compare_writes (Turn.field_ne hv) hcmp
    cases (hwritten hout).symm.trans hget
    rw [hres]
    cases hgap : outage cfg (t.tNow - p.t) with
    | true => exact hnonneg
    | false => exact deltaFor_nonneg hnonneg (hreach t ht v hv p hp hgap width hwidth)

def gauge (width : Width) : Config :=
  { octets .raise with
    fields := [["in"]]
    width := width
    fields_ne := by decide
    fields_split := by decide }

def gaugeSeries : Series := ⟨"", ["1"], ["in"]⟩

/-- What `apply` emits for two polls: the deltas, and whether a record is flagged. -/
def polled (width : Width) (first second : Int) : List Int × Bool :=
  let calls := [Call.apply [poll 0 first [], poll 60 second []]]
  let log := (Run.exec (History.step plainPython (gauge width)) History.init calls).log
  (log.filterMap (gaugeSeries.deltaIn plainPython (gauge width)), log.any Handled.flagged)

theorem deltas_not_negative_wrap :
    let calls := [Call.apply [poll 0 4294967290 [], poll 60 4 []]]
    let turns := turnsIn plainPython (gauge .bits32) calls
    turns.map (Turn.delta plainPython (gauge .bits32)) = [none, some 10] ∧
    Turn.Chained plainPython (gauge .bits32) ∅ turns ∧
      ∀ t ∈ turns, (t.sample plainPython (gauge .bits32) (gaugeSeries.identity (gauge .bits32))).isSome →
        ∀ d ∈ t.delta plainPython (gauge .bits32), 0 ≤ d :=
  ⟨by decide +kernel, deltas_not_negative plainPython (gauge .bits32) _ _ (by decide +kernel)
    (by decide +kernel)⟩

/-- A counter of 64 bits that is configured as one of 32 bits: a restart at zero gives a delta far
below zero. -/
theorem delta_negative_beyond_width : polled .bits32 (2 ^ 33) 0 = ([-2 ^ 32], false) := by
  decide +kernel

/-- The width of every pair of samples of the series is 64, no gap is configured and no output lies
on the flag. If the decreases are smaller than the part of the modulus that the threshold leaves
over, a turn flags its record exactly on a decrease, and writes the sample for the delta. -/
theorem decrease_is_reset (py : Python) (cfg : Config) (id : String) (calls : List Call)
    (hgap : cfg.maxGapSeconds = none)
    (hwide : ∀ t ∈ turnsIn py cfg calls, ∀ v ∈ t.sample py cfg id,
      ∀ p ∈ t.before.table.lookup id, resolveWidth cfg t.before.record t.field p.v v = some 64)
    (hflag : ∀ t ∈ turnsIn py cfg calls, ∀ q ∈ written cfg t.field, q.Apart flagPath)
    (hsmall : ∀ t ∈ turnsIn py cfg calls, ∀ v ∈ t.sample py cfg id,
      ∀ p ∈ t.before.table.lookup id, ((p.v - v : Int) : ℚ) < (1 - cfg.resetThreshold) * 2 ^ 64) :
    Turn.Chained py cfg ∅ (turnsIn py cfg calls) ∧
      ∀ t ∈ turnsIn py cfg calls, ∀ v c, t.sample py cfg id = some v → t.visit py cfg = .next c →
        t.before.record.getPath flagPath ≠ some (.bool true) →
        (c.record.getPath flagPath = some (.bool true) ↔
          ∃ p ∈ t.before.table.lookup id, v < p.v) ∧
        ((∃ p ∈ t.before.table.lookup id, v < p.v) → cfg.output ≠ .rate →
          c.record.getPath (deltaPath t.field) = some (.int v)) := by
  refine ⟨chained_turnsIn calls, fun t ht v c hv hnext hclear => ?_⟩
  obtain ⟨hnone, hset⟩ | ⟨p, hp, hcmp⟩ := Turn.writes hv hnext
  · rw [setOutputs_frame hset flagPath (hflag t ht), hnone]
    simp [hclear]
  · obtain ⟨width, result, hwidth, hres, hwritten, hflagged⟩ :=
      compare_writes (Turn.field_ne hv) hcmp
    cases hwidth.symm.trans (hwide t ht v hv p hp)
    rw [outage, hgap, if_neg Bool.false_ne_true, deltaFor_bits64 (hsmall t ht v hv p hp)] at hres
    rw [hflagged (hflag t ht), hp]
    by_cases hlt : v < p.v
    · rw [if_pos hlt] at hres
      refine ⟨by simp [hres, hlt], fun _ hout => ?_⟩
      rw [hwritten hout, hres]
    · rw [if_neg hlt] at hres
      simp [hres, hlt, hclear]

theorem decrease_is_reset_restart :
    let calls := [Call.apply [poll 0 1000000 []], .restart, .apply [poll 60 5 []]]
    let turns := turnsIn plainPython (gauge .bits64) calls
    let id := gaugeSeries.identity (gauge .bits64)
    turns.map (Turn.sample plainPython (gauge .bits64) id) = [some 1000000, some 5] ∧
    Turn.Chained plainPython (gauge .bits64) ∅ turns ∧
      ∀ t ∈ turns, ∀ v c, t.sample plainPython (gauge .bits64) id = some v →
        t.visit plainPython (gauge .bits64) = .next c →
        t.before.record.getPath flagPath ≠ some (.bool true) →
        (c.record.getPath flagPath = some (.bool true) ↔
          ∃ p ∈ t.before.table.lookup id, v < p.v) ∧
        ((∃ p ∈ t.before.table.lookup id, v < p.v) → (gauge .bits64).output ≠ .rate →
          c.record.getPath (deltaPath t.field) = some (.int v)) :=
  ⟨by decide +kernel, decrease_is_reset plainPython (gauge .bits64) _ _ rfl (by decide +kernel)
    (by decide +kernel) (by decide +kernel)⟩

/-- A restart near the end of the range is taken for a wrap. -/
theorem decrease_is_wrap_near_modulus :
    polled .bits64 (2 ^ 64 - 1) 0 = ([1], false) ∧ polled .bits64 1000000 5 = ([5], true) := by
  decide +kernel

theorem visitFields_head_bad {host message : String} {tNow : ℚ} {r₀ : Record} (fields : List Path)
    (h : readField py cfg host c.record field = .error message) :
    (visitFields py cfg host tNow r₀ (field :: fields) c).2 = c.table := by
  unfold visitFields visit
  rw [h]

theorem visitFields_head_stored {host : String} (tNow : ℚ) (r₀ : Record) (fields : List Path)
    (h : readField py cfg host c.record field = .ok (v, id)) (hnone : c.table.lookup id = none) :
    ((visitFields py cfg host tNow r₀ (field :: fields) c).2.lookup id).isSome := by
  have hstored : ((c.table.insert id ⟨v, tNow⟩).lookup id).isSome := by
    rw [AList.lookup_insert]
    rfl
  unfold visitFields visit
  rw [h]
  dsimp only
  rw [hnone]
  cases setOutputs cfg c.record field .null .null with
  | ok r => exact visitFields_kept hstored
  | error fault => exact hstored

/-- The fields before the one that fails have stored their samples. Whatever was stored stays as it
is exactly for the records without a timestamp and those of which the first field fails. -/
theorem record_keeps_state_iff (py : Python) (cfg : Config) (runtimeMeta r : Record) :
    (∀ table id, (record py cfg ⟨runtimeMeta, table⟩ r).2.table.lookup id = table.lookup id) ↔
      (resolveTimestamp py cfg r).toBool = false ∨
      (readField py cfg (host py ⟨runtimeMeta, ∅⟩) r (cfg.fields.head cfg.fields_ne)).toBool =
        false := by
  obtain ⟨field, fields, hfields⟩ := exists_cons_of_ne_nil cfg.fields_ne
  cases htime : resolveTimestamp py cfg r with
  | error fault =>
    refine iff_of_true (fun table id => ?_) (.inl rfl)
    unfold record
    rw [htime]
    cases fault <;> rfl
  | ok tNow =>
    simp only [record_timed htime, hfields, head_cons]
    cases hread : readField py cfg (host py ⟨runtimeMeta, ∅⟩) r field with
    | error message =>
      refine iff_of_true (fun table id => ?_) (.inr rfl)
      rw [visitFields_head_bad fields hread]
    | ok read =>
      obtain ⟨v, id⟩ := read
      refine iff_of_false (fun hkept => ?_) (by simp [Except.toBool])
      have hstored := visitFields_head_stored (c := ⟨r, false, ∅⟩) tNow r fields
        hread (AList.lookup_empty id)
      rw [hkept ∅ id] at hstored
      cases hstored

/-- The record lacks its second counter. It raises or goes out as it came, and its first counter's
sample has replaced the one before, to which no delta was emitted. -/
theorem failed_record_moves_sample :
    [OnError.raise, .keep].Forall fun onError =>
      let id := gaugeSeries.identity (octets onError)
      let s : State := ⟨[], (∅ : Table).insert id ⟨10, 0⟩⟩
      let after := (s.record plainPython (octets onError) (poll 60 20 [])).2
      (readField plainPython (octets onError) "" (poll 60 20 []) ["out"]).toBool = false ∧
        ((s.table.lookup id).map (·.v), (after.table.lookup id).map (·.v)) = (some 10, some 20) := by
  decide +kernel

end Tram.CounterDelta
