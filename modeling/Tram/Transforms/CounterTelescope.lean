import Mathlib.Data.Int.ModEq
import Mathlib.Tactic.MkIffOfInductiveProp
import Tram.Lib.Run
import Tram.Transforms.CounterLoop

/-! # The deltas of a series telescope

Batches of any records, with restarts between them. A series is a host, the texts of the key
fields and a field. Its samples are read off the records that come in, its deltas off the records
that go out. -/

namespace Tram.CounterDelta

open List Option State

structure Series where
  host : String
  keys : List String
  field : Path
  deriving DecidableEq

/-- A record that `apply` took under a host, and what it put in the result for it. -/
structure Handled where
  host : String
  input : Record
  output : Option Record

section Reading

variable (py : Python) (cfg : Config)

/-- The series a record's field belongs to. -/
def seriesOf (host : String) (r : Record) (field : Path) : Option Series :=
  (keyTexts py cfg r).map fun keys => ⟨host, keys, field⟩

def Series.identity (series : Series) : String :=
  joinIdentity cfg series.host series.keys series.field

def Series.sampleIn (series : Series) (e : Handled) : Option Int :=
  if seriesOf py cfg e.host e.input series.field = some series then
    counter? e.input series.field
  else none

def Series.deltaIn (series : Series) (e : Handled) : Option Int :=
  if (series.sampleIn py cfg e).isSome then
    match e.output.bind fun out => out.getPath (deltaPath series.field) with
    | some (.int d) => some d
    | _ => none
  else none

def Handled.flagged (e : Handled) : Bool :=
  match e.output.bind fun out => out.getPath flagPath with
  | some (.bool b) => b
  | _ => false

/-- The record carries no widths, no series but this one has its identity in the record, and if
it carries a sample of the series: the sample is in range, the fields needed read well, there is a
timestamp, and the record is not flagged. -/
@[mk_iff]
structure Clean (series : Series) (e : Handled) : Prop where
  widths : (e.input.lookup "_snmp_widths").isNone
  distinct : ∀ g ∈ cfg.fields, identity py cfg e.host e.input g = some (series.identity cfg) →
    seriesOf py cfg e.host e.input g = some series
  range : ∀ v ∈ series.sampleIn py cfg e, 0 ≤ v ∧ v < cfg.width.modulus
  timed : (series.sampleIn py cfg e).isSome → (resolveTimestamp py cfg e.input).toBool = true
  needed : (series.sampleIn py cfg e).isSome →
    ∀ g ∈ needed cfg series.field, (counter? e.input g).isSome
  unflagged : (series.sampleIn py cfg e).isSome → e.flagged = false

instance (series : Series) (e : Handled) : Decidable (Clean py cfg series e) :=
  decidable_of_iff' _ (clean_iff py cfg series e)

end Reading

variable {py : Python} {cfg : Config}

variable {series : Series} {v : Int} {table table' : Table} {deltas samples : List Int} {r : Record}
    {s : State} {records : List Record} {outs : List (Option Record)}

theorem identity_eq (host : String) (r : Record) (field : Path) :
    identity py cfg host r field = (seriesOf py cfg host r field).map (Series.identity cfg) := by
  unfold identity seriesOf
  rw [Option.map_map]
  rfl

theorem Series.sampleIn_eq_some {e : Handled} :
    series.sampleIn py cfg e = some v ↔
      seriesOf py cfg e.host e.input series.field = some series ∧
        counter? e.input series.field = some v := by
  unfold sampleIn
  split_ifs with h
  · simp [h]
  · simp [h]

theorem wrapped_spec {prev now : Int} (hprev : 0 ≤ prev ∧ prev < cfg.width.modulus)
    (hnow : 0 ≤ now ∧ now < cfg.width.modulus) (hreset : (wrapped cfg prev now).2 = false) :
    0 ≤ (wrapped cfg prev now).1 ∧
      (wrapped cfg prev now).1 ≡ now - prev [ZMOD cfg.width.modulus] := by
  have hmod : (if (if cfg.width = .bits64 then 64 else 32) = 64 then 2 ^ 64 else 2 ^ 32 : Int) =
      cfg.width.modulus := by
    cases cfg.width <;> rfl
  unfold wrapped deltaFor at hreset ⊢
  simp only [hmod] at hreset ⊢
  split_ifs at hreset ⊢ with hle hgap
  · exact ⟨sub_nonneg.mpr hle, Int.ModEq.refl _⟩
  · refine ⟨by omega, ?_⟩
    have hsum : now + cfg.width.modulus - prev = now - prev + cfg.width.modulus := by ring
    rw [hsum]
    exact Int.add_modEq_right

/-! ## The run -/

/-- The samples and deltas so far, and what the table holds of the series. -/
structure Tracks (cfg : Config) (series : Series) (table : Table) (samples deltas : List Int) :
    Prop where
  last : (table.lookup (series.identity cfg)).map (·.v) = samples.getLast?
  range : ∀ v ∈ samples.getLast?, 0 ≤ v ∧ v < cfg.width.modulus
  empty : samples = [] → deltas = []
  nonneg : ∀ d ∈ deltas, 0 ≤ d
  sum : ∀ v₀ vₙ, samples.head? = some v₀ → samples.getLast? = some vₙ →
    deltas.sum ≡ vₙ - v₀ [ZMOD cfg.width.modulus]
  /-- records are dropped at first sight only: the other fields are seen when this one is -/
  seen : cfg.firstSample = .drop → samples ≠ [] → ∀ g ∈ cfg.fields,
    (table.lookup (joinIdentity cfg series.host series.keys g)).isSome

theorem Tracks.init (series : Series) : Tracks cfg series ∅ [] [] :=
  ⟨rfl, by simp, fun _ => rfl, by simp, by simp, fun _ h => absurd rfl h⟩

theorem Tracks.quiet (h : Tracks cfg series table samples deltas)
    (hsame : table'.lookup (series.identity cfg) = table.lookup (series.identity cfg))
    (hkept : ∀ id, (table.lookup id).isSome → (table'.lookup id).isSome) :
    Tracks cfg series table' samples deltas :=
  { h with
    last := hsame ▸ h.last
    seen := fun hdrop hne g hg => hkept _ (h.seen hdrop hne g hg) }

section

variable {t : ℚ} (h : Tracks cfg series table samples deltas)
  (htable : table'.lookup (series.identity cfg) = some ⟨v, t⟩) (hv : 0 ≤ v ∧ v < cfg.width.modulus)
  (hseen : cfg.firstSample = .drop → ∀ g ∈ cfg.fields,
    (table'.lookup (joinIdentity cfg series.host series.keys g)).isSome)
include h htable hv hseen

theorem Tracks.first (hnone : table.lookup (series.identity cfg) = none) :
    Tracks cfg series table' (samples ++ [v]) deltas := by
  have hsamples : samples = [] := by
    have hlast := h.last
    rw [hnone] at hlast
    exact getLast?_eq_none_iff.mp hlast.symm
  have hdeltas := h.empty hsamples
  subst hsamples hdeltas
  refine ⟨by rw [htable]; rfl, ?_, fun hne => absurd hne (by simp), h.nonneg, ?_, fun hdrop _ => hseen hdrop⟩
  · intro v' hv'
    cases hv'
    exact hv
  · intro v₀ vₙ h₀ hₙ
    cases h₀
    cases hₙ
    change (0 : Int) ≡ v - v [ZMOD cfg.width.modulus]
    rw [sub_self]

theorem Tracks.next {prev : Sample} (hprev : table.lookup (series.identity cfg) = some prev)
    (hreset : (wrapped cfg prev.v v).2 = false) :
    Tracks cfg series table' (samples ++ [v]) (deltas ++ [(wrapped cfg prev.v v).1]) := by
  have hlast : samples.getLast? = some prev.v := by rw [← h.last, hprev]; rfl
  obtain ⟨hnonneg, hmod⟩ := wrapped_spec (h.range prev.v hlast) hv hreset
  refine ⟨by rw [htable]; simp, ?_, fun hne => absurd hne (by simp),
    forall_mem_concat h.nonneg hnonneg, ?_, fun hdrop _ => hseen hdrop⟩
  · intro v' hv'
    rw [getLast?_concat] at hv'
    cases hv'
    exact hv
  · intro v₀ vₙ h₀ hₙ
    rw [getLast?_concat] at hₙ
    cases hₙ
    have hhead : samples.head? = some v₀ := by
      cases samples with
      | nil => cases hlast
      | cons x xs => exact h₀
    rw [sum_append, sum_singleton]
    calc deltas.sum + (wrapped cfg prev.v v).1
        ≡ (prev.v - v₀) + (v - prev.v) [ZMOD cfg.width.modulus] :=
          (h.sum v₀ prev.v hhead hlast).add hmod
      _ = v - v₀ := by ring

end

theorem State.record_timed {tNow : ℚ} (htime : resolveTimestamp py cfg r = .ok tNow) :
    s.record py cfg r =
      ((visitFields py cfg (s.host py) tNow r cfg.fields ⟨r, false, s.table⟩).1,
        { s with table := (visitFields py cfg (s.host py) tNow r cfg.fields ⟨r, false, s.table⟩).2 }) := by
  unfold record
  rw [htime]

theorem seriesOf_eq_some {host : String} {field : Path} :
    seriesOf py cfg host r field = some series ↔
      host = series.host ∧ keyTexts py cfg r = some series.keys ∧ field = series.field := by
  unfold seriesOf
  rw [map_eq_some_iff]
  constructor
  · rintro ⟨keys, hkeys, rfl⟩
    exact ⟨rfl, hkeys, rfl⟩
  · rintro ⟨rfl, hkeys, rfl⟩
    exact ⟨series.keys, hkeys, rfl⟩

theorem State.host_record (s : State) (r : Record) : (s.record py cfg r).2.host py = s.host py := by
  unfold record
  cases resolveTimestamp py cfg r with
  | error fault => cases fault <;> rfl
  | ok tNow => rfl

theorem State.applyEach_raised (h : (s.record py cfg r).1.returns = false) :
    ∃ fault, s.applyEach py cfg (r :: records) = (.error fault, (s.record py cfg r).2) := by
  rw [applyEach]
  cases hverdict : (s.record py cfg r).1 with
  | raised fault => exact ⟨fault, rfl⟩
  | emitted | dropped => rw [hverdict] at h; cases h

theorem State.applyEach_returns (h : (s.record py cfg r).1.returns = true) :
    s.applyEach py cfg (r :: records) =
      (((s.record py cfg r).2.applyEach py cfg records).1.map ((s.record py cfg r).1.output :: ·),
        ((s.record py cfg r).2.applyEach py cfg records).2) := by
  rw [applyEach]
  cases hverdict : (s.record py cfg r).1 with
  | raised fault => rw [hverdict] at h; cases h
  | emitted | dropped => rfl

theorem State.applyEach_cons (h : (s.applyEach py cfg (r :: records)).1 = .ok outs) :
    ∃ rest, outs = (s.record py cfg r).1.output :: rest ∧ (s.record py cfg r).1.returns = true ∧
      ((s.record py cfg r).2.applyEach py cfg records).1 = .ok rest ∧
      (s.applyEach py cfg (r :: records)).2 = ((s.record py cfg r).2.applyEach py cfg records).2 := by
  cases hreturns : (s.record py cfg r).1.returns with
  | false =>
    obtain ⟨fault, hfault⟩ := applyEach_raised hreturns
    rw [hfault] at h
    cases h
  | true =>
    rw [applyEach_returns hreturns] at h ⊢
    cases hrest : ((s.record py cfg r).2.applyEach py cfg records).1 with
    | error fault => rw [hrest] at h; cases h
    | ok rest =>
      rw [hrest] at h
      exact ⟨rest, (Except.ok.inj h).symm, rfl, rfl, rfl⟩

section Run

variable (hind : Independent cfg) (hwidth : cfg.width ≠ .auto) (hgap : cfg.maxGapSeconds = none)
  (hout : cfg.output ≠ .rate) (hfield : series.field ∈ cfg.fields)
include hind hwidth hgap hout hfield

variable (h : Tracks cfg series s.table samples deltas)
include h

section

variable {e : Handled} (he : e = ⟨s.host py, r, (s.record py cfg r).1.output⟩)
  (hok : (s.record py cfg r).1.returns = true) (hclean : Clean py cfg series e)
include he hok hclean

theorem Tracks.taken {tNow : ℚ} (hv : series.sampleIn py cfg e = some v)
    (htime : resolveTimestamp py cfg r = .ok tNow) :
    Tracks cfg series (s.record py cfg r).2.table (samples ++ [v])
      (deltas ++ (series.deltaIn py cfg e).toList) := by
  subst he
  have hcarries := isSome_iff_exists.mpr ⟨v, hv⟩
  obtain ⟨hseries, hcounter⟩ := Series.sampleIn_eq_some.mp hv
  obtain ⟨hhost, hkeys, -⟩ := seriesOf_eq_some.mp hseries
  dsimp only at hseries hcounter hhost hkeys
  have hrange := hclean.range v hv
  have hneeded := hclean.needed hcarries
  have hunflagged := hclean.unflagged hcarries
  have hid : identity py cfg (s.host py) r series.field = some (series.identity cfg) := by
    rw [identity_eq, hseries]
    rfl
  have honly : ∀ g ∈ cfg.fields, identity py cfg (s.host py) r g = some (series.identity cfg) →
      g = series.field :=
    fun g hg hgid => (seriesOf_eq_some.mp (hclean.distinct g hg hgid)).2.2
  have hwidths : r.lookup "_snmp_widths" = none := isNone_iff_eq_none.mp hclean.widths
  -- where records can be dropped, the other fields of this one read well
  have hall : cfg.firstSample = .drop → ∀ g ∈ cfg.fields, (counter? r g).isSome := by
    intro hdrop g hg
    refine hneeded g ?_
    rw [needed_of_not (by simp [hdrop])]
    exact hg
  have hids : ∀ g, identity py cfg (s.host py) r g =
      some (joinIdentity cfg series.host series.keys g) := by
    intro g
    unfold identity
    rw [hkeys, hhost]
    rfl
  unfold Series.deltaIn
  rw [if_pos hcarries]
  rw [record_timed htime] at hok hunflagged ⊢
  obtain ⟨hlast, hemit⟩ := visitFields_taken hind hwidth hgap hout hfield hwidths hcounter hid honly
    hneeded hok
  have hwhole := fun hdrop => visitFields_whole hind hwidths (isSome_iff_exists.mpr ⟨_, hkeys⟩)
    (hall hdrop) hok
  have hseen := fun hdrop g hg => (hwhole hdrop).1 g hg _ (hids g)
  have hdropped : (visitFields py cfg (s.host py) tNow r cfg.fields ⟨r, false, s.table⟩).1 = .dropped →
      cfg.firstSample = .drop := visitFields_dropped
  generalize visitFields py cfg (s.host py) tNow r cfg.fields ⟨r, false, s.table⟩ = result at *
  cases hprev : s.table.lookup (series.identity cfg) with
  | none =>
    rw [hprev] at hemit
    cases hverdict : result.1 with
    | raised fault => rw [hverdict] at hok; cases hok
    | emitted out =>
      simp only [Verdict.output, bind_some, hemit out hverdict, toList_none,
        append_nil]
      exact h.first hlast hrange hseen hprev
    | dropped =>
      simp only [Verdict.output, bind_none, toList_none, append_nil]
      exact h.first hlast hrange hseen hprev
  | some prev =>
    rw [hprev] at hemit
    have hsamples : samples ≠ [] := by
      intro hnil
      have hend := h.last
      rw [hprev, hnil] at hend
      cases hend
    obtain ⟨out, hverdict⟩ : ∃ out, result.1 = .emitted out := by
      cases hverdict : result.1 with
      | raised fault => rw [hverdict] at hok; cases hok
      | emitted out => exact ⟨out, rfl⟩
      | dropped =>
        have hdrop := hdropped hverdict
        refine hverdict ▸ (hwhole hdrop).2 fun g hg id hgid => ?_
        cases (hids g).symm.trans hgid
        exact h.seen hdrop hsamples g hg
    obtain ⟨hdelta, hflag⟩ := hemit out hverdict
    have hreset : (wrapped cfg prev.v v).2 = false := by
      cases hw : (wrapped cfg prev.v v).2 with
      | false => rfl
      | true =>
        simp only [Handled.flagged, hverdict, Verdict.output, bind_some, hflag hw] at hunflagged
        cases hunflagged
    simp only [hverdict, Verdict.output, bind_some, hdelta, toList_some]
    exact h.next hlast hrange hseen hprev hreset

theorem Tracks.record : Tracks cfg series (s.record py cfg r).2.table
    (samples ++ (series.sampleIn py cfg e).toList) (deltas ++ (series.deltaIn py cfg e).toList) := by
  cases hv : series.sampleIn py cfg e with
  | some v =>
    have htimed := hclean.timed (isSome_iff_exists.mpr ⟨v, hv⟩)
    cases htime : resolveTimestamp py cfg r with
    | error fault => rw [he, htime] at htimed; cases htimed
    | ok tNow => exact h.taken hind hwidth hgap hout hfield he hok hclean hv htime
  | none =>
    have hdelta : series.deltaIn py cfg e = none := by
      unfold Series.deltaIn
      rw [hv]
      rfl
    rw [hdelta, toList_none, append_nil, append_nil]
    subst he
    cases htime : resolveTimestamp py cfg r with
    | error fault =>
      have hsame : (s.record py cfg r).2 = s := by
        unfold record
        rw [htime]
        cases fault <;> rfl
      rw [hsame]
      exact h
    | ok tNow =>
      rw [record_timed htime] at hok ⊢
      have hwidths : r.lookup "_snmp_widths" = none := isNone_iff_eq_none.mp hclean.widths
      refine h.quiet (visitFields_other hind (suffix_refl _) (.refl hwidths _) ?_ hok)
        fun id hid => visitFields_kept hid
      -- a field with the identity of the series is its field, and has no value here
      intro g hg hgid
      have hseries := hclean.distinct g hg hgid
      obtain ⟨-, -, rfl⟩ := seriesOf_eq_some.mp hseries
      cases hval : counter? r series.field with
      | none => rfl
      | some v => cases hv.symm.trans (Series.sampleIn_eq_some.mpr ⟨hseries, hval⟩)

end

theorem Tracks.applyEach (hok : (s.applyEach py cfg records).1 = .ok outs)
    (hclean : ∀ e ∈ records.zipWith (Handled.mk (s.host py)) outs, Clean py cfg series e) :
    let entries := records.zipWith (Handled.mk (s.host py)) outs
    Tracks cfg series (s.applyEach py cfg records).2.table
      (samples ++ entries.filterMap (series.sampleIn py cfg))
      (deltas ++ entries.filterMap (series.deltaIn py cfg)) := by
  induction records generalizing s outs samples deltas with
  | nil =>
    simp only [zipWith_nil_left, filterMap_nil, append_nil]
    exact h
  | cons r records ih =>
    obtain ⟨rest, rfl, hreturns, hrest, hstate⟩ := applyEach_cons hok
    obtain ⟨hfirst, hlater⟩ := forall_mem_cons.mp hclean
    have hnext := h.record hind hwidth hgap hout hfield rfl hreturns hfirst
    have hhost : (s.record py cfg r).2.host py = s.host py := s.host_record r
    have hend := ih hnext hrest (hhost ▸ hlater)
    rw [hhost] at hend
    dsimp only
    rw [hstate, zipWith_cons_cons, Traverse.filterMap_cons_toList, Traverse.filterMap_cons_toList,
      ← append_assoc, ← append_assoc]
    exact hend

end Run

/-! ## Calls -/

inductive Call where
  | setRuntimeMeta (runtimeMeta : Record)
  | apply (records : List Record)
  | restart

structure History where
  state : State
  log : List Handled

namespace History

variable (py cfg)

def init : History := ⟨State.init, []⟩

def handled (h : History) : Call → List Handled
  | .apply records =>
    match (h.state.applyEach py cfg records).1 with
    | .ok outs => records.zipWith (Handled.mk (h.state.host py)) outs
    | .error _ => []
  | _ => []

def step (h : History) (call : Call) : History where
  log := h.log ++ h.handled py cfg call
  state :=
    match call with
    | .setRuntimeMeta runtimeMeta => h.state.setRuntimeMeta runtimeMeta
    | .apply records => (h.state.apply py cfg records).2
    | .restart => setState h.state.getState

/-- The call returns, and every record it handles is clean. -/
def Feeds (series : Series) (h : History) (call : Call) : Prop :=
  (match call with
    | .apply records => (h.state.apply py cfg records).1.toBool
    | _ => true) = true ∧
  ∀ e ∈ h.handled py cfg call, Clean py cfg series e

instance (series : Series) (h : History) (call : Call) : Decidable (h.Feeds py cfg series call) :=
  inferInstanceAs (Decidable (_ ∧ _))

variable {py cfg}

theorem tracks_step {h : History} {call : Call} (hind : Independent cfg)
    (hwidth : cfg.width ≠ .auto) (hgap : cfg.maxGapSeconds = none) (hout : cfg.output ≠ .rate)
    (hfield : series.field ∈ cfg.fields)
    (ht : Tracks cfg series h.state.table (h.log.filterMap (series.sampleIn py cfg))
      (h.log.filterMap (series.deltaIn py cfg))) (hfeed : h.Feeds py cfg series call) :
    Tracks cfg series (h.step py cfg call).state.table
      ((h.step py cfg call).log.filterMap (series.sampleIn py cfg))
      ((h.step py cfg call).log.filterMap (series.deltaIn py cfg)) := by
  cases call with
  | setRuntimeMeta runtimeMeta => simpa [step, handled, setRuntimeMeta] using ht
  | restart => simpa [step, handled, setState, getState] using ht
  | apply records =>
    obtain ⟨hreturns, hclean⟩ := hfeed
    unfold handled at hclean
    dsimp only at hreturns hclean
    cases hok : (h.state.applyEach py cfg records).1 with
    | error fault =>
      simp [apply, hok, Except.map, Except.toBool] at hreturns
    | ok outs =>
      rw [hok] at hclean
      have hend := ht.applyEach hind hwidth hgap hout hfield hok hclean
      simpa [step, handled, hok, apply, filterMap_append] using hend

end History

/-- The width is explicit, no gap is configured, deltas are emitted, and the paths written and read
lie apart. In any batches that return, with new metadata and restarts between them, in which every
record is clean for the series: the deltas emitted for its samples are not negative, and their sum
is congruent to the last sample less the first. -/
theorem deltas_telescope (py : Python) (cfg : Config) (series : Series) (calls : List Call)
    (hwidth : cfg.width ≠ .auto) (hgap : cfg.maxGapSeconds = none) (hout : cfg.output ≠ .rate)
    (hind : Independent cfg) (hfield : series.field ∈ cfg.fields)
    (hfed : Run.AllSteps (History.step py cfg) (History.Feeds py cfg series) History.init calls) :
    let log := (Run.exec (History.step py cfg) History.init calls).log
    let samples := log.filterMap (series.sampleIn py cfg)
    let deltas := log.filterMap (series.deltaIn py cfg)
    (∀ d ∈ deltas, 0 ≤ d) ∧
      ∀ v₀ vₙ, samples.head? = some v₀ → samples.getLast? = some vₙ →
        deltas.sum ≡ vₙ - v₀ [ZMOD cfg.width.modulus] := by
  intro log samples deltas
  have htracks : Tracks cfg series (Run.exec (History.step py cfg) History.init calls).state.table
      samples deltas :=
    Run.AllSteps.invariant (I := fun h : History => Tracks cfg series h.state.table
        (h.log.filterMap (series.sampleIn py cfg)) (h.log.filterMap (series.deltaIn py cfg)))
      (fun h call ht hfeed => History.tracks_step hind hwidth hgap hout hfield ht hfeed)
      (Tracks.init series) hfed
  exact ⟨htracks.nonneg, htracks.sum⟩

def plainPython : Python where
  parseTimestamp
    | .int n => match DateTime.fromTimestamp? n with
      | some t => .ok t
      | none => .error .other
    | _ => .error (.transformError "")
  str
    | .int n => n.repr
    | .str s => s
    | _ => "?"
  repr _ := "?"

def octets (onError : OnError) : Config where
  fields := [["in"], ["out"]]
  timestampFields := [["t"]]
  width := .bits32
  output := .delta
  onError := onError
  fields_ne := by decide
  fields_split := by decide
  timestamp_ne := by decide
  threshold_pos := by decide +kernel
  threshold_lt := by decide +kernel
  gap_pos := by simp

def poll (t received : Int) (sent : List (String × Json)) : Record :=
  [("_index", .int 1), ("t", .int t), ("in", .int received)] ++ sent

theorem octets_independent : Independent (octets .raise) where
  keys := by decide
  flag := by decide
  fields := by decide

theorem deltas_telescope_wrap :
    let calls := [Call.apply [poll 0 4294967290 [("out", .int 1)], poll 60 4 [("out", .int 2)]],
      .restart, .apply [poll 120 9 [("out", .int 2)]]]
    let log := (Run.exec (History.step plainPython (octets .raise)) History.init calls).log
    let series : Series := ⟨"", ["1"], ["in"]⟩
    let samples := log.filterMap (series.sampleIn plainPython (octets .raise))
    let deltas := log.filterMap (series.deltaIn plainPython (octets .raise))
    samples = [4294967290, 4, 9] ∧ deltas = [10, 5] ∧ (∀ d ∈ deltas, 0 ≤ d) ∧
      ∀ v₀ vₙ, samples.head? = some v₀ → samples.getLast? = some vₙ →
        deltas.sum ≡ vₙ - v₀ [ZMOD 2 ^ 32] :=
  ⟨by decide +kernel, by decide +kernel,
    deltas_telescope plainPython (octets .raise) ⟨"", ["1"], ["in"]⟩
      [Call.apply [poll 0 4294967290 [("out", .int 1)], poll 60 4 [("out", .int 2)]],
        .restart, .apply [poll 120 9 [("out", .int 2)]]]
      (by decide) rfl (by decide) octets_independent (by decide) (by decide +kernel)⟩

/-- With `output: rate` the rates go out and no delta does. -/
theorem no_delta_under_rate :
    let cfg : Config := { octets .raise with output := .rate }
    let calls := [Call.apply [poll 0 10 [("out", .int 1)], poll 60 70 [("out", .int 2)]]]
    let log := (Run.exec (History.step plainPython cfg) History.init calls).log
    let series : Series := ⟨"", ["1"], ["in"]⟩
    let samples := log.filterMap (series.sampleIn plainPython cfg)
    let deltas := log.filterMap (series.deltaIn plainPython cfg)
    let rates := log.filterMap fun e => (e.output.bind (·.getPath (ratePath ["in"]))).bind Json.num?
    samples = [10, 70] ∧ (∀ e ∈ log, e.flagged = false) ∧ rates = [1] ∧ deltas = [] ∧
      ¬ deltas.sum ≡ 70 - 10 [ZMOD 2 ^ 32] := by
  decide +kernel

end Tram.CounterDelta
