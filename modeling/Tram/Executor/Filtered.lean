import Mathlib.Data.List.Fold
import Mathlib.Data.List.MinMax
import Tram.Executor.StreamSteps

/-! # Units acknowledged as filtered

A broker unit is acknowledged as filtered when its counters show neither a loss nor a delivery.
The counters are filled on arrival, by the flush its survivors are written in and by the share it
gets of that flush, so the argument goes through one flush: if the cohort lost nothing and
delivered nothing, every sink passed over all of its records. -/

namespace Tram.Executor

open List Prod State Executor.Stream Subset AckDisposition
open Procedure (bind_ok bind_run_ok)

variable {ρ : Type}

/-- The sink wrote none of the records and lost none: its condition excluded them all, or its own
transforms left nothing of those it selected. -/
def Sink.PassesOver (sink : Sink ρ) (answers : Answers) (i : Nat) (records : List ρ) : Prop :=
  sink.select (answers.conditionAt i) records = .ok [] ∨
    ∃ chosen, sink.select (answers.conditionAt i) records = .ok chosen ∧
      applyTransforms (answers.sinkTransformAt i) sink.transforms chosen = .ok []

def State.lost (s : State ρ) (key : UnitKey) : Nat :=
  ((s.delivery.units.lookup key).map UnitOutcome.lost).getD 0

variable {s : State ρ} {key : UnitKey} {sinks : List (Sink ρ)}
  {entries : List (Nat × Meta × List ρ)} {u : UnitOutcome}

theorem State.lost_of_lookup (h : s.delivery.units.lookup key = some u) : s.lost key = u.lost := by
  rw [lost, h]; rfl

theorem Keeps.lost_le {t : State ρ} (h : Keeps s t) :
    s.lost key ≤ t.lost key := by
  cases hu : s.delivery.units.lookup key with
  | none => rw [lost, hu]; exact Nat.zero_le _
  | some u =>
    obtain ⟨u', hu', hgrown⟩ := h.grows key u hu
    rw [lost_of_lookup hu, lost_of_lookup hu']
    exact hgrown.lost_le

theorem Keeps.of_run {β : Type} {run : β × State ρ} {r : β} {t : State ρ} (h : Keeps s run.2)
    (hrun : run = (r, t)) : Keeps s t := by
  rwa [hrun] at h

theorem State.lost_losing (h : s.delivery.Registered key) (l : Loss) :
    (s.losing ⟨some key, true⟩ l).lost key =
      s.lost key + (l.recordsFailed + l.dlqSucceeded + l.dlqFailed) := by
  obtain ⟨u, hu⟩ := h
  have hu' : (s.losing ⟨some key, true⟩ l).delivery.units.lookup key = some (u.lose l) := by
    show (Dict.modify s.delivery.units key (·.lose l)).lookup key = _
    rw [Dict.lookup_modify, if_pos rfl, hu]
    rfl
  rw [lost_of_lookup hu, lost_of_lookup hu']
  simp only [UnitOutcome.lost, UnitOutcome.lose]
  omega

/-! ## One sink -/

section Sinks

variable {p : Pipeline ρ} {answers : Answers} {t : State ρ}

variable {records : List ρ} {sink : Sink ρ} {i : Nat} {ns : List Nat}

theorem lose_lost (h : s.delivery.Registered key) (sink : Option Nat) (stage : Stage)
    (records : List ρ) {count : Nat} (hcount : 0 < count) (taken : Bool) (text : String) :
    s.lost key < (lose p ⟨some key, true⟩ sink stage records count taken text s).2.lost key := by
  rcases lose_cases p ⟨some key, true⟩ sink stage records count taken text s with
    ⟨-, -, hrun⟩ | ⟨-, -, -, -, hrun⟩ | ⟨-, -, -, hrun⟩ | ⟨-, hrun⟩ <;> rw [hrun]
  · rw [lost_losing (s := s.emit _) h]
    exact Nat.lt_succ_self (s.lost key)
  · rw [lost_losing h]; simp
  · rw [lost_losing h]; simp
  · rw [lost_losing h]; simp; omega

theorem partitionFailed_lost (h : s.delivery.Registered key) (i : Nat) (sink : Sink ρ) (j : Nat)
    {part : List ρ} (hpart : part ≠ []) (text : String)
    (hrun : partitionFailed p ⟨⟨some key, true⟩, answers⟩ i sink j part text s = (.ok (), t)) :
    s.lost key < t.lost key := by
  obtain ⟨_, s₁, htrip, hrest⟩ := bind_ok hrun
  obtain ⟨_, s₂, hlose, hraise⟩ := bind_ok hrest
  have hkeep : Keeps s s₁ := .of_run ((Keeps.stepwise p ⟨⟨some key, true⟩, answers⟩).rule.tripBreaker
    i trivial sink (answers.trippedAt i j) s) htrip
  have hlost := lose_lost (p := p) (hkeep.grows.registered h) (some i) .sink part
    (length_pos_iff.mpr hpart) (answers.partitionDlq i j)
    s!"DLQ delivery failed for sink error: {text}"
  rw [hlose] at hlost
  have hend : t = s₂ := by
    split_ifs at hraise
    · cases hraise
    · exact (mk.inj hraise).2.symm
  rw [hend]
  exact Nat.lt_of_le_of_lt hkeep.lost_le hlost

theorem writePartitions_written (i : Nat) (sink : Sink ρ) {j written n : Nat}
    {parts : List (List ρ)} (hparts : ∀ part ∈ parts, part ≠ []) (h : s.delivery.Registered key)
    (hrun : writePartitions p ⟨⟨some key, true⟩, answers⟩ i sink j written parts s = (.ok n, t)) :
    written ≤ n ∧ (parts ≠ [] → n = written → s.lost key < t.lost key) := by
  induction parts generalizing j written s with
  | nil =>
    obtain ⟨hn, -⟩ := mk.inj hrun
    exact ⟨Nat.le_of_eq (Except.ok.inj hn), fun hne => absurd rfl hne⟩
  | cons part parts ih =>
    have hpart : part ≠ [] := hparts part mem_cons_self
    rw [writePartitions] at hrun
    cases hser : answers.serialize i j with
    | some fault => simp only [hser] at hrun; cases hrun
    | none =>
      simp only [hser] at hrun
      cases herr : partitionError ⟨⟨some key, true⟩, answers⟩ i sink j with
      | none =>
        simp only [herr] at hrun
        obtain ⟨_, s₁, hwrote, hrest⟩ := bind_ok hrun
        obtain ⟨_, s₂, hreset, hparts'⟩ := bind_ok hrest
        have hkeep : Keeps s s₂ := by
          refine Keeps.trans (t := s₁) ?_ (.of_run ((Keeps.stepwise p
            ⟨⟨some key, true⟩, answers⟩).rule.resetBreaker i trivial sink s₁) hreset)
          rw [← (mk.inj hwrote).2]
          exact .of_delivery rfl rfl rfl
        have hle := (ih (fun q hq => hparts q (mem_cons_of_mem _ hq))
          (hkeep.grows.registered h) hparts').1
        have hpos : 0 < part.length := length_pos_iff.mpr hpart
        exact ⟨by omega, fun _ hn => by omega⟩
      | some text =>
        simp only [herr] at hrun
        obtain ⟨_, s₁, hfailed, hend⟩ := bind_ok hrun
        obtain ⟨hn, hs⟩ := mk.inj hend
        rw [← hs]
        exact ⟨Nat.le_of_eq (Except.ok.inj hn),
          fun _ _ => partitionFailed_lost h i sink j hpart text hfailed⟩

theorem partitionRecords_ne_nil (h : records ≠ []) :
    partitionRecords p sink records ≠ [] := by
  unfold partitionRecords
  split_ifs with hpaths
  · exact cons_ne_nil _ _
  · intro hnil
    have hperm := Grouping.ungroup_groups (fun r => sink.fieldPaths.map (p.lookupField r)) records
    rw [map_eq_nil_iff.mp hnil] at hperm
    exact h (nil_perm.mp hperm)

theorem Sink.ne_nil_of_select {moment : Nat → Nat} {chosen : List ρ}
    (h : sink.select moment records = .ok chosen) (hne : chosen ≠ []) : records ≠ [] := by
  rintro rfl
  unfold Sink.select at h
  cases hcond : sink.condition with
  | none => simp [hcond] at h; exact hne h
  | some cond => simp [hcond, filterByCondition] at h; exact hne h

theorem writeOneSink_passesOver (h : s.delivery.Registered key)
    (hrun : writeOneSink p ⟨⟨some key, true⟩, answers⟩ records i sink s = (.ok 0, t))
    (hlost : t.lost key ≤ s.lost key) : sink.PassesOver answers i records := by
  unfold writeOneSink at hrun
  match hselect : sink.select (answers.conditionAt i) records with
  | .error f => simp only [hselect] at hrun; cases hrun
  | .ok [] => exact .inl hselect
  | .ok (r :: rs) =>
    simp only [hselect] at hrun
    match htr : applyTransforms (answers.sinkTransformAt i) sink.transforms (r :: rs) with
    | .ok [] => exact .inr ⟨r :: rs, hselect, htr⟩
    | .error (text, before) =>
      simp only [htr] at hrun
      split_ifs at hrun with habort
      · cases hrun
      · obtain ⟨_, s₁, hlose, hend⟩ := bind_ok hrun
        have hmore := lose_lost (p := p) h (some i) .transform before Nat.one_pos
          (answers.sinkTransformDlq i) s!"DLQ delivery failed for sink transform error: {text}"
        rw [hlose, (mk.inj hend).2] at hmore
        exact absurd hmore (Nat.not_lt.mpr hlost)
    | .ok (o :: os) =>
      simp only [htr] at hrun
      obtain ⟨s₀, s₁, hget, hrest⟩ := bind_ok hrun
      obtain ⟨-, rfl⟩ := mk.inj hget
      split_ifs at hrest with hopen
      · obtain ⟨_, s₂, hskip, hend⟩ := bind_ok hrest
        have hlen : 0 < records.length :=
          length_pos_iff.mpr (Sink.ne_nil_of_select hselect (cons_ne_nil r rs))
        have hs₂ : s₂ = s.losing ⟨some key, true⟩ ⟨records.length, 0, 0⟩ :=
          (mk.inj hskip).2.symm
        have ht : t.lost key = s₂.lost key := by rw [← (mk.inj hend).2]; rfl
        rw [ht, hs₂, lost_losing h] at hlost
        simp only [] at hlost
        omega
      · have hmore := (writePartitions_written i sink (fun part hpart =>
          ne_nil_of_mem_partitionRecords (cons_ne_nil o os) hpart) h hrest).2
          (partitionRecords_ne_nil (cons_ne_nil o os)) rfl
        omega

theorem writeSinks_passesOver (h : s.delivery.Registered key)
    (hrun : writeSinks p ⟨⟨some key, true⟩, answers⟩ records i sinks s = (.ok ns, t))
    (hzero : ∀ n ∈ ns, n = 0) (hlost : t.lost key ≤ s.lost key) (k : Nat) (sink : Sink ρ)
    (hsink : sinks[k]? = some sink) : sink.PassesOver answers (i + k) records := by
  induction sinks generalizing i s ns k with
  | nil => simp at hsink
  | cons first sinks ih =>
    rw [writeSinks] at hrun
    obtain ⟨n, s₁, hone, hrest⟩ := bind_ok hrun
    obtain ⟨rest, s₂, hsinks, hend⟩ := bind_ok hrest
    obtain ⟨hns, rfl⟩ := mk.inj hend
    obtain rfl := Except.ok.inj hns
    have hrule := (Keeps.stepwise p ⟨⟨some key, true⟩, answers⟩).rule
    have hkeep₁ : Keeps s s₁ := .of_run (hrule.writeOneSink records i trivial first s) hone
    have hkeep₂ : Keeps s₁ s₂ :=
      .of_run (hrule.writeSinks (fun _ => trivial) records (i + 1) sinks s₁) hsinks
    have hle₁ : s.lost key ≤ s₁.lost key := hkeep₁.lost_le
    have hle₂ : s₁.lost key ≤ s₂.lost key := hkeep₂.lost_le
    cases k with
    | zero =>
      cases hsink
      obtain rfl := hzero n mem_cons_self
      exact writeOneSink_passesOver h hone (by omega)
    | succ k =>
      rw [show i + (k + 1) = i + 1 + k by omega]
      exact ih (hkeep₁.grows.registered h) hsinks
        (fun m hm => hzero m (mem_cons_of_mem _ hm)) (by omega) k hsink

/-- On the pool, if no sink raises, the sinks do what they do in turn. -/
theorem runSinks_ok {c : Call} (h : gather (runSinks p c records i sinks s).1 = .ok ns) :
    writeSinks p c records i sinks s = (.ok ns, (runSinks p c records i sinks s).2) := by
  induction sinks generalizing i s ns with
  | nil => cases h; rfl
  | cons sink sinks ih =>
    rw [runSinks] at h ⊢
    rcases hone : writeOneSink p c records i sink s with ⟨f | n, t⟩
    · cases f <;> simp [hone, gather] at h
    · simp only [hone, gather] at h
      cases hrest : gather (runSinks p c records (i + 1) sinks t).1 with
      | error f => simp [hrest] at h
      | ok ms =>
        simp only [hrest, Except.ok.injEq] at h
        rw [writeSinks, bind_run_ok hone, bind_run_ok (ih hrest), ← h]
        rfl

theorem fanOut_ok {c : Call} (h : fanOut p c records s = (.ok ns, t)) :
    writeSinks p c records 0 p.sinks s = (.ok ns, t) := by
  unfold fanOut at h
  split_ifs at h
  · obtain ⟨hns, rfl⟩ := mk.inj h
    exact runSinks_ok hns
  · exact h

end Sinks

/-! ## A flush -/

section Flush

variable {p : Pipeline ρ} {answers : Answers} {t : State ρ}

variable {info : Meta} {survivors : List ρ} {moment : Nat → Nat → Nat} {cohort : UnitOutcome}

theorem applyGlobalTransforms_nil (c : Call) (n : Nat) (records : List ρ) :
    applyGlobalTransforms p c [] n records s = (.ok records, s) := by
  induction records generalizing n with
  | nil => rfl
  | cons record records ih =>
    rw [applyGlobalTransforms]
    simp only [applyTransforms]
    rw [bind_run_ok (ih (n + 1))]
    rfl

theorem processRecords_passesOver {records : List ρ}
    (hnew : s.delivery.units.lookup key = some (.new info))
    (hrun : processRecords p ⟨⟨some key, true⟩, answers⟩ [] false records s = (.ok true, t)) :
    ∃ u, t.delivery.units.lookup key = some u ∧ (u.lost = 0 → u.delivered = 0 →
      ∀ (i : Nat) (sink : Sink ρ), p.sinks[i]? = some sink → sink.PassesOver answers i records) := by
  have hbody : (do routeRecords p ⟨⟨some key, true⟩, answers⟩ [] false records; pure true) s =
      (.ok true, t) := by
    match h : (do routeRecords p ⟨⟨some key, true⟩, answers⟩ [] false records; pure true) s with
    | (.ok b, t') => rwa [processRecords, handling_ok h] at hrun
    | (.error f, t') =>
      rw [processRecords, handling_error h] at hrun
      split_ifs at hrun <;> cases hrun
  obtain ⟨_, t', hroute, hend⟩ := bind_ok hbody
  obtain ⟨-, rfl⟩ := mk.inj hend
  obtain ⟨_, s₁, hcount, hroute⟩ := bind_ok hroute
  obtain ⟨-, rfl⟩ := mk.inj hcount
  rw [bind_run_ok (applyGlobalTransforms_nil _ _ _)] at hroute
  obtain ⟨ns, s₂, hfan, hchunk⟩ := bind_ok hroute
  obtain ⟨-, hchunk⟩ := mk.inj hchunk
  have hregistered : s.delivery.Registered key := ⟨_, hnew⟩
  have hkeep : Keeps s s₂ := .of_run ((Keeps.stepwise p ⟨⟨some key, true⟩, answers⟩).rule.fanOut
    (fun _ => trivial) records s) hfan
  obtain ⟨u, hu, hgrown⟩ := hkeep.grows key _ hnew
  have hlast : t'.delivery.units.lookup key =
      some (u.deliver records.length (ns.foldl max 0)) := by
    rw [← hchunk]
    show (Dict.modify s₂.delivery.units key _).lookup key = _
    rw [Dict.lookup_modify, if_pos rfl, hu]
    rfl
  refine ⟨_, hlast, fun hlost hdelivered i sink hsink => ?_⟩
  have hzero : ∀ n ∈ ns, n = 0 := by
    intro n hn
    have hle : n ≤ ns.foldl max 0 := by
      rw [foldl_eq_foldr]
      exact le_max_of_le' 0 hn le_rfl
    have hsum : u.delivered + ns.foldl max 0 = 0 := hdelivered
    omega
  have hsame : s₂.lost key ≤ s.lost key := by
    rw [lost_of_lookup hu]
    exact Nat.le_trans (Nat.le_of_eq hlost) (Nat.zero_le _)
  have hpassed := writeSinks_passesOver hregistered (fanOut_ok hfan) hzero hsame i sink hsink
  rwa [Nat.zero_add] at hpassed

theorem selected_false {i : Nat} (h : selected moment survivors i sinks = .ok false) (k : Nat)
    (sink : Sink ρ) (hsink : sinks[k]? = some sink) :
    sink.select (moment (i + k)) survivors = .ok [] := by
  induction sinks generalizing i k with
  | nil => simp at hsink
  | cons first sinks ih =>
    rw [selected] at h
    match hselect : first.select (moment i) survivors with
    | .error f => simp [hselect] at h
    | .ok (_ :: _) => simp [hselect] at h
    | .ok [] =>
      simp only [hselect] at h
      cases k with
      | zero =>
        cases hsink
        exact hselect
      | succ k =>
        rw [show i + (k + 1) = i + 1 + k by omega]
        exact ih h k hsink

/-- What the counters of a unit say about its share of a flush with outcome `cohort`. -/
def Shared (p : Pipeline ρ) (moment : Nat → Nat → Nat) (cohort : UnitOutcome) (survivors : List ρ)
    (u : UnitOutcome) : Prop :=
  survivors = [] ∨ (u.lost = 0 → cohort.lost = 0 ∧ (u.delivered = 0 → cohort.delivered = 0 ∨
    0 < cohort.delivered ∧ ∀ (i : Nat) (sink : Sink ρ), p.sinks[i]? = some sink →
      sink.select (moment i) survivors = .ok []))

theorem Shared.grown {u' : UnitOutcome} (h : Shared p moment cohort survivors u)
    (hgrown : u.Grown u') : Shared p moment cohort survivors u' := by
  refine h.imp id fun h hlost => ?_
  have hle := hgrown.lost_le
  obtain ⟨hcohort, hdelivered⟩ := h (by omega)
  refine ⟨hcohort, fun hzero => hdelivered ?_⟩
  have hle := hgrown.delivered
  omega

theorem onUnit_lookup (hunit : info.unit = some key) (hu : s.delivery.units.lookup key = some u)
    (f : UnitOutcome → UnitOutcome) :
    (s.onDelivery (·.onUnit info.unit f)).delivery.units.lookup key = some (f u) := by
  rw [hunit]
  show (Dict.modify s.delivery.units key f).lookup key = _
  rw [Dict.lookup_modify, if_pos rfl, hu]
  rfl

theorem shareOutcome_shared (hunit : info.unit = some key) (h : s.delivery.Registered key)
    (hrun : shareOutcome p moment (some cohort) info survivors s = (.ok (), t)) :
    ∃ u, t.delivery.units.lookup key = some u ∧ Shared p moment cohort survivors u := by
  obtain ⟨u, hu⟩ := h
  match survivors with
  | [] =>
    obtain ⟨-, rfl⟩ := mk.inj hrun
    exact ⟨u, hu, .inl rfl⟩
  | r :: rs =>
    obtain ⟨_, s₁, hlose, hrest⟩ := bind_ok hrun
    obtain ⟨-, rfl⟩ := mk.inj hlose
    have hlost := onUnit_lookup hunit hu
      (·.lose ⟨cohort.recordsFailed, cohort.dlqSucceeded, cohort.dlqFailed⟩)
    -- the losses of the cohort are among those of the unit
    have hsum : ∀ v : UnitOutcome, (u.lose ⟨cohort.recordsFailed, cohort.dlqSucceeded,
        cohort.dlqFailed⟩).Grown v → v.lost = 0 → cohort.lost = 0 := by
      intro v hgrown hv
      have hle := hgrown.lost_le
      simp only [UnitOutcome.lost, UnitOutcome.lose] at hle hv ⊢
      omega
    unfold shareDelivery at hrest
    split_ifs at hrest with hzero
    · obtain ⟨-, rfl⟩ := mk.inj hrest
      exact ⟨_, hlost, .inr fun hv => ⟨hsum _ (.refl _) hv, fun _ => .inl hzero⟩⟩
    · match hsel : selected moment (r :: rs) 0 p.sinks with
      | .error f => simp only [hsel] at hrest; cases hrest
      | .ok false =>
        simp only [hsel] at hrest
        obtain ⟨-, rfl⟩ := mk.inj hrest
        refine ⟨_, hlost, .inr fun hv => ⟨hsum _ (.refl _) hv, fun _ =>
          .inr ⟨Nat.pos_of_ne_zero hzero, fun i sink hsink => ?_⟩⟩⟩
        have := selected_false hsel i sink hsink
        rwa [Nat.zero_add] at this
      | .ok true =>
        simp only [hsel] at hrest
        obtain ⟨-, rfl⟩ := mk.inj hrest
        refine ⟨_, onUnit_lookup hunit hlost _, .inr fun hv =>
          ⟨hsum _ (UnitOutcome.grown_deliver _ _ _) hv, fun hnone => absurd hnone ?_⟩⟩
        simp [UnitOutcome.deliver]

theorem settle_shared {moment : Nat → Nat → Nat → Nat} {n : Nat}
    {contributors : List (Meta × List ρ)}
    (hrun : settle p moment (some cohort) n contributors s = (.ok entries, t)) :
    ∀ e ∈ entries, e.2 ∈ contributors ∧ ∃ key u, e.2.1.unit = some key ∧
      t.delivery.units.lookup key = some u ∧ Shared p (moment e.1) cohort e.2.2 u := by
  induction contributors generalizing n s entries with
  | nil =>
    obtain ⟨hentries, -⟩ := mk.inj hrun
    cases hentries
    exact nofun
  | cons entry rest ih =>
    obtain ⟨info, survivors⟩ := entry
    obtain ⟨s₀, s₁, hget, hrest⟩ := bind_ok hrun
    cases hget
    have hlater : ∀ {m : Nat} {entries : List (Nat × Meta × List ρ)} {s' : State ρ},
        settle p moment (some cohort) m rest s' = (.ok entries, t) → ∀ e ∈ entries,
        e.2 ∈ (info, survivors) :: rest ∧ ∃ key u, e.2.1.unit = some key ∧
          t.delivery.units.lookup key = some u ∧ Shared p (moment e.1) cohort e.2.2 u :=
      fun h e he => (ih h e he).imp (mem_cons_of_mem _) id
    match hlookup : info.unit.bind s.delivery.units.lookup with
    | none =>
      simp only [hlookup] at hrest
      exact hlater hrest
    | some u₀ =>
      simp only [hlookup] at hrest
      obtain ⟨key, hunit, hu₀⟩ := Option.bind_eq_some_iff.mp hlookup
      obtain ⟨_, s₁, hshare, hrest⟩ := bind_ok hrest
      obtain ⟨infos, s₂, hsettle, hend⟩ := bind_ok hrest
      obtain ⟨hentries, rfl⟩ := mk.inj hend
      obtain rfl := Except.ok.inj hentries
      intro e he
      rcases mem_cons.mp he with rfl | he
      · obtain ⟨u, hu, hshared⟩ := shareOutcome_shared hunit ⟨u₀, hu₀⟩ hshare
        have hkeep : Keeps s₁ s₂ :=
          .of_run (settle_keeps (p := p) moment (some cohort) (n + 1) rest s₁) hsettle
        obtain ⟨u', hu', hgrown⟩ := hkeep.grows key u hu
        exact ⟨mem_cons_self, key, u', hunit, hu', hshared.grown hgrown⟩
      · exact hlater hsettle e he

end Flush

/-! ## Runs -/

section Runs

variable {job : StreamJob ρ} {s t : Stream ρ}

/-- The unit had no survivors in the flush, or every sink passed over all the records of the
flush, or the flush delivered others and every sink's condition, asked again, excluded its
survivors. -/
def Flushed.Filtered (p : Pipeline ρ) (e : Flushed ρ) : Prop :=
  e.survivors = [] ∨
  (∀ (i : Nat) (sink : Sink ρ), p.sinks[i]? = some sink →
    sink.PassesOver e.answers i e.records) ∨
  (0 < e.delivered ∧ ∀ (i : Nat) (sink : Sink ρ), p.sinks[i]? = some sink →
    sink.select (e.recheck i) e.survivors = .ok [])

/-- The unit was in a flush that carried all its survivors and, unless the flush swallowed an
error, filtered them. -/
def Explained (p : Pipeline ρ) (s : Stream ρ) (info : Meta) : Prop :=
  ∃ e ∈ s.log, e.info = info ∧ (info, e.survivors) ∈ s.survived ∧ e.survivors ⊆ e.records ∧
    (e.swallowed = false → e.Filtered p)

variable {p : Pipeline ρ}

theorem Explained.mono {info : Meta} (h : Explained p s info) (hlog : s.log ⊆ t.log)
    (hsurvived : s.survived ⊆ t.survived) : Explained p t info := by
  obtain ⟨e, he, hinfo, hsurvivors, hrest⟩ := h
  exact ⟨e, hlog he, hinfo, hsurvived hsurvivors, hrest⟩

/-- What holds of the buffer, of the completed units and of the acknowledged ones. -/
structure FilteredExplained (p : Pipeline ρ) (s : Stream ρ) : Prop where
  contributors : ∀ e ∈ s.contributors, e ∈ s.survived ∧ e.2 ⊆ s.records
  completed : ∀ info ∈ s.completed, ∃ key u, info.unit = some key ∧
    s.run.delivery.units.lookup key = some u ∧
    (u.lost = 0 → u.delivered = 0 → Explained p s info)
  acked : ∀ info, (info, filtered) ∈ s.run.acks → Explained p s info

def FreshCohort (s : Stream ρ) : StreamEvent ρ → Prop
  | .flush cohort _ _ => s.run.delivery.units.lookup cohort = none
  | _ => True

theorem FilteredExplained.frame (h : FilteredExplained p s)
    (hgrows : s.run.delivery.Grows t.run.delivery) (hacks : t.run.acks = s.run.acks)
    (hcompleted : t.completed = s.completed) (hlog : t.log = s.log)
    (hsurvived : s.survived ⊆ t.survived)
    (hcontributors : ∀ e ∈ t.contributors, e ∈ t.survived ∧ e.2 ⊆ t.records) :
    FilteredExplained p t := by
  have hmono : ∀ {info}, Explained p s info → Explained p t info := fun he =>
    he.mono (by rw [hlog]; exact refl _) hsurvived
  refine ⟨hcontributors, fun info hinfo => ?_, fun info hinfo => ?_⟩
  · rw [hcompleted] at hinfo
    obtain ⟨key, u, hkey, hu, hclean⟩ := h.completed info hinfo
    obtain ⟨u', hu', hgrown⟩ := hgrows key u hu
    refine ⟨key, u', hkey, hu', fun hlost hdelivered => hmono (hclean ?_ ?_)⟩
    · exact Nat.le_zero.mp (hlost ▸ hgrown.lost_le)
    · exact Nat.le_zero.mp (hdelivered ▸ hgrown.delivered)
  · rw [hacks] at hinfo
    exact hmono (h.acked info hinfo)

theorem FilteredExplained.append (h : FilteredExplained p s) (info : Meta) (survivors : List ρ) :
    FilteredExplained p (s.append info survivors) := by
  have hold : ∀ e ∈ s.contributors, e ∈ s.survived ++ [(info, survivors)] ∧
      e.2 ⊆ s.records ++ survivors := fun e he =>
    ⟨mem_append_left _ (h.contributors e he).1,
      Subset.trans (h.contributors e he).2 (subset_append_left _ _)⟩
  refine h.frame (.refl _) rfl rfl rfl (subset_append_left _ _) ?_
  unfold Stream.append
  dsimp only
  split_ifs
  · exact forall_mem_concat hold ⟨mem_append_right _ mem_cons_self, subset_append_right _ _⟩
  · exact hold

theorem FilteredExplained.complete (h : FilteredExplained p s) {cohort : UnitKey}
    {answers : Answers} {moment : Nat → Nat → Nat → Nat} {processed : Bool} {t' u : State ρ}
    (hfresh : s.run.delivery.units.lookup cohort = none) (hkeeps : KeepsBut cohort s.run u)
    (hprocess : processRecords p ⟨⟨some cohort, true⟩, answers⟩ [] false s.records (s.cohortRun
      cohort) = (.ok processed, t'))
    (hsettle : settle p moment (t'.delivery.units.lookup cohort) 0 s.contributors (t'.onDelivery
      (·.dropUnit cohort)) = (.ok entries, u)) :
    FilteredExplained p { s.drained u with
      completed := s.completed ++ entries.map (·.2.1)
      log := s.log ++ entries.map fun (n, unit, survivors) =>
        ⟨unit, survivors, s.records, answers, moment n, !processed,
          ((t'.delivery.units.lookup cohort).map (·.delivered)).getD 0⟩ } := by
  have hnew : (s.cohortRun cohort).delivery.units.lookup cohort =
      some (.new (s.buffered.getD .empty)) := by
    rw [cohortRun, onDelivery, Delivery.registerUnit, Dict.lookup_setdefault,
      if_pos rfl, hfresh]
    rfl
  -- the outcome of the cohort, and what it says when nothing was swallowed
  obtain ⟨outcome, houtcome, hpassed⟩ : ∃ outcome,
      t'.delivery.units.lookup cohort = some outcome ∧ (processed = true → outcome.lost = 0 →
        outcome.delivered = 0 → ∀ (i : Nat) (sink : Sink ρ), p.sinks[i]? = some sink →
          sink.PassesOver answers i s.records) := by
    cases processed with
    | true =>
      obtain ⟨outcome, houtcome, hpassed⟩ := processRecords_passesOver hnew hprocess
      exact ⟨outcome, houtcome, fun _ => hpassed⟩
    | false =>
      have hkeep := processRecords_keeps (p := p) (c := ⟨⟨some cohort, true⟩, answers⟩) [] false
        s.records (s.cohortRun cohort)
      rw [hprocess] at hkeep
      obtain ⟨outcome, houtcome, -⟩ := hkeep.grows cohort _ hnew
      exact ⟨outcome, houtcome, by simp⟩
  rw [houtcome] at hsettle
  have hshared := settle_shared hsettle
  have hframe : FilteredExplained p (s.drained u) :=
    h.frame (t := s.drained u) hkeeps.grows hkeeps.acks rfl rfl (refl _) (by simp [drained])
  refine ⟨by simp [drained], fun info hinfo => ?_, fun info hinfo =>
    (hframe.acked info hinfo).mono (subset_append_left _ _) (refl _)⟩
  rcases mem_append.mp hinfo with hinfo | hinfo
  · obtain ⟨key, v, hkey, hv, hclean⟩ := hframe.completed info hinfo
    exact ⟨key, v, hkey, hv, fun hlost hdelivered =>
      (hclean hlost hdelivered).mono (subset_append_left _ _) (refl _)⟩
  · obtain ⟨⟨n, info, survivors⟩, hentry, rfl⟩ := mem_map.mp hinfo
    obtain ⟨hcontributor, key, v, hkey, hv, hshare⟩ := hshared _ hentry
    obtain ⟨hsurvived, hsubset⟩ := h.contributors _ hcontributor
    refine ⟨key, v, hkey, hv, fun hlost hdelivered => ?_⟩
    refine ⟨_, mem_append_right _ (mem_map_of_mem hentry), rfl, hsurvived, hsubset,
      fun hswallowed => ?_⟩
    rcases hshare with hnil | hshare
    · exact .inl hnil
    · obtain ⟨hcohort, hzero⟩ := hshare hlost
      rw [houtcome]
      exact .inr ((hzero hdelivered).imp (hpassed (by simpa using hswallowed) hcohort) id)

theorem FilteredExplained.conclude (h : FilteredExplained job.toPipeline s) (v : Verdict)
    (committed : Bool) : FilteredExplained job.toPipeline (s.conclude job v committed) := by
  refine ⟨h.contributors, nofun, fun info hinfo => ?_⟩
  have hcases : (info, filtered) ∈ s.run.acks ∨
      (info, some filtered) ∈
        (takeDecisions job.onError s.completed s.run.delivery s.taken).1 := by
    simp only [Stream.conclude] at hinfo
    split_ifs at hinfo
    · rcases mem_append.mp hinfo with hold | hnew
      · exact .inl hold
      · obtain ⟨⟨info', disposition⟩, hdecision, hack⟩ := mem_filterMap.mp hnew
        obtain ⟨d, rfl, heq⟩ := Option.map_eq_some_iff.mp hack
        cases heq
        exact .inr hdecision
    · exact .inl hinfo
  rcases hcases with hold | hnew
  · exact h.acked info hold
  · rw [takeDecisions_fst] at hnew
    obtain ⟨hcompleted, key, hkey, hfiltered⟩ := mem_decisionsOf.mp hnew
    obtain ⟨key', u, hkey', hu, hclean⟩ := h.completed info hcompleted
    rw [hkey] at hkey'
    cases hkey'
    rw [outcomeOf, hu] at hfiltered
    obtain ⟨hdlqFailed, hdlqSucceeded, hfailed, hdelivered, -⟩ :=
      UnitOutcome.disposition_eq_filtered.mp hfiltered
    have hlost : u.lost = 0 := by rw [UnitOutcome.lost, hdlqFailed, hdlqSucceeded, hfailed]
    exact hclean hlost hdelivered

theorem FilteredExplained.step (h : FilteredExplained job.toPipeline s) (e : StreamEvent ρ)
    (hfresh : FreshCohort s e) : FilteredExplained job.toPipeline (s.step job e) := by
  cases e with
  | receive info =>
    show FilteredExplained job.toPipeline (s.receive info)
    unfold receive
    split
    · exact h.frame (Delivery.grows_registerUnit _ _ _) rfl rfl rfl (refl _)
        h.contributors
    · exact h
  | process n raw parsed taken lossElsewhere =>
    show FilteredExplained job.toPipeline (s.process job.toPipeline n raw parsed taken lossElsewhere)
    rcases process_cases job.toPipeline s n raw parsed taken lossElsewhere with
      hsame | ⟨info, t, -, hkeep, hlost | ⟨survivors, happend⟩⟩
    · rwa [hsame]
    · rw [hlost]
      exact h.frame hkeep.grows hkeep.acks rfl rfl (refl _) h.contributors
    · rw [happend]
      exact (h.frame (t := { s with run := t, queue := s.queue.eraseIdx n }) hkeep.grows
        hkeep.acks rfl rfl (refl _) h.contributors).append info survivors
  | flush cohort answers moment =>
    show FilteredExplained job.toPipeline (s.flush job.toPipeline cohort answers moment).2
    rcases flush_cases job.toPipeline s answers moment hfresh with
      hsame | ⟨u, hkeep, hdrained | ⟨processed, t, entries, hprocess, hsettle, hflush⟩⟩
    · rwa [hsame]
    · rw [hdrained]
      exact h.frame (t := s.drained u) hkeep.grows hkeep.acks rfl rfl (refl _) nofun
    · rw [hflush]
      exact h.complete hfresh hkeep hprocess hsettle
  | decide verdict =>
    show FilteredExplained job.toPipeline (s.decide job verdict)
    rcases decide_cases job s verdict with hsame | hover | ⟨-, hconclude⟩
    · rwa [hsame]
    · rw [hover]
      exact ⟨h.contributors, nofun, h.acked⟩
    · rw [hconclude]
      exact h.conclude verdict _

theorem FilteredExplained.start (p : Pipeline ρ) (breakers : Dict String (Nat × Nat)) :
    FilteredExplained p (start breakers) := ⟨nofun, nofun, nofun⟩

/-- In every run, a unit acknowledged as filtered was in a flush with all its survivors. Unless the
flush swallowed an error, there were no survivors, or every sink passed over all records of the
flush, or the flush delivered others and every sink's condition, asked again about the survivors
alone, excluded them. -/
theorem acked_filtered_explained (job : StreamJob ρ) (breakers : Dict String (Nat × Nat))
    (events : List (StreamEvent ρ))
    (hfresh : Run.AllSteps (step job) FreshCohort (start breakers) events)
    (info : Meta)
    (hacked : (info, filtered) ∈
      (Run.exec (step job) (start breakers) events).run.acks) :
    ∃ e ∈ (Run.exec (step job) (start breakers) events).log, e.info = info ∧
      (info, e.survivors) ∈ (Run.exec (step job) (start breakers) events).survived ∧
      e.survivors ⊆ e.records ∧ (e.swallowed = false → e.Filtered job.toPipeline) := by
  have hrun : FilteredExplained job.toPipeline
      (Run.exec (step job) (start breakers) events) :=
    Run.AllSteps.invariant (I := FilteredExplained job.toPipeline)
      (fun _ e h hC => h.step e hC) (.start job.toPipeline breakers) hfresh
  exact hrun.acked info hacked

end Runs

def oneSinkJob (transforms : List (Transform Nat)) : StreamJob Nat where
  name := "p"
  onError := .continues
  dlqSink := false
  parallelSinks := false
  transforms := []
  sinks := [⟨"db", none, transforms, [], 0, 1, 60⟩]
  lookupField _ _ := ""
  dlqSink_of_dlq := nofun
  strict := false

def oneRecord (answers : Answers) : List (StreamEvent Nat) :=
  [.receive (.ofBroker "t" 0), .process 0 [] (.ok ([1], .quiet)) true false,
    .flush ("stream-flush", "a") answers (fun _ _ _ => 0), .decide .quiet]

theorem acked_filtered_dropped :
    ∃ e ∈ (Run.exec (step (oneSinkJob [fun _ _ => .ok []])) (start ∅)
        (oneRecord .quiet)).log,
      e.info = .ofBroker "t" 0 ∧
      (Meta.ofBroker "t" 0, e.survivors) ∈ (Run.exec (step (oneSinkJob [fun _ _ => .ok []]))
        (start ∅) (oneRecord .quiet)).survived ∧
      e.survivors ⊆ e.records ∧
      (e.swallowed = false → e.Filtered (oneSinkJob [fun _ _ => .ok []]).toPipeline) :=
  acked_filtered_explained (oneSinkJob [fun _ _ => .ok []]) ∅ (oneRecord .quiet)
    ⟨trivial, trivial, rfl, trivial, trivial⟩ (.ofBroker "t" 0) (by decide +kernel)

/-- A unit is acknowledged as filtered although its record is excluded by no condition: the sink's
own transforms dropped it, or the flush ended in a serializer error that was swallowed. -/
theorem acked_filtered_not_excluded :
    ((Meta.ofBroker "t" 0, filtered) ∈
        (Run.exec (step (oneSinkJob [fun _ _ => .ok []])) (start ∅)
          (oneRecord .quiet)).run.acks ∧
      (Meta.ofBroker "t" 0, [1]) ∈ (Run.exec (step (oneSinkJob [fun _ _ => .ok []]))
        (start ∅) (oneRecord .quiet)).survived ∧
      ∀ sink ∈ (oneSinkJob [fun _ _ => .ok []]).sinks, ∀ moment, ∃ kept,
        sink.select moment [1] = .ok kept ∧ 1 ∈ kept) ∧
    (Meta.ofBroker "t" 0, filtered) ∈
      (Run.exec (step (oneSinkJob [])) (start ∅) (oneRecord
        { Answers.quiet with serialize := fun _ _ => some ⟨true, "bad"⟩ })).run.acks := by
  refine ⟨⟨by decide +kernel, by decide +kernel, ?_⟩, by decide +kernel⟩
  intro sink hsink moment
  rw [mem_singleton.mp hsink]
  exact ⟨[1], rfl, mem_cons_self⟩

end Tram.Executor
