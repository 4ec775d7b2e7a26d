import Tram.Executor.Growth

/-! # What each step of a stream run can do

One lemma for each step: arrivals and flushes leave the accounting of the units in place, and a
decision takes the completed units out of it and notes the gaps. -/

namespace Tram.Executor

open List Dict Delivery

variable {ρ : Type} {disposition : Option AckDisposition} {info : Meta}

/-- `Keeps`, for a flush: it may have left the unit of its own cohort registered. -/
structure KeepsBut (cohort : UnitKey) (s t : State ρ) : Prop where
  grows : s.delivery.Grows t.delivery
  registered : ∀ {key}, key ≠ cohort → t.delivery.Registered key → s.delivery.Registered key
  gaps : t.delivery.brokerGaps = s.delivery.brokerGaps
  pending : t.delivery.checkpointPending = s.delivery.checkpointPending
  acks : t.acks = s.acks

namespace KeepsBut

variable {cohort : UnitKey} {s t u : State ρ}

theorem of_keeps (h : Keeps s t) : KeepsBut cohort s t :=
  ⟨h.grows, fun _ hk => h.registered hk, h.gaps, h.pending, h.acks⟩

theorem trans (h : KeepsBut cohort s t) (h' : KeepsBut cohort t u) : KeepsBut cohort s u :=
  ⟨h.grows.trans h'.grows, fun hk hu => h.registered hk (h'.registered hk hu),
    h'.gaps.trans h.gaps, h'.pending.trans h.pending, h'.acks.trans h.acks⟩

theorem register (s : State ρ) (cohort : UnitKey) (info : Meta) :
    KeepsBut cohort s (s.onDelivery (·.registerUnit cohort info)) where
  grows := grows_registerUnit _ _ _
  registered := by
    rintro key hk ⟨u, hu⟩
    refine ⟨u, ?_⟩
    rwa [State.onDelivery, Delivery.registerUnit, lookup_setdefault, if_neg hk] at hu
  gaps := rfl
  pending := rfl
  acks := rfl

theorem drop (hfresh : s.delivery.units.lookup cohort = none) (h : KeepsBut cohort s t) :
    KeepsBut cohort s (t.onDelivery (·.dropUnit cohort)) where
  grows := by
    intro key u hu
    have hne := ne_of_lookup hfresh hu
    obtain ⟨u', hu', hgrown⟩ := h.grows key u hu
    refine ⟨u', ?_, hgrown⟩
    rw [State.onDelivery, dropUnit, lookup_erase_ite, if_neg hne]
    exact hu'
  registered := by
    rintro key hk ⟨u, hu⟩
    rw [State.onDelivery, dropUnit, lookup_erase_ite, if_neg hk] at hu
    exact h.registered hk ⟨u, hu⟩
  __ := h

end KeepsBut

namespace Stream

variable {p : Pipeline ρ} {s : Stream ρ}

theorem process_cases (p : Pipeline ρ) (s : Stream ρ) (n : Nat) (raw : List UInt8)
    (parsed : Except String (List ρ × Answers)) (taken lossElsewhere : Bool) :
    s.process p n raw parsed taken lossElsewhere = s ∨ ∃ info t, s.queue[n]? = some info ∧
      Keeps s.run t ∧
      (s.process p n raw parsed taken lossElsewhere =
          { s with run := t, queue := s.queue.eraseIdx n } ∨
        ∃ survivors, s.process p n raw parsed taken lossElsewhere =
          { s with run := t, queue := s.queue.eraseIdx n }.append info survivors) := by
  unfold process
  cases hinfo : s.queue[n]? with
  | none => exact .inl rfl
  | some info =>
    right
    have hkeep := arrive_keeps (p := p) info raw taken parsed s.run
    match harrive : arrive p info raw taken parsed s.run with
    | (.ok survivors, t) =>
      rw [harrive] at hkeep
      simp only [harrive]
      exact ⟨info, t, rfl, hkeep, .inr ⟨survivors, rfl⟩⟩
    | (.error f, t) =>
      rw [harrive] at hkeep
      simp only [harrive]
      have hrefused : Keeps s.run (t.refuse (refusalOf p taken f)) :=
        hkeep.trans (.of_delivery rfl rfl rfl)
      split_ifs
      · exact ⟨info, t, rfl, hkeep, .inl rfl⟩
      · exact ⟨info, _, rfl, hrefused, .inr ⟨[], rfl⟩⟩
      · exact ⟨info, _, rfl, hrefused, .inl rfl⟩

/-- The buffer emptied, with `t` the run after it. -/
def drained (s : Stream ρ) (t : State ρ) : Stream ρ :=
  { s with run := t, records := [], buffered := none, contributors := [] }

def cohortRun (s : Stream ρ) (cohort : UnitKey) : State ρ :=
  s.run.onDelivery (·.registerUnit cohort (s.buffered.getD .empty))

theorem flush_cases (p : Pipeline ρ) (s : Stream ρ) {cohort : UnitKey} (answers : Answers)
    (moment : Nat → Nat → Nat → Nat) (hfresh : s.run.delivery.units.lookup cohort = none) :
    (s.flush p cohort answers moment).2 = s ∨ ∃ u, KeepsBut cohort s.run u ∧
      ((s.flush p cohort answers moment).2 = s.drained u ∨
        ∃ processed t entries,
          processRecords p ⟨⟨some cohort, true⟩, answers⟩ [] false s.records
            (s.cohortRun cohort) = (.ok processed, t) ∧
          settle p moment (t.delivery.units.lookup cohort) 0 s.contributors
            (t.onDelivery (·.dropUnit cohort)) = (.ok entries, u) ∧
          (s.flush p cohort answers moment).2 = { s.drained u with
            completed := s.completed ++ entries.map (·.2.1)
            log := s.log ++ entries.map fun (n, unit, survivors) =>
              ⟨unit, survivors, s.records, answers, moment n, !processed,
                ((t.delivery.units.lookup cohort).map (·.delivered)).getD 0⟩ }) := by
  unfold flush
  cases hcontributors : s.contributors with
  | nil =>
    split_ifs with hrecords
    · exact .inl rfl
    · exact .inr ⟨_, .of_keeps (processRecords_keeps [] false s.records s.run), .inl rfl⟩
  | cons first rest =>
    right
    simp only []
    have hregister := KeepsBut.register s.run cohort (s.buffered.getD .empty)
    have hprocess := processRecords_keeps (p := p) (c := ⟨⟨some cohort, true⟩, answers⟩) [] false
      s.records (s.cohortRun cohort)
    match hrun : processRecords p ⟨⟨some cohort, true⟩, answers⟩ [] false s.records
        (s.cohortRun cohort) with
    | (.error f, t) =>
      rw [hrun] at hprocess
      unfold cohortRun at hrun
      simp only []
      exact ⟨t, hregister.trans (.of_keeps hprocess), .inl rfl⟩
    | (.ok processed, t) =>
      rw [hrun] at hprocess
      simp only [cohortRun] at hrun ⊢
      have hdrop := (hregister.trans (.of_keeps hprocess)).drop hfresh
      have hsettle := settle_keeps (p := p) moment (t.delivery.units.lookup cohort) 0
        (first :: rest) (t.onDelivery (·.dropUnit cohort))
      match hrun₂ : settle p moment (t.delivery.units.lookup cohort) 0 (first :: rest)
          (t.onDelivery (·.dropUnit cohort)) with
      | (.error f, u) =>
        rw [hrun₂] at hsettle
        simp only []
        exact ⟨u, hdrop.trans (.of_keeps hsettle), .inl rfl⟩
      | (.ok entries, u) =>
        rw [hrun₂] at hsettle
        simp only []
        exact ⟨u, hdrop.trans (.of_keeps hsettle), .inr ⟨processed, t, entries, rfl, hrun₂, rfl⟩⟩

theorem settle_sublist {moment : Nat → Nat → Nat → Nat}
    {cohort : Option UnitOutcome} {n : Nat} {contributors : List (Meta × List ρ)}
    {entries : List (Nat × Meta × List ρ)} {r t : State ρ}
    (hrun : settle p moment cohort n contributors r = (.ok entries, t)) :
    (entries.map (·.2)).Sublist contributors := by
  induction contributors generalizing n r entries with
  | nil =>
    obtain ⟨hentries, -⟩ := Prod.mk.inj hrun
    cases hentries
    exact Sublist.refl _
  | cons entry rest ih =>
    obtain ⟨info, survivors⟩ := entry
    obtain ⟨r', r₁, hget, hrest⟩ := Procedure.bind_ok hrun
    match hlookup : info.unit.bind r'.delivery.units.lookup with
    | none =>
      simp only [hlookup] at hrest
      exact (ih hrest).cons _
    | some _ =>
      simp only [hlookup] at hrest
      obtain ⟨_, r₂, -, hrest⟩ := Procedure.bind_ok hrest
      obtain ⟨infos, r₃, hsettle, hend⟩ := Procedure.bind_ok hrest
      cases hend
      exact (ih hsettle).cons_cons _

theorem decide_cases (job : StreamJob ρ) (s : Stream ρ) (v : Verdict) :
    s.decide job v = s ∨ s.decide job v = { s with completed := [], halted := true } ∨
      (s.deferred = false ∧ s.decide job v = s.conclude job v v.commit.isNone) := by
  unfold decide
  split_ifs with hskip
  · exact .inl rfl
  · right
    simp only [Bool.or_eq_true, not_or, Bool.not_eq_true] at hskip
    cases hcommit : v.commit with
    | none => exact .inr ⟨hskip.2, rfl⟩
    | some text =>
      rw [commitSinks]
      split_ifs
      · exact .inr ⟨hskip.2, rfl⟩
      · exact .inl rfl

end Stream

/-! ## Taking the completed units -/

def outcomeOf (d : Delivery) (taken : Dict UnitKey UnitOutcome) (key : UnitKey) :
    Option UnitOutcome :=
  d.units.lookup key <|> taken.lookup key

def decisionsOf (onError : OnError) (outcome : UnitKey → Option UnitOutcome) (infos : List Meta) :
    List (Meta × Option AckDisposition) :=
  infos.filterMap fun info =>
    info.unit.map fun key => (info, (outcome key).bind (·.disposition onError))

theorem mem_decisionsOf {onError : OnError} {outcome : UnitKey → Option UnitOutcome}
    {infos : List Meta} :
    (info, disposition) ∈ decisionsOf onError outcome infos ↔ info ∈ infos ∧
      ∃ key, info.unit = some key ∧ (outcome key).bind (·.disposition onError) = disposition := by
  simp only [decisionsOf, mem_filterMap, Option.map_eq_some_iff, Prod.mk.injEq]
  constructor
  · rintro ⟨info, hinfo, key, hkey, rfl, hdisposition⟩
    exact ⟨hinfo, key, hkey, hdisposition⟩
  · rintro ⟨hinfo, key, hkey, hdisposition⟩
    exact ⟨info, hinfo, key, hkey, rfl, hdisposition⟩

/-- Taking a unit out does not change what any later decision goes by. -/
theorem outcomeOf_take (d : Delivery) (taken : Dict UnitKey UnitOutcome) (key : UnitKey) :
    outcomeOf (d.dropUnit key) (remember taken key (outcomeOf d taken key)) =
      outcomeOf d taken := by
  funext k
  by_cases hk : k = key
  · subst hk
    rw [outcomeOf, dropUnit, lookup_erase_ite, if_pos rfl]
    cases ho : outcomeOf d taken k with
    | some o => simp [remember]
    | none =>
      have htaken : taken.lookup k = none := by
        cases hu : d.units.lookup k <;> simp_all [outcomeOf]
      simp [remember, htaken]
  · rw [outcomeOf, dropUnit, lookup_erase_ite, if_neg hk]
    cases outcomeOf d taken key with
    | some o => simp only [remember, outcomeOf, lookup_insert_ite, if_neg hk]
    | none => rfl

section

variable (onError : OnError) (infos : List Meta) (d : Delivery) (taken : Dict UnitKey UnitOutcome)

theorem takeDecisions_fst :
    (takeDecisions onError infos d taken).1 = decisionsOf onError (outcomeOf d taken) infos := by
  induction infos generalizing d taken with
  | nil => rfl
  | cons info infos ih =>
    rw [takeDecisions]
    cases hunit : info.unit with
    | none => simp only []; rw [ih]; simp [decisionsOf, hunit]
    | some key =>
      simp only []
      rw [ih, show (d.units.lookup key <|> taken.lookup key) = outcomeOf d taken key from rfl,
        outcomeOf_take]
      simp [decisionsOf, hunit]

theorem takeDecisions_delivery : (takeDecisions onError infos d taken).2.1.brokerGaps = d.brokerGaps ∧
    (takeDecisions onError infos d taken).2.1.checkpointPending = d.checkpointPending ∧
    ∀ key, (takeDecisions onError infos d taken).2.1.units.lookup key =
      if key ∈ infos.filterMap (·.unit) then none else d.units.lookup key := by
  induction infos generalizing d taken with
  | nil => exact ⟨rfl, rfl, fun key => rfl⟩
  | cons info infos ih =>
    rw [takeDecisions]
    cases hunit : info.unit with
    | none =>
      rw [filterMap_cons_none hunit]
      exact ih d taken
    | some key =>
      rw [filterMap_cons_some hunit]
      obtain ⟨hgaps, hpending, hunits⟩ := ih (d.dropUnit key)
        (remember taken key (d.units.lookup key <|> taken.lookup key))
      refine ⟨hgaps, hpending, fun k => ?_⟩
      rw [hunits, dropUnit, lookup_erase_ite]
      by_cases hk : k = key <;> simp [hk]

end

/-! ## Gaps -/

section Gaps

variable (committed : Bool) {decisions : List (Meta × Option AckDisposition)}
  {gaps : Dict String Nat} {partition : String}

theorem noteGaps_le {gap : Nat} (h : gaps.lookup partition = some gap) :
    ∃ gap' ≤ gap, (noteGaps committed decisions gaps).lookup partition = some gap' := by
  induction decisions generalizing gaps gap with
  | nil => exact ⟨gap, Nat.le_refl gap, h⟩
  | cons decision rest ih =>
    obtain ⟨info, disposition⟩ := decision
    rw [noteGaps]
    match info.frontier with
    | none => exact ih h
    | some (partition', offset) =>
      split_ifs
      · by_cases hsame : partition = partition'
        · subst hsame
          have hmin : (gaps.insert partition
              (min offset ((gaps.lookup partition).getD offset))).lookup partition =
                some (min offset gap) := by
            rw [lookup_insert_ite, if_pos rfl, h]
            rfl
          obtain ⟨gap', hle, hgap'⟩ := ih hmin
          exact ⟨gap', Nat.le_trans hle (Nat.min_le_right _ _), hgap'⟩
        · exact ih (by rw [lookup_insert_ite, if_neg hsame]; exact h)
      · exact ih h

theorem noteGaps_noted (gaps : Dict String Nat) {offset : Nat}
    (hmem : (info, disposition) ∈ decisions) (hfrontier : info.frontier = some (partition, offset))
    (h : committed = false ∨ disposition = none) :
    ∃ gap ≤ offset, (noteGaps committed decisions gaps).lookup partition = some gap := by
  induction decisions generalizing gaps with
  | nil => cases hmem
  | cons decision rest ih =>
    rcases mem_cons.mp hmem with rfl | hrest
    · rw [noteGaps, hfrontier]
      simp only [if_pos h]
      have hmin : (gaps.insert partition
          (min offset ((gaps.lookup partition).getD offset))).lookup partition =
            some (min offset ((gaps.lookup partition).getD offset)) := by
        rw [lookup_insert_ite, if_pos rfl]
      obtain ⟨gap, hle, hgap⟩ := noteGaps_le committed hmin
      exact ⟨gap, Nat.le_trans hle (Nat.min_le_left _ _), hgap⟩
    · obtain ⟨info', disposition'⟩ := decision
      rw [noteGaps]
      match info'.frontier with
      | none => exact ih _ hrest
      | some _ =>
        split_ifs
        · exact ih _ hrest
        · exact ih _ hrest

theorem noteGaps_source {gap : Nat}
    (h : (noteGaps committed decisions gaps).lookup partition = some gap) :
    gaps.lookup partition = some gap ∨
      ∃ info disposition, (info, disposition) ∈ decisions ∧ (committed = false ∨ disposition = none) ∧
        info.frontier = some (partition, gap) := by
  induction decisions generalizing gaps with
  | nil => exact .inl h
  | cons decision rest ih =>
    obtain ⟨info, disposition⟩ := decision
    have hlater : ∀ {gaps' : Dict String Nat},
        (noteGaps committed rest gaps').lookup partition = some gap →
        gaps'.lookup partition = some gap ∨ ∃ i d, (i, d) ∈ (info, disposition) :: rest ∧
          (committed = false ∨ d = none) ∧ i.frontier = some (partition, gap) := fun h =>
      (ih h).imp id fun ⟨i, d, hmem, hd, hi⟩ => ⟨i, d, mem_cons_of_mem _ hmem, hd, hi⟩
    rw [noteGaps] at h
    match hfrontier : info.frontier with
    | none => simp only [hfrontier] at h; exact hlater h
    | some (partition', offset) =>
      simp only [hfrontier] at h
      split_ifs at h with hnote
      · rcases hlater h with hold | hnew
        · rw [lookup_insert_ite] at hold
          split_ifs at hold with hsame
          · subst hsame
            cases hgap : gaps.lookup partition with
            | none =>
              rw [hgap, Option.getD_none, Nat.min_self] at hold
              cases hold
              exact .inr ⟨info, disposition, mem_cons_self, hnote, hfrontier⟩
            | some old =>
              rw [hgap, Option.getD_some] at hold
              rcases Nat.le_total offset old with hle | hle
              · rw [Nat.min_eq_left hle] at hold
                cases hold
                exact .inr ⟨info, disposition, mem_cons_self, hnote, hfrontier⟩
              · rw [Nat.min_eq_right hle] at hold
                exact .inl hold
          · exact .inl hold
        · exact .inr hnew
      · exact hlater h

theorem behindGap_iff : behindGap gaps info = true ↔
    ∃ partition offset gap, info.frontier = some (partition, offset) ∧
      gaps.lookup partition = some gap ∧ gap ≤ offset := by
  unfold behindGap
  match hfrontier : info.frontier with
  | none => simp
  | some (partition, offset) =>
    cases hgap : gaps.lookup partition with
    | none => simp [hgap]
    | some gap =>
      simp only [hgap, decide_eq_true_eq]
      constructor
      · intro hle
        exact ⟨partition, offset, gap, rfl, hgap, hle⟩
      · rintro ⟨partition', offset', gap', hsame, hgap', hle⟩
        cases hsame
        rw [hgap] at hgap'
        cases hgap'
        exact hle

end Gaps

end Tram.Executor
