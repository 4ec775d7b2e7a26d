import Tram.Executor.StreamSteps

/-! # The order of acknowledgements

Each received unit is in one place: waiting, in the buffer, completed, or decided, and a decided
unit was acknowledged or withheld. A partition with a withheld unit has a gap at or before all its
undecided units, so nothing of it is acknowledged any more. -/

namespace Tram.Executor

open List Executor.Stream Sublist

variable {ρ : Type} {info' : Meta} {cohort : UnitKey}

def Meta.Precedes (info info' : Meta) : Prop :=
  ∃ partition offset offset', info.frontier = some (partition, offset) ∧
    info'.frontier = some (partition, offset') ∧ offset < offset'

namespace Stream

def acked (s : Stream ρ) : List Meta := s.run.acks.map Prod.fst

def held (s : Stream ρ) : List Meta := s.queue ++ s.contributors.map Prod.fst ++ s.completed

def Undecided (s : Stream ρ) (info : Meta) : Prop :=
  ∃ key, info.unit = some key ∧ s.run.delivery.Registered key

/-- The partition has a gap, or gets one from a completed unit without a disposition. -/
def Gapped (job : StreamJob ρ) (s : Stream ρ) (partition : String) : Prop :=
  (∃ gap, s.run.delivery.brokerGaps.lookup partition = some gap) ∨
    ∃ info ∈ s.completed, ∃ key offset, info.unit = some key ∧
      info.frontier = some (partition, offset) ∧
      (outcomeOf s.run.delivery s.taken key).bind (·.disposition job.onError) = none

end Stream

/-- The broker hands out each record once and each partition in order, a cohort's key is drawn
afresh, and where the pipeline is not strict and the sinks commit, a decision that meets a gap
meets one in every partition it decides for. -/
def Orderly (job : StreamJob ρ) (s : Stream ρ) : StreamEvent ρ → Prop
  | .receive info => ∀ key, info.unit = some key →
    some key ∉ s.received.map (·.unit) ∧ s.run.delivery.units.lookup key = none ∧
      ∀ info' ∈ s.received, ∀ partition offset offset', info.frontier = some (partition, offset) →
        info'.frontier = some (partition, offset') → offset' < offset
  | .process _ _ _ _ _ => True
  | .flush cohort _ _ =>
    s.run.delivery.units.lookup cohort = none ∧ some cohort ∉ s.received.map (·.unit)
  | .decide verdict => job.strict = true ∨ verdict.commit ≠ none ∨
    ((∃ info ∈ s.completed, ∃ partition offset, info.frontier = some (partition, offset) ∧
        s.Gapped job partition) →
      ∀ info ∈ s.completed, ∀ partition offset, info.frontier = some (partition, offset) →
        s.Gapped job partition)

structure Custody (s : Stream ρ) : Prop where
  keyed : ∀ info ∈ s.received, info.broker = true ∧ ∃ key, info.unit = some key
  distinct : (s.received.map (·.unit)).Nodup
  held_distinct : (s.held.map (·.unit)).Nodup
  held : ∀ info ∈ s.held, info ∈ s.received ∧ s.Undecided info
  own : ∀ info ∈ s.received, ∀ key u, info.unit = some key →
    s.run.delivery.units.lookup key = some u → u.info = info
  decided : ∀ info ∈ s.received, ¬ s.Undecided info → info ∈ s.acked ++ s.withheld
  once : ((s.acked ++ s.withheld).map (·.unit)).Nodup
  final : ∀ info ∈ s.acked ++ s.withheld, info ∈ s.received ∧ ¬ s.Undecided info

namespace Custody

variable {s t : Stream ρ}

theorem eq_of_unit (h : Custody s) {info : Meta} (hinfo : info ∈ s.received)
    (hinfo' : info' ∈ s.received) (hunit : info.unit = info'.unit) : info = info' :=
  inj_on_of_nodup_map h.distinct hinfo hinfo' hunit

theorem frame (h : Custody s) (hreceived : t.received = s.received) (hacked : t.acked = s.acked)
    (hwithheld : t.withheld = s.withheld)
    (hundecided : ∀ info ∈ s.received, t.Undecided info ↔ s.Undecided info)
    (hown : ∀ info ∈ s.received, ∀ key u, info.unit = some key →
      t.run.delivery.units.lookup key = some u → u.info = info)
    (hheld : t.held.Subperm s.held) : Custody t where
  keyed := by rw [hreceived]; exact h.keyed
  distinct := by rw [hreceived]; exact h.distinct
  held_distinct := by
    obtain ⟨l, hperm, hsub⟩ := hheld
    exact (hperm.map _).nodup_iff.mp (h.held_distinct.sublist (hsub.map _))
  held info hinfo := by
    obtain ⟨hmem, hun⟩ := h.held info (hheld.subset hinfo)
    exact ⟨by rwa [hreceived], (hundecided info hmem).mpr hun⟩
  own := by rw [hreceived]; exact hown
  decided info hinfo hun := by
    rw [hreceived] at hinfo
    rw [hacked, hwithheld]
    exact h.decided info hinfo fun hs => hun ((hundecided info hinfo).mpr hs)
  once := by rw [hacked, hwithheld]; exact h.once
  final info hinfo := by
    rw [hacked, hwithheld] at hinfo
    obtain ⟨hmem, hun⟩ := h.final info hinfo
    exact ⟨by rwa [hreceived], fun ht => hun ((hundecided info hmem).mp ht)⟩

end Custody

/-! ## The order -/

/-- What holds of the acknowledged units, and of the partitions that have withheld ones. -/
structure Ordered (strict : Bool) (s : Stream ρ) : Prop where
  order : ∀ info ∈ s.acked, ∀ info' ∈ s.received, info'.Precedes info → info' ∈ s.acked
  pending : strict = true → s.withheld ≠ [] → 0 < s.run.delivery.checkpointPending
  gapped : strict = false → ∀ info ∈ s.withheld, ∀ partition offset,
    info.frontier = some (partition, offset) →
      ∃ gap, s.run.delivery.brokerGaps.lookup partition = some gap
  gap_le : ∀ partition gap, s.run.delivery.brokerGaps.lookup partition = some gap →
    (∃ info ∈ s.received, info.frontier = some (partition, gap)) ∧
      ∀ info ∈ s.received, s.Undecided info → ∀ offset,
        info.frontier = some (partition, offset) → gap ≤ offset

theorem Ordered.frame {strict : Bool} {s t : Stream ρ} (h : Ordered strict s)
    (hreceived : t.received = s.received) (hacked : t.acked = s.acked)
    (hwithheld : t.withheld = s.withheld)
    (hundecided : ∀ info ∈ s.received, t.Undecided info ↔ s.Undecided info)
    (hgaps : t.run.delivery.brokerGaps = s.run.delivery.brokerGaps)
    (hpending : t.run.delivery.checkpointPending = s.run.delivery.checkpointPending) :
    Ordered strict t where
  order := by rw [hacked, hreceived]; exact h.order
  pending := by rw [hwithheld, hpending]; exact h.pending
  gapped := by rw [hwithheld, hgaps]; exact h.gapped
  gap_le partition gap hgap := by
    rw [hgaps] at hgap
    rw [hreceived]
    obtain ⟨hsource, hle⟩ := h.gap_le partition gap hgap
    exact ⟨hsource, fun info hinfo hun => hle info hinfo ((hundecided info hinfo).mp hun)⟩

structure AckInvariant (strict : Bool) (s : Stream ρ) : Prop where
  custody : Custody s
  ordered : Ordered strict s

namespace AckInvariant

variable {strict : Bool} {s t : Stream ρ}

section

variable (h : AckInvariant strict s)
include h

theorem frame (hgrows : s.run.delivery.Grows t.run.delivery)
    (hregistered : ∀ info ∈ s.received, ∀ key, info.unit = some key →
      t.run.delivery.Registered key → s.run.delivery.Registered key)
    (hgaps : t.run.delivery.brokerGaps = s.run.delivery.brokerGaps)
    (hpending : t.run.delivery.checkpointPending = s.run.delivery.checkpointPending)
    (hacks : t.run.acks = s.run.acks) (hreceived : t.received = s.received)
    (hwithheld : t.withheld = s.withheld) (hheld : t.held.Subperm s.held) : AckInvariant strict t := by
  have hundecided : ∀ info ∈ s.received, t.Undecided info ↔ s.Undecided info := by
    intro info hinfo
    constructor
    · rintro ⟨key, hkey, hreg⟩
      exact ⟨key, hkey, hregistered info hinfo key hkey hreg⟩
    · rintro ⟨key, hkey, hreg⟩
      exact ⟨key, hkey, hgrows.registered hreg⟩
  have hown : ∀ info ∈ s.received, ∀ key u, info.unit = some key →
      t.run.delivery.units.lookup key = some u → u.info = info := by
    intro info hinfo key u hkey hu
    obtain ⟨v, hv⟩ := hregistered info hinfo key hkey ⟨u, hu⟩
    obtain ⟨v', hv', hgrown⟩ := hgrows key v hv
    rw [hu] at hv'
    cases hv'
    exact hgrown.info.trans (h.custody.own info hinfo key v hkey hv)
  have hacked : t.acked = s.acked := by rw [acked, hacks]; rfl
  exact ⟨h.custody.frame hreceived hacked hwithheld hundecided hown hheld,
    h.ordered.frame hreceived hacked hwithheld hundecided hgaps hpending⟩

theorem keeps (hkeep : Keeps s.run t.run) (hreceived : t.received = s.received)
    (hwithheld : t.withheld = s.withheld) (hheld : t.held.Subperm s.held) : AckInvariant strict t :=
  h.frame hkeep.grows (fun _ _ _ _ hreg => hkeep.registered hreg) hkeep.gaps hkeep.pending
    hkeep.acks hreceived hwithheld hheld

theorem keepsBut (hcohort : some cohort ∉ s.received.map (·.unit))
    (hkeep : KeepsBut cohort s.run t.run) (hreceived : t.received = s.received)
    (hwithheld : t.withheld = s.withheld) (hheld : t.held.Subperm s.held) : AckInvariant strict t := by
  refine h.frame hkeep.grows (fun info hinfo key hkey hreg => hkeep.registered ?_ hreg) hkeep.gaps
    hkeep.pending hkeep.acks hreceived hwithheld hheld
  rintro rfl
  exact hcohort (mem_map.mpr ⟨info, hinfo, hkey⟩)

end

end AckInvariant

/-! ## Arrivals -/

section Arrival

structure Arrived (s : Stream ρ) (info : Meta) (key : UnitKey) (t : Stream ρ) : Prop where
  received : t.received = s.received ++ [info]
  acked : t.acked = s.acked
  withheld : t.withheld = s.withheld
  held : t.held.Perm (info :: s.held)
  units : ∀ key', t.run.delivery.units.lookup key' =
    if key' = key then some (.new info) else s.run.delivery.units.lookup key'
  gaps : t.run.delivery.brokerGaps = s.run.delivery.brokerGaps
  pending : t.run.delivery.checkpointPending = s.run.delivery.checkpointPending

theorem arrived (s : Stream ρ) (info : Meta) {key : UnitKey}
    (hfree : s.run.delivery.units.lookup key = none) : Arrived s info key { s with
      run := s.run.onDelivery (·.registerUnit key info)
      queue := s.queue ++ [info]
      received := s.received ++ [info] } := by
  refine ⟨rfl, rfl, rfl, ?_, fun key' => ?_, rfl, rfl⟩
  · show (s.queue ++ [info] ++ s.contributors.map Prod.fst ++ s.completed).Perm (info :: s.held)
    rw [held]
    simp only [append_assoc, singleton_append]
    exact perm_middle
  · show (Dict.setdefault s.run.delivery.units key (.new info)).lookup key' = _
    rw [Dict.lookup_setdefault, hfree]
    rfl

namespace Arrived

variable {s t : Stream ρ} {info : Meta} {key : UnitKey} (a : Arrived s info key t)
include a

theorem mem_received (h : info' ∈ s.received) : info' ∈ t.received := by
  rw [a.received]
  exact mem_append_left _ h

theorem forall_received {P : Meta → Prop} (hold : ∀ info' ∈ s.received, P info') (hnew : P info) :
    ∀ info' ∈ t.received, P info' := by
  rw [a.received]
  exact forall_mem_concat hold hnew

theorem undecided (hkey : info.unit = some key) : t.Undecided info :=
  ⟨key, hkey, .new info, by rw [a.units, if_pos rfl]⟩

theorem undecided_iff (hne : info'.unit ≠ some key) : t.Undecided info' ↔ s.Undecided info' := by
  simp only [Undecided, Delivery.Registered]
  refine exists_congr fun key' => and_congr_right fun hkey' => ?_
  rw [a.units, if_neg]
  rintro rfl
  exact hne hkey'

end Arrived

variable {s t : Stream ρ} {info : Meta} {key : UnitKey}

theorem Custody.receive (h : Custody s) (a : Arrived s info key t) (hbroker : info.broker = true)
    (hkey : info.unit = some key) (hne : ∀ info' ∈ s.received, info'.unit ≠ some key) :
    Custody t where
  keyed := a.forall_received h.keyed ⟨hbroker, key, hkey⟩
  distinct := by
    rw [a.received, map_append, map_singleton, hkey]
    refine nodup_append.mpr ⟨h.distinct, nodup_singleton _, fun k hk k' hk' heq => ?_⟩
    obtain ⟨info', hinfo', rfl⟩ := mem_map.mp hk
    exact hne info' hinfo' (heq.trans (mem_singleton.mp hk'))
  held_distinct := by
    refine (a.held.map _).nodup_iff.mpr ?_
    rw [map_cons, hkey]
    refine nodup_cons.mpr ⟨fun hin => ?_, h.held_distinct⟩
    obtain ⟨info', hinfo', hunit⟩ := mem_map.mp hin
    exact hne info' (h.held info' hinfo').1 hunit
  held info' hinfo' := by
    rcases mem_cons.mp (a.held.subset hinfo') with rfl | hinfo'
    · exact ⟨by rw [a.received]; exact mem_append_right _ mem_cons_self,
        a.undecided hkey⟩
    · obtain ⟨hin, hun⟩ := h.held info' hinfo'
      exact ⟨a.mem_received hin, (a.undecided_iff (hne info' hin)).mpr hun⟩
  own := by
    refine a.forall_received (fun info' hinfo' key' u hkey' hu => ?_) fun key' u hkey' hu => ?_
    · rw [a.units, if_neg (by rintro rfl; exact hne info' hinfo' hkey')] at hu
      exact h.own info' hinfo' key' u hkey' hu
    · obtain rfl := Option.mem_unique hkey hkey'
      rw [a.units, if_pos rfl] at hu
      cases hu
      rfl
  decided := by
    rw [a.acked, a.withheld]
    refine a.forall_received (fun info' hinfo' hun => ?_) fun hun => absurd (a.undecided hkey) hun
    exact h.decided info' hinfo' fun hs => hun ((a.undecided_iff (hne info' hinfo')).mpr hs)
  once := by rw [a.acked, a.withheld]; exact h.once
  final info' hinfo' := by
    rw [a.acked, a.withheld] at hinfo'
    obtain ⟨hin, hun⟩ := h.final info' hinfo'
    exact ⟨a.mem_received hin, fun ht => hun ((a.undecided_iff (hne info' hin)).mp ht)⟩

theorem Ordered.receive {strict : Bool} (h : Ordered strict s) (hc : Custody s)
    (a : Arrived s info key t) (hne : ∀ info' ∈ s.received, info'.unit ≠ some key)
    (hlast : ∀ info' ∈ s.received, ∀ partition offset offset',
      info.frontier = some (partition, offset) → info'.frontier = some (partition, offset') →
        offset' < offset) : Ordered strict t where
  order info' hinfo' := by
    rw [a.acked] at hinfo' ⊢
    refine a.forall_received (h.order info' hinfo') ?_
    rintro ⟨partition, offset, offset', hfrontier, hfrontier', hlt⟩
    have hin := (hc.final info' (mem_append_left _ hinfo')).1
    exact absurd (hlast info' hin partition offset offset' hfrontier hfrontier') (by omega)
  pending := by rw [a.withheld, a.pending]; exact h.pending
  gapped := by rw [a.withheld, a.gaps]; exact h.gapped
  gap_le partition gap hgap := by
    rw [a.gaps] at hgap
    obtain ⟨⟨source, hsource, hfrontier⟩, hle⟩ := h.gap_le partition gap hgap
    refine ⟨⟨source, a.mem_received hsource, hfrontier⟩,
      a.forall_received (fun info' hinfo' hun => ?_) fun _ offset hoffset => ?_⟩
    · exact hle info' hinfo' ((a.undecided_iff (hne info' hinfo')).mp hun)
    · exact Nat.le_of_lt (hlast source hsource partition offset gap hoffset hfrontier)

end Arrival

namespace AckInvariant

variable {strict : Bool} {s t : Stream ρ}

theorem receive (h : AckInvariant strict s) {info : Meta} {key : UnitKey}
    (hbroker : info.broker = true) (hkey : info.unit = some key)
    (hnew : some key ∉ s.received.map (·.unit))
    (hfree : s.run.delivery.units.lookup key = none)
    (hlast : ∀ info' ∈ s.received, ∀ partition offset offset',
      info.frontier = some (partition, offset) → info'.frontier = some (partition, offset') →
        offset' < offset) :
    AckInvariant strict { s with
      run := s.run.onDelivery (·.registerUnit key info)
      queue := s.queue ++ [info]
      received := s.received ++ [info] } := by
  have hne : ∀ info' ∈ s.received, info'.unit ≠ some key := fun info' hinfo' hunit =>
    hnew (mem_map.mpr ⟨info', hinfo', hunit⟩)
  have harrived := arrived s info hfree
  exact ⟨h.custody.receive harrived hbroker hkey hne,
    h.ordered.receive h.custody harrived hne hlast⟩

theorem process (h : AckInvariant strict s) (p : Pipeline ρ) (n : Nat) (raw : List UInt8)
    (parsed : Except String (List ρ × Answers)) (taken lossElsewhere : Bool) :
    AckInvariant strict (s.process p n raw parsed taken lossElsewhere) := by
  rcases process_cases p s n raw parsed taken lossElsewhere with
    hsame | ⟨info, t, hinfo, hkeep, hlost | ⟨survivors, happend⟩⟩
  · rwa [hsame]
  · rw [hlost]
    refine h.keeps hkeep rfl rfl ?_
    refine subperm ?_
    exact ((eraseIdx_sublist _ _).append (List.Sublist.refl _)).append (List.Sublist.refl _)
  · obtain ⟨hn, hget⟩ := List.getElem?_eq_some_iff.mp hinfo
    have hmem : info ∈ s.queue := hget ▸ getElem_mem hn
    have hbroker := (h.custody.keyed info (h.custody.held info
      (mem_append_left _ (mem_append_left _ hmem))).1).1
    rw [happend]
    refine h.keeps hkeep rfl rfl (Perm.subperm ?_)
    show (s.queue.eraseIdx n ++ map Prod.fst (if info.broker = true then
      s.contributors ++ [(info, survivors)] else s.contributors) ++ s.completed).Perm s.held
    rw [if_pos hbroker, map_append, map_singleton, held]
    refine Perm.append_right _ ?_
    have hqueue : (info :: s.queue.eraseIdx n).Perm s.queue := by
      rw [← hget]
      exact getElem_cons_eraseIdx_perm hn
    rw [← append_assoc]
    exact (perm_append_singleton _ _).trans (hqueue.append_right (s.contributors.map Prod.fst))

theorem flush (h : AckInvariant strict s) (p : Pipeline ρ) (answers : Answers)
    (moment : Nat → Nat → Nat → Nat) (hfresh : s.run.delivery.units.lookup cohort = none)
    (hcohort : some cohort ∉ s.received.map (·.unit)) :
    AckInvariant strict (s.flush p cohort answers moment).2 := by
  rcases flush_cases p s answers moment hfresh with
    hsame | ⟨u, hkeep, hdrained | ⟨processed, t, entries, -, hsettle, hflush⟩⟩
  · rwa [hsame]
  · rw [hdrained]
    refine h.keepsBut hcohort hkeep rfl rfl (subperm ?_)
    exact ((refl _).append (nil_sublist _)).append (refl _)
  · rw [hflush]
    refine h.keepsBut hcohort hkeep rfl rfl ?_
    have hsub : (entries.map (·.2.1)).Sublist (s.contributors.map Prod.fst) := by
      have := (settle_sublist hsettle).map Prod.fst
      rwa [map_map] at this
    show Subperm (s.queue ++ [] ++ (s.completed ++ entries.map (·.2.1))) s.held
    rw [append_nil, held, append_assoc]
    refine (Perm.append_left s.queue perm_append_comm).subperm.trans ?_
    exact ((refl _).append (hsub.append (refl _))).subperm

end AckInvariant

/-! ## Decisions -/

section Decision

theorem acknowledged_perm (ok : Bool) (decisions : List (Meta × Option AckDisposition)) :
    ((if ok then acknowledged decisions else []).map Prod.fst ++
      (decisions.filter fun decision => !ok || decision.2.isNone).map Prod.fst).Perm
        (decisions.map Prod.fst) := by
  cases ok with
  | false => simp
  | true =>
    simp only [if_true, Bool.not_true, Bool.false_or]
    induction decisions with
    | nil => exact .refl _
    | cons decision rest ih =>
      obtain ⟨info, disposition⟩ := decision
      cases disposition with
      | none =>
        simp only [acknowledged, filterMap_cons_none, Option.map_none, filter_cons,
          Option.isNone_none, if_true, map_cons] at ih ⊢
        exact perm_middle.trans (ih.cons info)
      | some d =>
        simp only [acknowledged, filter_cons, Option.isNone_some, map_cons] at ih ⊢
        exact ih.cons info

theorem decisionsOf_map_fst {onError : OnError} {outcome : UnitKey → Option UnitOutcome}
    {infos : List Meta} (h : ∀ info ∈ infos, ∃ key, info.unit = some key) :
    (decisionsOf onError outcome infos).map Prod.fst = infos := by
  induction infos with
  | nil => rfl
  | cons info infos ih =>
    obtain ⟨key, hkey⟩ := h info mem_cons_self
    have hrest := ih fun info' hinfo' => h info' (mem_cons_of_mem _ hinfo')
    rw [decisionsOf] at hrest ⊢
    rw [filterMap_cons_some (by rw [hkey]; rfl), map_cons, hrest]

theorem mayAck_spec {strict committed : Bool} {v : Verdict} {gaps : Dict String Nat} {pending : Nat}
    {decisions : List (Meta × Option AckDisposition)}
    (h : mayAck strict committed v gaps pending decisions = true) :
    committed = true ∧ (∀ decision ∈ decisions, behindGap gaps decision.1 = false) ∧
      (strict = true → pending = 0 ∧ ∀ decision ∈ decisions, decision.2 ≠ none) := by
  simp only [mayAck, Bool.and_eq_true, Bool.not_eq_true', any_eq_false, Bool.and_eq_false_iff,
    Bool.or_eq_false_iff, decide_eq_false_iff_not, Nat.not_lt, Nat.le_zero, Bool.not_eq_true,
    Option.isNone_eq_false_iff, Option.isSome_iff_ne_none] at h
  obtain ⟨⟨⟨hcommitted, hgaps⟩, hstrict⟩, -⟩ := h
  refine ⟨hcommitted, hgaps, fun hs => ?_⟩
  rcases hstrict with hs' | hstrict
  · rw [hs] at hs'; cases hs'
  · exact hstrict

theorem deferred_eq_false {s : Stream ρ} (h : s.deferred = false) {info : Meta} (hinfo : info ∈ s.completed)
    {key : UnitKey} {u : UnitOutcome} (hu : s.run.delivery.units.lookup key = some u)
    (hkey : ∀ info' ∈ s.completed, info'.unit ≠ some key) : ¬ u.info.Precedes info := by
  rintro ⟨partition, offset, offset', hfrontier, hfrontier', hlt⟩
  rw [deferred, any_eq_false] at h
  refine h info hinfo (any_eq_true.mpr ⟨⟨key, u⟩, Dict.mem_entries.mpr hu, ?_⟩)
  simp only [hfrontier, hfrontier', Bool.and_eq_true, Bool.not_eq_true', any_eq_false,
    decide_eq_true_eq]
  exact ⟨hkey, trivial, hlt⟩

/-- A decision that was made: `t` is the state after it, `decisions` what was decided and `released`
whether it was acknowledged. -/
structure Concluded (job : StreamJob ρ) (s : Stream ρ) (v : Verdict) (t : Stream ρ)
    (decisions : List (Meta × Option AckDisposition)) (released : Bool) : Prop where
  decided : decisions = decisionsOf job.onError (outcomeOf s.run.delivery s.taken) s.completed
  gaps : t.run.delivery.brokerGaps =
    noteGaps v.commit.isNone decisions s.run.delivery.brokerGaps
  gate : released = mayAck job.strict v.commit.isNone v t.run.delivery.brokerGaps
    s.run.delivery.checkpointPending decisions
  pending : t.run.delivery.checkpointPending =
    if released then s.run.delivery.checkpointPending else s.run.delivery.checkpointPending + 1
  acked : t.acked = s.acked ++ (if released then acknowledged decisions else []).map Prod.fst
  withheld : t.withheld = s.withheld ++
    (decisions.filter fun decision => !released || decision.2.isNone).map Prod.fst
  units : ∀ key, t.run.delivery.units.lookup key =
    if key ∈ s.completed.filterMap (·.unit) then none else s.run.delivery.units.lookup key
  received : t.received = s.received
  held : t.held = s.queue ++ s.contributors.map Prod.fst

theorem conclude_spec (job : StreamJob ρ) (s : Stream ρ) (v : Verdict) :
    ∃ decisions released,
      Concluded job s v (s.conclude job v v.commit.isNone) decisions released := by
  obtain ⟨hgaps, hpending, hunits⟩ :=
    takeDecisions_delivery job.onError s.completed s.run.delivery s.taken
  have hD := takeDecisions_fst job.onError s.completed s.run.delivery s.taken
  refine ⟨_, _, rfl, ?_, rfl, ?_, ?_, ?_, hunits, rfl, ?_⟩
  · simp only [conclude, hD, hgaps]
  · simp only [conclude, hD, hgaps, hpending]
  · simp only [acked, conclude, hD, hgaps, hpending]
    split_ifs <;> simp
  · simp only [conclude, hD, hgaps, hpending]
  · exact append_nil _

variable {job : StreamJob ρ} {s t : Stream ρ} {v : Verdict}
  {decisions : List (Meta × Option AckDisposition)} {released : Bool}
  {disposition : Option AckDisposition}

namespace Custody

variable {info : Meta} (h : Custody s)
include h

theorem completed : ∀ info ∈ s.completed, info ∈ s.received ∧ s.Undecided info :=
  fun info hinfo => h.held info (mem_append_right _ hinfo)

theorem mem_completed_iff {key : UnitKey} (hinfo : info ∈ s.received) (hkey : info.unit = some key) :
    key ∈ s.completed.filterMap (·.unit) ↔ info ∈ s.completed := by
  rw [mem_filterMap]
  constructor
  · rintro ⟨info', hinfo', hkey'⟩
    rwa [h.eq_of_unit hinfo (h.completed info' hinfo').1 (hkey.trans hkey'.symm)]
  · intro hmem
    exact ⟨info, hmem, hkey⟩

theorem not_precedes (hdeferred : s.deferred = false) {m : Meta}
    (hinfo : info ∈ s.received) (hun : s.Undecided info) (hnot : info ∉ s.completed)
    (hm : m ∈ s.completed) : ¬ info.Precedes m := by
  obtain ⟨key, hkey, u, hu⟩ := hun
  rw [← h.own info hinfo key u hkey hu]
  refine deferred_eq_false hdeferred hm hu fun m' hm' hunit => hnot ?_
  rwa [h.eq_of_unit hinfo (h.completed m' hm').1 (hkey.trans hunit.symm)]

variable (c : Concluded job s v t decisions released)
include c

theorem decisions_fst : decisions.map Prod.fst = s.completed := by
  rw [c.decided]
  exact decisionsOf_map_fst fun info hinfo => (h.keyed info (h.completed info hinfo).1).2

theorem completed_of_decision (hd : (info, disposition) ∈ decisions) : info ∈ s.completed := by
  rw [← h.decisions_fst c]
  exact mem_map_of_mem hd

theorem undecided_iff (hinfo : info ∈ s.received) :
    t.Undecided info ↔ s.Undecided info ∧ info ∉ s.completed := by
  obtain ⟨key, hkey⟩ := (h.keyed info hinfo).2
  have hiff : ∀ r : Stream ρ, r.Undecided info ↔ ∃ u, r.run.delivery.units.lookup key = some u := by
    intro r
    constructor
    · rintro ⟨key', hkey', hreg⟩
      rw [hkey] at hkey'
      cases hkey'
      exact hreg
    · exact fun hreg => ⟨key, hkey, hreg⟩
  rw [hiff t, hiff s, c.units, ← h.mem_completed_iff hinfo hkey]
  by_cases hmem : key ∈ s.completed.filterMap (·.unit) <;> simp [hmem]

theorem decided_perm :
    (t.acked ++ t.withheld).Perm (s.acked ++ s.withheld ++ s.completed) := by
  rw [c.acked, c.withheld, ← h.decisions_fst c]
  refine Perm.trans ?_ ((acknowledged_perm released decisions).append_left (s.acked ++ s.withheld))
  simp only [append_assoc]
  refine Perm.append_left s.acked ?_
  rw [← append_assoc, ← append_assoc]
  exact perm_append_comm.append_right _

theorem conclude : Custody t where
  keyed := by rw [c.received]; exact h.keyed
  distinct := by rw [c.received]; exact h.distinct
  held_distinct := by
    rw [c.held]
    exact h.held_distinct.sublist ((sublist_append_left _ _).map _)
  held info hinfo := by
    rw [c.held] at hinfo
    obtain ⟨hmem, hun⟩ := h.held info (mem_append_left _ hinfo)
    rw [c.received]
    refine ⟨hmem, (h.undecided_iff c hmem).mpr ⟨hun, fun hcompleted => ?_⟩⟩
    have hdistinct := h.held_distinct
    rw [Stream.held, map_append] at hdistinct
    exact (nodup_append.mp hdistinct).2.2 _ (mem_map_of_mem hinfo) _
      (mem_map_of_mem hcompleted) rfl
  own info hinfo key u hkey hu := by
    rw [c.received] at hinfo
    rw [c.units] at hu
    split_ifs at hu
    exact h.own info hinfo key u hkey hu
  decided info hinfo hun := by
    rw [c.received] at hinfo
    rw [h.undecided_iff c hinfo, not_and_or, not_not] at hun
    refine (h.decided_perm c).mem_iff.mpr (mem_append.mpr ?_)
    exact hun.imp (h.decided info hinfo) id
  once := by
    refine ((h.decided_perm c).map _).nodup_iff.mpr ?_
    rw [map_append]
    refine nodup_append.mpr ⟨h.once, ?_, ?_⟩
    · exact h.held_distinct.sublist ((sublist_append_right _ _).map _)
    · rintro a ha b hb rfl
      obtain ⟨info, hinfo, rfl⟩ := mem_map.mp ha
      obtain ⟨info', hinfo', hunit⟩ := mem_map.mp hb
      obtain ⟨hmem, hun⟩ := h.final info hinfo
      obtain ⟨hmem', hun'⟩ := h.completed info' hinfo'
      rw [h.eq_of_unit hmem' hmem hunit] at hun'
      exact hun hun'
  final info hinfo := by
    rw [c.received]
    rcases mem_append.mp ((h.decided_perm c).subset hinfo) with hold | hnew
    · obtain ⟨hmem, hun⟩ := h.final info hold
      exact ⟨hmem, fun ht => hun ((h.undecided_iff c hmem).mp ht).1⟩
    · have hmem := (h.completed info hnew).1
      exact ⟨hmem, fun ht => ((h.undecided_iff c hmem).mp ht).2 hnew⟩

end Custody

namespace Concluded

variable {info : Meta} (c : Concluded job s v t decisions released)
include c

theorem acked_cases (hinfo : info ∈ t.acked) :
    info ∈ s.acked ∨
      released = true ∧ ∃ disposition, (info, some disposition) ∈ decisions := by
  rw [c.acked] at hinfo
  rcases mem_append.mp hinfo with hold | hnew
  · exact .inl hold
  · cases released with
    | false => cases hnew
    | true =>
      obtain ⟨⟨info', d⟩, hmem, rfl⟩ := mem_map.mp hnew
      obtain ⟨⟨info', disposition⟩, hdecision, hack⟩ := mem_filterMap.mp hmem
      obtain ⟨d', rfl, heq⟩ := Option.map_eq_some_iff.mp hack
      cases heq
      exact .inr ⟨rfl, d, hdecision⟩

theorem mem_acked (hreleased : released = true) {disposition : AckDisposition}
    (h : (info, some disposition) ∈ decisions) : info ∈ t.acked := by
  rw [c.acked, if_pos hreleased]
  refine mem_append_right _ (mem_map.mpr ⟨(info, disposition), ?_, rfl⟩)
  exact mem_filterMap.mpr ⟨_, h, rfl⟩

theorem mem_withheld (h : info ∈ t.withheld) :
    info ∈ s.withheld ∨
      ∃ disposition, (info, disposition) ∈ decisions ∧ (released = false ∨ disposition = none) := by
  rw [c.withheld] at h
  rcases mem_append.mp h with hold | hnew
  · exact .inl hold
  · obtain ⟨⟨info', disposition⟩, hmem, rfl⟩ := mem_map.mp hnew
    obtain ⟨hdecision, hkept⟩ := mem_filter.mp hmem
    refine .inr ⟨disposition, hdecision, ?_⟩
    simpa using hkept

theorem spec (hreleased : released = true) :
    v.commit.isNone = true ∧
      (∀ decision ∈ decisions, behindGap t.run.delivery.brokerGaps decision.1 = false) ∧
      (job.strict = true → s.run.delivery.checkpointPending = 0 ∧
        ∀ decision ∈ decisions, decision.2 ≠ none) :=
  mayAck_spec (c.gate ▸ hreleased)

theorem gap_of_gapped {partition : String} (h : s.Gapped job partition) :
    ∃ gap, t.run.delivery.brokerGaps.lookup partition = some gap := by
  rw [c.gaps]
  rcases h with ⟨gap, hgap⟩ | ⟨info, hinfo, key, offset, hkey, hfrontier, hnone⟩
  · obtain ⟨gap', -, hgap'⟩ := noteGaps_le v.commit.isNone hgap
    exact ⟨gap', hgap'⟩
  · have hd : (info, none) ∈ decisions := by
      rw [c.decided]
      exact mem_decisionsOf.mpr ⟨hinfo, key, hkey, hnone⟩
    obtain ⟨gap, -, hgap⟩ := noteGaps_noted v.commit.isNone s.run.delivery.brokerGaps hd hfrontier
      (.inr rfl)
    exact ⟨gap, hgap⟩

end Concluded

namespace Ordered

variable {partition : String} {info : Meta} (h : Ordered job.strict s) (hc : Custody s)
  (c : Concluded job s v t decisions released)
include h hc c

/-- A partition with a gap: no unit that was undecided before the call is acknowledged by it. -/
theorem not_released_of_gap {offset gap : Nat} (hdecision : (info, disposition) ∈ decisions)
    (hfrontier : info.frontier = some (partition, offset))
    (hgap : s.run.delivery.brokerGaps.lookup partition = some gap) : released = false := by
  rw [Bool.eq_false_iff]
  intro hreleased
  obtain ⟨hin, hun⟩ := hc.completed info (hc.completed_of_decision c hdecision)
  have hle := (h.gap_le partition gap hgap).2 info hin hun offset hfrontier
  obtain ⟨gap', hle', hgap'⟩ := noteGaps_le v.commit.isNone hgap
  have hbehind : behindGap t.run.delivery.brokerGaps info = true := by
    rw [c.gaps]
    exact behindGap_iff.mpr ⟨partition, offset, gap', hfrontier, hgap', Nat.le_trans hle' hle⟩
  rw [(c.spec hreleased).2.1 _ hdecision] at hbehind
  cases hbehind

/-- An acknowledged unit has every unit before it acknowledged, in the same call at the latest. -/
theorem order_conclude (hdeferred : s.deferred = false) (hinfo : info ∈ t.acked)
    (hinfo' : info' ∈ s.received) (hprec : info'.Precedes info) : info' ∈ t.acked := by
  have hkeep : ∀ {m : Meta}, m ∈ s.acked → m ∈ t.acked := fun hm => by
    rw [c.acked]
    exact mem_append_left _ hm
  rcases c.acked_cases hinfo with hold | ⟨hreleased, disposition, hdecision⟩
  · exact hkeep (h.order info hold info' hinfo' hprec)
  · obtain ⟨partition, offset', offset, hfrontier', hfrontier, hlt⟩ := hprec
    obtain ⟨-, hbehind, hstrict⟩ := c.spec hreleased
    by_cases hun : s.Undecided info'
    · by_cases hcompleted : info' ∈ s.completed
      · -- decided in the same call: without a disposition it would be a gap
        rw [← hc.decisions_fst c] at hcompleted
        obtain ⟨⟨m, d⟩, hd, rfl⟩ := mem_map.mp hcompleted
        cases d with
        | some d => exact c.mem_acked hreleased hd
        | none =>
          obtain ⟨gap, hle, hgap⟩ := noteGaps_noted v.commit.isNone s.run.delivery.brokerGaps hd
            hfrontier' (.inr rfl)
          have := hbehind _ hd
          rw [c.gaps, behindGap_iff.mpr ⟨partition, offset', gap, hfrontier', hgap, hle⟩] at this
          cases this
      · exact absurd ⟨partition, offset', offset, hfrontier', hfrontier, hlt⟩
          (hc.not_precedes hdeferred hinfo' hun hcompleted (hc.completed_of_decision c hdecision))
    · rcases mem_append.mp (hc.decided info' hinfo' hun) with hacked | hwithheld
      · exact hkeep hacked
      · -- withheld before: nothing of its partition is acknowledged any more
        exfalso
        cases hs : job.strict with
        | true =>
          have hpos := h.pending hs (ne_nil_of_mem hwithheld)
          have hzero := (hstrict hs).1
          omega
        | false =>
          obtain ⟨gap, hgap⟩ := h.gapped hs info' hwithheld partition offset' hfrontier'
          rw [h.not_released_of_gap hc c hdecision hfrontier hgap] at hreleased
          cases hreleased

theorem gapped_conclude (horderly : Orderly job s (.decide v)) (hlax : job.strict = false)
    (hinfo : info ∈ t.withheld) {offset : Nat}
    (hfrontier : info.frontier = some (partition, offset)) :
    ∃ gap, t.run.delivery.brokerGaps.lookup partition = some gap := by
  rcases c.mem_withheld hinfo with hold | ⟨disposition, hdecision, hwhy⟩
  · obtain ⟨gap, hgap⟩ := h.gapped hlax info hold partition offset hfrontier
    exact c.gap_of_gapped (.inl ⟨gap, hgap⟩)
  · by_cases hnote : v.commit.isNone = false ∨ disposition = none
    · obtain ⟨gap, -, hgap⟩ := noteGaps_noted v.commit.isNone s.run.delivery.brokerGaps hdecision
        hfrontier hnote
      exact ⟨gap, by rw [c.gaps]; exact hgap⟩
    · -- committed and decided, so it is withheld for a unit that is behind a gap
      rw [not_or, Bool.not_eq_false] at hnote
      obtain ⟨hcommitted, hdecided⟩ := hnote
      have hreleased : released = false := hwhy.resolve_right hdecided
      have hany : ∃ decision ∈ decisions, behindGap t.run.delivery.brokerGaps decision.1 = true := by
        rw [c.gate, mayAck, hcommitted, hlax] at hreleased
        simpa [unconfirmed] using hreleased
      obtain ⟨⟨m, d⟩, hd, hbehind⟩ := hany
      obtain ⟨partition', offset', gap, hfrontier', hgap, -⟩ := behindGap_iff.mp hbehind
      have hgapped : s.Gapped job partition' := by
        rw [c.gaps] at hgap
        rcases noteGaps_source _ hgap with hgap | ⟨m', d', hd', hnote, hfrontier''⟩
        · exact .inl ⟨gap, hgap⟩
        · obtain rfl : d' = none := by
            rcases hnote with hnote | hnote
            · rw [hcommitted] at hnote; cases hnote
            · exact hnote
          rw [c.decided] at hd'
          obtain ⟨hm', key, hkey, hnone⟩ := mem_decisionsOf.mp hd'
          exact .inr ⟨m', hm', key, gap, hkey, hfrontier'', hnone⟩
      have hall := (horderly.resolve_left (by simp [hlax])).resolve_left
        (by simpa using hcommitted)
      exact c.gap_of_gapped
        (hall ⟨m, hc.completed_of_decision c hd, partition', offset', hfrontier', hgapped⟩ info
          (hc.completed_of_decision c hdecision) partition offset hfrontier)

theorem conclude (hdeferred : s.deferred = false) (horderly : Orderly job s (.decide v)) :
    Ordered job.strict t where
  order info hinfo info' hinfo' := by
    rw [c.received] at hinfo'
    exact h.order_conclude hc c hdeferred hinfo hinfo'
  pending hs hne := by
    rw [c.pending]
    split_ifs with hreleased
    · -- a strict pipeline acknowledges all it decides
      obtain ⟨-, -, hstrict⟩ := c.spec hreleased
      refine h.pending hs fun hnil => hne ?_
      rw [c.withheld, hnil, nil_append, map_eq_nil_iff, filter_eq_nil_iff]
      intro decision hdecision
      simpa [hreleased] using (hstrict hs).2 decision hdecision
    · exact Nat.succ_pos _
  gapped hlax info hinfo partition offset hfrontier :=
    h.gapped_conclude hc c horderly hlax hinfo hfrontier
  gap_le partition gap hgap := by
    rw [c.received]
    rw [c.gaps] at hgap
    rcases noteGaps_source _ hgap with hold | ⟨m, d, hd, -, hfrontier⟩
    · obtain ⟨hsource, hle⟩ := h.gap_le partition gap hold
      exact ⟨hsource, fun info hinfo hun => hle info hinfo ((hc.undecided_iff c hinfo).mp hun).1⟩
    · have hm := hc.completed_of_decision c hd
      refine ⟨⟨m, (hc.completed m hm).1, hfrontier⟩, fun info hinfo hun offset hoffset => ?_⟩
      obtain ⟨hun, hnot⟩ := (hc.undecided_iff c hinfo).mp hun
      exact Nat.not_lt.mp fun hlt => hc.not_precedes hdeferred hinfo hun hnot hm
        ⟨partition, offset, gap, hoffset, hfrontier, hlt⟩

end Ordered

end Decision

/-! ## Runs -/

section Runs

variable {job : StreamJob ρ} {s : Stream ρ}

theorem AckInvariant.step (h : AckInvariant job.strict s) (e : StreamEvent ρ)
    (horderly : Orderly job s e) : AckInvariant job.strict (s.step job e) := by
  cases e with
  | receive info =>
    show AckInvariant job.strict (s.receive info)
    unfold Stream.receive
    split
    · rename_i key hbroker hkey
      obtain ⟨hnew, hfree, hlast⟩ := horderly key hkey
      exact h.receive hbroker hkey hnew hfree hlast
    · exact h
  | process n raw parsed taken lossElsewhere => exact h.process _ n raw parsed taken lossElsewhere
  | flush cohort answers moment => exact h.flush _ answers moment horderly.1 horderly.2
  | decide verdict =>
    show AckInvariant job.strict (s.decide job verdict)
    rcases decide_cases job s verdict with hsame | hover | ⟨hdeferred, hconclude⟩
    · rwa [hsame]
    · rw [hover]
      refine h.keeps (.refl _) rfl rfl (subperm ?_)
      exact (refl _).append (nil_sublist _)
    · obtain ⟨decisions, released, c⟩ := conclude_spec job s verdict
      rw [hconclude]
      exact ⟨h.custody.conclude c, h.ordered.conclude h.custody c hdeferred horderly⟩

theorem AckInvariant.start (strict : Bool) (breakers : Dict String (Nat × Nat)) :
    AckInvariant (ρ := ρ) strict (start breakers) where
  custody :=
    { keyed := nofun
      distinct := .nil
      held_distinct := .nil
      held := nofun
      own := nofun
      decided := nofun
      once := .nil
      final := nofun }
  ordered :=
    { order := nofun
      pending := fun _ h => absurd rfl h
      gapped := nofun
      gap_le := nofun }

/-- In every orderly run: an acknowledged unit has all received units before it in its partition
acknowledged, neither a withheld unit nor a later one of its partition is acknowledged, and no unit
is acknowledged twice. -/
theorem stream_acks_in_order (job : StreamJob ρ) (breakers : Dict String (Nat × Nat))
    (events : List (StreamEvent ρ))
    (horderly : Run.AllSteps (step job) (Orderly job) (start breakers) events) :
    let s := Run.exec (step job) (start breakers) events
    (∀ info ∈ s.acked, ∀ info' ∈ s.received, info'.Precedes info → info' ∈ s.acked) ∧
      (∀ info ∈ s.withheld, info ∉ s.acked ∧ ∀ info', info.Precedes info' → info' ∉ s.acked) ∧
      (s.acked.map (·.unit)).Nodup := by
  intro s
  have h : AckInvariant job.strict s :=
    Run.AllSteps.invariant (I := AckInvariant job.strict) (fun _ e h hC => h.step e hC)
      (.start job.strict breakers) horderly
  have hdistinct := h.custody.once
  rw [map_append] at hdistinct
  obtain ⟨honce, -, hdisjoint⟩ := nodup_append.mp hdistinct
  have hnot : ∀ info ∈ s.withheld, info ∉ s.acked := fun info hinfo hacked =>
    hdisjoint _ (mem_map_of_mem hacked) _ (mem_map_of_mem hinfo) rfl
  refine ⟨h.ordered.order, fun info hinfo => ⟨hnot info hinfo, fun info' hprec hacked => ?_⟩, honce⟩
  have hreceived := (h.custody.final info (mem_append_right _ hinfo)).1
  exact hnot info hinfo (h.ordered.order info' hacked info hreceived hprec)

end Runs

/-- A pipeline that is not strict and goes on after errors; its transform fails on the record 0. -/
def laxJob : StreamJob Nat where
  name := "p"
  onError := .continues
  dlqSink := true
  parallelSinks := false
  transforms := [fun _ records => if records = [0] then .error "zero" else .ok records]
  sinks := [⟨"db", none, [], [], 0, 1, 60⟩]
  lookupField _ _ := ""
  dlqSink_of_dlq := nofun
  strict := false

def deliverOne (partition : String) (offset : Nat) (cohort : String) : List (StreamEvent Nat) :=
  [.receive (.ofBroker partition offset), .process 0 [] (.ok ([1], .quiet)) true false,
    .flush ("stream-flush", cohort) .quiet (fun _ _ _ => 0), .decide .quiet]

theorem stream_acks_in_order_one :
    (Run.exec (step laxJob) (start ∅) (deliverOne "t/0" 0 "a")).acked =
        [.ofBroker "t/0" 0] ∧
      ((Run.exec (step laxJob) (start ∅) (deliverOne "t/0" 0 "a")).acked.map
        (·.unit)).Nodup := by
  refine ⟨rfl, (stream_acks_in_order laxJob ∅ (deliverOne "t/0" 0 "a")
    ⟨fun key _ => ⟨nofun, rfl, nofun⟩, trivial, ⟨rfl, by decide⟩, ?_, trivial⟩).2.2⟩
  refine .inr (.inr ?_)
  rintro ⟨info, hinfo, partition, offset, hfrontier, hgapped⟩ info' hinfo' partition' offset' hfrontier'
  rw [mem_singleton.mp hinfo] at hfrontier
  rw [mem_singleton.mp hinfo'] at hfrontier'
  cases hfrontier
  cases hfrontier'
  exact hgapped

/-- Partitions 0 and 1 each have a record in one cohort. The first stays undecided, since it could
not be transformed and the DLQ did not take it, and for that the second is withheld too, without a
gap in its partition. The next record of partition 1 is then acknowledged. -/
def skippingRun : List (StreamEvent Nat) :=
  [.receive (.ofBroker "t/0" 0), .receive (.ofBroker "t/1" 0),
    .process 0 [] (.ok ([0], { Answers.quiet with transformDlq := fun _ => false })) true false,
    .process 0 [] (.ok ([1], .quiet)) true false,
    .flush ("stream-flush", "a") .quiet (fun _ _ _ => 0), .decide .quiet] ++ deliverOne "t/1" 1 "b"

theorem stream_ack_past_withheld :
    Meta.ofBroker "t/1" 1 ∈ (Run.exec (step laxJob) (start ∅) skippingRun).acked ∧
    Meta.ofBroker "t/1" 0 ∈ (Run.exec (step laxJob) (start ∅) skippingRun).received ∧
    (Meta.ofBroker "t/1" 0).Precedes (.ofBroker "t/1" 1) ∧
    Meta.ofBroker "t/1" 0 ∉ (Run.exec (step laxJob) (start ∅) skippingRun).acked :=
  ⟨by decide +kernel, by decide +kernel, ⟨"t/1", 0, 1, rfl, rfl, Nat.one_pos⟩, by decide +kernel⟩

end Tram.Executor
