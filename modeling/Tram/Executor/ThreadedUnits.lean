import Tram.Executor.AckedUnits

/-! # The threaded loop finalizes each unit once

As long as nothing fails, the entries of `units` are the runs of consecutive chunks with one key
that are not finalized, the oldest first. The window holds at least four chunks, so that the newest
chunk is in flight while the loop reads: an entry that the next chunk may still belong to is never
finalized, not even that of a broker record, which counts as submitted from the start. -/

namespace Tram.Executor

open List Procedure Run UnitEntry

variable {ρ : Type}

/-- The maximal runs of consecutive chunks with one unit key. -/
def unitRuns (metas : List Meta) : List (List Meta) := metas.splitBy fun x y => x.unit == y.unit

/-- A run that is not finalized: its chunks that are drained, and those in flight. -/
structure OpenRun where
  drained : List Meta
  pending : List Meta

def OpenRun.chunks (r : OpenRun) : List Meta := r.drained ++ r.pending

structure UnitEntry.Stands (u : UnitEntry) (r : OpenRun) : Prop where
  keyed : ∀ m ∈ r.chunks, m.unit = some u.key
  first : r.chunks.head? = some u.info
  remaining : u.remaining = r.pending.length
  waiting : r.pending = [] → u.submitted = false

namespace UnitEntry.Stands

variable {u : UnitEntry} {r : OpenRun} {info : Meta}

theorem submitted (h : u.Stands r) (hpending : r.pending ≠ []) :
    ({ u with submitted := true } : UnitEntry).Stands r :=
  ⟨h.keyed, h.first, h.remaining, fun hnil => absurd hnil hpending⟩

theorem count (h : u.Stands r) (hinfo : info.unit = some u.key) :
    ({ u with remaining := u.remaining + 1 } : UnitEntry).Stands ⟨r.drained, r.pending ++ [info]⟩ := by
  refine ⟨?_, ?_, by simp [h.remaining], fun hnil => by simp at hnil⟩
  · rw [OpenRun.chunks, ← append_assoc]
    exact forall_mem_concat h.keyed hinfo
  · have hfirst := h.first
    rw [OpenRun.chunks] at hfirst ⊢
    rw [← append_assoc, head?_append, hfirst]
    rfl

theorem drain (h : u.Stands r) {pending : List Meta} (hpending : r.pending = info :: pending)
    (hlast : ¬(u.remaining - 1 = 0 ∧ u.submitted = true)) :
    ({ u with remaining := u.remaining - 1 } : UnitEntry).Stands ⟨r.drained ++ [info], pending⟩ := by
  have hchunks : (⟨r.drained ++ [info], pending⟩ : OpenRun).chunks = r.chunks := by
    simp [OpenRun.chunks, hpending]
  have hremaining : u.remaining - 1 = pending.length := by simp [h.remaining, hpending]
  refine ⟨by rw [hchunks]; exact h.keyed, by rw [hchunks]; exact h.first, hremaining, fun hnil => ?_⟩
  dsimp only at hnil
  rw [hnil, length_nil] at hremaining
  exact Bool.eq_false_iff.mpr fun hs => hlast ⟨hremaining, hs⟩

theorem new {key : UnitKey} (hinfo : info.unit = some key) :
    (⟨key, info, 1, info.broker⟩ : UnitEntry).Stands ⟨[], [info]⟩ :=
  ⟨by simp [OpenRun.chunks, hinfo], rfl, rfl, fun hnil => by simp at hnil⟩

end UnitEntry.Stands

namespace Watched

variable {job : BatchJob ρ} {plan : List Meta} {w w' : Watched ρ} {finished : List (List Meta)}
  {opened : List OpenRun} {e : Event ρ} {b : Barrier}

/-- What was read is the finalized runs and then the open ones; the source heard of the first chunk
of each finalized run, and each open run has its entry. -/
structure Following (job : BatchJob ρ) (w : Watched ρ) (finished : List (List Meta))
    (opened : List OpenRun) : Prop where
  runs : unitRuns w.yielded = finished ++ opened.map (·.chunks)
  finalized : w.threads.run.finalized.map (fun c => (some c.1, c.2)) =
    finished.map fun r => (r.head?, true)
  entries : Forall₂ Stands w.threads.units opened
  flight : w.threads.inFlight.map (·.key) = (opened.flatMap (·.pending)).map (·.unit)
  untouched : ∀ r ∈ opened.tail, r.drained = []
  older : ∀ u ∈ w.threads.units.dropLast, u.submitted = true
  reading : w.threads.phase = .reading →
    (∀ r ∈ opened, r.pending ≠ []) ∧ (opened = [] → w.yielded = [])
  bounded : w.threads.inFlight.length ≤ job.cap
  calm : ∀ fut ∈ w.threads.inFlight, ∀ f, fut.result ≠ some (.error f)
  ended : w.threads.phase = .ended → w.threads.inFlight = []

theorem Following.start (plan : List Meta) {s : State ρ} (hnew : s.finalized = []) :
    Following job (.start plan s) [] [] :=
  ⟨rfl, congrArg _ hnew, .nil, rfl, nofun, nofun, fun _ => ⟨nofun, fun _ => rfl⟩, Nat.zero_le _,
    fun _ hfut => absurd hfut not_mem_nil, nofun⟩

theorem Following.split (h : Following job w finished opened) :
    ∃ drained, w.yielded = drained ++ opened.flatMap (·.pending) ∧ finished.flatten <+: drained := by
  have hflat : w.yielded = (finished ++ opened.map (·.chunks)).flatten := by
    rw [← h.runs, unitRuns, flatten_splitBy]
  rw [hflat, flatten_append]
  cases opened with
  | nil => exact ⟨finished.flatten, rfl, prefix_rfl⟩
  | cons r rs =>
    have huntouched : (rs.map (·.chunks)).flatten = rs.flatMap (·.pending) := by
      rw [flatMap]
      refine congrArg flatten (map_congr_left fun r' hr' => ?_)
      rw [OpenRun.chunks, h.untouched r' hr', nil_append]
    refine ⟨finished.flatten ++ r.drained, ?_, prefix_append _ _⟩
    rw [map_cons, flatten_cons, huntouched, flatMap_cons, OpenRun.chunks]
    simp only [append_assoc]

variable (job) in
theorem retireUnit_calm (t : Threads ρ) (u : UnitEntry) (us : List UnitEntry)
    (hcommit : b.commit = none) (hfinalized : b.finalized = none) :
    ∃ run taken, retireUnit job t u us b = ⟨run, t.inFlight, us, taken, t.phase⟩ ∧
      run.finalized = t.run.finalized ++ [(u.info, true)] := by
  obtain ⟨run, hrun, hlogged⟩ : ∃ run, finalizeBatchSourceUnit job.toPipeline u.key u.info
      (t.taken.lookup u.key) true b t.run = (.ok (), run) ∧
        run.finalized = t.run.finalized ++ [(u.info, true)] := by
    unfold finalizeBatchSourceUnit
    rw [hcommit, hfinalized]
    obtain ⟨run, hdecide, -, -, hsame⟩ := decideUnit_run (ρ := ρ) u.info b.checkpointed
      ((t.run.delivery.units.lookup u.key <|> t.taken.lookup u.key).bind
        (·.disposition job.onError)) (t.run.onDelivery (·.dropUnit u.key))
    refine ⟨run.finalize u.info true, ?_, by rw [State.finalize, hsame]; rfl⟩
    rw [bind_run_ok (show commitSinks job.toPipeline none t.run = (.ok true, t.run) from rfl),
      bind_run_ok (get_run _), bind_run_ok (modify_run _ _)]
    exact bind_run_ok hdecide _
  unfold retireUnit
  rw [hrun]
  exact ⟨run, _, rfl, hlogged⟩

section Drain

variable {fut : Future ρ} {futs : List (Future ρ)} {u : UnitEntry} {us : List UnitEntry}
  (h : Following job w finished opened) (hold : w.Oldest job fut futs) (hunits : w.threads.units = u :: us)
include h hold hunits

omit hunits in
theorem Following.oldest : ∃ u us r rs info pending, w.threads.units = u :: us ∧ opened = r :: rs ∧
    u.Stands r ∧ Forall₂ Stands us rs ∧ r.pending = info :: pending ∧
    fut.key = some u.key ∧ futs.map (·.key) = (pending ++ rs.flatMap (·.pending)).map (·.unit) := by
  have hkeys := h.flight
  rw [hold.flight, map_cons] at hkeys
  have hentries := h.entries
  generalize hunits : w.threads.units = units at hentries
  cases hentries with
  | nil => simp at hkeys
  | @cons u r us rs hstands hrest =>
    cases hpending : r.pending with
    | nil =>
      -- an entry without chunks in flight is the last one, and then nothing is in flight
      have hus : us = [] := by
        by_contra hne
        have hs := hstands.waiting hpending
        rw [h.older u (by rw [hunits, dropLast_cons_of_ne_nil hne]; exact mem_cons_self)] at hs
        cases hs
      rw [hus] at hrest
      cases hrest
      simp [hpending] at hkeys
    | cons info pending =>
      rw [flatMap_cons, hpending, cons_append, map_cons, cons.injEq] at hkeys
      have hkey := hstands.keyed info (by simp [OpenRun.chunks, hpending])
      exact ⟨u, us, r, rs, info, pending, rfl, rfl, hstands, hrest, hpending,
        hkeys.1.trans hkey, hkeys.2⟩

variable (hthreads : 2 ≤ job.threadWorkers)
include hthreads

omit h hunits in
theorem Oldest.more (hphase : w.threads.phase = .reading) : 0 < futs.length := by
  have hfull : job.cap ≤ w.threads.inFlight.length := by simpa [drains, hphase] using hold.due
  rw [BatchJob.cap, hold.flight, length_cons] at hfull
  omega

theorem Following.counted (hlast : ¬(u.remaining - 1 = 0 ∧ u.submitted = true)) :
    ∃ opened', Following job (w.afterCount futs u us) finished opened' := by
  obtain ⟨u', us', r, rs, info, pending, hunits', rfl, hstands, hrest, hpending, -, hkeys⟩ := h.oldest hold
  obtain ⟨rfl, rfl⟩ := cons.inj (hunits.symm.trans hunits')
  have hdrained := hstands.drain hpending hlast
  have hbounded := h.bounded
  rw [hold.flight, length_cons] at hbounded
  refine ⟨⟨r.drained ++ [info], pending⟩ :: rs, ?_, h.finalized, .cons hdrained hrest, hkeys, h.untouched,
    fun v hv => ?_, fun hphase => ?_, Nat.le_of_succ_le hbounded,
    fun f hf => h.calm f (hold.flight ▸ mem_cons_of_mem _ hf),
    fun hended => absurd (h.ended hended) (by simp [hold.flight])⟩
  · rw [h.runs, map_cons, map_cons, OpenRun.chunks, OpenRun.chunks, hpending]
    simp only [append_assoc, singleton_append]
  · cases us with
    | nil => cases hv
    | cons u' us =>
      rw [dropLast_cons_of_ne_nil (cons_ne_nil _ _)] at hv
      have holder := h.older
      rw [hunits, dropLast_cons_of_ne_nil (cons_ne_nil _ _)] at holder
      rcases mem_cons.mp hv with rfl | hv
      · exact holder u mem_cons_self
      · exact holder v (mem_cons_of_mem _ hv)
  · obtain ⟨hopen, -⟩ := h.reading hphase
    refine ⟨fun r' hr' => ?_, nofun⟩
    rcases mem_cons.mp hr' with rfl | hr'
    · intro hnil
      dsimp only at hnil
      -- with no chunk left the run is the last one, and its chunk was the only one in flight
      have hus : us = [] := by
        by_contra hne
        have hs := hdrained.waiting hnil
        have holder := h.older u (by rw [hunits, dropLast_cons_of_ne_nil hne]; exact mem_cons_self)
        dsimp only at hs
        rw [holder] at hs
        cases hs
      rw [hus] at hrest
      cases hrest
      have hone := congrArg length hkeys
      rw [hnil] at hone
      simp only [flatMap_nil, append_nil, map_nil, length_map,
        length_nil] at hone
      have := hold.more hthreads hphase
      omega
    · exact hopen r' (mem_cons_of_mem _ hr')

theorem Following.retired (hlast : u.remaining - 1 = 0) (hcommit : b.commit = none)
    (hfinalized : b.finalized = none) :
    ∃ finished' opened', Following job (w.afterRetire job futs u us b) finished' opened' := by
  obtain ⟨u', us', r, rs, info, pending, hunits', rfl, hstands, hrest, hpending, -, hkeys⟩ := h.oldest hold
  obtain ⟨rfl, rfl⟩ := cons.inj (hunits.symm.trans hunits')
  obtain ⟨run, taken, hretire, hlogged⟩ := retireUnit_calm job { w.threads with inFlight := futs }
    { u with remaining := u.remaining - 1 } us hcommit hfinalized
  have hbounded := h.bounded
  rw [hold.flight, length_cons] at hbounded
  have hnil : pending = [] := by
    have hremaining := hstands.remaining
    rw [hpending, length_cons] at hremaining
    exact eq_nil_of_length_eq_zero (by omega)
  rw [hnil, nil_append] at hkeys
  rw [afterRetire, hretire]
  refine ⟨finished ++ [r.chunks], rs, ?_, ?_, hrest, hkeys,
    fun r' hr' => h.untouched r' (mem_of_mem_tail hr'), fun v hv => ?_, fun hphase => ?_,
    Nat.le_of_succ_le hbounded, fun f hf => h.calm f (hold.flight ▸ mem_cons_of_mem _ hf),
    fun hended => absurd (h.ended hended) (by simp [hold.flight])⟩
  · rw [h.runs, map_cons, append_assoc, singleton_append]
  · rw [hlogged, map_append, map_append, h.finalized, map_singleton, map_singleton, hstands.first]
  · cases us with
    | nil => cases hv
    | cons u' us =>
      have holder := h.older
      rw [hunits, dropLast_cons_of_ne_nil (cons_ne_nil _ _)] at holder
      exact holder v (mem_cons_of_mem _ hv)
  · obtain ⟨hopen, -⟩ := h.reading hphase
    refine ⟨fun r' hr' => hopen r' (mem_cons_of_mem _ hr'), fun hrs => ?_⟩
    have hone := congrArg length hkeys
    rw [hrs] at hone
    simp only [flatMap_nil, map_nil, length_map, length_nil] at hone
    have := hold.more hthreads hphase
    omega

end Drain

section Submit

variable {info : Meta} {rest : List Meta} {key : UnitKey} (h : Following job w finished opened)
include h

theorem Following.last :
    (w.threads.units = [] ∧ opened = []) ∨
      ∃ us u rs r, w.threads.units = us ++ [u] ∧ opened = rs ++ [r] ∧ u.Stands r ∧
        Forall₂ Stands us rs := by
  have hentries := h.entries
  rcases eq_nil_or_concat opened with rfl | ⟨rs, r, hopened⟩
  · exact .inl ⟨forall₂_nil_right_iff.mp hentries, rfl⟩
  · rw [concat_eq_append] at hopened
    rw [hopened] at hentries
    have hus := forall₂_take_append _ _ _ hentries
    obtain ⟨u, hdrop, hstands⟩ : ∃ u, w.threads.units.drop rs.length = [u] ∧ u.Stands r := by
      generalize w.threads.units.drop rs.length = vs, forall₂_drop_append _ _ _ hentries = hvs
      cases hvs with
      | cons hstands hnone =>
        cases hnone
        exact ⟨_, rfl, hstands⟩
    exact .inr ⟨_, u, rs, r, by rw [← hdrop, take_append_drop], hopened, hstands, hus⟩

theorem Following.last_key (hphase : w.threads.phase = .reading)
    {x : Meta} (hx : x ∈ w.yielded.getLast?) :
    ∃ us u rs r, w.threads.units = us ++ [u] ∧ opened = rs ++ [r] ∧ u.Stands r ∧
      Forall₂ Stands us rs ∧ x.unit = some u.key := by
  rcases h.last with ⟨-, hnil⟩ | ⟨us, u, rs, r, hunits, rfl, hstands, hus⟩
  · rw [(h.reading hphase).2 hnil] at hx
    cases hx
  · refine ⟨us, u, rs, r, hunits, rfl, hstands, hus, hstands.keyed x ?_⟩
    have hne : r.chunks ≠ [] := by
      intro hnil
      have hfirst := hstands.first
      rw [hnil] at hfirst
      cases hfirst
    have hyielded : w.yielded = (finished ++ rs.map (·.chunks)).flatten ++ r.chunks := by
      have hruns := h.runs
      rw [unitRuns] at hruns
      rw [← flatten_splitBy (fun x y : Meta => x.unit == y.unit) w.yielded, hruns]
      simp
    rw [hyielded, getLast?_append_of_ne_nil _ hne] at hx
    exact mem_of_getLast? hx

theorem Following.marked (hphase : w.threads.phase = .reading) :
    Forall₂ Stands (markSubmitted w.threads.units) opened ∧
      ∀ u ∈ markSubmitted w.threads.units, u.submitted = true := by
  obtain ⟨hopen, -⟩ := h.reading hphase
  have hold := h.older
  rcases h.last with ⟨hunits, rfl⟩ | ⟨us, u, rs, r, hunits, rfl, hstands, hus⟩
  · rw [hunits]
    exact ⟨.nil, nofun⟩
  · rw [hunits, dropLast_concat] at hold
    rw [hunits, markSubmitted_concat]
    exact ⟨rel_append hus (.cons (hstands.submitted (hopen _ (by simp))) .nil),
      forall_mem_concat hold rfl⟩

section Added

variable (hreads : reads job w.threads = true) (work : Work ρ)
include hreads

theorem Following.submitted {run : State ρ} (hsame : run.finalized = w.threads.run.finalized)
    {units : List UnitEntry} {opened' : List OpenRun}
    (hruns : unitRuns (w.yielded ++ [info]) = finished ++ opened'.map (·.chunks))
    (hentries : Forall₂ Stands units opened')
    (hpending : opened'.flatMap (·.pending) = opened.flatMap (·.pending) ++ [info])
    (huntouched : ∀ r ∈ opened'.tail, r.drained = []) (holder : ∀ u ∈ units.dropLast, u.submitted = true)
    (hopen : ∀ r ∈ opened', r.pending ≠ []) (hne : opened' ≠ []) :
    Following job (w.submitted info work rest run units) finished opened' := by
  obtain ⟨hphase, hroom⟩ := reads_iff.mp hreads
  refine ⟨hruns, hsame ▸ h.finalized, hentries, ?_, huntouched, holder, fun _ =>
    ⟨hopen, fun hnil => absurd hnil hne⟩,
    ?_, forall_mem_concat h.calm nofun, fun hended => absurd (hphase.symm.trans hended) nofun⟩
  · rw [hpending, map_append, map_append, h.flight]
    rfl
  · simp only [length_append, length_singleton]
    omega

variable (hinfo : info.unit = some key)
include hinfo

theorem Following.again {us : List UnitEntry} {u : UnitEntry} (hunits : w.threads.units = us ++ [u])
    (hkey : u.key = key) : ∃ opened', Following job (w.submitted info work rest w.threads.run
      (us ++ [{ u with remaining := u.remaining + 1 }])) finished opened' := by
  rcases h.last with ⟨hnil, -⟩ | ⟨us', u', rs, r, hunits', rfl, hstands, hus⟩
  · simp [hnil] at hunits
  obtain ⟨rfl, hu⟩ := append_inj' (hunits.symm.trans hunits') rfl
  obtain rfl := singleton_inj.mp hu
  rw [← hkey] at hinfo
  refine ⟨rs ++ [⟨r.drained, r.pending ++ [info]⟩], h.submitted hreads work rfl ?_
    (rel_append hus (.cons (hstands.count hinfo) .nil)) (by simp) ?_ ?_
    (forall_mem_concat (fun r' hr' => ?_) (by simp)) (by simp)⟩
  · have hruns := h.runs
    rw [map_append, map_singleton, ← append_assoc] at hruns
    rw [unitRuns, Grouping.splitBy_concat_same hruns fun x hx => ?_]
    · simp [OpenRun.chunks]
    · rw [hstands.keyed x (mem_of_getLast? hx), hinfo]
      exact beq_self_eq_true _
  · cases rs with
    | nil => exact nofun
    | cons r' rs =>
      exact forall_mem_concat (fun r'' hr'' => h.untouched r'' (mem_append_left _ hr''))
        (h.untouched r mem_concat_self)
  · have holder := h.older
    rw [hunits, dropLast_concat] at holder
    simpa using holder
  · exact (h.reading (reads_iff.mp hreads).1).1 r' (mem_append_left _ hr')

theorem Following.first (hlast : w.threads.units.getLast?.map (·.key) ≠ some key) :
    Following job (w.afterFirst info work rest key) finished
      (opened ++ [⟨[], [info]⟩]) := by
  have hphase := (reads_iff.mp hreads).1
  obtain ⟨hentries, hmarked⟩ := h.marked hphase
  have hsame : (w.threads.run.onDelivery (·.registerUnit key info)).finalized =
      w.threads.run.finalized := rfl
  refine h.submitted hreads work hsame ?_ (rel_append hentries (.cons (.new hinfo) .nil)) (by simp)
    ?_ (by simpa using hmarked) (forall_mem_concat (h.reading hphase).1 (by simp)) (by simp)
  · have hruns := h.runs
    rw [unitRuns] at hruns ⊢
    rw [Grouping.splitBy_concat_new fun x hx => ?_, hruns]
    · simp [OpenRun.chunks]
    · rw [hinfo]
      refine beq_false_of_ne fun hkey => hlast ?_
      obtain ⟨us, u, rs, r, hunits, -, -, -, hu⟩ := h.last_key hphase hx
      rw [hunits, getLast?_concat, Option.map_some, ← hu, hkey]
  · cases opened with
    | nil => exact nofun
    | cons r' rs => exact forall_mem_concat h.untouched rfl

end Added

end Submit

/-- Nothing fails in this step: neither the processing of a chunk nor a barrier nor the source. -/
def calmAt (job : BatchJob ρ) (w : Watched ρ) : Event ρ → Bool
  | .execute n =>
    match w.threads.inFlight[n]? with
    | some ⟨key, work, none⟩ => (processChunk job key work w.threads.run).1.isOk
    | _ => true
  | .drain b => b.commit.isNone && b.finalized.isNone
  | .close fault => fault.isNone
  | _ => true

theorem Following.processed (h : Following job w finished opened) {n : Nat} {key : Option UnitKey}
    {work : Work ρ} (hn : w.threads.inFlight[n]? = some ⟨key, work, none⟩)
    (hok : (processChunk job key work w.threads.run).1.isOk = true) :
    Following job (w.afterExecute job n key work) finished opened := by
  have hkeys : (w.afterExecute job n key work).threads.inFlight.map (·.key) =
      w.threads.inFlight.map (·.key) := by
    have hkey : (w.threads.inFlight.map (·.key))[n]? = some key := by
      rw [getElem?_map, hn]
      rfl
    obtain ⟨hlt, hget⟩ := List.getElem?_eq_some_iff.mp hkey
    rw [map_set, ← hget]
    exact set_getElem_self hlt
  have hsame := (@processChunk_keeps _ job key work w.threads.run).finalized
  refine ⟨h.runs, hsame ▸ h.finalized, h.entries, hkeys.trans h.flight, h.untouched, h.older, h.reading,
    by simpa using h.bounded, fun fut hfut f => ?_, fun hended => ?_⟩
  · rcases mem_or_eq_of_mem_set hfut with hfut | rfl
    · exact h.calm fut hfut f
    · intro hf
      rw [Option.some.inj hf] at hok
      cases hok
  · rw [h.ended hended] at hn
    cases hn

theorem Following.phase (h : Following job w finished opened) {phase : Phase}
    (hreading : phase ≠ .reading) (hended : phase = .ended → w.threads.inFlight = []) :
    Following job { w with threads := { w.threads with phase := phase } } finished opened :=
  { h with
    reading := fun hphase => absurd hphase hreading
    ended := hended }

theorem Following.close (h : Following job w finished opened) (hphase : w.threads.phase = .reading) :
    Following job w.afterClose finished opened := by
  obtain ⟨hentries, hmarked⟩ := h.marked hphase
  exact ⟨h.runs, h.finalized, hentries, h.flight, h.untouched,
    fun u hu => hmarked u ((dropLast_sublist _).subset hu), nofun, h.bounded, h.calm, nofun⟩

theorem Move.following (hmove : Move job w e w') (h : Following job w finished opened)
    (hthreads : 2 ≤ job.threadWorkers) (hkeyed : ∀ info ∈ w.rest, info.unit ≠ none)
    (hcalm : w.calmAt job e = true) : ∃ finished' opened', Following job w' finished' opened' := by
  cases hmove with
  | idle => exact ⟨_, _, h⟩
  | unitless _ hrest hunit => exact absurd hunit (hkeyed _ (hrest ▸ mem_cons_self))
  | again hreads _ hunits hunit => exact ⟨_, h.again hreads _ hunit hunits rfl⟩
  | first hreads _ hunit hlast => exact ⟨_, _, h.first hreads _ hunit hlast⟩
  | processed hn =>
    simp only [calmAt, hn] at hcalm
    exact ⟨_, _, h.processed hn hcalm⟩
  | raised hdone hresult => exact absurd hresult (h.calm _ (hdone.flight ▸ mem_cons_self) _)
  | passed hold hother =>
    obtain ⟨u, us, _, _, _, _, hunits, -, -, -, -, hkey, -⟩ := h.oldest hold
    exact absurd hkey (hother u us hunits)
  | counted hold hunits _ hlast => exact ⟨_, h.counted hold hunits hthreads hlast⟩
  | retired hold hunits _ hlast =>
    simp only [calmAt, Bool.and_eq_true, Option.isNone_iff_eq_none] at hcalm
    exact h.retired hold hunits hthreads hlast.1 hcalm.1 hcalm.2
  | limited => exact ⟨_, _, h.phase (by simp) (by simp)⟩
  | closed hreads => exact ⟨_, _, h.close (reads_iff.mp hreads).1⟩
  | broken => cases hcalm
  | finished _ hempty => exact ⟨_, _, h.phase (by simp) fun _ => hempty⟩

theorem Move.split (hmove : Move job w e w') : w'.yielded ++ w'.rest = w.yielded ++ w.rest := by
  cases hmove with
  | unitless _ hrest | again _ hrest | first _ hrest => simp [hrest]
  | _ => rfl

structure Exhausted (w : Watched ρ) : Prop where
  phase : w.threads.phase ≠ .reading
  rest : w.rest = []
  submitted : ∀ u ∈ w.threads.units, u.submitted = true

theorem Exhausted.step (job : BatchJob ρ) (w : Watched ρ) (e : Event ρ) (h : Exhausted w) :
    Exhausted (w.step job e) := by
  have hmove := w.step_move job e
  have hphase := hmove.phase h.phase
  generalize w.step job e = w' at hmove hphase
  have hnot : reads job w.threads ≠ true := fun hreads => h.phase (reads_iff.mp hreads).1
  cases hmove with
  | unitless hreads | again hreads | first hreads | limited hreads | closed hreads | broken hreads =>
    exact absurd hreads hnot
  | @counted _ _ _ u _ _ hunits =>
    have hus := h.submitted
    rw [hunits] at hus
    exact ⟨hphase, h.rest, forall_mem_cons.mpr (forall_mem_cons.mp hus)⟩
  | @retired b _ futs u us _ hunits =>
    obtain ⟨run, taken, phase, o, hretire, -⟩ := retireUnit_cases job { w.threads with inFlight := futs }
      { u with remaining := u.remaining - 1 } us b (Still.tells _)
    refine ⟨hphase, h.rest, fun v hv => ?_⟩
    rw [afterRetire, hretire] at hv
    exact h.submitted v (hunits ▸ mem_cons_of_mem _ hv)
  | _ => exact ⟨hphase, h.rest, h.submitted⟩

theorem Following.exhausted (h : Following job w finished opened) (hexhausted : Exhausted w)
    (hended : w.threads.phase = .ended) : opened = [] := by
  have hnone := h.flight
  rw [h.ended hended, map_nil, eq_comm, map_eq_nil_iff, flatMap_eq_nil_iff] at hnone
  rcases h.last with ⟨-, hnil⟩ | ⟨us, u, rs, r, hunits, rfl, hstands, -⟩
  · exact hnil
  · have hsubmitted := hexhausted.submitted u (by simp [hunits])
    rw [hstands.waiting (hnone r (by simp))] at hsubmitted
    cases hsubmitted

theorem Following.run (hthreads : 2 ≤ job.threadWorkers) (hkeyed : ∀ info ∈ plan, info.unit ≠ none)
    {s : State ρ} (hnew : s.finalized = []) {events : List (Event ρ)}
    (hcalm : AllSteps (Watched.step job) (fun w e => w.calmAt job e = true) (.start plan s) events) :
    (∃ finished opened, Following job (exec (Watched.step job) (.start plan s) events)
      finished opened) ∧
    plan = (exec (Watched.step job) (.start plan s) events).yielded ++
      (exec (Watched.step job) (.start plan s) events).rest := by
  refine AllSteps.invariant (I := fun w : Watched ρ =>
    (∃ finished opened, Following job w finished opened) ∧ plan = w.yielded ++ w.rest)
    (fun w e hw hcalm => ?_) ⟨⟨[], [], .start plan hnew⟩, rfl⟩ hcalm
  obtain ⟨⟨finished, opened, h⟩, hsplit⟩ := hw
  refine ⟨(w.step_move job e).following h hthreads (fun info hinfo => hkeyed info ?_) hcalm,
    hsplit.trans (w.step_move job e).split.symm⟩
  rw [hsplit]
  exact mem_append_right _ hinfo

end Watched

open Watched in
/-- With two threads or more and keyed chunks, in whatever order they are processed, as long as
nothing fails: the source was finalized, with success, for the first maximal runs of chunks it
yielded, each once and in their order, with the meta of its first chunk; the chunks in flight are
the last ones yielded, and no more than the window holds. Once an exhausted source is read to its
end, it was finalized for every run. -/
theorem units_finalized_once (job : BatchJob ρ) (hthreads : 2 ≤ job.threadWorkers) (plan : List Meta)
    (hkeyed : ∀ info ∈ plan, info.unit ≠ none) (s : State ρ) (hnew : s.finalized = [])
    (events : List (Event ρ))
    (hcalm : AllSteps (Watched.step job) (fun w e => w.calmAt job e = true) (.start plan s) events)
    (w : Watched ρ) (hw : w = exec (Watched.step job) (.start plan s) events) :
    (∃ n drained pending,
      w.threads.run.finalized.map (fun c => (some c.1, c.2)) =
        ((unitRuns w.yielded).take n).map (fun r => (r.head?, true)) ∧
      w.yielded = drained ++ pending ∧
      w.threads.inFlight.map (·.key) = pending.map (·.unit) ∧
      ((unitRuns w.yielded).take n).flatten <+: drained) ∧
    w.threads.inFlight.length ≤ max 1 (2 * job.threadWorkers) ∧
    (∀ e, (w.step job e).yielded ≠ w.yielded →
      w.threads.inFlight.length < max 1 (2 * job.threadWorkers)) ∧
    ∀ read ending, events = read ++ .close none :: ending →
      reads job (exec (Watched.step job) (.start plan s) read).threads = true →
      (exec (Watched.step job) (.start plan s) read).rest = [] →
      w.threads.phase = .ended →
      w.threads.run.finalized.map (fun c => (some c.1, c.2)) =
          (unitRuns plan).map (fun r => (r.head?, true)) ∧
        w.threads.units = [] ∧ w.threads.inFlight = [] := by
  have hcap : job.cap = max 1 (2 * job.threadWorkers) := by rw [BatchJob.cap, Nat.mul_comm]
  obtain ⟨⟨finished, opened, h⟩, hsplit⟩ := Following.run hthreads hkeyed hnew hcalm
  rw [← hw] at h hsplit
  obtain ⟨drained, hyielded, hfinished⟩ := h.split
  have htake : (unitRuns w.yielded).take finished.length = finished := by
    rw [h.runs, take_left']
    rfl
  refine ⟨⟨finished.length, drained, opened.flatMap (·.pending), ?_, hyielded, h.flight, ?_⟩,
    hcap ▸ h.bounded, fun e he => ?_, fun read ending hevents hreads hrest hended => ?_⟩
  · rw [htake]
    exact h.finalized
  · rw [htake]
    exact hfinished
  · have hmove := w.step_move job e
    generalize w.step job e = w' at hmove he
    cases hmove with
    | unitless hreads | again hreads | first hreads => exact hcap ▸ (reads_iff.mp hreads).2
    | _ => exact absurd rfl he
  · -- the loop is closed once the source is exhausted, and every unit is marked from then on
    subst hevents
    obtain ⟨hcalmRead, hcalmEnding⟩ := allSteps_append.mp hcalm
    obtain ⟨⟨finished', opened', h'⟩, -⟩ := Following.run hthreads hkeyed hnew hcalmRead
    obtain ⟨hphase, hroom⟩ := reads_iff.mp hreads
    rw [exec_append, exec_cons] at hw
    have hexhausted : Exhausted w := by
      rw [hw]
      refine exec_invariant (Exhausted.step job) ?_ ending
      have hclose : (exec (Watched.step job) (.start plan s) read).step job (.close none) =
          { exec (Watched.step job) (.start plan s) read with
            threads := { (exec (Watched.step job) (.start plan s) read).threads with
              units := markSubmitted (exec (Watched.step job) (.start plan s) read).threads.units
              phase := .draining } } := by
        simp only [Watched.step, Threads.step, hphase, if_pos hroom]
      rw [hclose]
      exact ⟨by simp, hrest, (h'.marked hphase).2⟩
    have hnone := h.exhausted hexhausted hended
    have hplan : plan = w.yielded := by rw [hsplit, hexhausted.rest, append_nil]
    refine ⟨?_, ?_, h.ended hended⟩
    · rw [h.finalized, hplan, h.runs, hnone, map_nil, append_nil]
    · have hentries := h.entries
      rw [hnone] at hentries
      exact forall₂_nil_right_iff.mp hentries

def Phase.isEnded : Phase → Bool
  | .ended => true
  | _ => false

theorem Phase.eq_ended {phase : Phase} (h : phase.isEnded = true) : phase = .ended := by
  cases phase <;> first | rfl | cases h

def twoFiles : List Meta :=
  [⟨some ("/in/a", "a"), false, none, false⟩, ⟨some ("/in/a", "a"), false, none, false⟩,
    ⟨some ("/in/b", "b"), false, none, false⟩]

def twoFilesRead : List (Event Nat) :=
  let work : Work Nat := ⟨[], .parsed [1] .quiet, true, false⟩
  [.submit ⟨some ("/in/a", "a"), false, none, false⟩ work,
    .submit ⟨some ("/in/a", "a"), false, none, false⟩ work, .execute 1,
    .submit ⟨some ("/in/b", "b"), false, none, false⟩ work]

def twoFilesDrained : List (Event Nat) :=
  [.execute 2, .execute 0, .drain ⟨none, true, none⟩, .drain ⟨none, true, none⟩,
    .drain ⟨none, true, none⟩, .finish]

theorem units_finalized_once_two_files :
    (exec (Watched.step (fileJob 2)) (.start twoFiles State.new)
      (twoFilesRead ++ .close none :: twoFilesDrained)).threads.run.finalized.map
        (fun c => (some c.1, c.2)) = (unitRuns twoFiles).map (fun r => (r.head?, true)) := by
  obtain ⟨-, -, -, hend⟩ := units_finalized_once (fileJob 2) (by decide) twoFiles (by decide)
    State.new rfl (twoFilesRead ++ .close none :: twoFilesDrained) (by decide +kernel) _ rfl
  exact (hend twoFilesRead twoFilesDrained rfl (by decide +kernel) (by decide +kernel)
    (Phase.eq_ended (by decide +kernel))).1

end Tram.Executor
