import Tram.Executor.SourceCalls

/-! # What an event does to the threaded loop

Each step of the threaded loop is one of a few moves. What holds along its runs is shown move by
move. -/

namespace Tram.Executor

open List

variable {ρ : Type}

theorem markSubmitted_concat (us : List UnitEntry) (u : UnitEntry) :
    markSubmitted (us ++ [u]) = us ++ [{ u with submitted := true }] := by
  induction us with
  | nil => rfl
  | cons v us ih =>
    cases us with
    | nil => rfl
    | cons v' us => exact congrArg (v :: ·) ih

theorem countSubmitted_concat (us : List UnitEntry) (u : UnitEntry) :
    countSubmitted (us ++ [u]) = us ++ [{ u with remaining := u.remaining + 1 }] := by
  induction us with
  | nil => rfl
  | cons v us ih =>
    cases us with
    | nil => rfl
    | cons v' us => exact congrArg (v :: ·) ih

theorem mem_set_of_result {futs : List (Future ρ)} {n : Nat} {key : Option UnitKey} {work : Work ρ}
    (hn : futs[n]? = some ⟨key, work, none⟩) {fut : Future ρ} (hfut : fut ∈ futs)
    (hresult : fut.result ≠ none) (new : Future ρ) : fut ∈ futs.set n new := by
  obtain ⟨m, hm⟩ := mem_iff_getElem?.mp hfut
  have hne : n ≠ m := by
    rintro rfl
    rw [hn] at hm
    cases hm
    exact hresult rfl
  exact mem_iff_getElem?.mpr ⟨m, by rwa [getElem?_set_ne hne]⟩

namespace Watched

/-- The next chunk is submitted; `run` and `units` are the accounting and the entries after it. -/
abbrev submitted (w : Watched ρ) (info : Meta) (work : Work ρ) (rest : List Meta) (run : State ρ)
    (units : List UnitEntry) : Watched ρ :=
  { w with
    threads := { w.threads with
      run := run
      inFlight := w.threads.inFlight ++ [⟨info.unit, work, none⟩]
      units := units }
    yielded := w.yielded ++ [info]
    rest := rest }

abbrev afterFirst (w : Watched ρ) (info : Meta) (work : Work ρ) (rest : List Meta) (key : UnitKey) :
    Watched ρ :=
  w.submitted info work rest (w.threads.run.onDelivery (·.registerUnit key info))
    (markSubmitted w.threads.units ++ [⟨key, info, 1, info.broker⟩])

abbrev afterExecute (w : Watched ρ) (job : BatchJob ρ) (n : Nat) (key : Option UnitKey) (work : Work ρ) :
    Watched ρ :=
  let result := processChunk job key work w.threads.run
  { w with
    threads := { w.threads with
      run := result.2
      inFlight := w.threads.inFlight.set n ⟨key, work, some result.1⟩ }
    processed := w.processed ++ [key] }

abbrev afterCount (w : Watched ρ) (futs : List (Future ρ)) (u : UnitEntry) (us : List UnitEntry) :
    Watched ρ :=
  { w with threads := { w.threads with
      inFlight := futs
      units := { u with remaining := u.remaining - 1 } :: us } }

abbrev afterRetire (w : Watched ρ) (job : BatchJob ρ) (futs : List (Future ρ)) (u : UnitEntry)
    (us : List UnitEntry) (b : Barrier) : Watched ρ :=
  { w with
    threads := retireUnit job { w.threads with inFlight := futs }
      { u with remaining := u.remaining - 1 } us b }

abbrev afterClose (w : Watched ρ) : Watched ρ :=
  { w with threads := { w.threads with units := markSubmitted w.threads.units, phase := .draining } }

/-- The oldest chunk is processed, and its turn to be drained has come. -/
structure Done (job : BatchJob ρ) (w : Watched ρ) (fut : Future ρ) (futs : List (Future ρ)) : Prop where
  due : drains job w.threads = true
  flight : w.threads.inFlight = fut :: futs
  result : fut.result ≠ none

/-- What it raised, if it did, is only counted. -/
structure Oldest (job : BatchJob ρ) (w : Watched ρ) (fut : Future ρ) (futs : List (Future ρ)) : Prop
    extends Done job w fut futs where
  calm : ∀ f, fut.result = some (.error f) →
    drainRaises job.toPipeline w.threads.run.delivery f = false

inductive Move (job : BatchJob ρ) (w : Watched ρ) : Event ρ → Watched ρ → Prop
  | idle {e : Event ρ} (hexecute : ∀ n, e = .execute n → ∀ key work,
      w.threads.inFlight[n]? ≠ some ⟨key, work, none⟩) : Move job w e w
  | unitless {info work rest} (hreads : reads job w.threads = true) (hrest : w.rest = info :: rest)
      (hunit : info.unit = none) :
      Move job w (.submit info work) (w.submitted info work rest w.threads.run w.threads.units)
  | again {info work rest us u} (hreads : reads job w.threads = true) (hrest : w.rest = info :: rest)
      (hunits : w.threads.units = us ++ [u]) (hunit : info.unit = some u.key) :
      Move job w (.submit info work) (w.submitted info work rest w.threads.run
        (us ++ [{ u with remaining := u.remaining + 1 }]))
  | first {info work rest key} (hreads : reads job w.threads = true) (hrest : w.rest = info :: rest)
      (hunit : info.unit = some key) (hlast : w.threads.units.getLast?.map (·.key) ≠ some key) :
      Move job w (.submit info work) (w.afterFirst info work rest key)
  | processed {n key work} (hn : w.threads.inFlight[n]? = some ⟨key, work, none⟩) :
      Move job w (.execute n) (w.afterExecute job n key work)
  | raised {b fut futs f} (hdone : w.Done job fut futs) (hresult : fut.result = some (.error f)) :
      Move job w (.drain b) { w with threads := { w.threads with inFlight := futs, phase := .raised f } }
  /-- The drained chunk is not of the oldest unit. -/
  | passed {b fut futs} (hold : w.Oldest job fut futs)
      (hother : ∀ u us, w.threads.units = u :: us → fut.key ≠ some u.key) :
      Move job w (.drain b) { w with threads := { w.threads with inFlight := futs } }
  | counted {b fut futs u us} (hold : w.Oldest job fut futs) (hunits : w.threads.units = u :: us)
      (hkey : fut.key = some u.key) (hlast : ¬(u.remaining - 1 = 0 ∧ u.submitted = true)) :
      Move job w (.drain b) (w.afterCount futs u us)
  | retired {b fut futs u us} (hold : w.Oldest job fut futs) (hunits : w.threads.units = u :: us)
      (hkey : fut.key = some u.key) (hlast : u.remaining - 1 = 0 ∧ u.submitted = true) :
      Move job w (.drain b) (w.afterRetire job futs u us b)
  | limited (hreads : reads job w.threads = true) :
      Move job w .limit { w with threads := { w.threads with phase := .draining } }
  | closed (hreads : reads job w.threads = true) :
      Move job w (.close none) w.afterClose
  | broken {fault} (hreads : reads job w.threads = true) : Move job w (.close (some fault)) { w with
      threads := { w.threads with phase := .raised (fault.failure .source) } }
  | finished (hphase : w.threads.phase = .draining) (hempty : w.threads.inFlight = []) :
      Move job w .finish { w with threads := { w.threads with phase := .ended } }

variable {job : BatchJob ρ} {w : Watched ρ}

theorem not_raised (hreads : reads job w.threads = true) (f : Failure) : w.threads.phase ≠ .raised f := by
  rw [(reads_iff.mp hreads).1]
  exact nofun

theorem Done.not_raised {fut : Future ρ} {futs : List (Future ρ)} (h : w.Done job fut futs) (f : Failure) :
    w.threads.phase ≠ .raised f := by
  intro hphase
  have hdue := h.due
  rw [drains, hphase] at hdue
  cases hdue

theorem submit_move {info : Meta} {rest : List Meta} (hreads : reads job w.threads = true)
    (hrest : w.rest = info :: rest) (work : Work ρ) : Move job w (.submit info work) { w with
      threads := submit w.threads info work
      yielded := w.yielded ++ [info]
      rest := rest } := by
  cases hunit : info.unit with
  | none =>
    have heq : submit w.threads info work =
        (w.submitted info work rest w.threads.run w.threads.units).threads := by
      simp only [submit, hunit]
    rw [heq]
    exact .unitless hreads hrest hunit
  | some key =>
    by_cases hlast : w.threads.units.getLast?.map (·.key) = some key
    · obtain ⟨u, hu, rfl⟩ := Option.map_eq_some_iff.mp hlast
      obtain ⟨us, hunits⟩ := getLast?_eq_some_iff.mp hu
      have heq : submit w.threads info work = (w.submitted info work rest w.threads.run
          (us ++ [{ u with remaining := u.remaining + 1 }])).threads := by
        simp only [submit, hunit, hu, Option.map_some, if_true]
        rw [hunits, countSubmitted_concat]
      rw [heq]
      exact .again hreads hrest hunits hunit
    · have heq : submit w.threads info work = (w.afterFirst info work rest key).threads := by
        simp only [submit, hunit, hlast, if_false]
      rw [heq]
      exact .first hreads hrest hunit hlast

theorem countDrained_cases (job : BatchJob ρ) (t : Threads ρ) (key : Option UnitKey) (b : Barrier) :
    (countDrained job t key b = t ∧ ∀ u us, t.units = u :: us → key ≠ some u.key) ∨
    ∃ u us, t.units = u :: us ∧ key = some u.key ∧
      ((countDrained job t key b = { t with
          units := { u with remaining := u.remaining - 1 } :: us } ∧
          ¬(u.remaining - 1 = 0 ∧ u.submitted = true)) ∨
        (u.remaining - 1 = 0 ∧ u.submitted = true) ∧ countDrained job t key b =
          retireUnit job t { u with remaining := u.remaining - 1 } us b) := by
  unfold countDrained
  cases hunits : t.units with
  | nil => exact .inl ⟨rfl, nofun⟩
  | cons u us =>
    dsimp only
    split_ifs with hkey hlast
    · exact .inr ⟨u, us, rfl, hkey, .inr ⟨hlast, rfl⟩⟩
    · exact .inr ⟨u, us, rfl, hkey, .inl ⟨rfl, hlast⟩⟩
    · refine .inl ⟨rfl, fun v vs heq hv => hkey ?_⟩
      cases heq
      exact hv

section

variable {fut : Future ρ} {futs : List (Future ρ)} (h : w.Oldest job fut futs)
include h

theorem Oldest.not_error (habort : job.onError = .abort) (f : Failure) : fut.result ≠ some (.error f) := by
  intro hf
  have hcalm := h.calm f hf
  cases f <;> simp [drainRaises, habort] at hcalm

theorem Oldest.drainOne (b : Barrier) :
    drainOne job w.threads b = countDrained job { w.threads with inFlight := futs } fut.key b := by
  rcases hresult : fut.result with _ | _ | f
  · exact absurd hresult h.result
  · simp [Executor.drainOne, h.flight, hresult, h.calm _ hresult]
  · simp only [Executor.drainOne, h.flight, hresult]

end

theorem drain_move (hdrains : drains job w.threads = true) (b : Barrier) :
    Move job w (.drain b) { w with threads := drainOne job w.threads b } := by
  cases hflight : w.threads.inFlight with
  | nil =>
    simp only [drainOne, hflight]
    exact .idle nofun
  | cons fut futs =>
    by_cases hraises : ∃ f, fut.result = some (.error f) ∧
        drainRaises job.toPipeline w.threads.run.delivery f = true
    · obtain ⟨f, hresult, hraises⟩ := hraises
      simp only [drainOne, hflight, hresult, hraises, if_true]
      exact .raised ⟨hdrains, hflight, by simp [hresult]⟩ hresult
    · cases hresult : fut.result with
      | none =>
        simp only [drainOne, hflight, hresult]
        exact .idle nofun
      | some result =>
        have hold : w.Oldest job fut futs := ⟨⟨hdrains, hflight, by simp [hresult]⟩, fun f hf =>
          Bool.eq_false_iff.mpr fun hr => hraises ⟨f, hf, hr⟩⟩
        rw [hold.drainOne]
        rcases countDrained_cases job { w.threads with inFlight := futs } fut.key b with
          ⟨hcount, hother⟩ | ⟨u, us, hunits, hkey, ⟨hcount, hlast⟩ | ⟨hlast, hcount⟩⟩ <;>
          rw [hcount]
        · exact .passed hold hother
        · exact .counted hold hunits hkey hlast
        · exact .retired hold hunits hkey hlast

theorem step_move (job : BatchJob ρ) (w : Watched ρ) (e : Event ρ) : Move job w e (w.step job e) := by
  cases e with
  | submit info work =>
    rw [step]
    cases hrest : w.rest with
    | nil => exact .idle (by simp)
    | cons next rest =>
      dsimp only
      split_ifs with hreads
      · obtain ⟨rfl, hreads⟩ := hreads
        rw [step_submit hreads]
        exact submit_move hreads hrest work
      · exact .idle (by simp)
  | execute n =>
    rcases hn : w.threads.inFlight[n]? with _ | ⟨key, work, _ | result⟩
    all_goals simp only [step, Threads.step, execute, hn]
    · exact .idle fun m hm => by cases hm; simp [hn]
    · exact .processed hn
    · exact .idle fun m hm => by cases hm; simp [hn]
  | drain b =>
    simp only [step, step_drain]
    split_ifs with hdrains
    · exact drain_move hdrains b
    · exact .idle (by simp)
  | limit =>
    simp only [step, Threads.step]
    split
    · split_ifs with hlimit
      · exact .limited (reads_iff.mpr ⟨‹_›, hlimit.1⟩)
      · exact .idle (by simp)
    · exact .idle (by simp)
  | close fault =>
    simp only [step, Threads.step]
    split
    · split_ifs with hroom
      · have hreads := reads_iff.mpr ⟨‹_›, hroom⟩
        cases fault with
        | none => exact .closed hreads
        | some fault => exact .broken hreads
      · exact .idle (by simp)
    · exact .idle (by simp)
  | finish =>
    simp only [step, Threads.step]
    split
    · split_ifs with hempty
      · exact .finished ‹_› (isEmpty_iff.mp hempty)
      · exact .idle (by simp)
    · exact .idle (by simp)

/-- A step of the threads is one of what is watched, if the source is to yield what is submitted. -/
theorem exists_step (job : BatchJob ρ) (t : Threads ρ) (e : Event ρ) :
    ∃ w : Watched ρ, w.threads = t ∧ (w.step job e).threads = t.step job e := by
  cases e with
  | submit info work =>
    refine ⟨⟨t, [], [info], []⟩, rfl, ?_⟩
    cases hreads : reads job t with
    | true => simp [step, hreads]
    | false => simp [step, hreads, step_submit_idle hreads]
  | execute n =>
    refine ⟨⟨t, [], [], []⟩, rfl, ?_⟩
    rcases hn : t.inFlight[n]? with _ | ⟨key, work, _ | result⟩ <;>
      simp [step, Threads.step, execute, hn]
  | _ => exact ⟨⟨t, [], [], []⟩, rfl, rfl⟩

end Watched

end Tram.Executor
