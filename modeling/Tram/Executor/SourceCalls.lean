import Tram.Executor.BatchRun

/-! # The batch loops, step by step

Both loops again, with what the source has still to yield and the chunks that are processed. The
sequential loop is taken apart into steps, one for each chunk; the threaded one has steps
already. -/

namespace Tram.Executor

open Procedure (bind_run_ok bind_run_error onRaise_run_ok onRaise_run_error)

variable {ρ : Type}

/-! ## One chunk after the other -/

/-- The sequential loop between two chunks. -/
structure Loop (ρ : Type) where
  run : State ρ
  current : Option Meta
  phase : Phase
  rest : List (Item ρ)
  processed : List (Option UnitKey)

namespace Loop

def start (items : List (Item ρ)) (s : State ρ) : Loop ρ := ⟨s, none, .reading, items, []⟩

def close (p : Pipeline ρ) (l : Loop ρ) (whole : Bool) (b : Barrier) : Loop ρ :=
  match finishUnit p l.current whole b l.run with
  | (.ok (), s) => { l with run := s, phase := .ended }
  | (.error f, s) => { l with run := s, phase := .raised f }

def chunk (job : BatchJob ρ) (last : Barrier) (l : Loop ρ) (item : Item ρ) (rest : List (Item ρ)) :
    Loop ρ :=
  match enterUnit job.toPipeline l.current item.info item.before l.run with
  | (.error f, s) => { l with run := s.abandon l.current, phase := .raised f }
  | (.ok entered, s) =>
    match processChunk job item.info.unit item.work s with
    | (.error f, s) => { l with run := s.abandon entered, phase := .raised f }
    | (.ok _, s) =>
      let l := { l with rest := rest, processed := l.processed ++ [item.info.unit] }
      match leaveUnit job.toPipeline entered item.info item.after s with
      | (.error f, s) => { l with run := s.abandon entered, phase := .raised f }
      | (.ok left, s) =>
        let l := { l with run := s, current := left }
        if job.limitReached s then l.close job.toPipeline false last else l

def broken (l : Loop ρ) (fault : Fault) : Loop ρ :=
  { l with run := l.run.abandon l.current, phase := .raised (fault.failure .source) }

def step (job : BatchJob ρ) (fault : Option Fault) (last : Barrier) (l : Loop ρ) : Loop ρ :=
  match l.phase with
  | .reading =>
    match l.rest with
    | [] =>
      match fault with
      | none => l.close job.toPipeline true last
      | some fault => l.broken fault
    | item :: rest =>
      if item.stop then l.close job.toPipeline true last else l.chunk job last item rest
  | _ => l

variable {l : Loop ρ} {last : Barrier} {fault : Option Fault} {job : BatchJob ρ}

theorem step_nil (hphase : l.phase = .reading) (hrest : l.rest = []) : l.step job fault last =
      match fault with
      | none => l.close job.toPipeline true last
      | some fault => l.broken fault := by
  simp only [step, hphase, hrest]

theorem step_cons {item : Item ρ} {rest : List (Item ρ)} (hphase : l.phase = .reading)
    (hrest : l.rest = item :: rest) : l.step job fault last =
      if item.stop then l.close job.toPipeline true last else l.chunk job last item rest := by
  simp only [step, hphase, hrest]

def outcome (l : Loop ρ) : Option (Except Failure Unit × State ρ) :=
  match l.phase with
  | .ended => some (.ok (), l.run)
  | .raised f => some (.error f, l.run)
  | _ => none

section

variable {r : Except Failure Unit × State ρ} (h : l.outcome = some r)
include h

theorem step_of_outcome : l.step job fault last = l := by
  unfold outcome at h
  unfold step
  cases hphase : l.phase <;> simp_all

theorem iterate_of_outcome (n : Nat) : (step job fault last)^[n] l = l :=
  Function.iterate_fixed (step_of_outcome h) n

end

theorem iterate_raised {f : Failure} (hphase : l.phase = .raised f) (n : Nat) :
    ((step job fault last)^[n] l).outcome = some (.error f, l.run) := by
  have houtcome : l.outcome = some (.error f, l.run) := by rw [outcome, hphase]
  rw [iterate_of_outcome houtcome, houtcome]

theorem close_outcome (p : Pipeline ρ) (l : Loop ρ) (whole : Bool) (b : Barrier) :
    (l.close p whole b).outcome = some (finishUnit p l.current whole b l.run) := by
  unfold close
  match finishUnit p l.current whole b l.run with
  | (.ok (), s) => rfl
  | (.error f, s) => rfl

/-- The steps of the loop add up to the loop. -/
theorem sequential_steps_add_up (current : Option Meta) (items : List (Item ρ)) (s : State ρ)
    (processed : List (Option UnitKey)) :
    ((step job fault last)^[items.length + 1] ⟨s, current, .reading, items, processed⟩).outcome =
      some (runBatchChunksSequential job fault last current items s) := by
  induction items generalizing s current processed with
  | nil =>
    rw [List.length_nil, Nat.zero_add, Function.iterate_one, step_nil rfl rfl]
    cases fault with
    | none => exact close_outcome _ _ true last
    | some fault => rfl
  | cons item items ih =>
    rw [List.length_cons, Function.iterate_succ_apply, step_cons rfl rfl, runBatchChunksSequential]
    split_ifs with hstop
    · rw [iterate_of_outcome (close_outcome _ _ _ _), close_outcome]
    · unfold chunk abandoning
      rcases henter : enterUnit job.toPipeline current item.info item.before s with ⟨f | entered, s'⟩
      · rw [bind_run_error (onRaise_run_error henter)]
        exact iterate_raised rfl _
      rw [bind_run_ok (onRaise_run_ok henter)]
      dsimp only
      rcases hprocess : processChunk job item.info.unit item.work s' with ⟨f | b, t⟩
      · rw [bind_run_error (onRaise_run_error (bind_run_error hprocess _))]
        exact iterate_raised rfl _
      have hbody := bind_run_ok hprocess fun _ => leaveUnit job.toPipeline entered item.info item.after
      dsimp only
      rcases hleave : leaveUnit job.toPipeline entered item.info item.after t with ⟨f | left, u⟩ <;>
        rw [hleave] at hbody
      · rw [bind_run_error (onRaise_run_error hbody)]
        exact iterate_raised rfl _
      rw [bind_run_ok (onRaise_run_ok hbody)]
      dsimp only
      have hget : (Procedure.get : Exec ρ (State ρ)) u = (.ok u, u) := rfl
      rw [bind_run_ok hget]
      split_ifs with hlimit
      · rw [iterate_of_outcome (close_outcome _ _ _ _), close_outcome]
      · exact ih _ _ _

end Loop

/-! ## Threads -/

/-- The threaded loop, with the chunks the source has yielded and those it has still to yield. -/
structure Watched (ρ : Type) where
  threads : Threads ρ
  yielded : List Meta
  rest : List Meta
  processed : List (Option UnitKey)

namespace Watched

def start (plan : List Meta) (s : State ρ) : Watched ρ := ⟨.start s, [], plan, []⟩

variable (job : BatchJob ρ) (t : Threads ρ)

def drains : Bool :=
  match t.phase with
  | .reading => job.cap ≤ t.inFlight.length
  | .draining => true
  | _ => false

def reads : Bool :=
  match t.phase with
  | .reading => t.inFlight.length < job.cap
  | _ => false

section

variable {job : BatchJob ρ} {t : Threads ρ}

theorem reads_iff : reads job t = true ↔ t.phase = .reading ∧ t.inFlight.length < job.cap := by
  unfold reads
  cases t.phase <;> simp

theorem step_submit (h : reads job t = true) (info : Meta) (work : Work ρ) :
    t.step job (.submit info work) = submit t info work := by
  obtain ⟨hphase, hroom⟩ := reads_iff.mp h
  simp only [Threads.step, hphase, if_pos hroom]

theorem step_submit_idle (h : reads job t = false) (info : Meta) (work : Work ρ) :
    t.step job (.submit info work) = t := by
  unfold reads at h
  cases hphase : t.phase <;> simp_all [Threads.step, Nat.not_lt.mpr]

end

theorem step_drain (b : Barrier) :
    t.step job (.drain b) = if drains job t then drainOne job t b else t := by
  unfold drains
  cases hphase : t.phase <;> simp [Threads.step, hphase]

/-- A step of the threads; a chunk is submitted as the source yields it. -/
def step (w : Watched ρ) : Event ρ → Watched ρ
  | .submit info work =>
    match w.rest with
    | [] => w
    | next :: rest =>
      if next = info ∧ reads job w.threads then
        { w with
          threads := w.threads.step job (.submit info work)
          yielded := w.yielded ++ [next]
          rest := rest }
      else w
  | .execute n =>
    match w.threads.inFlight[n]? with
    | some ⟨key, _, none⟩ =>
      { w with
        threads := w.threads.step job (.execute n)
        processed := w.processed ++ [key] }
    | _ => w
  | e => { w with threads := w.threads.step job e }

/-- Watching the source adds no behaviour: a watched run of the threads is one of their own runs. -/
theorem threads_run (w : Watched ρ) (events : List (Event ρ)) :
    ∃ events', (Run.exec (step job) w events).threads =
      Run.exec (Threads.step job) w.threads events' := by
  induction events generalizing w with
  | nil => exact ⟨[], rfl⟩
  | cons e events ih =>
    obtain ⟨events', h⟩ := ih (step job w e)
    have hone : (step job w e).threads = w.threads ∨
        (step job w e).threads = w.threads.step job e := by
      cases e with
      | submit info work =>
        simp only [step]
        split
        · exact .inl rfl
        · split_ifs
          · exact .inr rfl
          · exact .inl rfl
      | execute n =>
        simp only [step]
        split
        · exact .inr rfl
        · exact .inl rfl
      | drain | limit | close | finish => exact .inr rfl
    rw [Run.exec_cons, h]
    rcases hone with hone | hone
    · exact ⟨events', by rw [hone]⟩
    · exact ⟨e :: events', by rw [hone, Run.exec_cons]⟩

end Watched

end Tram.Executor
