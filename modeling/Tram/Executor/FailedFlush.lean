import Tram.Executor.Filtered
import Tram.Executor.StreamRun

/-! # A flush that raises

The reader and, through the reader, the workers end the run with what a flush raises; the interval
flusher does not. -/

namespace Tram.Executor

open List StreamRun
open Procedure (Meets bind_run_ok)

variable {ρ : Type}

/-! ## When a flush does not raise -/

def Calm (_ : State ρ) (raised : Option Failure) (_ : State ρ) : Prop := raised = none

instance : Procedure.Sequential (Calm (ρ := ρ)) where
  refl _ := rfl
  trans _ h := h

theorem Calm.ok {α : Type} {m : Exec ρ α} (h : Meets Calm m) (s : State ρ) :
    ∃ a t, m s = (.ok a, t) := by
  have hs := h s
  rcases hrun : m s with ⟨f | a, t⟩
  · rw [hrun] at hs
    cases hs
  · exact ⟨a, t, rfl⟩

/-- A sink finds nothing to fail on in these records: its condition and its transforms go through,
every payload can be serialized and is taken at one of the attempts. -/
structure Sink.Takes (sink : Sink ρ) (answers : Answers) (i : Nat) (records : List ρ) : Prop where
  selects : ∃ selected, sink.select (answers.conditionAt i) records = .ok selected ∧
    ∃ out, applyTransforms (answers.sinkTransformAt i) sink.transforms selected = .ok out
  serializes : ∀ j, answers.serialize i j = none
  writes : ∀ j, writeAttempts (answers.write i j) (sink.retryCount + 1).toNat 0 "None" = none

section Calls

variable {p : Pipeline ρ} {c : Call} {records : List ρ} {i : Nat} {sink : Sink ρ}

theorem writePartitions_calm (h : sink.Takes c.answers i records) (j written : Nat) (parts : List (List ρ)) :
    Meets Calm (writePartitions p c i sink j written parts) := by
  induction parts generalizing j written with
  | nil => exact .pure _
  | cons part parts ih =>
    have herror : partitionError c i sink j = none := h.writes j
    rw [writePartitions, h.serializes j, herror]
    refine .bind (.modify fun _ => rfl) fun _ => .bind (.modify fun _ => rfl) fun _ => ih _ _

theorem writeOneSink_calm (h : sink.Takes c.answers i records) :
    Meets Calm (writeOneSink p c records i sink) := by
  obtain ⟨selected, hselect, out, hout⟩ := h.selects
  rw [writeOneSink, hselect]
  cases selected with
  | nil => exact .pure _
  | cons r rs =>
    simp only [hout]
    cases out with
    | nil => exact .pure _
    | cons o os =>
      refine .bind .get fun s => ?_
      split_ifs
      · exact .bind (.modify fun _ => rfl) fun _ => .bind (.modify fun _ => rfl) fun _ => .pure _
      · exact writePartitions_calm h _ _ _

theorem writeSinks_calm {sinks : List (Sink ρ)}
    (h : ∀ (k : Nat) (sink : Sink ρ), sinks[k]? = some sink → sink.Takes c.answers (i + k) records) :
    Meets Calm (writeSinks p c records i sinks) := by
  induction sinks generalizing i with
  | nil => exact .pure _
  | cons sink sinks ih =>
    refine .bind (writeOneSink_calm (h 0 sink rfl)) fun n => .bind (ih fun k sink' hk => ?_) fun ns => .pure _
    have hlater := h (k + 1) sink' (by simpa using hk)
    rwa [show i + (k + 1) = i + 1 + k by omega] at hlater

section

variable (h : ∀ (k : Nat) (sink : Sink ρ), p.sinks[k]? = some sink → sink.Takes c.answers k records)
include h

theorem fanOut_calm : Meets Calm (fanOut p c records) := by
  intro s
  obtain ⟨ns, t, hrun⟩ := Calm.ok (writeSinks_calm (p := p) (i := 0) (by simpa using h)) s
  rw [fanOut_of_ok hrun]
  rfl

theorem processRecords_calm (s : State ρ) : ∃ t, processRecords p c [] false records s = (.ok true, t) := by
  have hroute : Meets Calm (routeRecords p c [] false records) := by
    intro s
    have hcount : countRecords false records.length s = (.ok (), s) := rfl
    rw [routeRecords, bind_run_ok hcount,
      bind_run_ok (applyGlobalTransforms_nil c 0 records)]
    exact Meets.bind (fanOut_calm h) (fun ns => .modify fun _ => rfl) _
  obtain ⟨a, t, hrun⟩ := Calm.ok hroute s
  refine ⟨t, ?_⟩
  rw [processRecords, handling, bind_run_ok hrun]
  rfl

end

end Calls

namespace Stream

variable {p : Pipeline ρ} {s : Stream ρ} {answers : Answers} {moment : Nat → Nat → Nat → Nat}

/-- A flush that finds nothing to fail on: every sink takes the records, and the conditions can be
evaluated again for the units that contributed. -/
structure CleanFlush (p : Pipeline ρ) (s : Stream ρ) (answers : Answers)
    (moment : Nat → Nat → Nat → Nat) : Prop where
  takes : ∀ (i : Nat) (sink : Sink ρ), p.sinks[i]? = some sink → sink.Takes answers i s.records
  rechecks : ∀ (n : Nat) (info : Meta) (survivors : List ρ), s.contributors[n]? = some (info, survivors) →
    ∀ (i : Nat) (sink : Sink ρ), p.sinks[i]? = some sink →
      ∃ selected, sink.select (moment n i) survivors = .ok selected

theorem selected_ok {survivors : List ρ} {moments : Nat → Nat → Nat} {i : Nat} (sinks : List (Sink ρ))
    (h : ∀ (k : Nat) (sink : Sink ρ), sinks[k]? = some sink →
      ∃ out, sink.select (moments (i + k)) survivors = .ok out) :
    ∃ b, selected moments survivors i sinks = .ok b := by
  induction sinks generalizing i with
  | nil => exact ⟨false, rfl⟩
  | cons sink sinks ih =>
    obtain ⟨out, hout⟩ := h 0 sink rfl
    rw [Nat.add_zero] at hout
    rw [selected, hout]
    cases out with
    | nil =>
      refine ih fun k sink' hk => ?_
      have hlater := h (k + 1) sink' (by simpa using hk)
      rwa [show i + (k + 1) = i + 1 + k by omega] at hlater
    | cons r rs => exact ⟨true, rfl⟩

theorem settle_calm {o : Option UnitOutcome} {n : Nat} {contributors : List (Meta × List ρ)}
    (h : ∀ (k : Nat) (info : Meta) (survivors : List ρ), contributors[k]? = some (info, survivors) →
      ∀ (i : Nat) (sink : Sink ρ), p.sinks[i]? = some sink →
        ∃ out, sink.select (moment (n + k) i) survivors = .ok out) :
    Meets Calm (settle p moment o n contributors) := by
  induction contributors generalizing n with
  | nil => exact .pure _
  | cons entry rest ih =>
    obtain ⟨info, survivors⟩ := entry
    have hrest : Meets Calm (settle p moment o (n + 1) rest) := by
      refine ih fun k info' survivors' hk => ?_
      have hlater := h (k + 1) info' survivors' (by simpa using hk)
      rwa [show n + (k + 1) = n + 1 + k by omega] at hlater
    have hshare : Meets Calm (shareOutcome p (moment n) o info survivors) := by
      unfold shareOutcome
      split
      · exact .pure _
      · exact .pure _
      · rename_i outcome r rs
        refine .bind (.modify fun _ => rfl) fun _ => ?_
        obtain ⟨b, hb⟩ := selected_ok (i := 0) p.sinks fun k sink hk => by
          simpa using h 0 info (r :: rs) rfl k sink hk
        unfold shareDelivery
        split_ifs
        · exact .pure _
        · rw [hb]
          cases b with
          | false => exact .pure _
          | true => exact .modify fun _ => rfl
    refine .bind .get fun s => ?_
    split
    · exact hrest
    · exact .bind hshare fun _ => .bind hrest fun _ => .pure _

theorem CleanFlush.raises (h : CleanFlush p s answers moment) (cohort : UnitKey) :
    (s.flush p cohort answers moment).1 = none := by
  unfold flush
  cases hcontributors : s.contributors with
  | nil =>
    dsimp only
    split_ifs
    · rfl
    · obtain ⟨t, hrun⟩ := processRecords_calm (p := p)
        (c := ⟨⟨(s.buffered.getD .empty).unit, true⟩, answers⟩) h.takes s.run
      rw [hrun]
      rfl
  | cons first rest =>
    dsimp only
    obtain ⟨t, hrun⟩ := processRecords_calm (p := p) (c := ⟨⟨some cohort, true⟩, answers⟩) h.takes
      (s.run.onDelivery (·.registerUnit cohort (s.buffered.getD .empty)))
    rw [hrun]
    dsimp only
    have hsettle := settle_calm (o := t.delivery.units.lookup cohort) (n := 0)
      (fun k info survivors hk => by
        simpa using h.rechecks k info survivors (hcontributors ▸ hk))
      (t.onDelivery (·.dropUnit cohort))
    split
    · rename_i hraised
      rw [hraised] at hsettle
      cases hsettle
    · rfl

end Stream

/-! ## Runs -/

namespace Reader

/-- The workers are stopped and their errors looked at for the last time. -/
def pastJoin : Reader → Bool
  | .lastFlush | .decide true | .conclude | .over (.ok _) => true
  | _ => false

def fails : Reader → Bool
  | .crashed _ | .over (.error _) => true
  | _ => false

end Reader

namespace StreamRun

variable {cfg : StreamConfig ρ} {r : StreamRun ρ}

/-- A flush that raised has ended the run, or waits in `worker_errors` for the reader to look. -/
structure Sound (cfg : StreamConfig ρ) (r : StreamRun ρ) : Prop where
  noticed : r.failed ≠ [] → r.reader.fails = true ∨ r.workerErrors ≠ []
  joined : r.reader.pastJoin = true →
    r.workerErrors = [] ∧ (cfg.threaded = true → r.stream.queue = [] ∧ r.owed = 0)
  single : cfg.threaded = false → r.owed = 0 ∧ r.workerErrors = []

/-- The timer's flushes find nothing to fail on, and the workers are through when the reader stops
to wait for them. -/
def Sheltered (cfg : StreamConfig ρ) (r : StreamRun ρ) : RunEvent ρ → Prop
  | .flush .timer _ answers moment => r.stream.CleanFlush cfg.toPipeline answers moment
  | .join => r.stream.queue = [] ∧ r.owed = 0
  | _ => True

theorem Sound.start (cfg : StreamConfig ρ) (breakers : Dict String (Nat × Nat)) :
    Sound cfg (.start breakers) :=
  ⟨fun h => absurd rfl h, nofun, fun _ => ⟨rfl, rfl⟩⟩

theorem afterLoop_pastJoin (h : (afterLoop cfg).pastJoin = true) : cfg.threaded = false := by
  unfold afterLoop at h
  split_ifs at h with hthreaded
  · cases h
  · exact Bool.eq_false_iff.mpr hthreaded

section

variable (cfg r)

theorem hand_eq (info : Meta) :
    ∃ stream reader, r.hand cfg info = { r with stream := stream, reader := reader } ∧
      reader.pastJoin = false := by
  refine ⟨_, _, rfl, ?_⟩
  split_ifs <;> rfl

theorem enter_eq (key : UnitKey) (info : Meta) : ∃ stream reader, r.enter cfg key info =
      { r with stream := stream, reader := reader, current := some info } ∧ reader.pastJoin = false :=
  hand_eq cfg _ info

theorem yields_eq (info : Meta) : ∃ stream reader current, r.yields cfg info =
      { r with stream := stream, reader := reader, current := current } ∧ reader.pastJoin = false := by
  unfold yields
  split
  · obtain ⟨stream, reader, heq, hpast⟩ := hand_eq cfg r info
    exact ⟨stream, reader, _, heq, hpast⟩
  · rename_i key hkey
    obtain ⟨stream, reader, heq, hpast⟩ := enter_eq cfg r key info
    split_ifs
    · refine ⟨_, _, _, rfl, ?_⟩
      split_ifs <;> rfl
    · split
      · exact ⟨stream, reader, _, heq, hpast⟩
      · split_ifs
        · exact ⟨stream, reader, _, heq, hpast⟩
        · exact ⟨_, _, _, rfl, rfl⟩

end

theorem afterChunk_pastJoin (info : Meta) : (afterChunk info).pastJoin = false := by
  unfold afterChunk
  split_ifs <;> rfl

variable (cfg) in
theorem processResult_of_empty {s : Stream ρ} (h : s.queue = []) (n : Nat) (raw : List UInt8)
    (parsed : Except String (List ρ × Answers)) (taken lossElsewhere elapsed : Bool) :
    s.processResult cfg n raw parsed taken lossElsewhere elapsed = .ok false ∧
      s.process cfg.toPipeline n raw parsed taken lossElsewhere = s := by
  simp [Stream.processResult, Stream.process, h]

theorem flush_queue (p : Pipeline ρ) (s : Stream ρ) (cohort : UnitKey) (answers : Answers)
    (moment : Nat → Nat → Nat → Nat) : (s.flush p cohort answers moment).2.queue = s.queue := by
  unfold Stream.flush
  dsimp only
  split
  · split_ifs <;> rfl
  · split
    · rfl
    · split <;> rfl

theorem decide_queue (job : StreamJob ρ) (s : Stream ρ) (v : Verdict) :
    (s.decide job v).queue = s.queue := by
  unfold Stream.decide
  split_ifs
  · rfl
  · split <;> rfl

variable (h : Sound cfg r)
include h

theorem Sound.move {was : Reader} (hreader : r.reader = was) {stream : Stream ρ}
    {reader : Reader} {current : Option Meta}
    (hpast : reader.pastJoin = true →
      r.workerErrors = [] ∧ (cfg.threaded = true → stream.queue = [] ∧ r.owed = 0))
    (hfails : was.fails = false := by rfl) :
    Sound cfg { r with stream := stream, reader := reader, current := current } := by
  refine ⟨fun hfailed => .inr ?_, hpast, h.single⟩
  rcases h.noticed hfailed with hf | herrors
  · rw [hreader, hfails] at hf
    cases hf
  · exact herrors

theorem Sound.crash (stream : Stream ρ) (f : Failure) {errors : List Failure}
    (herrors : r.workerErrors = [] → errors = []) (failed : List (Trigger × Failure)) :
    Sound cfg { r with
      stream := stream
      reader := .crashed f
      workerErrors := errors
      failed := failed } :=
  ⟨fun _ => .inl rfl, nofun, fun hsingle => ⟨(h.single hsingle).1, herrors (h.single hsingle).2⟩⟩

theorem Sound.checked {next : StreamRun ρ} (hnext : r.workerErrors = [] → Sound cfg next) :
    Sound cfg (checked r next) := by
  unfold StreamRun.checked
  split
  · rename_i hnone
    exact hnext hnone
  · rename_i f errors herrors
    exact h.crash r.stream f (fun hnone => by rw [herrors] at hnone; cases hnone) r.failed

theorem Sound.afterLoop {was : Reader} (hreader : r.reader = was) (stream : Stream ρ)
    (hfails : was.fails = false := by rfl) :
    Sound cfg { r with stream := stream, reader := afterLoop cfg } := by
  refine h.move hreader (fun hpast => ?_) hfails
  have hsingle := afterLoop_pastJoin hpast
  refine ⟨(h.single hsingle).2, fun hthreaded => ?_⟩
  rw [hsingle] at hthreaded
  cases hthreaded

theorem Sound.process (n : Nat) (raw : List UInt8)
    (parsed : Except String (List ρ × Answers)) (taken lossElsewhere elapsed : Bool) :
    Sound cfg (r.process cfg n raw parsed taken lossElsewhere elapsed) := by
  unfold StreamRun.process
  dsimp only
  split_ifs with hthreaded howed
  · by_cases hpast : r.reader.pastJoin = true
    · obtain ⟨hresult, hprocess⟩ := processResult_of_empty cfg ((h.joined hpast).2 hthreaded).1 n
        raw parsed taken lossElsewhere elapsed
      rw [hresult, hprocess]
      exact h
    · have hthread {P : Prop} (hsingle : cfg.threaded = false) : P := by simp [hthreaded] at hsingle
      split
      · exact ⟨h.noticed, fun hp => absurd hp hpast, hthread⟩
      · exact ⟨fun _ => .inr (by simp), fun hp => absurd hp hpast, hthread⟩
  · exact h
  · split
    · rename_i info hreader
      split
      · rename_i due hdue
        refine h.move hreader fun hpast => ?_
        split_ifs at hpast
        · cases hpast
        · rw [afterChunk_pastJoin] at hpast
          cases hpast
      · exact h.crash _ _ (fun hnone => hnone) r.failed
    · exact h

theorem Sound.readerFlush {was : Reader} (hreader : r.reader = was) (stream : Stream ρ)
    (raised : Option Failure) {next : Reader}
    (hpast : next.pastJoin = true →
      r.workerErrors = [] ∧ (cfg.threaded = true → stream.queue = [] ∧ r.owed = 0))
    (hfails : was.fails = false := by rfl) :
    Sound cfg (r.readerFlush stream raised next) := by
  unfold StreamRun.readerFlush
  split
  · exact h.move hreader hpast hfails
  · exact h.crash _ _ (fun hnone => hnone) _

theorem Sound.workerFlush (howed : r.owed ≠ 0) (stream : Stream ρ) (owed : Nat)
    (errors : List Failure) (failed : List (Trigger × Failure))
    (hnoticed : failed ≠ [] → r.failed ≠ [] ∨ errors ≠ []) :
    Sound cfg { r with
      stream := stream
      owed := owed
      workerErrors := r.workerErrors ++ errors
      failed := failed } := by
  have hthreaded : cfg.threaded = true := by
    by_contra hne
    exact howed (h.single (Bool.eq_false_iff.mpr hne)).1
  refine ⟨fun hfailed => ?_, fun hpast => absurd ((h.joined hpast).2 hthreaded).2 howed, fun hsingle => ?_⟩
  · rcases hnoticed hfailed with hf | herrors
    · exact (h.noticed hf).imp_right fun hne hnil => hne (append_eq_nil_iff.mp hnil).1
    · exact .inr fun hnil => herrors (append_eq_nil_iff.mp hnil).2
  · rw [hthreaded] at hsingle
    cases hsingle

theorem Sound.flush (trigger : Trigger) (cohort : UnitKey) (answers : Answers)
    (moment : Nat → Nat → Nat → Nat)
    (hclean : trigger = .timer → r.stream.CleanFlush cfg.toPipeline answers moment) :
    Sound cfg (r.flush cfg trigger cohort answers moment) := by
  have hqueue := flush_queue cfg.toPipeline r.stream cohort answers moment
  unfold StreamRun.flush
  rcases hflush : r.stream.flush cfg.toPipeline cohort answers moment with ⟨raised, stream⟩
  rw [hflush] at hqueue
  dsimp only at hqueue ⊢
  split
  · split
    · rename_i info hreader
      refine h.readerFlush hreader _ _ fun hpast => ?_
      rw [afterChunk_pastJoin] at hpast
      cases hpast
    · rename_i boundary hreader
      split_ifs
      · exact h
      · refine h.checked fun _ => h.readerFlush hreader _ _ fun hpast => ?_
        cases boundary <;> cases hpast
    · next hreader =>
      refine h.readerFlush hreader _ _ fun _ => ?_
      rw [hqueue]
      exact h.joined (by rw [hreader]; rfl)
    · exact ⟨fun _ => .inl rfl, nofun, h.single⟩
    · exact h
  · split_ifs with howed
    · exact h
    · split
      · have hsame := h.workerFlush howed stream (r.owed - 1) [] r.failed .inl
        rwa [append_nil] at hsame
      · exact h.workerFlush howed _ _ _ _ fun _ => .inr (cons_ne_nil _ _)
  · split
    · exact h
    · obtain rfl : raised = none := by rw [← (hclean rfl).raises cohort, hflush]
      split_ifs
      · refine ⟨fun hfailed => h.noticed (by simpa using hfailed), fun hpast => ?_, h.single⟩
        rw [hqueue]
        exact h.joined hpast
      · exact h

theorem Sound.finalize {boundary : Boundary} (hreader : r.reader = .finalize boundary)
    (b : Barrier) : Sound cfg (r.finalize cfg boundary b) := by
  unfold StreamRun.finalize
  split
  · exact h.crash _ _ (fun hnone => hnone) r.failed
  · dsimp only
    split
    · rename_i next
      split
      · rename_i key hkey
        obtain ⟨stream, reader, heq, hpast⟩ := enter_eq cfg { r with
          stream := { r.stream with run := _ }
          current := none } key next
        rw [heq]
        exact h.move hreader fun hp => by rw [hpast] at hp; cases hp
      · obtain ⟨stream, reader, heq, hpast⟩ := hand_eq cfg { r with
          stream := { r.stream with run := _ }
          current := none } next
        rw [heq]
        exact h.move hreader fun hp => by rw [hpast] at hp; cases hp
    · exact h.afterLoop hreader _

theorem Sound.decide {last : Bool} (hreader : r.reader = .decide last) (v : Verdict) :
    Sound cfg (r.decide cfg last v) := by
  unfold StreamRun.decide
  dsimp only
  split_ifs with hhalted hlast
  · exact h.crash _ _ (fun hnone => hnone) r.failed
  · refine h.move hreader fun _ => ?_
    rw [decide_queue]
    exact h.joined (by rw [hreader, hlast]; rfl)
  · exact h.move hreader nofun

theorem Sound.step {e : RunEvent ρ} (hsheltered : Sheltered cfg r e) :
    Sound cfg (r.step cfg e) := by
  cases e with
  | yields info =>
    rw [StreamRun.step]
    split
    · next hreader =>
      refine h.checked fun _ => ?_
      obtain ⟨stream, reader, current, heq, hpast⟩ := yields_eq cfg r info
      rw [heq]
      exact h.move hreader fun hp => by rw [hpast] at hp; cases hp
    · exact h
  | stop =>
    rw [StreamRun.step]
    split
    · next hreader =>
      exact h.checked fun _ => h.afterLoop hreader r.stream
    · exact h
  | exhausted fault =>
    unfold StreamRun.step
    dsimp only
    split
    · next hreader =>
      split
      · exact h.crash r.stream _ (fun hnone => hnone) r.failed
      · split_ifs
        · exact h.move hreader nofun
        · exact h.afterLoop hreader r.stream
    · exact h
  | process n raw parsed taken lossElsewhere elapsed =>
    exact h.process n raw parsed taken lossElsewhere elapsed
  | flush trigger cohort answers moment =>
    exact h.flush trigger cohort answers moment fun htimer => by subst htimer; exact hsheltered
  | finalize b =>
    rw [StreamRun.step]
    split
    · rename_i boundary hreader
      exact h.finalize hreader b
    · exact h
  | decide v =>
    rw [StreamRun.step]
    split
    · rename_i last hreader
      exact h.decide hreader v
    · exact h
  | join =>
    rw [StreamRun.step]
    split
    · next hreader =>
      exact h.checked fun hnone => h.move hreader fun _ => ⟨hnone, fun _ => hsheltered⟩
    · exact h
  | conclude late =>
    rw [StreamRun.step]
    split
    · next hreader =>
      exact h.move hreader fun _ => h.joined (by rw [hreader]; rfl)
    · exact h

end StreamRun

/-- In every stream run, threaded or not, with any schedule of worker and timer flushes, in which the
flushes of the timer find nothing to fail on and the workers are through when the reader stops to
wait for them: if some flush raised, the run does not return SUCCESS. -/
theorem failed_flush_not_success (cfg : StreamConfig ρ) (breakers : Dict String (Nat × Nat))
    (events : List (RunEvent ρ))
    (hsheltered : Run.AllSteps (step cfg) (Sheltered cfg) (.start breakers) events)
    (hfailed : (Run.exec (step cfg) (.start breakers) events).failed ≠ []) :
    (Run.exec (step cfg) (.start breakers) events).reader ≠ .over (.ok .success) := by
  have h := Run.AllSteps.invariant (I := Sound cfg) (fun r e hr he => hr.step he)
    (.start cfg breakers) hsheltered
  intro hover
  rcases h.noticed hfailed with hfails | herrors
  · rw [hover] at hfails
    cases hfails
  · exact herrors (h.joined (by rw [hover]; rfl)).1

def timedStream (threadWorkers flushRecords : Nat) : StreamConfig Nat where
  name := "p"
  onError := .abort
  dlqSink := false
  parallelSinks := false
  transforms := []
  sinks := [⟨"file", none, [], [], 0, 0, 60⟩]
  lookupField _ _ := ""
  dlqSink_of_dlq := nofun
  strict := false
  threadWorkers := threadWorkers
  flushRecords := flushRecords
  timed := true

def sinkDown (trigger : Trigger) : RunEvent Nat :=
  .flush trigger ("cohort", "") { Answers.quiet with write := fun _ _ _ => some "down" } fun _ _ _ => 0

/-- One chunk, whose flush fails; the source ends and the rest of the run goes through. -/
def oneFailedFlush (trigger : Trigger) : List (RunEvent Nat) :=
  [.yields ⟨none, false, none, false⟩, .process 0 [] (.ok ([1], .quiet)) true false false,
    sinkDown trigger, .exhausted none, .join,
    .flush .reader ("cohort", "") .quiet fun _ _ _ => 0, .decide .quiet,
    .conclude false]

theorem failed_flush_not_success_worker :
    (Run.exec (step (timedStream 2 1)) (.start ∅) (oneFailedFlush .worker)).failed.length = 1 ∧
      (Run.exec (step (timedStream 2 1)) (.start ∅) (oneFailedFlush .worker)).reader ≠
        .over (.ok .success) :=
  ⟨by decide +kernel, failed_flush_not_success (timedStream 2 1) ∅ (oneFailedFlush .worker)
    ⟨trivial, trivial, trivial, trivial, ⟨rfl, rfl⟩, trivial, trivial, trivial, trivial⟩
    (ne_nil_of_length_pos (by decide +kernel))⟩

/-- The buffer is below the threshold when the interval has elapsed. The flusher logs the failure and
the records are gone: the run ends with SUCCESS. -/
theorem timer_flush_fails_unnoticed :
    (timedStream 1 100).onError = .abort ∧
      (Run.exec (step (timedStream 1 100)) (.start ∅) (oneFailedFlush .timer)).failed.map (·.1) =
        [.timer] ∧
      (match (Run.exec (step (timedStream 1 100)) (.start ∅) (oneFailedFlush .timer)).reader with
        | .over (.ok status) => some status
        | _ => none) = some .success := by
  decide +kernel

end Tram.Executor
