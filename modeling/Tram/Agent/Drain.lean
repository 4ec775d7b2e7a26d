import Mathlib.Data.List.Sort
import Tram.Agent.Outbox

/-! # The outbox drain

One pass over the due rows of the outbox: each is sent to the manager and acked, or backed off. An
exception of the journal ends the pass; a refused delivery is caught and recorded, so the pass goes
on as long as recording it does not raise. -/

namespace Tram.Agent

open List

/-- What a pass meets outside the worker: the text of `json.loads`'s error for a payload it cannot
parse, and of the error a request ends with; `none` where there is no error. -/
structure Manager where
  unparseable : String → Option String
  post : OutboxRow → Option String

/-- `get_attempt`: a tombstone hides a completion, a completion the reservation. -/
inductive AttemptRecord
  | tombstone (row : Tombstone)
  | completion (row : Completion)
  | reservation (row : Reservation)

def AttemptRecord.acked : AttemptRecord → Bool
  | .completion c => c.ackedAt.isSome
  | _ => false

namespace Journal

def completion? (j : Journal) (attemptId : String) : Option Completion :=
  j.completions.find? (·.attemptId = attemptId)

def getAttempt (j : Journal) (attemptId : String) : Option AttemptRecord :=
  match j.tombstone? attemptId with
  | some t => some (.tombstone t)
  | none =>
    match j.completion? attemptId with
    | some c => some (.completion c)
    | none => (j.reservation? attemptId).map .reservation

def isAcked (j : Journal) (attemptId : String) : Bool :=
  match j.getAttempt attemptId with
  | some r => r.acked
  | none => false

def fetchDueOutbox (j : Journal) (now : DateTime) (limit : Nat) : List OutboxRow :=
  ((j.outbox.filter (·.nextAttemptAt ≤ now)).insertionSort (·.seq ≤ ·.seq)).take (max 1 limit)

end Journal

/-- A pass under way: the rows whose request was sent, and the exception that ended it. -/
structure DrainPass where
  journal : Journal
  processed : Nat := 0
  attempted : List OutboxRow := []
  raised : Option JournalError := none

namespace DrainPass

def called (p : DrainPass) (r : Except JournalError Unit × Journal) : DrainPass :=
  { p with
    journal := r.2
    raised := match r.1 with
      | .ok _ => none
      | .error e => some e }

/-- The body of the loop; `call` is what the journal call for the row meets. -/
def row (manager : Manager) (call : OutboxRow → Call) (p : DrainPass) (row : OutboxRow) :
    DrainPass :=
  if p.raised.isSome ∨ p.journal.isAcked row.attemptId then p
  else
    let p := { p with processed := p.processed + 1 }
    match manager.unparseable row.payloadJson with
    | some e => p.called
        (p.journal.recordOutboxFailure (call row) row.seq ("unparseable payload: " ++ e))
    | none =>
      let p := { p with attempted := p.attempted ++ [row] }
      match manager.post row with
      | some e => p.called (p.journal.recordOutboxFailure (call row) row.seq e)
      | none => p.called (p.journal.markAcked (call row) row.attemptId)

end DrainPass

def outboxDrainBatch : Nat := 10

/-- `_drain_outbox_once`; `now` is the clock as the due rows are fetched. -/
def drainOutboxOnce (manager : Manager) (call : OutboxRow → Call) (now : DateTime)
    (managerUrl : String) (j : Journal) : DrainPass :=
  if managerUrl = "" then { journal := j }
  else Run.exec (DrainPass.row manager call) { journal := j } (j.fetchDueOutbox now outboxDrainBatch)

namespace Journal

/-! ## The calls of a pass -/

variable {j : Journal} {call : Call}

theorem isAcked_iff {a : String} :
    j.isAcked a = true ↔ j.tombstone? a = none ∧ ∃ c, j.completion? a = some c ∧ c.ackedAt.isSome := by
  unfold isAcked getAttempt
  cases j.tombstone? a with
  | some t => simp [AttemptRecord.acked]
  | none =>
    cases j.completion? a with
    | some c => simp [AttemptRecord.acked]
    | none => cases j.reservation? a <;> simp [AttemptRecord.acked]

def Healthy (call : Call) : Prop := call.opens = true ∧ call.fate = .commits

theorem Healthy.txn {α : Type} {j' : Journal} (h : Healthy call) {a : α}
    {fn : Journal → Except JournalError (α × Journal)} (hfn : fn j = .ok (a, j')) :
    j.txn call fn = (.ok a, j') := by
  unfold Journal.txn finish
  rw [if_pos h.1, hfn, h.2]
  rfl

theorem Healthy.markAcked (h : Healthy call) (j : Journal) (b : String) :
    j.markAcked call b = (.ok (),
      { j with completions := j.completions.map (stampAck call b)
               outbox := j.outbox.filter (·.attemptId ≠ b) }) :=
  h.txn rfl

/-- The clock is at least five minutes from the end of the year 9999. -/
def BeforeEnd (call : Call) : Prop := call.stamp.us + 300 * 1000000 < 253402300800 * 1000000

/-- Seconds until the next attempt, after the failure that makes it `attempts` failures. -/
def delayS (attempts : Nat) : Int := min (2 ^ (attempts - 1)) 300

theorem delayS_pos (attempts : Nat) : 0 ≤ delayS attempts := by
  have : (0 : Int) ≤ 2 ^ (attempts - 1) := by positivity
  unfold delayS
  omega

/-- A failure of a row that has failed fewer than 1024 times is recorded, and its next attempt is
the capped power of two away. -/
theorem Healthy.recordOutboxFailure (h : Healthy call) (hclock : BeforeEnd call) {row : OutboxRow}
    (hrow : j.outbox.find? (·.seq = row.seq) = some row) (hattempts : row.attempts < 1024)
    (e : String) :
    ∃ nextAt : DateTime, nextAt.us = call.stamp.us + delayS (row.attempts + 1) * 1000000 ∧
      j.recordOutboxFailure call row.seq e =
        (.ok (), { j with outbox := j.outbox.map (backOff row.seq (row.attempts + 1) e nextAt) }) := by
  have hpos := delayS_pos (row.attempts + 1)
  have hcap : delayS (row.attempts + 1) ≤ 300 := min_le_right _ _
  have hlower := call.stamp.lower
  have hrange : -62135596800 * 1000000 ≤ call.stamp.us + delayS (row.attempts + 1) * 1000000 ∧
      call.stamp.us + delayS (row.attempts + 1) * 1000000 < 253402300800 * 1000000 := by
    unfold BeforeEnd at hclock
    omega
  have hbackoff : backoffS? (row.attempts + 1) = some (delayS (row.attempts + 1)) :=
    if_pos (by omega)
  have hsub : call.stamp.subSeconds? (-delayS (row.attempts + 1)) =
      some ⟨call.stamp.us + delayS (row.attempts + 1) * 1000000, hrange.1, hrange.2⟩ := by
    have hus : call.stamp.us - -delayS (row.attempts + 1) * 1000000 =
        call.stamp.us + delayS (row.attempts + 1) * 1000000 := by ring
    rw [DateTime.subSeconds?, hus, DateTime.ofUs?, dif_pos hrange]
  refine ⟨⟨_, hrange.1, hrange.2⟩, rfl, h.txn ?_⟩
  simp only [hrow, hbackoff, Option.bind_some, hsub]
  rfl

theorem completion?_markAcked (j : Journal) (call : Call) (a b : String) :
    { j with completions := j.completions.map (stampAck call b)
             outbox := j.outbox.filter (·.attemptId ≠ b) }.completion? a =
      (j.completion? a).map (stampAck call b) := by
  simp only [completion?, find?_map, Function.comp_def, stampAck_attemptId]

def Keyed (j : Journal) : Prop := (j.outbox.map (·.seq)).Nodup

theorem Keyed.find? (h : j.Keyed) {row : OutboxRow} (hrow : row ∈ j.outbox) :
    j.outbox.find? (·.seq = row.seq) = some row := by
  cases hf : j.outbox.find? (·.seq = row.seq) with
  | none => exact absurd (find?_eq_none.mp hf row hrow) (by simp)
  | some r =>
    have hseq : r.seq = row.seq := by simpa using find?_some hf
    rw [inj_on_of_nodup_map h (mem_of_find?_eq_some hf) hrow hseq]

theorem Keyed.map (h : j.Keyed) {f : OutboxRow → OutboxRow} (hf : ∀ o, (f o).seq = o.seq) :
    { j with outbox := j.outbox.map f }.Keyed := by
  unfold Keyed at h ⊢
  rw [map_map, Function.comp_def]
  simpa only [hf] using h

end Journal

namespace DrainPass

open Journal

variable (manager : Manager) (call : OutboxRow → Call)

def Accepted (p : DrainPass) (attemptId : String) : Prop :=
  ∃ r ∈ p.attempted, r.attemptId = attemptId ∧ manager.post r = none

def BackedOff (j : Journal) (r : OutboxRow) : Prop :=
  ∃ o ∈ j.outbox, o.seq = r.seq ∧ o.attemptId = r.attemptId ∧ o.attempts = r.attempts + 1 ∧
    o.nextAttemptAt.us = (call r).stamp.us + delayS (r.attempts + 1) * 1000000

def Fails (p : DrainPass) (r : OutboxRow) : Prop :=
  (manager.unparseable r.payloadJson).isSome ∨ r ∈ p.attempted ∧ (manager.post r).isSome

/-- What holds of a pass that started from `j`, with the rows `done` behind it and `rest` ahead. -/
structure Progress (j : Journal) (done rest : List OutboxRow) (p : DrainPass) : Prop where
  quiet : p.raised = none
  keyed : p.journal.Keyed
  tombstones : p.journal.tombstones = j.tombstones
  recorded : ∀ a, (p.journal.completion? a).isSome = (j.completion? a).isSome
  acked : ∀ a, p.journal.isAcked a = true → j.isAcked a = true ∨ p.Accepted manager a
  accepted : ∀ a, p.Accepted manager a → ∀ c, p.journal.completion? a = some c → c.ackedAt.isSome
  ahead : ∀ r ∈ rest, r ∈ p.journal.outbox ∨ p.Accepted manager r.attemptId
  behind : ∀ r ∈ p.attempted, r ∈ done
  served : ∀ r ∈ done, r ∈ p.attempted ∨ (manager.unparseable r.payloadJson).isSome ∨
    j.isAcked r.attemptId = true ∨ p.Accepted manager r.attemptId
  scheduled : ∀ r ∈ done, p.Fails manager r → BackedOff call p.journal r ∨
    j.isAcked r.attemptId = true ∨ p.Accepted manager r.attemptId

/-- The rows of a pass that leave its calls no way to raise: each failed fewer than 1024 times,
and where two are of one attempt, its completion is there to be seen as acked. -/
structure Deliverable (j : Journal) (due : List OutboxRow) : Prop where
  healthy : ∀ r ∈ due, Healthy (call r)
  clock : ∀ r ∈ due, BeforeEnd (call r)
  attempts : ∀ r ∈ due, r.attempts < 1024
  twins : ∀ r ∈ due, ∀ r' ∈ due, r.seq ≠ r'.seq → r.attemptId = r'.attemptId →
    j.tombstone? r.attemptId = none ∧ (j.completion? r.attemptId).isSome

variable {manager call} {j : Journal} {done rest : List OutboxRow} {p : DrainPass} {r : OutboxRow}

section

variable (h : Progress manager call j done (r :: rest) p)
include h

theorem Progress.skip (hacked : p.journal.isAcked r.attemptId = true) :
    Progress manager call j (done ++ [r]) rest p := by
  have hwhy := h.acked r.attemptId hacked
  exact { h with
    ahead := fun r' hr' => h.ahead r' (mem_cons_of_mem r hr')
    behind := fun r' hr' => mem_append_left _ (h.behind r' hr')
    served := forall_mem_concat h.served (.inr (.inr hwhy))
    scheduled := forall_mem_concat h.scheduled fun _ => .inr hwhy }

omit h in
theorem seq_ne (hkeys : ((done ++ r :: rest).map (·.seq)).Nodup) {r' : OutboxRow}
    (hr' : r' ∈ done ∨ r' ∈ rest) : r'.seq ≠ r.seq := by
  rw [map_append, map_cons, nodup_middle, nodup_cons, ← map_append] at hkeys
  intro heq
  refine hkeys.1 ?_
  rw [← heq]
  exact mem_map_of_mem (mem_append.mpr hr')

omit h in
theorem mem_map_backOff {o : OutboxRow} (ho : o ∈ j.outbox) {seq n : Nat} {e : String}
    {nextAt : DateTime} (hseq : o.seq ≠ seq) : o ∈ j.outbox.map (backOff seq n e nextAt) :=
  mem_map.mpr ⟨o, ho, if_neg hseq⟩

theorem Progress.fail (hkeys : ((done ++ r :: rest).map (·.seq)).Nodup) (hmem : r ∈ p.journal.outbox)
    {attempted : List OutboxRow}
    (hattempted : attempted = p.attempted ∧ (manager.unparseable r.payloadJson).isSome ∨
      attempted = p.attempted ++ [r] ∧ (manager.post r).isSome)
    {nextAt : DateTime} {e : String}
    (hnext : nextAt.us = (call r).stamp.us + delayS (r.attempts + 1) * 1000000) (n : Nat) :
    Progress manager call j (done ++ [r]) rest
      ⟨{ p.journal with outbox := p.journal.outbox.map (backOff r.seq (r.attempts + 1) e nextAt) },
        n, attempted, none⟩ := by
  -- the failed row adds nothing to what the manager accepted
  have hsub : ∀ r' ∈ p.attempted, r' ∈ attempted := by
    rcases hattempted with ⟨rfl, -⟩ | ⟨rfl, -⟩
    · exact fun r' hr' => hr'
    · exact fun r' hr' => mem_append_left _ hr'
  have hcases : ∀ r' ∈ attempted, r' ∈ p.attempted ∨ r' = r ∧ (manager.post r).isSome := by
    rcases hattempted with ⟨rfl, -⟩ | ⟨rfl, hpost⟩
    · exact fun _ => .inl
    · exact forall_mem_concat (fun _ => .inl) (.inr ⟨rfl, hpost⟩)
  have hacc : ∀ a, (∃ r' ∈ attempted, r'.attemptId = a ∧ manager.post r' = none) ↔
      p.Accepted manager a := by
    intro a
    constructor
    · rintro ⟨r', hr', ha, hnone⟩
      rcases hcases r' hr' with hr' | ⟨rfl, hsome⟩
      · exact ⟨r', hr', ha, hnone⟩
      · rw [hnone] at hsome
        cases hsome
    · rintro ⟨r', hr', ha, hnone⟩
      exact ⟨r', hsub r' hr', ha, hnone⟩
  have hbacked : BackedOff call { p.journal with
      outbox := p.journal.outbox.map (backOff r.seq (r.attempts + 1) e nextAt) } r := by
    refine ⟨_, mem_map_of_mem hmem, ?_⟩
    rw [backOff, if_pos rfl]
    exact ⟨rfl, rfl, rfl, hnext⟩
  exact {
    quiet := rfl
    keyed := h.keyed.map fun o => (backOff_keeps ..).1
    tombstones := h.tombstones
    recorded := h.recorded
    acked := fun a ha => (h.acked a ha).imp_right (hacc a).mpr
    accepted := fun a ha => h.accepted a ((hacc a).mp ha)
    ahead := by
      intro r' hr'
      rcases h.ahead r' (mem_cons_of_mem r hr') with hin | hgone
      · exact .inl (mem_map_backOff hin (seq_ne hkeys (.inr hr')))
      · exact .inr ((hacc _).mpr hgone)
    behind := by
      intro r' hr'
      rcases hcases r' hr' with hr' | ⟨rfl, -⟩
      · exact mem_append_left _ (h.behind r' hr')
      · exact mem_append_right _ (mem_singleton_self r')
    served := by
      intro r' hr'
      rcases mem_append.mp hr' with hr' | hr'
      · rcases h.served r' hr' with hin | hbad | hskip | hgone
        · exact .inl (hsub r' hin)
        · exact .inr (.inl hbad)
        · exact .inr (.inr (.inl hskip))
        · exact .inr (.inr (.inr ((hacc _).mpr hgone)))
      · rw [mem_singleton.mp hr']
        rcases hattempted with ⟨-, hbad⟩ | ⟨rfl, -⟩
        · exact .inr (.inl hbad)
        · exact .inl (mem_append_right _ (mem_singleton_self r))
    scheduled := by
      intro r' hr' hfails
      rcases mem_append.mp hr' with hdone | hr'
      · have hfails' : p.Fails manager r' := by
          refine hfails.imp_right fun ⟨hin, hsome⟩ => ⟨?_, hsome⟩
          rcases hcases r' hin with hin | ⟨rfl, -⟩
          · exact hin
          · exact absurd rfl (seq_ne hkeys (.inl hdone))
        rcases h.scheduled r' hdone hfails' with ⟨o, ho, hseq, hrest⟩ | hskip | hgone
        · exact .inl ⟨o, mem_map_backOff ho (hseq ▸ seq_ne hkeys (.inl hdone)), hseq, hrest⟩
        · exact .inr (.inl hskip)
        · exact .inr (.inr ((hacc _).mpr hgone))
      · rw [mem_singleton.mp hr']
        exact .inl hbacked }

omit h in
theorem stampAck_of_acked {call : Call} {b : String} {c : Completion} (h : c.ackedAt.isSome) :
    stampAck call b c = c := by
  refine if_neg fun hc => ?_
  rw [Option.isNone_iff_eq_none.mp hc.2] at h
  cases h

omit h in
theorem attemptId_of_completion? {a : String} {c : Completion}
    (h : j.completion? a = some c) : c.attemptId = a := by
  simpa using find?_some h

theorem Progress.accept (hpost : manager.post r = none) (n : Nat) :
    Progress manager call j (done ++ [r]) rest
      ⟨{ p.journal with completions := p.journal.completions.map (stampAck (call r) r.attemptId)
                        outbox := p.journal.outbox.filter (·.attemptId ≠ r.attemptId) },
        n, p.attempted ++ [r], none⟩ := by
  have hacc : ∀ a, (∃ r' ∈ p.attempted ++ [r], r'.attemptId = a ∧ manager.post r' = none) ↔
      p.Accepted manager a ∨ r.attemptId = a := by
    intro a
    simp [Accepted, or_and_right, exists_or, hpost]
  have hcomp := completion?_markAcked p.journal (call r)
  have hkept : ∀ o ∈ p.journal.outbox, o.attemptId ≠ r.attemptId →
      o ∈ p.journal.outbox.filter (·.attemptId ≠ r.attemptId) :=
    fun o ho hne => mem_filter.mpr ⟨ho, decide_eq_true hne⟩
  exact {
    quiet := rfl
    keyed := h.keyed.sublist (filter_sublist.map _)
    tombstones := h.tombstones
    recorded := by
      intro a
      rw [hcomp, Option.isSome_map]
      exact h.recorded a
    acked := by
      intro a ha
      obtain ⟨htomb, c, hc, hsome⟩ := isAcked_iff.mp ha
      rw [hcomp, Option.map_eq_some_iff] at hc
      obtain ⟨d, hd, rfl⟩ := hc
      by_cases hra : r.attemptId = a
      · exact .inr ((hacc a).mpr (.inr hra))
      · rw [stampAck_of_ne (attemptId_of_completion? hd ▸ Ne.symm hra)] at hsome
        refine (h.acked a (isAcked_iff.mpr ⟨htomb, d, hd, hsome⟩)).imp_right fun hgone => ?_
        exact (hacc a).mpr (.inl hgone)
    accepted := by
      intro a ha c hc
      rw [hcomp, Option.map_eq_some_iff] at hc
      obtain ⟨d, hd, rfl⟩ := hc
      rcases (hacc a).mp ha with ha | rfl
      · have hsome := h.accepted a ha d hd
        rwa [stampAck_of_acked hsome]
      · rw [← attemptId_of_completion? hd]
        exact isSome_stampAck (call r) d
    ahead := by
      intro r' hr'
      by_cases hra : r'.attemptId = r.attemptId
      · exact .inr ((hacc _).mpr (.inr hra.symm))
      · rcases h.ahead r' (mem_cons_of_mem r hr') with hin | hgone
        · exact .inl (hkept r' hin hra)
        · exact .inr ((hacc _).mpr (.inl hgone))
    behind := by
      intro r' hr'
      rcases mem_append.mp hr' with hr' | hr'
      · exact mem_append_left _ (h.behind r' hr')
      · exact mem_append_right _ hr'
    served := by
      intro r' hr'
      rcases mem_append.mp hr' with hr' | hr'
      · rcases h.served r' hr' with hin | hbad | hskip | hgone
        · exact .inl (mem_append_left _ hin)
        · exact .inr (.inl hbad)
        · exact .inr (.inr (.inl hskip))
        · exact .inr (.inr (.inr ((hacc _).mpr (.inl hgone))))
      · exact .inl (mem_append_right _ hr')
    scheduled := by
      intro r' hr' hfails
      by_cases hra : r'.attemptId = r.attemptId
      · exact .inr (.inr ((hacc _).mpr (.inr hra.symm)))
      · have hne : r' ≠ r := fun heq => hra (congrArg _ heq)
        have hdone : r' ∈ done := by simpa [hne] using hr'
        have hfails' : p.Fails manager r' := by simpa [Fails, hne] using hfails
        rcases h.scheduled r' hdone hfails' with ⟨o, ho, hseq, hattempt, hrest⟩ | hskip | hgone
        · exact .inl ⟨o, hkept o ho (hattempt ▸ hra), hseq, hattempt, hrest⟩
        · exact .inr (.inl hskip)
        · exact .inr (.inr ((hacc _).mpr (.inl hgone))) }

theorem Progress.row (hkeys : ((done ++ r :: rest).map (·.seq)).Nodup)
    (hdue : Deliverable call j (done ++ r :: rest)) :
    Progress manager call j (done ++ [r]) rest (p.row manager call r) := by
  have hr : r ∈ done ++ r :: rest := mem_append_right _ mem_cons_self
  unfold DrainPass.row
  by_cases hacked : p.journal.isAcked r.attemptId = true
  · rw [if_pos (.inr hacked)]
    exact h.skip hacked
  · rw [if_neg (by simp [h.quiet, hacked])]
    -- the row is still there: an accepted twin would have made the attempt acked
    have hmem : r ∈ p.journal.outbox := by
      refine (h.ahead r mem_cons_self).resolve_right fun ⟨r', hr', hattempt, hnone⟩ => hacked ?_
      have hdone := h.behind r' hr'
      obtain ⟨htomb, hsome⟩ := hdue.twins r hr r' (mem_append_left _ hdone)
        (seq_ne hkeys (.inl hdone)).symm hattempt.symm
      rw [← h.recorded] at hsome
      obtain ⟨c, hc⟩ := Option.isSome_iff_exists.mp hsome
      refine isAcked_iff.mpr ⟨?_, c, hc, h.accepted _ ⟨r', hr', hattempt, hnone⟩ c hc⟩
      rw [tombstone?, h.tombstones]
      exact htomb
    have hfail := fun e => (hdue.healthy r hr).recordOutboxFailure (hdue.clock r hr)
      (h.keyed.find? hmem) (hdue.attempts r hr) e
    cases hbad : manager.unparseable r.payloadJson with
    | some e =>
      obtain ⟨nextAt, hnext, hrec⟩ := hfail ("unparseable payload: " ++ e)
      simp only [called, hrec]
      exact h.fail hkeys hmem (.inl ⟨rfl, by rw [hbad]; rfl⟩) hnext _
    | none =>
      cases hpost : manager.post r with
      | some e =>
        obtain ⟨nextAt, hnext, hrec⟩ := hfail e
        simp only [called, hrec]
        exact h.fail hkeys hmem (.inr ⟨rfl, by rw [hpost]; rfl⟩) hnext _
      | none =>
        simp only [called, (hdue.healthy r hr).markAcked]
        exact h.accept hpost _

end

theorem Progress.exec (h : Progress manager call j done rest p)
    (hkeys : ((done ++ rest).map (·.seq)).Nodup) (hdue : Deliverable call j (done ++ rest)) :
    Progress manager call j (done ++ rest) [] (Run.exec (DrainPass.row manager call) p rest) := by
  induction rest generalizing done p with
  | nil => rw [append_nil]; exact h
  | cons r rest ih =>
    have hstep := h.row hkeys hdue
    rw [append_cons] at hkeys hdue ⊢
    exact ih hstep hkeys hdue

theorem Progress.start (hj : j.Keyed) {due : List OutboxRow} (hdue : ∀ r ∈ due, r ∈ j.outbox) :
    Progress manager call j [] due { journal := j } where
  quiet := rfl
  keyed := hj
  tombstones := rfl
  recorded _ := rfl
  acked _ ha := .inl ha
  accepted := by
    rintro a ⟨r, hr, -⟩
    cases hr
  ahead r hr := .inl (hdue r hr)
  behind r hr := by cases hr
  served r hr := by cases hr
  scheduled r hr := by cases hr

end DrainPass

namespace Journal

variable {j : Journal}

theorem mem_of_fetchDueOutbox {now : DateTime} {limit : Nat} {r : OutboxRow}
    (h : r ∈ j.fetchDueOutbox now limit) : r ∈ j.outbox := by
  have hsorted := mem_of_mem_take h
  rw [mem_insertionSort] at hsorted
  exact (mem_filter.mp hsorted).1

theorem Keyed.fetchDueOutbox (h : j.Keyed) (now : DateTime) (limit : Nat) :
    ((j.fetchDueOutbox now limit).map (·.seq)).Nodup := by
  have hdue : ((j.outbox.filter (·.nextAttemptAt ≤ now)).map (·.seq)).Nodup :=
    h.sublist (filter_sublist.map _)
  have hperm := (perm_insertionSort (fun a b : OutboxRow => a.seq ≤ b.seq)
    (j.outbox.filter (·.nextAttemptAt ≤ now))).map (·.seq)
  exact (hperm.nodup_iff.mpr hdue).sublist ((take_sublist _ _).map _)

def failTimes (j : Journal) (seq : Nat) (failures : List (Call × String)) : Journal :=
  Run.exec (fun j f => (j.recordOutboxFailure f.1 seq f.2).2) j failures

theorem failTimes_row (hj : j.Keyed) {row : OutboxRow} (hrow : row ∈ j.outbox)
    {failures : List (Call × String)} (hhealthy : ∀ f ∈ failures, Healthy f.1)
    (hclock : ∀ f ∈ failures, BeforeEnd f.1) (hcount : row.attempts + failures.length ≤ 1024) :
    (j.failTimes row.seq failures).Keyed ∧
    ∃ o ∈ (j.failTimes row.seq failures).outbox, o.seq = row.seq ∧
      o.attempts = row.attempts + failures.length ∧
      ∀ f ∈ failures.getLast?, o.nextAttemptAt.us = f.1.stamp.us + delayS o.attempts * 1000000 := by
  induction failures using List.reverseRecOn with
  | nil => exact ⟨hj, row, hrow, rfl, rfl, by simp⟩
  | append_singleton failures f ih =>
    rw [length_append, length_singleton] at hcount
    obtain ⟨hkeyed, o, ho, hseq, hattempts, -⟩ :=
      ih (fun g hg => hhealthy g (mem_append_left _ hg))
        (fun g hg => hclock g (mem_append_left _ hg)) (by omega)
    have hf : f ∈ failures ++ [f] := mem_append_right _ (mem_singleton_self f)
    obtain ⟨nextAt, hnext, hrec⟩ := (hhealthy f hf).recordOutboxFailure (hclock f hf)
      (hkeyed.find? ho) (by omega) f.2
    rw [hseq] at hrec
    have hlast : j.failTimes row.seq (failures ++ [f]) =
        { j.failTimes row.seq failures with
          outbox := (j.failTimes row.seq failures).outbox.map
            (backOff row.seq (o.attempts + 1) f.2 nextAt) } := by
      rw [failTimes, Run.exec_append, Run.exec_cons, Run.exec_nil, ← failTimes, hrec]
    rw [hlast]
    refine ⟨hkeyed.map fun o => (backOff_keeps ..).1, _, mem_map_of_mem ho, ?_⟩
    rw [backOff, if_pos hseq]
    refine ⟨hseq, ?_, ?_⟩
    · rw [length_append, length_singleton, hattempts, Nat.add_assoc]
    · intro g hg
      rw [getLast?_concat, Option.mem_some_iff] at hg
      rw [← hg]
      exact hnext

end Journal

open Journal DrainPass

/-- A pass in which every due row has failed fewer than 1024 times does not raise, whatever the
manager answers. Every due row is sent, unless its payload cannot be parsed or its attempt is acked
by then. A row that fails and is not acked counts one failure more, and waits `min (2 ^ (n - 1))
300` seconds after the `n`-th. -/
theorem drain_serves_every_row (manager : Manager) (call : OutboxRow → Call) (now : DateTime)
    (managerUrl : String) (hurl : managerUrl ≠ "") (j : Journal) (hj : j.Keyed)
    (hdue : Deliverable call j (j.fetchDueOutbox now outboxDrainBatch)) :
    let pass := drainOutboxOnce manager call now managerUrl j
    pass.raised = none ∧
    (∀ r ∈ j.fetchDueOutbox now outboxDrainBatch,
      (r ∈ pass.attempted ∨ (manager.unparseable r.payloadJson).isSome ∨
        j.isAcked r.attemptId = true ∨ pass.Accepted manager r.attemptId) ∧
      (pass.Fails manager r → BackedOff call pass.journal r ∨
        j.isAcked r.attemptId = true ∨ pass.Accepted manager r.attemptId)) ∧
    ∀ row ∈ j.outbox, row.attempts = 0 → ∀ failures : List (Call × String),
      (∀ f ∈ failures, Healthy f.1 ∧ BeforeEnd f.1) → failures.length ≤ 1024 →
      ∀ f ∈ failures.getLast?, ∃ o ∈ (j.failTimes row.seq failures).outbox, o.seq = row.seq ∧
        o.nextAttemptAt.us =
          f.1.stamp.us + min (2 ^ (failures.length - 1)) 300 * 1000000 := by
  have hpass : Progress manager call j (j.fetchDueOutbox now outboxDrainBatch) []
      (drainOutboxOnce manager call now managerUrl j) := by
    rw [drainOutboxOnce, if_neg hurl]
    exact (Progress.start hj fun r hr => mem_of_fetchDueOutbox hr).exec
      (hj.fetchDueOutbox now outboxDrainBatch) hdue
  refine ⟨hpass.quiet, fun r hr => ⟨hpass.served r hr, hpass.scheduled r hr⟩, ?_⟩
  intro row hrow hzero failures hok hcount f hf
  obtain ⟨-, o, ho, hseq, hattempts, hnext⟩ := failTimes_row hj hrow (fun g hg => (hok g hg).1)
    (fun g hg => (hok g hg).2) (by omega)
  refine ⟨o, ho, hseq, ?_⟩
  rw [hnext f hf, hattempts, hzero, Nat.zero_add]
  rfl

def twoRows (attempts : Nat) : Journal :=
  let t : DateTime := ⟨0, by decide, by decide⟩
  { outbox :=
      [⟨1, "a1", .runComplete, "{}", t, t, attempts, none⟩, ⟨2, "a2", .runComplete, "{}", t, t, 0, none⟩]
    nextSeq := 3 }

def refusesFirst : Manager :=
  ⟨fun _ => none, fun r => if r.seq = 1 then some "422" else none⟩

theorem drain_serves_every_row_refused :
    let pass := drainOutboxOnce refusesFirst (fun _ => callAt 5) (callAt 5).now "http://m" (twoRows 1000)
    pass.raised = none ∧ pass.attempted.map (·.seq) = [1, 2] ∧
      ∀ r ∈ (twoRows 1000).fetchDueOutbox (callAt 5).now outboxDrainBatch,
        pass.Fails refusesFirst r → BackedOff (fun _ => callAt 5) pass.journal r ∨
          (twoRows 1000).isAcked r.attemptId = true ∨ pass.Accepted refusesFirst r.attemptId := by
  intro pass
  have h := drain_serves_every_row refusesFirst (fun _ => callAt 5) (callAt 5).now "http://m"
    (by decide) (twoRows 1000) (by unfold Keyed; decide) ?_
  · exact ⟨h.1, by decide +kernel, fun r hr => (h.2.1 r hr).2⟩
  · refine ⟨fun _ _ => ⟨rfl, rfl⟩, fun _ _ => ?_, by decide +kernel, by decide +kernel⟩
    unfold BeforeEnd
    decide

/-- An acked attempt with a row left over: the row is due and is not sent. And a row that is
refused for the 1025th time ends the pass with an exception, before the row behind it is sent. -/
theorem drain_skips_row :
    let t : DateTime := ⟨0, by decide, by decide⟩
    let leftOver : Journal :=
      { completions := [⟨"a1", "r1", "{}", t, some t⟩]
        outbox := [⟨1, "a1", .runComplete, "{}", t, t, 0, none⟩]
        nextSeq := 2 }
    let takesAll : Manager := ⟨fun _ => none, fun _ => none⟩
    ((leftOver.fetchDueOutbox (callAt 5).now outboxDrainBatch).map (·.seq) = [1] ∧
      (drainOutboxOnce takesAll (fun _ => callAt 5) (callAt 5).now "http://m" leftOver).attempted = []) ∧
    ((drainOutboxOnce refusesFirst (fun _ => callAt 5) (callAt 5).now "http://m"
        (twoRows 1024)).raised = some .overflow ∧
      (drainOutboxOnce refusesFirst (fun _ => callAt 5) (callAt 5).now "http://m"
        (twoRows 1024)).attempted.map (·.seq) = [1]) := by
  decide +kernel

end Tram.Agent
