import Tram.Agent.Admission

/-! # The completion outbox

The story of an attempt's completion, told from the calls alone: the first completion call that
commits makes it pending, an ack settles it, and the retention sweep that removes a settled
completion forgets it. -/

namespace Tram.Agent

open List

def Call.durable (call : Call) : Bool := call.opens && call.fate != .rollsBack

/-- What the calls so far say of one attempt's completion. -/
inductive Story
  | unrecorded
  | pending (resultJson : String)
  | acked
deriving DecidableEq, Repr

/-- The calls that record a completion without its outbox row, or fill the outbox by hand. -/
def JournalOp.bypasses : JournalOp → Bool
  | .recordCompletion .. | .enqueueOutbox .. => true
  | _ => false

/-- The calls that leave the completions and the outbox alone. -/
def JournalOp.idle : JournalOp → Bool
  | .admitAttempt .. | .validateAndAdmit .. | .markRunning .. | .recordTombstone ..
  | .markInterruptedOnBoot .. | .advanceSessionEpoch .. | .recoverClockLowering .. | .gcExpired ..
  | .restart => true
  | _ => false

namespace Journal

def completionsOf (j : Journal) (attemptId : String) : List Completion :=
  j.completions.filter (·.attemptId = attemptId)

def rowsOf (j : Journal) (attemptId : String) : List OutboxRow :=
  j.outbox.filter (·.attemptId = attemptId)

/-- One call, as the story of `attemptId` sees it. -/
def tell (cfg : JournalConfig) (attemptId : String) (j : Journal) (op : JournalOp)
    (story : Story) : Story :=
  match story, op with
  | .unrecorded, .recordCompletionAndEnqueue call a resultJson runId =>
    if a = attemptId ∧ call.durable ∧ (runId.isSome ∨ (j.reservation? attemptId).isSome) then
      .pending resultJson
    else .unrecorded
  | .pending resultJson, .markAcked call a =>
    if a = attemptId ∧ call.durable then .acked else .pending resultJson
  | .acked, .cleanupRetention call =>
    if (j.cleanupRetention cfg call).2.completionsOf attemptId = [] then .unrecorded else .acked
  | story, _ => story

def Tells (j : Journal) (attemptId : String) : Story → Prop
  | .unrecorded => j.completionsOf attemptId = [] ∧ j.rowsOf attemptId = []
  | .pending resultJson =>
    (∃ c, j.completionsOf attemptId = [c] ∧ c.resultJson = resultJson ∧ c.ackedAt = none) ∧
    ∃ o, j.rowsOf attemptId = [o] ∧ o.kind = .runComplete ∧ o.payloadJson = resultJson
  | .acked =>
    (∃ c, j.completionsOf attemptId = [c] ∧ c.ackedAt.isSome) ∧ j.rowsOf attemptId = []

/-! ## Calls that leave both tables alone -/

def SamePost (j j' : Journal) : Prop := j'.completions = j.completions ∧ j'.outbox = j.outbox

variable {j j' : Journal} {a b : String} {story : Story} {α : Type}
    {fn : Journal → Except JournalError (α × Journal)} {call : Call} {cfg : JournalConfig}
  {runId : Option String} {op : JournalOp} {c : Completion}

theorem SamePost.tells (h : SamePost j j') (ht : j.Tells a story) : j'.Tells a story := by
  cases story <;> simpa only [Tells, completionsOf, rowsOf, h.1, h.2] using ht

theorem txn_ok (call : Call) {a : α} (h : fn j = .ok (a, j')) :
    (j.txn call fn).2 = if call.durable then j' else j := by
  unfold txn finish Call.durable
  rw [h]
  cases call.opens <;> cases call.fate <;> rfl

theorem txn_error (call : Call) {e : JournalError} (h : fn j = .error e) :
    (j.txn call fn).2 = j := by
  unfold txn finish
  rw [h]
  cases call.opens <;> rfl

structure Idle (j j' : Journal) : Prop where
  post : SamePost j j'
  completed : ∀ r ∈ j'.reservations, r.state = .completed → r ∈ j.reservations

theorem Idle.refl (j : Journal) : Idle j j := ⟨⟨rfl, rfl⟩, fun _ hr _ => hr⟩

theorem Idle.of_txn (h : ∀ a j', fn j = .ok (a, j') → Idle j j') : Idle j (j.txn call fn).2 :=
  txn_induction (P := Idle j) (.refl j) h

theorem Idle.of_map {f : Reservation → Reservation} (h : ∀ r, (f r).state = .completed → f r = r) :
    Idle j { j with reservations := j.reservations.map f } := by
  refine ⟨⟨rfl, rfl⟩, fun r' hr' hst => ?_⟩
  obtain ⟨r, hr, rfl⟩ := mem_map.mp hr'
  rwa [h r hst]

theorem idle_admitTxn {d : Authorized} {pipelineName : String} {r : AdmissionResult}
    (h : admitTxn cfg call j d pipelineName = .ok (r, some j')) : Idle j j' := by
  obtain ⟨-, -, hcomp, hout, hres⟩ := admitTxn_commit h
  exact ⟨⟨hcomp, hout⟩, by rw [hres]; exact forall_mem_concat (fun _ hr _ => hr) nofun⟩

section

variable (cfg : JournalConfig)

theorem idle_admitAttempt (call : Call) (j : Journal) (auth : AuthorizationDecision)
    (pipelineName : String) : Idle j (j.admitAttempt cfg call auth pipelineName).2 := by
  unfold admitAttempt
  split
  · exact .refl j
  · split
    · exact .refl j
    · rename_i d _
      split
      · exact .refl j
      · rcases finish_snd j call (admitTxn cfg call j d pipelineName) with h | ⟨r, j', ht, h⟩ <;> rw [h]
        · exact .refl j
        · exact idle_admitTxn ht

theorem idle_validateAndAdmit (digests : Digests) (call : Call) (j : Journal) (token : String)
    (args : Presented) : Idle j (j.validateAndAdmit cfg digests call token args).2 := by
  unfold validateAndAdmit
  split
  · exact .refl j
  · split
    · exact .refl j
    · exact idle_admitAttempt ..
    · split
      · exact .refl j
      · split
        · exact idle_admitAttempt ..
        · exact .refl j

theorem idle_step (digests : Digests) (j : Journal) (hop : op.idle = true) :
    Idle j (j.step cfg digests op).2 := by
  cases op with
  | admitAttempt call auth pipelineName => exact idle_admitAttempt ..
  | validateAndAdmit call token args => exact idle_validateAndAdmit ..
  | markRunning | markInterruptedOnBoot =>
    refine .of_txn fun _ j' h => ?_
    cases h
    refine .of_map fun r hst => ?_
    split_ifs at hst ⊢
    rfl
  | recordTombstone | advanceSessionEpoch | recoverClockLowering =>
    refine .of_txn fun _ j' h => ?_
    cases h
    exact ⟨⟨rfl, rfl⟩, fun _ hr _ => hr⟩
  | gcExpired call =>
    refine .of_txn fun _ j' h => ?_
    dsimp only at h
    split at h
    · cases h
    · cases h
      exact ⟨⟨rfl, rfl⟩, fun _ hr _ => hr⟩
  | restart => exact .refl j
  | _ => cases hop

end

/-! ## The calls that write them -/

/-- `mapIdx` only numbers the rows, so a filter that does not look at the number commutes with
it. -/
theorem forall₂_filter_mapIdx {β : Type} {R : α → β → Prop} {p : β → Bool} {q : α → Bool}
    {f : Nat → α → β} (hR : ∀ i c, R c (f i c)) (hp : ∀ i c, p (f i c) = q c) (l : List α) :
    List.Forall₂ R (l.filter q) ((l.mapIdx f).filter p) := by
  induction l generalizing f with
  | nil => exact .nil
  | cons c l ih =>
    have htail := ih (f := fun i => f (i + 1)) (fun i => hR (i + 1)) (fun i => hp (i + 1))
    rw [mapIdx_cons, filter_cons, filter_cons, hp]
    cases q c with
    | true => exact .cons (hR 0 c) htail
    | false => exact htail

def Delivers (c : Completion) (o : OutboxRow) : Prop :=
  o.kind = .runComplete ∧ o.payloadJson = c.resultJson

/-- The completions of an attempt that a repair of `attemptId` finds without a row. -/
def stranded (j : Journal) (attemptId : Option String) (c : Completion) : Bool :=
  c.ackedAt.isNone ∧ (attemptId.isNone ∨ attemptId = some c.attemptId) ∧
    ¬j.outbox.any fun o => o.attemptId = c.attemptId ∧ o.kind = .runComplete

theorem respoolCompletions_completions (call : Call) (j : Journal) (attemptId : Option String) :
    (j.respoolCompletions call attemptId).2.completions = j.completions := rfl

theorem respoolCompletions_rowsOf (call : Call) (j : Journal) (attemptId : Option String)
    (a : String) :
    ∃ rows, (j.respoolCompletions call attemptId).2.rowsOf a = j.rowsOf a ++ rows ∧
      List.Forall₂ Delivers ((j.completionsOf a).filter (j.stranded attemptId)) rows := by
  refine ⟨_, filter_append .., ?_⟩
  have hswap : (j.completionsOf a).filter (j.stranded attemptId) =
      (j.completions.filter (j.stranded attemptId)).filter (·.attemptId = a) := by
    rw [completionsOf, filter_filter, filter_filter]
    simp only [Bool.and_comm]
  rw [hswap]
  exact forall₂_filter_mapIdx (R := Delivers) (p := fun o => o.attemptId = a)
    (q := fun c => c.attemptId = a) (fun _ _ => ⟨rfl, rfl⟩) (fun _ _ => rfl)
    (j.completions.filter (j.stranded attemptId))

theorem any_runComplete (j : Journal) (a : String) :
    (j.outbox.any fun o => o.attemptId = a ∧ o.kind = .runComplete) =
      (j.rowsOf a).any (·.kind = .runComplete) := by
  simp [rowsOf, any_filter]

theorem Tells.respool (h : j.Tells a story) (call : Call) (attemptId : Option String) :
    (j.respoolCompletions call attemptId).2.Tells a story := by
  obtain ⟨rows, hrows, hdel⟩ := respoolCompletions_rowsOf call j attemptId a
  have hnone : (j.completionsOf a).filter (j.stranded attemptId) = [] := by
    cases story with
    | unrecorded => rw [h.1]; rfl
    | pending r =>
      obtain ⟨⟨c, hc, -, -⟩, o, ho, hkind, -⟩ := h
      have hca : c.attemptId = a := by
        have hmem : c ∈ j.completionsOf a := by rw [hc]; exact mem_singleton_self c
        simpa using (mem_filter.mp hmem).2
      rw [hc, filter_cons, stranded, hca, any_runComplete, ho]
      simp [hkind]
    | acked =>
      obtain ⟨⟨c, hc, hacked⟩, -⟩ := h
      rw [hc, filter_cons, stranded]
      simp [Option.isSome_iff_ne_none.mp hacked]
  rw [hnone] at hdel
  cases hdel
  rw [append_nil] at hrows
  cases story <;> simpa only [Tells, hrows, completionsOf, respoolCompletions_completions] using h

def withCompletion (j : Journal) (call : Call) (attemptId resultJson runId : String) : Journal :=
  { j with
    reservations := j.reservations.map fun r =>
      if r.attemptId = attemptId then { r with state := .completed } else r
    completions := if j.completions.any (·.attemptId = attemptId) then j.completions
      else j.completions ++ [⟨attemptId, runId, resultJson, call.stamp, none⟩] }

theorem recordCompletionAndEnqueue_snd (call : Call) (j : Journal) (attemptId resultJson : String)
    (runId : Option String) :
    (j.recordCompletionAndEnqueue call attemptId resultJson runId).2 =
      match runId <|> (j.reservation? attemptId).map (·.runId) with
      | none => j
      | some runId =>
        if call.durable then
          ((j.withCompletion call attemptId resultJson runId).respoolCompletions call
            (some attemptId)).2
        else j := by
  unfold recordCompletionAndEnqueue recordCompletionWith
  cases h : (runId <|> (j.reservation? attemptId).map (·.runId)) with
  | none => exact txn_error (e := .noReservation) call (by simp only [h])
  | some runId => exact txn_ok call (by simp only [h]; rfl)

theorem any_completion :
    j.completions.any (·.attemptId = a) = true ↔ j.completionsOf a ≠ [] := by
  simp [completionsOf]

theorem withCompletion_of_ne (h : b ≠ a) (call : Call) (resultJson runId : String) :
    (j.withCompletion call b resultJson runId).completionsOf a = j.completionsOf a := by
  unfold withCompletion completionsOf
  split_ifs
  · rfl
  · rw [filter_append, filter_cons, if_neg (by simpa using h)]
    exact append_nil _

theorem withCompletion_of_nil (h : j.completionsOf a = []) (call : Call)
    (resultJson runId : String) :
    (j.withCompletion call a resultJson runId).completionsOf a =
      [⟨a, runId, resultJson, call.stamp, none⟩] := by
  have hany : ¬ j.completions.any (·.attemptId = a) = true := fun hany => any_completion.mp hany h
  have h' := h
  unfold completionsOf at h' ⊢
  simp only [withCompletion, if_neg hany, filter_append, h']
  simp

theorem withCompletion_of_ne_nil (h : j.completionsOf a ≠ []) (call : Call)
    (resultJson runId : String) :
    (j.withCompletion call a resultJson runId).completionsOf a = j.completionsOf a := by
  unfold withCompletion completionsOf
  rw [if_pos (any_completion.mpr h)]

theorem tells_congr (hc : j'.completionsOf a = j.completionsOf a) (hr : j'.rowsOf a = j.rowsOf a) :
    j'.Tells a story ↔ j.Tells a story := by
  cases story <;> simp only [Tells, hc, hr]

theorem tells_first (h : j.Tells a .unrecorded) (call : Call) (resultJson runId : String) :
    ((j.withCompletion call a resultJson runId).respoolCompletions call (some a)).2.Tells a
      (.pending resultJson) := by
  obtain ⟨rows, hrows, hdel⟩ :=
    respoolCompletions_rowsOf call (j.withCompletion call a resultJson runId) (some a) a
  have hcomp := withCompletion_of_nil h.1 call resultJson runId
  have hempty : (j.withCompletion call a resultJson runId).rowsOf a = [] := h.2
  rw [hempty, nil_append] at hrows
  rw [hcomp, filter_cons, stranded, any_runComplete, hempty] at hdel
  simp only [Option.isNone_none, Option.isNone_some, any_nil, filter_nil] at hdel
  cases hdel with
  | cons hrow htail =>
    cases htail
    exact ⟨⟨_, hcomp, rfl, rfl⟩, _, hrows, hrow.1, hrow.2⟩

theorem Tells.recorded (h : j.Tells a story) (hne : story ≠ .unrecorded) :
    j.completionsOf a ≠ [] := by
  cases story with
  | unrecorded => exact absurd rfl hne
  | pending | acked =>
    obtain ⟨⟨c, hc, -⟩, -⟩ := h
    rw [hc]
    exact cons_ne_nil c []

theorem tell_record_of_not {resultJson : String}
    (h : ¬ (b = a ∧ call.durable ∧ (runId.isSome ∨ (j.reservation? a).isSome))) :
    tell cfg a j (.recordCompletionAndEnqueue call b resultJson runId) story = story := by
  cases story with
  | unrecorded => exact if_neg h
  | pending | acked => rfl

theorem resolved_isSome :
    (runId <|> (j.reservation? b).map (·.runId)).isSome ↔
      runId.isSome ∨ (j.reservation? b).isSome := by
  cases runId <;> simp

theorem Tells.recordCompletionAndEnqueue (h : j.Tells a story) (call : Call) (b resultJson : String)
    (runId : Option String) :
    (j.recordCompletionAndEnqueue call b resultJson runId).2.Tells a
      (tell cfg a j (.recordCompletionAndEnqueue call b resultJson runId) story) := by
  rw [recordCompletionAndEnqueue_snd]
  by_cases hfirst : b = a ∧ call.durable ∧ (runId.isSome ∨ (j.reservation? a).isSome)
  · obtain ⟨rfl, hdur, hsome⟩ := hfirst
    obtain ⟨run, hrun⟩ := Option.isSome_iff_exists.mp (resolved_isSome.mpr hsome)
    simp only [hrun, if_pos hdur]
    by_cases hstory : story = .unrecorded
    · subst hstory
      have htell : tell cfg b j (.recordCompletionAndEnqueue call b resultJson runId) .unrecorded =
          .pending resultJson := if_pos ⟨rfl, hdur, hsome⟩
      rw [htell]
      exact tells_first h call resultJson run
    · -- a duplicate: the row of the first call stays, and so does its outbox row
      have htell : tell cfg b j (.recordCompletionAndEnqueue call b resultJson runId) story = story := by
        cases story with
        | unrecorded => exact absurd rfl hstory
        | pending | acked => rfl
      rw [htell]
      exact ((tells_congr (withCompletion_of_ne_nil (h.recorded hstory) ..) rfl).mpr h).respool call _
  · rw [tell_record_of_not hfirst]
    cases hrun : (runId <|> (j.reservation? b).map (·.runId)) with
    | none => exact h
    | some run =>
      by_cases hdur : call.durable = true
      · simp only [if_pos hdur]
        have hb : b ≠ a := by
          rintro rfl
          exact hfirst ⟨rfl, hdur, resolved_isSome.mp (Option.isSome_of_eq_some hrun)⟩
        exact ((tells_congr (withCompletion_of_ne hb ..) rfl).mpr h).respool call _
      · simp only [if_neg hdur]
        exact h

/-! ## The calls that take away -/

theorem rowsOf_filter (j : Journal) (p : OutboxRow → Bool) (a : String) :
    (j.outbox.filter p).filter (·.attemptId = a) = (j.rowsOf a).filter p := by
  rw [rowsOf, filter_filter, filter_filter]
  simp only [Bool.and_comm]

theorem completionsOf_filter (j : Journal) (p : Completion → Bool) (a : String) :
    (j.completions.filter p).filter (·.attemptId = a) = (j.completionsOf a).filter p := by
  rw [completionsOf, filter_filter, filter_filter]
  simp only [Bool.and_comm]

theorem filter_map_of_key {β : Type} [DecidableEq β] {f : α → α} {k : α → β}
    (hf : ∀ x, k (f x) = k x) (a : β) (l : List α) :
    (l.map f).filter (k · = a) = (l.filter (k · = a)).map f := by
  rw [filter_map]
  simp only [Function.comp_def, hf]

def stampAck (call : Call) (attemptId : String) (c : Completion) : Completion :=
  if c.attemptId = attemptId ∧ c.ackedAt.isNone then { c with ackedAt := some call.stamp } else c

theorem markAcked_snd (call : Call) (j : Journal) (b : String) :
    (j.markAcked call b).2 =
      if call.durable then
        { j with completions := j.completions.map (stampAck call b)
                 outbox := j.outbox.filter (·.attemptId ≠ b) }
      else j :=
  txn_ok call rfl

theorem stampAck_attemptId (call : Call) (b : String) (c : Completion) :
    (stampAck call b c).attemptId = c.attemptId := by
  unfold stampAck
  split_ifs <;> rfl

theorem stampAck_of_ne (h : c.attemptId ≠ b) : stampAck call b c = c := if_neg fun hc => h hc.1

theorem attemptId_of_mem (h : c ∈ j.completionsOf a) : c.attemptId = a := by
  simpa using (mem_filter.mp h).2

theorem attemptId_of_mem_rows {o : OutboxRow} (h : o ∈ j.rowsOf a) :
    o.attemptId = a := by
  simpa using (mem_filter.mp h).2

theorem isSome_stampAck (call : Call) (c : Completion) :
    (stampAck call c.attemptId c).ackedAt.isSome = true := by
  unfold stampAck
  cases h : c.ackedAt <;> simp [h]

theorem Tells.markAcked (h : j.Tells a story) (call : Call) (b : String) :
    (j.markAcked call b).2.Tells a (tell cfg a j (.markAcked call b) story) := by
  have htell : ¬ (b = a ∧ call.durable) → tell cfg a j (.markAcked call b) story = story := by
    intro hno
    cases story with
    | unrecorded => rfl
    | pending r => exact if_neg hno
    | acked => rfl
  rw [markAcked_snd]
  by_cases hdur : call.durable = true
  · rw [if_pos hdur]
    have hcomp : (j.completions.map (stampAck call b)).filter (·.attemptId = a) =
        (j.completionsOf a).map (stampAck call b) :=
      filter_map_of_key (stampAck_attemptId call b) a _
    have hrows := rowsOf_filter j (·.attemptId ≠ b) a
    by_cases hb : b = a
    · subst hb
      have hnil : (j.rowsOf b).filter (·.attemptId ≠ b) = [] := by
        rw [rowsOf, filter_filter]
        simp
      rw [hnil] at hrows
      cases story with
      | unrecorded => exact ⟨by rw [completionsOf, hcomp, h.1]; rfl, hrows⟩
      | pending r =>
        obtain ⟨⟨c, hc, -⟩, -⟩ := h
        have hcb : c.attemptId = b := attemptId_of_mem (hc ▸ mem_singleton_self c)
        rw [show tell cfg b j (.markAcked call b) (.pending r) = .acked from if_pos ⟨rfl, hdur⟩]
        exact ⟨⟨_, by rw [completionsOf, hcomp, hc]; rfl, hcb ▸ isSome_stampAck call c⟩, hrows⟩
      | acked =>
        obtain ⟨⟨c, hc, -⟩, -⟩ := h
        have hcb : c.attemptId = b := attemptId_of_mem (hc ▸ mem_singleton_self c)
        exact ⟨⟨_, by rw [completionsOf, hcomp, hc]; rfl, hcb ▸ isSome_stampAck call c⟩, hrows⟩
    · rw [htell fun hc => hb hc.1]
      have hsame : (j.completionsOf a).map (stampAck call b) = j.completionsOf a := by
        calc (j.completionsOf a).map (stampAck call b)
          _ = (j.completionsOf a).map id :=
            map_congr_left fun c hc => stampAck_of_ne (attemptId_of_mem hc ▸ Ne.symm hb)
          _ = j.completionsOf a := map_id _
      have hkeep : (j.rowsOf a).filter (·.attemptId ≠ b) = j.rowsOf a := by
        refine filter_eq_self.mpr fun o ho => ?_
        rw [attemptId_of_mem_rows ho]
        exact decide_eq_true (Ne.symm hb)
      refine (tells_congr (j := j) ?_ ?_).mpr h
      · exact hcomp.trans hsame
      · exact hrows.trans hkeep
  · rw [if_neg hdur, htell fun hc => hdur hc.2]
    exact h

def backOff (seq attempts : Nat) (lastError : String) (nextAt : DateTime) (o : OutboxRow) :
    OutboxRow :=
  if o.seq = seq then
    { o with attempts := attempts, lastError := some lastError, nextAttemptAt := nextAt }
  else o

theorem backOff_keeps (seq attempts : Nat) (lastError : String) (nextAt : DateTime)
    (o : OutboxRow) :
    (backOff seq attempts lastError nextAt o).seq = o.seq ∧
    (backOff seq attempts lastError nextAt o).attemptId = o.attemptId ∧
    (backOff seq attempts lastError nextAt o).kind = o.kind ∧
    (backOff seq attempts lastError nextAt o).payloadJson = o.payloadJson := by
  unfold backOff
  split_ifs <;> exact ⟨rfl, rfl, rfl, rfl⟩

theorem recordOutboxFailure_cases (call : Call) (j : Journal) (seq : Nat) (lastError : String) :
    (j.recordOutboxFailure call seq lastError).2 = j ∨
      ∃ attempts nextAt, (j.recordOutboxFailure call seq lastError).2 =
        { j with outbox := j.outbox.map (backOff seq attempts lastError nextAt) } := by
  unfold recordOutboxFailure
  rcases txn_snd j call _ with heq | ⟨_, j', hfn, heq⟩
  · exact .inl heq
  · right
    rw [heq]
    split at hfn
    · cases hfn
    · split at hfn
      · cases hfn
      · rename_i row _ _ nextAt _
        cases hfn
        exact ⟨row.attempts + 1, nextAt, rfl⟩

theorem Tells.recordOutboxFailure (h : j.Tells a story) (call : Call) (seq : Nat)
    (lastError : String) :
    (j.recordOutboxFailure call seq lastError).2.Tells a story := by
  rcases recordOutboxFailure_cases call j seq lastError with heq | ⟨attempts, nextAt, heq⟩
  · rw [heq]
    exact h
  · rw [heq]
    have hkeep := backOff_keeps seq attempts lastError nextAt
    have hrows : (j.outbox.map (backOff seq attempts lastError nextAt)).filter (·.attemptId = a) =
        (j.rowsOf a).map (backOff seq attempts lastError nextAt) :=
      filter_map_of_key (fun o => (hkeep o).2.1) a j.outbox
    cases story with
    | unrecorded | acked => exact ⟨h.1, by rw [rowsOf, hrows, h.2]; rfl⟩
    | pending r =>
      obtain ⟨hcomp, o, ho, hkind, hpay⟩ := h
      refine ⟨hcomp, backOff seq attempts lastError nextAt o, by rw [rowsOf, hrows, ho]; rfl, ?_, ?_⟩
      · rw [(hkeep o).2.2.1, hkind]
      · rw [(hkeep o).2.2.2, hpay]

theorem cleanupRetention_keeps (cfg : JournalConfig) (call : Call) (j : Journal) (a : String) :
    ∃ (p : Completion → Bool) (q : OutboxRow → Bool),
      (j.cleanupRetention cfg call).2.completionsOf a = (j.completionsOf a).filter p ∧
      (j.cleanupRetention cfg call).2.rowsOf a = (j.rowsOf a).filter q ∧
      (∀ c, c.ackedAt = none → p c = true) ∧
      ∀ o, (∀ c ∈ j.completionsOf o.attemptId, c.ackedAt = none) → q o = true := by
  rcases txn_snd j call _ with heq | ⟨_, j', hfn, heq⟩
  · refine ⟨fun _ => true, fun _ => true, ?_, ?_, fun _ _ => rfl, fun _ _ => rfl⟩
    all_goals rw [Journal.cleanupRetention, heq, filter_true]
  · rw [Journal.cleanupRetention, heq]
    dsimp only at hfn
    split at hfn
    · rename_i auditCutoff _ _ _ _ _
      cases hfn
      refine ⟨_, _, completionsOf_filter .., rowsOf_filter .., ?_, ?_⟩
      · intro c hc
        simp [hc]
      · intro o ho
        rw [decide_eq_true_iff, any_eq_true]
        rintro ⟨c, hc, hco⟩
        obtain ⟨hmem, hold⟩ := mem_filter.mp hc
        have hunacked : c.ackedAt = none := ho c (mem_filter.mpr ⟨hmem, hco⟩)
        simp [hunacked] at hold
    · cases hfn

theorem Tells.cleanupRetention (h : j.Tells a story) (call : Call) :
    (j.cleanupRetention cfg call).2.Tells a (tell cfg a j (.cleanupRetention call) story) := by
  obtain ⟨p, q, hcomp, hrows, hp, hq⟩ := cleanupRetention_keeps cfg call j a
  cases story with
  | unrecorded =>
    refine ⟨by rw [hcomp, h.1]; rfl, by rw [hrows, h.2]; rfl⟩
  | pending r =>
    obtain ⟨⟨c, hc, hr, hunacked⟩, o, ho, hkind, hpay⟩ := h
    have hoa : o.attemptId = a := attemptId_of_mem_rows (ho ▸ mem_singleton_self o)
    have hqo : q o = true := hq o fun d hd => by
      rw [hoa, hc, mem_singleton] at hd
      rw [hd, hunacked]
    refine ⟨⟨c, ?_, hr, hunacked⟩, o, ?_, hkind, hpay⟩
    · rw [hcomp, hc, filter_cons, if_pos (hp c hunacked)]
      rfl
    · rw [hrows, ho, filter_cons, if_pos hqo]
      rfl
  | acked =>
    obtain ⟨⟨c, hc, hacked⟩, hempty⟩ := h
    have hnil : (j.cleanupRetention cfg call).2.rowsOf a = [] := by rw [hrows, hempty]; rfl
    have hkept : (j.cleanupRetention cfg call).2.completionsOf a = if p c then [c] else [] := by
      rw [hcomp, hc, filter_cons]
      rfl
    by_cases hswept : (j.cleanupRetention cfg call).2.completionsOf a = []
    · rw [show tell cfg a j (.cleanupRetention call) .acked = .unrecorded from if_pos hswept]
      exact ⟨hswept, hnil⟩
    · rw [show tell cfg a j (.cleanupRetention call) .acked = .acked from if_neg hswept]
      refine ⟨⟨c, ?_, hacked⟩, hnil⟩
      by_cases hpc : p c = true
      · rw [hkept, if_pos hpc]
      · rw [hkept, if_neg hpc] at hswept
        exact absurd rfl hswept

/-! ## Runs -/

structure Tracked where
  journal : Journal
  story : Story

def Tracked.step (cfg : JournalConfig) (digests : Digests) (attemptId : String) (t : Tracked)
    (op : JournalOp) : Tracked :=
  ⟨(t.journal.step cfg digests op).2, tell cfg attemptId t.journal op t.story⟩

theorem Tells.step (cfg : JournalConfig) (digests : Digests) (h : j.Tells a story)
    (hop : op.bypasses = false) : (j.step cfg digests op).2.Tells a (tell cfg a j op story) := by
  -- a call the story does not mention leaves it as it was
  have hidle : ∀ {op : JournalOp} {j' : Journal}, tell cfg a j op story = story →
      j'.Tells a story → j'.Tells a (tell cfg a j op story) := by
    intro op j' htell h'
    rw [htell]
    exact h'
  by_cases hi : op.idle = true
  · refine hidle ?_ ((idle_step cfg digests j hi).post.tells h)
    cases story <;> cases op <;> first | rfl | cases hi
  cases op with
  | recordCompletion | enqueueOutbox => cases hop
  | recordCompletionAndEnqueue call b resultJson runId =>
    exact h.recordCompletionAndEnqueue call b resultJson runId
  | markAcked call b => exact h.markAcked call b
  | cleanupRetention call => exact h.cleanupRetention call
  | recordOutboxFailure call seq lastError =>
    exact hidle (by cases story <;> rfl) (h.recordOutboxFailure call seq lastError)
  | respoolUnackedCompletions call =>
    refine hidle (by cases story <;> rfl) ?_
    rw [show (j.step cfg digests (.respoolUnackedCompletions call)).2 =
      if call.durable then (j.respoolCompletions call none).2 else j from txn_ok call rfl]
    split_ifs
    · exact h.respool call none
    · exact h
  | _ => exact absurd rfl hi

/-- After any calls on a fresh journal, none of them filling the outbox by hand: a pending
completion has exactly one outbox row, of kind `run-complete` and with the payload of its first
call; an acked one has none, and none comes back before the sweep that removes the completion
itself. -/
theorem outbox_follows_story (cfg : JournalConfig) (digests : Digests) (j : Journal)
    (hcompletions : j.completions = []) (houtbox : j.outbox = []) (attemptId : String)
    (ops : List JournalOp) (hops : ∀ op ∈ ops, op.bypasses = false) :
    let t := Run.exec (Tracked.step cfg digests attemptId) ⟨j, .unrecorded⟩ ops
    t.journal = Run.after (Journal.step cfg digests) j ops ∧ t.journal.Tells attemptId t.story := by
  constructor
  · suffices hproj : ∀ (t : Tracked), (Run.exec (Tracked.step cfg digests attemptId) t ops).journal =
        Run.after (Journal.step cfg digests) t.journal ops from hproj ⟨j, .unrecorded⟩
    clear hops
    induction ops with
    | nil => intro t; rfl
    | cons op ops ih => intro t; exact ih (t.step cfg digests attemptId op)
  · refine Run.exec_invariant_mem (I := fun t : Tracked => t.journal.Tells attemptId t.story)
      (fun t op hop h => h.step cfg digests (hops op hop)) ?_
    exact ⟨by rw [completionsOf, hcompletions]; rfl, by rw [rowsOf, houtbox]; rfl⟩

def callAt (us : Int) (h : -62135596800 * 1000000 ≤ us := by decide)
    (h' : us < 253402300800 * 1000000 := by decide) : Call :=
  { now := ⟨us, h, h'⟩, clock := ⟨us, h, h'⟩, stamp := ⟨us, h, h'⟩ }

theorem outbox_follows_story_duplicate :
    let cfg : JournalConfig := {}
    let digests : Digests := ⟨fun _ p => p, fun token => token⟩
    let ops : List JournalOp :=
      [.recordCompletionAndEnqueue (callAt 0) "a1" "first" (some "r"),
        .recordCompletionAndEnqueue (callAt 1) "a1" "second" (some "r"),
        .recordOutboxFailure (callAt 2) 1 "503", .restart, .respoolUnackedCompletions (callAt 3)]
    ∃ o, (Run.after (step cfg digests) {} ops).rowsOf "a1" = [o] ∧ o.kind = .runComplete ∧
      o.payloadJson = "first" := by
  intro cfg digests ops
  obtain ⟨hjournal, htells⟩ := outbox_follows_story cfg digests {} rfl rfl "a1" ops (by decide)
  rw [show (Run.exec (Tracked.step cfg digests "a1") ⟨{}, .unrecorded⟩ ops).story = .pending "first"
    by decide +kernel, hjournal] at htells
  exact htells.2

/-- An acked completion, swept a week later, is recorded and queued again by one more duplicate
call, with that call's payload. -/
theorem outbox_row_after_sweep :
    let cfg : JournalConfig := {}
    let digests : Digests := ⟨fun _ p => p, fun token => token⟩
    let before : List JournalOp :=
      [.recordCompletionAndEnqueue (callAt 0) "a1" "first" (some "r"), .markAcked (callAt 1) "a1"]
    let later : List JournalOp :=
      [.cleanupRetention (callAt 604800000001),
        .recordCompletionAndEnqueue (callAt 604800000002) "a1" "second" (some "r")]
    ((Run.after (step cfg digests) {} before).completionsOf "a1").map (·.ackedAt.isSome) = [true] ∧
    (Run.after (step cfg digests) {} before).rowsOf "a1" = [] ∧
    ((Run.after (step cfg digests) {} (before ++ later)).rowsOf "a1").map (·.payloadJson) =
      ["second"] := by
  decide +kernel

end Journal
end Tram.Agent
