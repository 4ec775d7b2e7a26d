import Tram.Agent.Journal
import Tram.Lib.Run

/-! # Admission happens at most once

An authorization row is only ever written in the transaction that inserts the reservation, and
reservations are never deleted. A tombstone is deleted only for an attempt that has an authorization
row. So a reservation shuts an attempt for good, and so does a tombstone that came before it. -/

namespace Tram.Agent

open List JournalReply Run

namespace Journal

/-! ## What a step can do -/

def Reserved (j : Journal) (attemptId : String) : Prop :=
  ∃ r ∈ j.reservations, r.attemptId = attemptId

def Tombstoned (j : Journal) (attemptId : String) : Prop :=
  ∃ t ∈ j.tombstones, t.attemptId = attemptId

def HasAuthorization (j : Journal) (attemptId : String) : Prop :=
  ∃ a ∈ j.authorizations, a.attemptId = attemptId

structure Advances (j j' : Journal) : Prop where
  epoch : j.sessionEpoch ≤ j'.sessionEpoch
  watermark : ∀ e w, j.watermarks.lookup e = some w → ∃ w', j'.watermarks.lookup e = some w' ∧ w ≤ w'

/-- A step that admits nothing: no reservation comes or goes, no authorization comes, and a
tombstone goes only for an attempt that has an authorization. -/
structure Quiet (j j' : Journal) : Prop where
  advances : Advances j j'
  reserved : ∀ a, j'.Reserved a ↔ j.Reserved a
  authorizations : ∀ r ∈ j'.authorizations, r ∈ j.authorizations
  tombstoned : ∀ a, j.Tombstoned a → j'.Tombstoned a ∨ j.HasAuthorization a

structure Admits (d : Authorized) (j j' : Journal) : Prop where
  advances : Advances j j'
  notReserved : ¬j.Reserved d.attemptId
  notTombstoned : ¬j.Tombstoned d.attemptId
  reserved : ∀ a, j'.Reserved a ↔ j.Reserved a ∨ a = d.attemptId
  authorizations : ∀ r ∈ j'.authorizations, r ∈ j.authorizations ∨
    (r.attemptId = d.attemptId ∧ r.tokenHash = d.tokenHash ∧ r.expiresAt = d.expiresAt)
  tombstones : j'.tombstones = j.tombstones
  sameEpoch : j'.sessionEpoch = j.sessionEpoch

variable {j j' : Journal} {α : Type} {call : Call} {d : Authorized}
  {fn : Journal → Except JournalError (α × Journal)}

theorem Advances.congr {j₁ : Journal} (h : Advances j j₁) (he : j'.sessionEpoch = j₁.sessionEpoch)
    (hw : j'.watermarks = j₁.watermarks) :
    Advances j j' :=
  ⟨he ▸ h.epoch, fun e w => by rw [hw]; exact h.watermark e w⟩

theorem Advances.of_eq (he : j'.sessionEpoch = j.sessionEpoch) (hw : j'.watermarks = j.watermarks) :
    Advances j j' :=
  Advances.congr ⟨le_rfl, fun _ w h => ⟨w, h, le_rfl⟩⟩ he hw

theorem Advances.trans {j₁ j₂ j₃ : Journal} (h₁ : Advances j₁ j₂) (h₂ : Advances j₂ j₃) :
    Advances j₁ j₃ := by
  refine ⟨h₁.epoch.trans h₂.epoch, fun e w hw => ?_⟩
  obtain ⟨w₂, hw₂, hle₂⟩ := h₁.watermark e w hw
  obtain ⟨w₃, hw₃, hle₃⟩ := h₂.watermark e w₂ hw₂
  exact ⟨w₃, hw₃, hle₂.trans hle₃⟩

theorem Quiet.of_eq (he : j'.sessionEpoch = j.sessionEpoch) (hw : j'.watermarks = j.watermarks)
    (ha : j'.authorizations = j.authorizations) (ht : j'.tombstones = j.tombstones)
    (hr : ∀ a, j'.Reserved a ↔ j.Reserved a) : Quiet j j' :=
  ⟨.of_eq he hw, hr, fun r h => by rwa [ha] at h, fun a h => .inl (by rwa [Tombstoned, ht])⟩

theorem Quiet.refl (j : Journal) : Quiet j j := .of_eq rfl rfl rfl rfl fun _ => Iff.rfl

theorem advances_advanceWatermark (j : Journal) (e : Nat) (ms : Int) :
    Advances j (j.advanceWatermark e ms) := by
  refine ⟨le_rfl, fun e' w hw => ?_⟩
  simp only [advanceWatermark, Dict.lookup_insert_ite]
  split_ifs with he
  · subst he
    rw [hw]
    exact ⟨_, rfl, le_max_left w ms⟩
  · exact ⟨w, hw, le_rfl⟩

theorem lookup_advanceWatermark (j : Journal) (e : Nat) (ms : Int) :
    ∃ w, (j.advanceWatermark e ms).watermarks.lookup e = some w ∧ ms ≤ w := by
  simp only [advanceWatermark, AList.lookup_insert]
  cases j.watermarks.lookup e with
  | none => exact ⟨ms, rfl, le_rfl⟩
  | some w => exact ⟨_, rfl, le_max_right w ms⟩

theorem finish_snd (j : Journal) (call : Call) (t : Txn α) :
    (j.finish call t).2 = j ∨ ∃ a j', t = .ok (a, some j') ∧ (j.finish call t).2 = j' := by
  unfold finish
  cases t with
  | error e => exact .inl rfl
  | ok r =>
    obtain ⟨a, _ | j'⟩ := r
    · cases call.fate <;> exact .inl rfl
    · cases call.fate
      · exact .inr ⟨a, j', rfl, rfl⟩
      · exact .inl rfl
      · exact .inr ⟨a, j', rfl, rfl⟩

theorem txn_snd (j : Journal) (call : Call) (fn : Journal → Except JournalError (α × Journal)) :
    (j.txn call fn).2 = j ∨ ∃ a j', fn j = .ok (a, j') ∧ (j.txn call fn).2 = j' := by
  unfold txn
  split_ifs
  · rcases finish_snd j call ((fn j).map fun r => (r.1, some r.2)) with h | ⟨a, j', ht, h⟩
    · exact .inl h
    · cases hf : fn j with
      | error e => rw [hf] at ht; cases ht
      | ok r =>
        rw [hf] at ht
        cases ht
        rw [hf] at h
        exact .inr ⟨r.1, r.2, rfl, h⟩
  · exact .inl rfl

theorem txn_induction {P : Journal → Prop} (hj : P j) (h : ∀ a j', fn j = .ok (a, j') → P j') :
    P (j.txn call fn).2 := by
  rcases txn_snd j call fn with heq | ⟨a, j', hfn, heq⟩ <;> rw [heq]
  · exact hj
  · exact h a j' hfn

theorem Quiet.of_txn (h : ∀ a j', fn j = .ok (a, j') → Quiet j j') : Quiet j (j.txn call fn).2 :=
  txn_induction (.refl j) h

theorem reserved_map {f : Reservation → Reservation} (hf : ∀ r, (f r).attemptId = r.attemptId)
    (a : String) :
    (∃ r ∈ j.reservations.map f, r.attemptId = a) ↔ j.Reserved a := by
  simp [Reserved, hf]

theorem quiet_markRunning (j : Journal) (call : Call) (a : String) :
    Quiet j (j.markRunning call a).2 := by
  refine .of_txn fun b j' h => ?_
  cases h
  refine .of_eq rfl rfl rfl rfl (reserved_map fun r => ?_)
  split_ifs <;> rfl

theorem quiet_markInterruptedOnBoot (j : Journal) (call : Call) :
    Quiet j (j.markInterruptedOnBoot call).2 := by
  refine .of_txn fun b j' h => ?_
  cases h
  refine .of_eq rfl rfl rfl rfl (reserved_map fun r => ?_)
  split_ifs <;> rfl

theorem quiet_recordTombstone (j : Journal) (call : Call) (a runId reason : String) :
    Quiet j (j.recordTombstone call a runId reason).2 := by
  refine .of_txn fun b j' h => ?_
  cases h
  refine ⟨.of_eq rfl rfl, fun _ => Iff.rfl, fun _ h => h, fun a' ⟨t, ht, hta⟩ => .inl ?_⟩
  by_cases h : t.attemptId = a
  · exact ⟨_, mem_append_right _ (mem_singleton.mpr rfl), by simp [← hta, h]⟩
  · exact ⟨t, mem_append_left _ (mem_filter.mpr ⟨ht, by simpa using h⟩), hta⟩

theorem quiet_recordCompletion (enqueue : Bool) (j : Journal) (call : Call)
    (a resultJson : String) (runId : Option String) :
    Quiet j (recordCompletionWith enqueue call j a resultJson runId).2 := by
  refine .of_txn fun b j' h => ?_
  split at h
  · cases h
  · cases h
    have hmap : ∀ r : Reservation, (if r.attemptId = a then { r with state := .completed } else r :
        Reservation).attemptId = r.attemptId := fun r => by split_ifs <;> rfl
    cases enqueue <;> exact .of_eq rfl rfl rfl rfl (reserved_map hmap)

theorem quiet_recordOutboxFailure (j : Journal) (call : Call) (seq : Nat) (lastError : String) :
    Quiet j (j.recordOutboxFailure call seq lastError).2 := by
  refine .of_txn fun b j' h => ?_
  split at h
  · cases h
  · split at h
    · cases h
    · cases h; exact .of_eq rfl rfl rfl rfl fun _ => Iff.rfl

theorem quiet_advanceSessionEpoch (j : Journal) (call : Call) :
    Quiet j (j.advanceSessionEpoch call).2 := by
  refine .of_txn fun b j' h => ?_
  cases h
  exact ⟨⟨Nat.le_succ _, fun _ w h => ⟨w, h, le_rfl⟩⟩, fun _ => Iff.rfl, fun _ h => h, fun _ => .inl⟩

theorem quiet_recoverClockLowering (j : Journal) (call : Call) :
    Quiet j (j.recoverClockLowering call).2 := by
  refine .of_txn fun b j' h => ?_
  cases h
  exact ⟨⟨Nat.le_succ _, (advances_advanceWatermark j _ _).watermark⟩, fun _ => Iff.rfl,
    fun _ h => h, fun _ => .inl⟩

theorem quiet_gcExpired (cfg : JournalConfig) (j : Journal) (call : Call) :
    Quiet j (j.gcExpired cfg call).2 := by
  refine .of_txn fun b j' h => ?_
  split at h
  · cases h
  · cases h
    refine ⟨(advances_advanceWatermark j _ _).congr rfl rfl, fun _ => Iff.rfl,
      fun r hr => (mem_filter.mp hr).1, fun a ⟨t, ht, hta⟩ => ?_⟩
    by_cases hdead : ∃ r ∈ j.authorizations, r.attemptId = t.attemptId
    · obtain ⟨r, hr, hra⟩ := hdead
      exact .inr ⟨r, hr, hra.trans hta⟩
    · refine .inl ⟨t, mem_filter.mpr ⟨ht, ?_⟩, hta⟩
      push Not at hdead
      simpa [advanceWatermark] using fun r hr _ => hdead r hr

theorem quiet_cleanupRetention (cfg : JournalConfig) (j : Journal) (call : Call) :
    Quiet j (j.cleanupRetention cfg call).2 := by
  refine .of_txn fun b j' h => ?_
  split at h
  · cases h
    refine ⟨(advances_advanceWatermark j _ _).congr rfl rfl, fun _ => Iff.rfl, fun _ hr => hr,
      fun a ⟨t, ht, hta⟩ => ?_⟩
    by_cases hauth : ∃ r ∈ j.authorizations, r.attemptId = t.attemptId
    · obtain ⟨r, hr, hra⟩ := hauth
      exact .inr ⟨r, hr, hra.trans hta⟩
    · refine .inl ⟨t, mem_filter.mpr ⟨ht, ?_⟩, hta⟩
      push Not at hauth
      simpa [advanceWatermark] using .inr fun r hr hra => absurd hra (hauth r hr)
  · cases h

/-! ## Admission, step by step -/

theorem reservation?_eq_none {a : String} : j.reservation? a = none ↔ ¬j.Reserved a := by
  simp [reservation?, Reserved]

theorem tombstone?_eq_none {a : String} : j.tombstone? a = none ↔ ¬j.Tombstoned a := by
  simp [tombstone?, Tombstoned]

theorem insertAuthorization_eq (h : j.insertAuthorization d = some j') :
    j'.reservations = j.reservations ∧ j'.completions = j.completions ∧ j'.outbox = j.outbox ∧
      j'.tombstones = j.tombstones ∧ j'.sessionEpoch = j.sessionEpoch ∧ j'.watermarks = j.watermarks ∧
      ∀ r ∈ j'.authorizations, r ∈ j.authorizations ∨
        (r.attemptId = d.attemptId ∧ r.tokenHash = d.tokenHash ∧ r.expiresAt = d.expiresAt) := by
  unfold insertAuthorization at h
  split_ifs at h
  · cases h; exact ⟨rfl, rfl, rfl, rfl, rfl, rfl, fun r hr => .inl hr⟩
  · cases h
    exact ⟨rfl, rfl, rfl, rfl, rfl, rfl, forall_mem_concat (fun _ => .inl) (.inr ⟨rfl, rfl, rfl⟩)⟩

section

variable {cfg : JournalConfig} {pipelineName : String} {r : AdmissionResult}

/-- The admission transaction commits exactly when it answers `admitted`, and then it was neither
reserved nor revoked. -/
theorem admitTxn_commit (h : admitTxn cfg call j d pipelineName = .ok (r, some j')) :
    r = .admitted d.attemptId ∧ Admits d j j' ∧ j'.completions = j.completions ∧
      j'.outbox = j.outbox ∧ j'.reservations = j.reservations ++ [newReservation d pipelineName call] := by
  unfold admitTxn at h
  dsimp only at h
  split_ifs at h
  split at h
  · cases h
  rename_i j₁ hins
  obtain ⟨hres, hcomp, hout, htomb, hep, hwm, hauth⟩ := insertAuthorization_eq hins
  split at h
  · cases h
  rename_i htomb?
  split at h
  · split_ifs at h
    cases h
  rename_i hres?
  cases h
  rw [tombstone?_eq_none, Tombstoned, htomb] at htomb?
  rw [reservation?_eq_none, Reserved, hres] at hres?
  refine ⟨rfl, ⟨(advances_advanceWatermark j _ _).congr hep hwm, hres?, htomb?, fun a => ?_, hauth,
    htomb, hep⟩, hcomp, hout, congrArg (· ++ _) hres⟩
  simp only [Reserved, mem_append, mem_singleton, hres]
  constructor
  · rintro ⟨r, hr | rfl, ha⟩
    · exact .inl ⟨r, hr, ha⟩
    · exact .inr ha.symm
  · rintro (⟨r, hr, ha⟩ | rfl)
    · exact ⟨r, .inl hr, ha⟩
    · exact ⟨_, .inr rfl, rfl⟩

theorem admitTxn_rollback (h : admitTxn cfg call j d pipelineName = .ok (r, none)) :
    ∀ a, r ≠ .admitted a := by
  unfold admitTxn at h
  dsimp only at h
  split_ifs at h
  split at h
  · cases h
  split at h
  · cases h; exact nofun
  split at h
  · split_ifs at h
    cases h; exact nofun
  · cases h

end

/-- `admit` changes nothing and admits nothing, or admits its decision; in the second case the
caller is told so, unless the answer is lost. -/
theorem admit_cases (cfg : JournalConfig) (call : Call) (j : Journal) (auth : AuthorizationDecision)
    (pipelineName : String) :
    ((j.admitAttempt cfg call auth pipelineName).2 = j ∧
      ∀ a, (j.admitAttempt cfg call auth pipelineName).1 ≠ .ok (.admitted a)) ∨
    ∃ d, auth.authorized? = some d ∧ Admits d j (j.admitAttempt cfg call auth pipelineName).2 ∧
      ∀ a, (j.admitAttempt cfg call auth pipelineName).1 = .ok (.admitted a) → a = d.attemptId := by
  unfold admitAttempt
  by_cases hv : auth.valid = true
  swap
  · rw [if_pos hv]; exact .inl ⟨rfl, nofun⟩
  rw [if_neg (not_not.mpr hv)]
  cases hd : auth.authorized? with
  | none => exact .inl ⟨rfl, nofun⟩
  | some d =>
  dsimp only
  split_ifs
  · exact .inl ⟨rfl, nofun⟩
  unfold finish
  cases ht : admitTxn cfg call j d pipelineName with
  | error e => exact .inl ⟨rfl, nofun⟩
  | ok rj =>
    obtain ⟨r, _ | j'⟩ := rj
    · have hr := admitTxn_rollback ht
      cases call.fate
      · exact .inl ⟨rfl, fun a h => hr a (Except.ok.inj h)⟩
      · exact .inl ⟨rfl, nofun⟩
      · exact .inl ⟨rfl, nofun⟩
    · obtain ⟨rfl, hadm, -⟩ := admitTxn_commit ht
      cases call.fate
      · refine .inr ⟨d, rfl, hadm, fun a h => ?_⟩
        injection h with h; injection h with h; exact h.symm
      · exact .inl ⟨rfl, nofun⟩
      · exact .inr ⟨d, rfl, hadm, nofun⟩

end Journal

def JournalReply.admits (attemptId : String) : JournalReply → Bool
  | .admission (.ok (.admitted a)) => a = attemptId
  | _ => false

/-- The decision is what the validator made of a token: its attempt, its hash, its expiry. -/
def Authentic (digests : Digests) (token : String) (d : Authorized) : Prop :=
  ∃ req claims, AuthTokens.validate digests req token = .valid claims ∧
    d.attemptId = claims.attemptId ∧ d.tokenHash = digests.sha256 token ∧
    d.expiresAt.us = (claims.issuedAtUnix + claims.ttlS) * 1000000

def JournalOp.Decides (digests : Digests) (d : Authorized) : JournalOp → Prop
  | .admitAttempt _ auth _ => auth.authorized? = some d
  | .validateAndAdmit _ token _ => Authentic digests token d
  | _ => False

namespace Journal

theorem validateAndAdmit_cases (cfg : JournalConfig) (digests : Digests) (call : Call) (j : Journal)
    (token : String) (args : Presented) :
    ((j.validateAndAdmit cfg digests call token args).2 = j ∧
      ∀ a, (j.validateAndAdmit cfg digests call token args).1 ≠ .ok (.admitted a)) ∨
    ∃ d, Authentic digests token d ∧ Admits d j (j.validateAndAdmit cfg digests call token args).2 ∧
      ∀ a, (j.validateAndAdmit cfg digests call token args).1 = .ok (.admitted a) →
        a = d.attemptId := by
  unfold validateAndAdmit
  by_cases hopen : call.opens = true
  swap
  · rw [if_pos hopen]; exact .inl ⟨rfl, nofun⟩
  rw [if_neg (not_not.mpr hopen)]
  cases hval : AuthTokens.validate digests (args.request cfg call) token with
  | typeError | invalid => exact .inl ⟨rfl, nofun⟩
  | valid claims =>
    dsimp only
    cases j.retired? cfg digests token claims with
    | some reason => exact .inl ⟨rfl, nofun⟩
    | none =>
      cases DateTime.fromTimestamp? claims.issuedAtUnix with
      | none => exact .inl ⟨rfl, nofun⟩
      | some issuedAt =>
        cases hexp : DateTime.fromTimestamp? (claims.issuedAtUnix + claims.ttlS) with
        | none => exact .inl ⟨rfl, nofun⟩
        | some expiresAt =>
          refine (admit_cases cfg call j _ args.pipelineName).imp_right fun ⟨d, hd, hadm, hrep⟩ => ?_
          refine ⟨d, ⟨_, claims, hval, ?_⟩, hadm, hrep⟩
          cases hd
          exact ⟨rfl, rfl, DateTime.us_of_ofUs? hexp⟩

/-- Everything a step can do to reservations, authorizations, tombstones and watermarks. -/
theorem step_cases (cfg : JournalConfig) (digests : Digests) (j : Journal) (op : JournalOp) :
    (Quiet j (j.step cfg digests op).2 ∧ ∀ a, (j.step cfg digests op).1.admits a = false) ∨
    ∃ d, op.Decides digests d ∧ Admits d j (j.step cfg digests op).2 ∧
      ∀ a, (j.step cfg digests op).1.admits a = true → a = d.attemptId := by
  -- an admission reply that is not `admitted` admits nothing
  have hno : ∀ r : Except JournalError AdmissionResult, (∀ a, r ≠ .ok (.admitted a)) →
      ∀ a, (admission r).admits a = false := by
    intro r hr a
    unfold admits
    split
    · rename_i heq; cases heq; exact absurd rfl (hr _)
    · rfl
  have hyes : ∀ (r : Except JournalError AdmissionResult) (b : String),
      (∀ a, r = .ok (.admitted a) → a = b) →
      ∀ a, (admission r).admits a = true → a = b := by
    intro r b hr a ha
    unfold admits at ha
    split at ha
    · rename_i heq
      cases heq
      exact (of_decide_eq_true ha) ▸ hr _ rfl
    · cases ha
  cases op with
  | admitAttempt call auth pipelineName =>
    rcases admit_cases cfg call j auth pipelineName with ⟨h1, h2⟩ | ⟨d, hd, hadm, hrep⟩
    · exact .inl ⟨by simp only [step, h1]; exact .refl j, hno _ h2⟩
    · exact .inr ⟨d, hd, hadm, hyes _ _ hrep⟩
  | validateAndAdmit call token args =>
    rcases validateAndAdmit_cases cfg digests call j token args with ⟨h1, h2⟩ | ⟨d, hd, hadm, hrep⟩
    · exact .inl ⟨by simp only [step, h1]; exact .refl j, hno _ h2⟩
    · exact .inr ⟨d, hd, hadm, hyes _ _ hrep⟩
  | markRunning call a => exact .inl ⟨quiet_markRunning j call a, fun _ => rfl⟩
  | recordTombstone call a runId reason =>
    exact .inl ⟨quiet_recordTombstone j call a runId reason, fun _ => rfl⟩
  | recordCompletion call a resultJson runId =>
    exact .inl ⟨quiet_recordCompletion false j call a resultJson runId, fun _ => rfl⟩
  | recordCompletionAndEnqueue call a resultJson runId =>
    exact .inl ⟨quiet_recordCompletion true j call a resultJson runId, fun _ => rfl⟩
  | respoolUnackedCompletions | enqueueOutbox | markAcked =>
    refine .inl ⟨.of_txn fun b j' h => ?_, fun _ => rfl⟩
    cases h; exact .of_eq rfl rfl rfl rfl fun _ => Iff.rfl
  | recordOutboxFailure call seq lastError =>
    exact .inl ⟨quiet_recordOutboxFailure j call seq lastError, fun _ => rfl⟩
  | markInterruptedOnBoot call => exact .inl ⟨quiet_markInterruptedOnBoot j call, fun _ => rfl⟩
  | advanceSessionEpoch call => exact .inl ⟨quiet_advanceSessionEpoch j call, fun _ => rfl⟩
  | recoverClockLowering call => exact .inl ⟨quiet_recoverClockLowering j call, fun _ => rfl⟩
  | gcExpired call => exact .inl ⟨quiet_gcExpired cfg j call, fun _ => rfl⟩
  | cleanupRetention call => exact .inl ⟨quiet_cleanupRetention cfg j call, fun _ => rfl⟩
  | restart => exact .inl ⟨.refl j, fun _ => rfl⟩

/-! ## The latches -/

variable {cfg : JournalConfig} {digests : Digests}

def AuthorizationsReserved (j : Journal) : Prop := ∀ r ∈ j.authorizations, j.Reserved r.attemptId

theorem step_authorizationsReserved (j : Journal) (op : JournalOp) (h : j.AuthorizationsReserved) :
    (j.step cfg digests op).2.AuthorizationsReserved := by
  intro r hr
  rcases step_cases cfg digests j op with ⟨hq, -⟩ | ⟨d, -, hadm, -⟩
  · exact (hq.reserved _).mpr (h r (hq.authorizations r hr))
  · rcases hadm.authorizations r hr with h1 | ⟨h1, -⟩
    · exact (hadm.reserved _).mpr (.inl (h r h1))
    · exact (hadm.reserved _).mpr (.inr h1)

/-- Reserved for good, or revoked by a tombstone that nothing may delete. -/
def Shut (a : String) (j : Journal) : Prop :=
  j.Reserved a ∨ (j.Tombstoned a ∧ ¬j.HasAuthorization a)

section

variable (a : String) (j : Journal) (op : JournalOp)

theorem step_shut (h : Shut a j) : Shut a (j.step cfg digests op).2 := by
  rcases step_cases cfg digests j op with ⟨hq, -⟩ | ⟨d, -, hadm, -⟩
  · rcases h with h | ⟨ht, hn⟩
    · exact .inl ((hq.reserved a).mpr h)
    · refine .inr ⟨(hq.tombstoned a ht).resolve_right hn, fun ⟨r, hr, hra⟩ => ?_⟩
      exact hn ⟨r, hq.authorizations r hr, hra⟩
  · rcases h with h | ⟨ht, hn⟩
    · exact .inl ((hadm.reserved a).mpr (.inl h))
    · refine .inr ⟨by rwa [Tombstoned, hadm.tombstones], fun ⟨r, hr, hra⟩ => ?_⟩
      rcases hadm.authorizations r hr with h1 | ⟨h1, -⟩
      · exact hn ⟨r, h1, hra⟩
      · exact hadm.notTombstoned (by rw [← h1, hra]; exact ht)

theorem not_admits_of_shut (h : Shut a j) : (j.step cfg digests op).1.admits a = false := by
  rcases step_cases cfg digests j op with ⟨-, hno⟩ | ⟨d, -, hadm, hrep⟩
  · exact hno a
  · by_contra hne
    obtain rfl := hrep a (by simpa using hne)
    rcases h with h | ⟨h, -⟩
    · exact hadm.notReserved h
    · exact hadm.notTombstoned h

theorem shut_of_admits (h : (j.step cfg digests op).1.admits a = true) :
    Shut a (j.step cfg digests op).2 := by
  rcases step_cases cfg digests j op with ⟨-, hno⟩ | ⟨d, -, hadm, hrep⟩
  · rw [hno a] at h; cases h
  · obtain rfl := hrep a h
    exact .inl ((hadm.reserved _).mpr (.inr rfl))

end

theorem shut_of_recordTombstone {j : Journal} (hj : j.AuthorizationsReserved) (call : Call)
    (a runId reason : String) (hopen : call.opens = true) (hfate : call.fate ≠ .rollsBack) :
    Shut a (j.step cfg digests (.recordTombstone call a runId reason)).2 := by
  have hafter : (j.step cfg digests (.recordTombstone call a runId reason)).2 = { j with
      tombstones := j.tombstones.filter (·.attemptId ≠ a) ++
        [⟨a, runId, reason, call.stamp, j.sessionEpoch⟩] } := by
    simp only [step, plain, recordTombstone, txn, if_pos hopen, finish, Except.map]
    cases hf : call.fate with
    | commits => rfl
    | rollsBack => exact absurd hf hfate
    | loses => rfl
  rw [hafter]
  by_cases hres : j.Reserved a
  · exact .inl hres
  · refine .inr ⟨⟨_, mem_append_right _ (mem_singleton.mpr rfl), rfl⟩, ?_⟩
    rintro ⟨r, hr, hra⟩
    exact hres (hra ▸ hj r hr)

/-- Whatever sequence of operations a fresh journal goes through, with any clocks, failures and
restarts: an attempt is answered `admitted` at most once, and never after a committed tombstone of
it, collected or not. -/
theorem admitted_at_most_once (cfg : JournalConfig) (digests : Digests) (a : String) :
    (∀ ops, (replies (step cfg digests) {} ops).countP (·.admits a) ≤ 1) ∧
    ∀ before call runId reason later, call.opens = true → call.fate ≠ .rollsBack →
      ∀ r ∈ Run.replies (step cfg digests) (Run.after (step cfg digests) {}
        (before ++ [.recordTombstone call a runId reason])) later, r.admits a = false := by
  refine ⟨fun ops => Run.latch_once (P := Shut a) (not_admits_of_shut a) (step_shut a)
    (shut_of_admits a) {} ops, fun before call runId reason later hopen hfate => ?_⟩
  refine latch_never (P := Shut a) (not_admits_of_shut a) (step_shut a) ?_ later
  have hinv : (after (step cfg digests) {} before).AuthorizationsReserved :=
    exec_invariant (I := AuthorizationsReserved) step_authorizationsReserved
      (fun r hr => absurd hr not_mem_nil) before
  rw [Run.after, Run.exec_append]
  exact shut_of_recordTombstone hinv call a runId reason hopen hfate

theorem admitted_at_most_once_revoked_first :
    let t : DateTime := ⟨0, by decide, by decide⟩
    let call : Call := { now := t, clock := t, stamp := t }
    let cfg : JournalConfig := {}
    let digests : Digests := ⟨fun _ p => p, fun token => token⟩
    let decision : AuthorizationDecision :=
      ⟨true, none, some "r-a1", some "r", some 1, some "0", some "s", some 1, some "h", some t, some t⟩
    (replies (step cfg digests) {} [.admitAttempt call decision "p"]).map (·.admits "r-a1") = [true] ∧
    ∀ r ∈ replies (step cfg digests) (after (step cfg digests) {}
        ([] ++ [.recordTombstone call "r-a1" "r" "stop"]))
        [.gcExpired call, .admitAttempt call decision "p"], r.admits "r-a1" = false := by
  intro t call cfg digests decision
  exact ⟨by decide +kernel, (admitted_at_most_once cfg digests "r-a1").2 [] call "r" "stop" _ rfl
    (by decide)⟩

/-- Whatever a journal goes through, its epoch and its watermarks never move back, and a reserved
attempt stays reserved. -/
theorem journal_never_forgets (j : Journal) (ops : List JournalOp) :
    let j' := after (step cfg digests) j ops
    Advances j j' ∧ ∀ a, j.Reserved a → j'.Reserved a := by
  refine exec_invariant (I := fun j' => Advances j j' ∧ ∀ a, j.Reserved a → j'.Reserved a)
    (fun j' op h => ?_) ⟨.of_eq rfl rfl, fun _ => id⟩ ops
  rcases step_cases cfg digests j' op with ⟨hq, -⟩ | ⟨d, -, hadm, -⟩
  · exact ⟨h.1.trans hq.advances, fun a ha => (hq.reserved a).mpr (h.2 a ha)⟩
  · exact ⟨h.1.trans hadm.advances, fun a ha => (hadm.reserved a).mpr (.inl (h.2 a ha))⟩

end Journal
end Tram.Agent
