import Tram.Lib.Run
import Tram.Persistence.Ledger

/-! # Claims are atomic and exclude each other

The transactions of the ledger as one machine, in any order and with any arguments. A claim that
succeeds finds the guard free and leaves it held, and no transaction but a release frees a guard:
the guard is a latch that `CLAIMED` shuts. -/

namespace Tram.Ledger

open ClaimRequest

@[simp] theorem holder?_insertGuard (l : Ledger) (guardKey key : String) (kind : GuardKind) :
    (l.insertGuard guardKey kind).holder? key = l.holder? key := by
  simp only [holder?, insertGuard, Dict.lookup_setdefault]
  split_ifs with h
  · subst h
    cases l.guards.lookup key <;> rfl
  · rfl

theorem acquireGuard_cases (l : Ledger) (guardKey : String) (h : Holder) :
    (∃ guards', l.acquireGuard guardKey h = (1, { l with guards := guards' }) ∧
      l.holder? guardKey = none ∧
      ∀ key, (guards'.lookup key).bind (·.holder) =
        if key = guardKey then some h else l.holder? key) ∨
    l.acquireGuard guardKey h = (0, l) := by
  unfold acquireGuard
  cases hg : l.guards.lookup guardKey with
  | none => exact .inr rfl
  | some g =>
    dsimp only
    split_ifs with hfree
    · refine .inl ⟨_, rfl, ?_, fun key => ?_⟩
      · simpa [holder?, hg] using hfree
      · rw [Dict.lookup_insert_ite]
        split_ifs <;> rfl
    · exact .inr rfl

theorem claimIntent_cases (l : Ledger) (runId : String) (yaml : Option String) :
    (∃ intents' i, l.claimIntent runId yaml = (1, { l with intents := intents' }) ∧
      l.intents.lookup runId = some i ∧ i.finalOutcome = none) ∨
    l.claimIntent runId yaml = (0, l) := by
  unfold claimIntent
  cases hi : l.intents.lookup runId with
  | none => exact .inr rfl
  | some i =>
    dsimp only
    split_ifs with hopen
    · exact .inl ⟨_, i, rfl, rfl, by simpa using hopen⟩
    · exact .inr rfl

theorem insertAttempt_ok {l l' : Ledger} {attemptId : String} {row : Attempt}
    (h : l.insertAttempt attemptId row = .ok l') :
    l.attempts.lookup attemptId = none ∧
      l' = { l with attempts := l.attempts.insert attemptId row } := by
  unfold insertAttempt at h
  split_ifs at h with hkey
  cases h
  simp only [Bool.or_eq_true, not_or] at hkey
  exact ⟨by simpa using hkey.1, rfl⟩

structure Claimed (req : ClaimRequest) (l l' : Ledger) : Prop where
  free : l.holder? req.guardKey = none
  unresolved : ∃ i, l.intents.lookup req.runId = some i ∧ i.finalOutcome = none
  fresh : l.attempts.lookup req.attemptId = none
  attempts : l'.attempts = l.attempts.insert req.attemptId req.row
  holder : ∀ key, l'.holder? key = if key = req.guardKey then some req.holder else l.holder? key

/-- The claim ended in another outcome; `ALREADY_HELD` means what it says. -/
structure Refused (req : ClaimRequest) (l : Ledger) (o : ClaimOutcome) : Prop where
  status : o.status ≠ .claimed
  held : o.status = .alreadyHeld →
    ∃ held, l.holder? req.guardKey = some held ∧ held.attemptId = req.attemptId ∧
      held.runId = req.runId

theorem claimBody_cases (req : ClaimRequest) (l : Ledger) :
    (∃ l', claimBody req l = .ok (req.outcome .claimed, l') ∧ Claimed req l l') ∨
    ∀ o l', claimBody req l = .ok (o, l') → Refused req l o := by
  simp only [claimBody]
  rcases acquireGuard_cases (l.insertGuard req.guardKey req.guardKind) req.guardKey req.holder with
    ⟨guards', hacq, hfree, hholder⟩ | hacq
  · simp only [hacq, ne_eq, not_true_eq_false, if_false]
    rcases claimIntent_cases { l.insertGuard req.guardKey req.guardKind with guards := guards' }
        req.runId req.yamlSnapshot with ⟨intents', i, hclaim, hi, hopen⟩ | hclaim
    · simp only [hclaim, not_true_eq_false, if_false]
      split
      · exact .inr fun o l' h => by cases h
      · rename_i l₄ hins
        obtain ⟨hfresh, rfl⟩ := insertAttempt_ok hins
        exact .inl ⟨_, rfl, by simpa using hfree, ⟨i, hi, hopen⟩, hfresh, rfl,
          fun key => (hholder key).trans (by rw [holder?_insertGuard])⟩
    · rw [hclaim, if_pos Nat.zero_ne_one]
      refine .inr fun o l' h => ?_
      cases h
      exact ⟨by simp [outcome], nofun⟩
  · rw [hacq, if_pos Nat.zero_ne_one, holder?_insertGuard]
    refine .inr fun o l' h => ?_
    cases hheld : l.holder? req.guardKey with
    | none =>
      rw [hheld] at h
      cases h
      exact ⟨by simp [outcome], nofun⟩
    | some held =>
      rw [hheld] at h
      dsimp only at h
      split_ifs at h with hsame
      · cases h
        exact ⟨by simp [outcome], fun _ => ⟨held, hheld, hsame⟩⟩
      · cases h
        exact ⟨by simp [outcome], nofun⟩

theorem claimRun_cases (l : Ledger) (req : ClaimRequest) (fault : Option DbError) :
    ((l.claimRun req fault).1 = .ok (req.outcome .claimed) ∧
      Claimed req l (l.claimRun req fault).2) ∨
    ((∀ o, (l.claimRun req fault).1 = .ok o → Refused req l o) ∧ (l.claimRun req fault).2 = l) := by
  unfold claimRun inClaimTxn
  cases fault with
  | some e => exact .inr ⟨nofun, rfl⟩
  | none =>
    rcases claimBody_cases req l with ⟨l', hbody, hclaimed⟩ | hother
    · exact .inl (by simpa [hbody, outcome] using hclaimed)
    · cases hbody : claimBody req l with
      | error e => exact .inr ⟨nofun, rfl⟩
      | ok r =>
        have hne := hother r.1 r.2 hbody
        refine .inr ⟨fun o h => ?_, if_neg hne.status⟩
        cases h
        exact hne

/-! ## The transactions as a machine -/

inductive LedgerOp where
  | claimRun (req : ClaimRequest) (fault : Option DbError)
  | releaseGuard (guardKey attemptId runId : String)
  | transitionAttempt (attemptId runId : String) (fromState toState : AttemptState) (generation : Nat)
  | resolveIntent (runId : String) (outcome : IntentOutcome) (attemptId : String) (now : Nat)
  | ensureRunIntent (runId : String) (new : RunIntent)
  | markAttemptDispatching (attemptId runId : String) (generation now : Nat)
  | markAttemptRunning (attemptId runId : String) (generation now : Nat)
  | markAttemptUnknown (attemptId runId : String) (generation : Nat) (reason : String)
  | recordAttemptWorker (attemptId runId : String) (generation : Nat) (workerId : String)
  | terminalizeAttempt (attemptId runId pipelineName : String) (generation : Nat)
      (resolveOutcome : Option IntentOutcome) (cancelReason : Option String) (now : Nat)
  | cancelPipelineIntents (pipelineName : String) (now : Nat)
  | pruneOrphanedRunIntents (pipelineName : String) (now : Nat)
  | pruneLedgerAudit (cutoff : Nat)

/-- What a caller gets back; a claim's reply is kept with the guard it was for. -/
inductive LedgerReply where
  | claim (guardKey : String) (result : Except DbError ClaimOutcome)
  | done

def LedgerReply.claims (guardKey : String) : LedgerReply → Bool
  | .claim key (.ok outcome) => key = guardKey && outcome.status = .claimed
  | _ => false

def step (l : Ledger) : LedgerOp → LedgerReply × Ledger
  | .claimRun req fault =>
    let r := l.claimRun req fault
    (.claim req.guardKey r.1, r.2)
  | .releaseGuard k a r => (.done, l.releaseGuard k a r)
  | .transitionAttempt a r f t g => (.done, l.transitionAttempt a r f t g)
  | .resolveIntent r o a now => (.done, l.resolveIntent r o a now)
  | .ensureRunIntent r new => (.done, l.ensureRunIntent r new)
  | .markAttemptDispatching a r g now => (.done, l.markAttemptDispatching a r g now)
  | .markAttemptRunning a r g now => (.done, l.markAttemptRunning a r g now)
  | .markAttemptUnknown a r g reason => (.done, l.markAttemptUnknown a r g reason)
  | .recordAttemptWorker a r g w => (.done, l.recordAttemptWorker a r g w)
  | .terminalizeAttempt a r p g o c now => (.done, l.terminalizeAttempt a r p g o c now)
  | .cancelPipelineIntents p now => (.done, l.cancelPipelineIntents p now)
  | .pruneOrphanedRunIntents p now => (.done, l.pruneOrphanedRunIntents p now)
  | .pruneLedgerAudit cutoff => (.done, l.pruneLedgerAudit cutoff)

def Held (guardKey : String) (l : Ledger) : Prop := l.holder? guardKey ≠ none

/-- The transaction releases the guard: it was held and is free. -/
def Releases (guardKey : String) (l : Ledger) (op : LedgerOp) : Prop :=
  l.Held guardKey ∧ ¬(l.step op).2.Held guardKey

instance (guardKey : String) (l : Ledger) : Decidable (l.Held guardKey) :=
  inferInstanceAs (Decidable (_ ≠ _))

instance (guardKey : String) (l : Ledger) (op : LedgerOp) : Decidable (l.Releases guardKey op) :=
  inferInstanceAs (Decidable (_ ∧ _))

theorem claimed_of_claims {l : Ledger} {op : LedgerOp} {guardKey : String}
    (h : (l.step op).1.claims guardKey = true) :
    ∃ req, req.guardKey = guardKey ∧ Claimed req l (l.step op).2 := by
  cases op with
  | claimRun req fault =>
    simp only [step] at h ⊢
    rcases claimRun_cases l req fault with ⟨hr, hc⟩ | ⟨hr, -⟩
    · rw [hr] at h
      simp only [LedgerReply.claims, Bool.and_eq_true, decide_eq_true_eq] at h
      exact ⟨req, h.1, hc⟩
    · cases hres : (l.claimRun req fault).1 with
      | error e => rw [hres] at h; cases h
      | ok o =>
        rw [hres] at h
        simp only [LedgerReply.claims, Bool.and_eq_true, decide_eq_true_eq] at h
        exact absurd h.2 (hr o hres).status
  | _ => cases h

/-- The guard of a pipeline is claimed at most once as long as it is not released, and a claim
is all or nothing. The start is any ledger, so this is about every stretch of a run between two
releases of the guard. -/
theorem claims_exclusive_and_atomic (l : Ledger) (ops : List LedgerOp) :
    (∀ guardKey,
      Run.AllSteps (fun l op => (step l op).2) (fun l op => ¬l.Releases guardKey op) l ops →
        (Run.replies step l ops).countP (·.claims guardKey) ≤ 1) ∧
    ∀ earlier req fault later, ops = earlier ++ .claimRun req fault :: later →
      let before := Run.after step l earlier
      let result := before.claimRun req fault
      ((∃ o, result.1 = .ok o ∧ o.status = .claimed) →
        ∃ attemptId row h, before.attempts.lookup attemptId = none ∧
          result.2.attempts = before.attempts.insert attemptId row ∧ row.state = .claimed ∧
          result.2.holder? req.guardKey = some h ∧ h.attemptId = attemptId ∧
          h.generation = row.generation) ∧
      ((¬∃ o, result.1 = .ok o ∧ o.status = .claimed) → result.2 = before) := by
  refine ⟨fun guardKey hops => ?_, fun earlier req fault later _ => ?_⟩
  · refine Run.latch_once_of (P := Held guardKey) (fun l op hheld => ?_)
      (fun l op hheld hnot => ?_) (fun l op hclaims => ?_) hops
    · by_contra hclaims
      obtain ⟨req, rfl, hc⟩ := claimed_of_claims (by simpa using hclaims)
      exact hheld hc.free
    · by_contra hfree
      exact hnot ⟨hheld, hfree⟩
    · obtain ⟨req, rfl, hc⟩ := claimed_of_claims hclaims
      simp [Held, hc.holder]
  · intro before result
    rcases claimRun_cases before req fault with ⟨hr, hc⟩ | ⟨hr, hsame⟩
    · refine ⟨fun _ => ⟨req.attemptId, req.row, req.holder, hc.fresh, hc.attempts, rfl, ?_, rfl, rfl⟩,
        fun hnot => absurd ⟨_, hr, rfl⟩ hnot⟩
      simpa using hc.holder req.guardKey
    · exact ⟨fun ⟨o, ho, hclaimed⟩ => absurd hclaimed (hr o ho).status, fun _ => hsame⟩

theorem claims_exclusive_and_atomic_race :
    let intent : RunIntent :=
      ⟨"orders", .manual, false, 0, none, 1, none, .manual, none, none, none⟩
    let claim (runId : String) : ClaimRequest :=
      ⟨"orders", .batch, "orders", runId, 1, 1, "", some "yaml", "fence"⟩
    let requested : List LedgerOp := [.ensureRunIntent "r1" intent, .ensureRunIntent "r2" intent]
    let race : List LedgerOp :=
      [.claimRun (claim "r2") none, .releaseGuard "orders" "r1-a1" "r1", .claimRun (claim "r1") none]
    let ops := requested ++ .claimRun (claim "r1") (some .busy) :: race
    (Run.replies step empty ops).countP (·.claims "orders") = 1 ∧
      (Run.replies step empty ops).countP (·.claims "orders") ≤ 1 ∧
      ((Run.after step empty requested).claimRun (claim "r1") (some .busy)).2 =
        Run.after step empty requested := by
  intro intent claim requested race ops
  refine ⟨by decide +kernel, (claims_exclusive_and_atomic empty ops).1 "orders" ?_,
    ((claims_exclusive_and_atomic empty ops).2 requested _ _ race rfl).2 ?_⟩
  · decide +kernel
  · rintro ⟨o, ho, -⟩
    cases ho

end Tram.Ledger
