import Tram.Agent.Admission

/-! # Replaying a collected token

Garbage collection deletes a token's row once `expires_at + skew` has passed, and advances the
epoch's watermark to the same clock reading in the same transaction. So the watermark refuses the
token for as long as the epoch lasts; the reservation of its attempt keeps its row from coming back.
-/

namespace Tram.Agent

open List

/-- No decision of the operation carries the digest of `token` without being the validator's
decision on `token`: the run meets no second token with that digest, and what `admit` is given
directly is pre-validated. -/
def JournalOp.NoForgery (digests : Digests) (token : String) : JournalOp → Prop
  | .validateAndAdmit _ t _ => digests.sha256 t = digests.sha256 token → t = token
  | .admitAttempt _ auth _ => ∀ d, auth.authorized? = some d → d.tokenHash = digests.sha256 token →
      Authentic digests token d
  | _ => True

namespace Journal

variable {cfg : JournalConfig} {digests : Digests} {token : String} {j : Journal} {op : JournalOp}
  {claims : Claims}

theorem decides_authentic {d : Authorized} (hop : op.NoForgery digests token)
    (hd : op.Decides digests d) (hh : d.tokenHash = digests.sha256 token) :
    Authentic digests token d := by
  cases op with
  | admitAttempt call auth pipelineName => exact hop d hd hh
  | validateAndAdmit call t args =>
    obtain ⟨req, claims, hval, ha, ht, he⟩ := hd
    obtain rfl := hop (ht.symm.trans hh)
    exact ⟨req, claims, hval, ha, ht, he⟩
  | _ => cases hd

def OwnRows (digests : Digests) (token : String) (j : Journal) : Prop :=
  ∀ r ∈ j.authorizations, r.tokenHash = digests.sha256 token → ∃ req claims,
    AuthTokens.validate digests req token = .valid claims ∧ r.attemptId = claims.attemptId ∧
    r.expiresAt.us = (claims.issuedAtUnix + claims.ttlS) * 1000000

theorem step_ownRows (h : OwnRows digests token j) (hop : op.NoForgery digests token) :
    OwnRows digests token (j.step cfg digests op).2 := by
  intro r hr hh
  rcases step_cases cfg digests j op with ⟨hq, -⟩ | ⟨d, hd, hadm, -⟩
  · exact h r (hq.authorizations r hr) hh
  · rcases hadm.authorizations r hr with h1 | ⟨h1, h2, h3⟩
    · exact h r h1 hh
    · obtain ⟨req, claims, hval, ha, -, he⟩ := decides_authentic hop hd (h2.symm.trans hh)
      exact ⟨req, claims, hval, h1.trans ha, by rw [h3, he]⟩

/-- The token's row is gone for good in `epoch`: its attempt stays reserved and the watermark is
past its validity window. -/
structure Retired (cfg : JournalConfig) (digests : Digests) (token : String) (claims : Claims)
    (epoch : Nat) (j : Journal) : Prop where
  valid : ∃ req, AuthTokens.validate digests req token = .valid claims
  reserved : j.Reserved claims.attemptId
  gone : ∀ r ∈ j.authorizations, r.tokenHash ≠ digests.sha256 token
  watermark : ∃ w, j.watermarks.lookup epoch = some w ∧
    (claims.issuedAtUnix + claims.ttlS + cfg.clockSkewS) * 1000 ≤ w

theorem step_retired {epoch : Nat} (h : Retired cfg digests token claims epoch j)
    (hop : op.NoForgery digests token) :
    Retired cfg digests token claims epoch (j.step cfg digests op).2 := by
  obtain ⟨w, hw, hle⟩ := h.watermark
  rcases step_cases cfg digests j op with ⟨hq, -⟩ | ⟨d, hd, hadm, -⟩
  · obtain ⟨w', hw', hww⟩ := hq.advances.watermark epoch w hw
    exact ⟨h.valid, (hq.reserved _).mpr h.reserved,
      fun r hr => h.gone r (hq.authorizations r hr), w', hw', hle.trans hww⟩
  · obtain ⟨w', hw', hww⟩ := hadm.advances.watermark epoch w hw
    refine ⟨h.valid, (hadm.reserved _).mpr (.inl h.reserved), fun r hr hh => ?_, w', hw',
      hle.trans hww⟩
    rcases hadm.authorizations r hr with h1 | ⟨-, h2, -⟩
    · exact h.gone r h1 hh
    · -- the admitted decision would be the token's, whose attempt is reserved
      obtain ⟨req, claims', hval, ha, -, -⟩ := decides_authentic hop hd (h2.symm.trans hh)
      obtain ⟨req₀, hval₀⟩ := h.valid
      rcases AuthTokens.validate_again hval₀ req with h3 | ⟨_, h3⟩
      · obtain rfl := Validation.valid.inj (h3.symm.trans hval)
        exact hadm.notReserved (ha ▸ h.reserved)
      · rw [h3] at hval; cases hval

theorem retired_of_gcExpired {call : Call} (hres : j.AuthorizationsReserved)
    (hown : OwnRows digests token j)
    (hrow : ∃ r ∈ j.authorizations, r.tokenHash = digests.sha256 token)
    (hgone : ∀ r ∈ (j.gcExpired cfg call).2.authorizations, r.tokenHash ≠ digests.sha256 token) :
    ∃ claims, Retired cfg digests token claims j.sessionEpoch (j.gcExpired cfg call).2 := by
  obtain ⟨r, hr, hh⟩ := hrow
  obtain ⟨req, claims, hval, ha, he⟩ := hown r hr hh
  refine ⟨claims, ⟨req, hval⟩, ?_, hgone, ?_⟩
  · exact ((quiet_gcExpired cfg j call).reserved _).mpr (ha ▸ hres r hr)
  unfold gcExpired at hgone ⊢
  rcases txn_snd j call _ with heq | ⟨a, j', hfn, heq⟩ <;> rw [heq] at hgone ⊢
  · exact absurd hh (hgone r hr)
  split at hfn
  · cases hfn
  rename_i cutoff hcut
  cases hfn
  -- the row was deleted, so it expired before the cutoff
  have hexp : r.expiresAt ≤ cutoff := by
    by_contra hlate
    exact hgone r (mem_filter.mpr ⟨hr, by simpa using hlate⟩) hh
  replace hexp : r.expiresAt.us ≤ cutoff.us := hexp
  have hcutoff := DateTime.us_of_ofUs? hcut
  obtain ⟨w, hw, hle⟩ := lookup_advanceWatermark j j.sessionEpoch call.now.unixMs
  refine ⟨w, hw, le_trans (DateTime.le_unixMs ?_ (by omega)) hle⟩
  -- dates are small enough for a float
  have h1 := r.expiresAt.lower
  have h2 := cutoff.upper
  have h3 := call.now.lower
  have h4 := call.now.upper
  rw [abs_lt]
  constructor <;> omega

/-- In its epoch, a retired token is refused and nothing is written, whatever the clock says. -/
theorem validateAndAdmit_retired (h : Retired cfg digests token claims j.sessionEpoch j)
    (call : Call) (args : Presented) (hopen : call.opens = true) :
    ∃ attempt reason, j.validateAndAdmit cfg digests call token args =
        (.ok (.refusedAuth attempt (some reason)), j) ∧
      (reason = "token retired by watermark" ∨ ∃ refusal : Refusal, reason = refusal.reason) := by
  obtain ⟨req, hval⟩ := h.valid
  obtain ⟨w, hw, hle⟩ := h.watermark
  unfold validateAndAdmit
  rw [if_neg (not_not.mpr hopen)]
  rcases AuthTokens.validate_again hval (args.request cfg call) with hv | ⟨refusal, hv⟩
  · have hret : j.retired? cfg digests token claims = some "token retired by watermark" := by
      have hnone : j.authorizations.find? (·.tokenHash = digests.sha256 token) = none := by
        rw [find?_eq_none]
        intro r hr
        simpa using h.gone r hr
      simp only [retired?, hnone, hw]
      exact if_pos hle
    rw [hv]
    simp only [hret]
    exact ⟨_, _, rfl, .inl rfl⟩
  · rw [hv]
    exact ⟨none, refusal.reason, rfl, .inr ⟨refusal, rfl⟩⟩

/-- If a garbage collection deletes a token's row, then for as long as the session epoch lasts every
later presentation of the token is refused, by the watermark or by the validator, and writes
nothing, whatever the clock reads; and no watermark and no session epoch ever decreases. -/
theorem collected_token_refused (cfg : JournalConfig) (digests : Digests) :
    (∀ token before gc later, (∀ op ∈ before ++ later, op.NoForgery digests token) →
      let j₀ := Run.after (step cfg digests) {} before
      let j₁ := (j₀.gcExpired cfg gc).2
      let j₂ := Run.after (step cfg digests) j₁ later
      (∃ r ∈ j₀.authorizations, r.tokenHash = digests.sha256 token) →
      (∀ r ∈ j₁.authorizations, r.tokenHash ≠ digests.sha256 token) →
      j₂.sessionEpoch = j₀.sessionEpoch →
      ∀ call args, (j₂.validateAndAdmit cfg digests call token args).2 = j₂ ∧
        (call.opens = true → ∃ attempt reason,
          (j₂.validateAndAdmit cfg digests call token args).1 =
            .ok (.refusedAuth attempt (some reason)) ∧
          (reason = "token retired by watermark" ∨ ∃ refusal : Refusal, reason = refusal.reason))) ∧
    ∀ j ops, Advances j (Run.after (step cfg digests) j ops) := by
  refine ⟨?_, fun j ops => ?_⟩
  · intro token before gc later hops j₀ j₁ j₂ hrow hgone hepoch call args
    have hres : j₀.AuthorizationsReserved :=
      Run.exec_invariant (I := AuthorizationsReserved) step_authorizationsReserved
        (fun r hr => absurd hr not_mem_nil) before
    have hown : OwnRows digests token j₀ :=
      Run.exec_invariant_mem (I := OwnRows digests token)
        (fun j op hop h => step_ownRows h (hops op (mem_append_left _ hop)))
        (fun r hr => absurd hr not_mem_nil)
    obtain ⟨claims, hret⟩ := retired_of_gcExpired hres hown hrow hgone
    have hret₂ : Retired cfg digests token claims j₂.sessionEpoch j₂ := by
      rw [hepoch]
      exact Run.exec_invariant_mem (I := Retired cfg digests token claims j₀.sessionEpoch)
        (fun j op hop h => step_retired h (hops op (mem_append_right _ hop))) hret
    by_cases hopen : call.opens = true
    · obtain ⟨attempt, reason, heq, hreason⟩ := validateAndAdmit_retired hret₂ call args hopen
      rw [heq]
      exact ⟨rfl, fun _ => ⟨attempt, reason, rfl, hreason⟩⟩
    · have heq : (j₂.validateAndAdmit cfg digests call token args) = (.error .unavailable, j₂) :=
        if_pos hopen
      exact ⟨by rw [heq], fun h => absurd h hopen⟩
  · refine Run.exec_rel (R := Advances) (fun j => .of_eq rfl rfl) (fun _ _ _ => Advances.trans)
      (fun j op => ?_) j ops
    rcases step_cases cfg digests j op with ⟨hq, -⟩ | ⟨d, -, hadm, -⟩
    · exact hq.advances
    · exact hadm.advances

/-- A token issued at 1000 s for 300 s is admitted, collected at 1305 s with a skew of 5 s, and
refused when it is presented again with the clock rolled back to 1100 s. -/
theorem collected_token_refused_rolled_back :
    let at_ (s : Int) (h : -62135596800 * 1000000 ≤ s * 1000000)
      (h' : s * 1000000 < 253402300800 * 1000000) : DateTime := ⟨s * 1000000, h, h'⟩
    let call (t : DateTime) : Call := { now := t, clock := t, stamp := t }
    let cfg : JournalConfig := {}
    let digests : Digests := ⟨fun _ _ => "ok", fun t => t⟩
    let token := "r-a1|r|1|0|s|1000|300|ok"
    let args : Presented := ⟨"p", "s", "secret", none⟩
    let before := [JournalOp.validateAndAdmit (call (at_ 1000 (by decide) (by decide))) token args]
    let gc := call (at_ 1305 (by decide) (by decide))
    let rolledBack := call (at_ 1100 (by decide) (by decide))
    let j₂ := ((Run.after (step cfg digests) {} before).gcExpired cfg gc).2
    (Run.replies (step cfg digests) {} before).map (·.admits "r-a1") = [true] ∧
    (j₂.validateAndAdmit cfg digests rolledBack token args).1 =
      .ok (.refusedAuth (some "r-a1") (some "token retired by watermark")) ∧
    (j₂.validateAndAdmit cfg digests rolledBack token args).2 = j₂ := by
  intro at_ call cfg digests token args before gc rolledBack j₂
  refine ⟨by decide +kernel, by decide +kernel, ?_⟩
  refine ((collected_token_refused cfg digests).1 token before gc [] ?_ ?_ ?_ ?_ rolledBack args).1
  · intro op hop
    rw [append_nil, mem_singleton] at hop
    subst hop
    exact fun h => h
  · decide +kernel
  · decide +kernel
  · decide +kernel

end Journal
end Tram.Agent
