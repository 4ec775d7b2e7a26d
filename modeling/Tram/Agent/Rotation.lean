import Mathlib.Data.Bool.AllAny
import Tram.Agent.AuthTokens
import Tram.Lib.Run

/-! # Rotation of the session secret

Every handshake gives the worker a new session secret, and the one before it is kept. The manager
mints its start tokens under the secret it was told last. A token outlives its secret by one
handshake and no more. -/

namespace Tram.Agent

namespace AuthTokens

/-! ## Minting -/

/-- `mint_start_authorization`; `none` is `ValueError`. -/
def mint (digests : Digests) (secret workerSession : String) (claims : Claims) : Option String := do
  let fields := [claims.attemptId, claims.runId, ← PyInt.str claims.generation, claims.slotId,
    workerSession, ← PyInt.str claims.issuedAtUnix, ← PyInt.str claims.ttlS]
  if fields.any (·.toList.contains '|') then none
  else
    let payload := "|".intercalate fields
    return payload ++ "|" ++ digests.hmacSha256 secret payload

theorem split_eq_splitOn (cs : List Char) : split cs = cs.splitOn '|' := by
  induction cs with
  | nil => rfl
  | cons c cs ih =>
    rw [split, List.splitOn_cons_eq_if_modifyHead, ih]
    by_cases hc : c = '|'
    · simp [hc]
    · rw [if_neg hc, if_neg (by simpa using hc)]
      cases hsplit : cs.splitOn '|' with
      | nil => exact absurd hsplit (List.splitOn_ne_nil '|' cs)
      | cons field rest => rfl

theorem rsplit_append {payload mac : String} (h : '|' ∉ mac.toList) :
    rsplit (payload ++ "|" ++ mac) = some (payload, mac) := by
  have hrev : (payload ++ "|" ++ mac).toList.reverse =
      mac.toList.reverse ++ '|' :: payload.toList.reverse := by
    simp [String.toList_append]
  have hmac : ∀ c ∈ mac.toList.reverse, decide (c ≠ '|') = true := by
    intro c hc
    refine decide_eq_true fun heq => h ?_
    exact heq ▸ List.mem_reverse.mp hc
  unfold rsplit
  simp only [hrev, List.dropWhile_append_of_pos hmac, List.takeWhile_append_of_pos hmac]
  simp [String.ofList_toList]

def HexDigests (digests : Digests) : Prop :=
  ∀ secret payload, ∀ c ∈ (digests.hmacSha256 secret payload).toList, c ∈ "0123456789abcdef".toList

variable {digests : Digests} {claims : Claims}

theorem HexDigests.plain (h : HexDigests digests) (secret payload : String) :
    '|' ∉ (digests.hmacSha256 secret payload).toList ∧
      (digests.hmacSha256 secret payload).toList.all (·.toNat < 128) = true := by
  have hhex : ∀ c ∈ "0123456789abcdef".toList, c ≠ '|' ∧ c.toNat < 128 :=
    List.all_iff_forall_prop.mp (by decide)
  refine ⟨fun hmem => (hhex _ (h secret payload _ hmem)).1 rfl, ?_⟩
  rw [List.all_eq_true]
  exact fun c hc => decide_eq_true (hhex c (h secret payload c hc)).2

theorem parse_mint (hhex : HexDigests digests) {secret session token : String}
    (h : mint digests secret session claims = some token) :
    ∃ payload, parse token = .ok (claims, session, payload, digests.hmacSha256 secret payload) := by
  unfold mint at h
  cases hgen : PyInt.str claims.generation with
  | none => simp [hgen] at h
  | some generation =>
  cases hissued : PyInt.str claims.issuedAtUnix with
  | none => simp [hgen, hissued] at h
  | some issuedAt =>
  cases httl : PyInt.str claims.ttlS with
  | none => simp [hgen, hissued, httl] at h
  | some ttl =>
  simp only [hgen, hissued, httl, Option.bind_eq_bind, Option.bind_some] at h
  split_ifs at h with hsep
  cases h
  generalize hfields : [claims.attemptId, claims.runId, generation, claims.slotId, session, issuedAt,
    ttl] = fields at hsep
  have hclear : ∀ field ∈ fields.map String.toList, '|' ∉ field := by
    intro field hfield
    obtain ⟨text, htext, rfl⟩ := List.mem_map.mp hfield
    exact fun hmem => hsep (List.any_eq_true.mpr ⟨text, htext, by simpa using hmem⟩)
  have hsplit : (split ("|".intercalate fields).toList).map String.ofList = fields := by
    rw [split_eq_splitOn, String.toList_intercalate]
    have hne : fields.map String.toList ≠ [] := by simp [← hfields]
    rw [show "|".toList = ['|'] from rfl, List.splitOn_intercalate '|' hclear hne, List.map_map]
    exact List.map_id'' (fun _ => String.ofList_toList) fields
  refine ⟨"|".intercalate fields, ?_⟩
  unfold parse parseFields
  rw [← hfields] at hsplit ⊢
  rw [rsplit_append (hhex.plain secret _).1]
  simp only [hsplit, PyInt.parse_str hgen, PyInt.parse_str hissued, PyInt.parse_str httl]

theorem checkClaims_ne_badSignature (req : Request) (claims : Claims) (session : String) :
    checkClaims req claims session ≠ .invalid .badSignature := by
  unfold checkClaims
  split_ifs <;> simp

/-- A minted token is refused for its signature exactly if no secret given to the validator signs its
payload as the one it was minted under does. -/
theorem validate_mint_eq_badSignature (hhex : HexDigests digests)
    {secret session token payload : String}
    (hparse : parse token = .ok (claims, session, payload, digests.hmacSha256 secret payload))
    (req : Request) (hsecret : req.currentSecret ≠ "") :
    validate digests req token = .invalid .badSignature ↔
      signed digests req payload (digests.hmacSha256 secret payload) = false := by
  unfold validate
  rw [hparse]
  simp only [hsecret, false_and, if_false, (hhex.plain secret payload).2, not_true_eq_false]
  cases hsigned : signed digests req payload (digests.hmacSha256 secret payload) with
  | false => simp
  | true => simp [checkClaims_ne_badSignature]

end AuthTokens

/-! ## Handshakes -/

/-- A handshake, at a time of the worker's clock; `secrets.token_hex(32)` is not empty. -/
structure Handshake where
  time : Int
  secret : String
  secret_ne : secret ≠ ""

structure Secrets where
  current : String
  previous : Option String

namespace Secrets

def boot (secret : String) : Secrets := ⟨secret, none⟩

/-- The rotation in `POST /agent/handshake`. -/
def rotate (s : Secrets) (h : Handshake) : Secrets :=
  ⟨h.secret, if s.current = "" then none else some s.current⟩

variable {s : Secrets}

theorem rotate_previous (hs : s.current ≠ "") (h : Handshake) :
    s.rotate h = ⟨h.secret, some s.current⟩ := by
  simp [rotate, hs]

theorem exec_rotate_two (s : Secrets) (hs : List Handshake) (h' h : Handshake) :
    Run.exec rotate s (hs ++ [h', h]) = ⟨h.secret, some h'.secret⟩ := by
  rw [Run.exec_append, Run.exec_cons, Run.exec_cons, Run.exec_nil]
  exact rotate_previous h'.secret_ne h

def request (s : Secrets) (workerSession : String) (maxTtlS clockSkewS nowUnix : Int) :
    AuthTokens.Request :=
  ⟨workerSession, s.current, s.previous, maxTtlS, clockSkewS, nowUnix⟩

end Secrets

open AuthTokens Secrets Run

/-- A token minted under a secret the worker had after some handshakes, validated after more of
them: it is not refused for its signature as long as there was at most one more; and if the later
secrets sign differently, that is the only case. -/
theorem token_survives_one_rotation (digests : Digests) (hhex : HexDigests digests) (bootSecret : String)
    (before after : List Handshake) (claims : Claims) (session token workerSession : String)
    (maxTtlS clockSkewS nowUnix : Int)
    (hsecret : (exec rotate (boot bootSecret) before).current ≠ "")
    (hmint : mint digests (exec rotate (boot bootSecret) before).current session claims =
      some token) :
    let held := exec rotate (boot bootSecret) (before ++ after)
    let outcome := validate digests (held.request workerSession maxTtlS clockSkewS nowUnix) token
    (after.length ≤ 1 → outcome ≠ .invalid .badSignature) ∧
      ((∀ h ∈ after, ∀ payload, digests.hmacSha256 h.secret payload ≠
          digests.hmacSha256 (Run.exec rotate (boot bootSecret) before).current payload) →
        (outcome ≠ .invalid .badSignature ↔ after.length ≤ 1)) := by
  intro held outcome
  obtain ⟨payload, hparse⟩ := parse_mint hhex hmint
  have hheld : held = exec rotate (exec rotate (boot bootSecret) before) after :=
    exec_append _ _ _ _
  generalize exec rotate (boot bootSecret) before = minted at *
  have hcurrent : held.current ≠ "" := by
    rw [hheld]
    rcases List.eq_nil_or_concat after with rfl | ⟨hs, h, rfl⟩
    · exact hsecret
    · rw [List.concat_eq_append, exec_append]
      exact h.secret_ne
  have hbad : outcome = .invalid .badSignature ↔ _ :=
    validate_mint_eq_badSignature hhex hparse (held.request _ _ _ _) hcurrent
  have hshort (hlen : after.length ≤ 1) : outcome ≠ .invalid .badSignature := by
    rw [Ne, hbad, hheld]
    match after, hlen with
    | [], _ => simp [signed, request]
    | [h], _ => simp [signed, request, rotate_previous hsecret h]
  refine ⟨hshort, fun hdiffer => ⟨fun hok => ?_, hshort⟩⟩
  by_contra hlong
  obtain ⟨hs, h', h, rfl⟩ : ∃ hs h' h, after = hs ++ [h', h] := by
    rcases List.eq_nil_or_concat after with rfl | ⟨front, h, rfl⟩
    · exact absurd (Nat.zero_le 1) hlong
    rcases List.eq_nil_or_concat front with rfl | ⟨hs, h', rfl⟩
    · exact absurd (Nat.le_refl 1) hlong
    exact ⟨hs, h', h, by simp⟩
  refine hok (hbad.mpr ?_)
  rw [hheld, exec_rotate_two]
  have h₁ := (hdiffer h (by simp) payload).symm
  have h₂ := (hdiffer h' (by simp) payload).symm
  simp [signed, request, h₁, h₂]

def threeSecrets : Digests where
  hmacSha256 secret _ := if secret = "s1" then "a1" else if secret = "s2" then "a2" else "a3"
  sha256 := id

theorem hexDigests_threeSecrets : HexDigests threeSecrets := by
  intro secret payload
  unfold threeSecrets
  dsimp only
  split_ifs <;> exact List.all_iff_forall_prop.mp (by decide)

/-- Two handshakes within ten seconds: a token of the first secret, fresh and within the overlap, is
still good after one of them. -/
theorem token_survives_one_rotation_second :
    validate threeSecrets
      ((exec rotate (boot "") ([⟨0, "s1", by decide⟩] ++ [⟨10, "s2", by decide⟩])).request "w-1" 600
        5 30) "r1-a1|r1|1||w-1|5|300|a1" ≠ .invalid .badSignature :=
  (token_survives_one_rotation threeSecrets hexDigests_threeSecrets "" [⟨0, "s1", by decide⟩]
    [⟨10, "s2", by decide⟩] ⟨"r1-a1", "r1", 1, "", 5, 300⟩ "w-1" "r1-a1|r1|1||w-1|5|300|a1" "w-1" 600 5 30
    (by decide) (by decide +kernel)).1 (Nat.le_refl 1)

/-- Three handshakes within twenty seconds. A token minted under the first secret, valid for 300
seconds and presented 20 seconds after that secret was superseded, is refused for its signature. -/
theorem token_refused_after_two_rotations :
    let claims : Claims := ⟨"r1-a1", "r1", 1, "", 5, 300⟩
    let before : List Handshake := [⟨0, "s1", by decide⟩]
    let after : List Handshake := [⟨10, "s2", by decide⟩, ⟨20, "s3", by decide⟩]
    let token := "r1-a1|r1|1||w-1|5|300|a1"
    mint threeSecrets (exec rotate (boot "") before).current "w-1" claims = some token ∧
      claims.issuedAtUnix + claims.ttlS ≥ 30 ∧ claims.ttlS ≤ 600 ∧
      (∀ h ∈ after.head?, (30 : Int) < h.time + 600 + 5) ∧
      validate threeSecrets ((exec rotate (boot "") (before ++ after)).request "w-1" 600 5 30)
        token = .invalid .badSignature := by
  refine ⟨by decide +kernel, by decide, by decide, ?_, by decide +kernel⟩
  intro h hh
  cases hh
  decide

end Tram.Agent
