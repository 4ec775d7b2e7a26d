import Tram.Lib.PyInt

/-! # Start-authorization tokens

The token is the `|`-joined payload
`attempt_id|run_id|generation|slot_id|worker_session|issued_at_unix|ttl_s`, a `|`, and the hex
HMAC-SHA256 of the payload. The digests are parameters of the development. -/

namespace Tram.Agent

structure Digests where
  hmacSha256 : (secret payload : String) → String
  sha256 : String → String

structure Claims where
  attemptId : String
  runId : String
  generation : Int
  slotId : String
  issuedAtUnix : Int
  ttlS : Int
deriving DecidableEq, Repr

inductive Refusal
  | malformedToken | malformedPayload | malformedFields | noSecret | badSignature
  | sessionMismatch | issuedInFuture | negativeTtl | ttlExceedsMax | expired
deriving DecidableEq, Repr

def Refusal.reason : Refusal → String
  | .malformedToken => "malformed token"
  | .malformedPayload => "malformed token payload"
  | .malformedFields => "malformed token fields"
  | .noSecret => "no session secret configured"
  | .badSignature => "bad signature"
  | .sessionMismatch => "worker session mismatch"
  | .issuedInFuture => "issued in the future"
  | .negativeTtl => "negative ttl"
  | .ttlExceedsMax => "ttl exceeds max"
  | .expired => "expired"

/-- The outcome of `validate_start_authorization`. `typeError` is what `hmac.compare_digest` raises
on text outside ASCII. -/
inductive Validation
  | valid (claims : Claims)
  | invalid (refusal : Refusal)
  | typeError
deriving DecidableEq, Repr

namespace AuthTokens

def rsplit (token : String) : Option (String × String) :=
  let rev := token.toList.reverse
  match rev.dropWhile (· ≠ '|') with
  | [] => none
  | _ :: payload =>
    some (String.ofList payload.reverse, String.ofList (rev.takeWhile (· ≠ '|')).reverse)

def split : List Char → List (List Char)
  | [] => [[]]
  | c :: cs =>
    if c = '|' then [] :: split cs
    else match split cs with
      | [] => [[c]]
      | field :: rest => (c :: field) :: rest

/-- The seven fields of a payload, the session apart from the claims. -/
def parseFields (payload : String) : Except Refusal (Claims × String) :=
  match (split payload.toList).map String.ofList with
  | [attemptId, runId, generation, slotId, session, issuedAt, ttl] =>
    match PyInt.parse generation, PyInt.parse issuedAt, PyInt.parse ttl with
    | some generation, some issuedAt, some ttl =>
      .ok (⟨attemptId, runId, generation, slotId, issuedAt, ttl⟩, session)
    | _, _, _ => .error .malformedFields
  | _ => .error .malformedPayload

def parse (token : String) : Except Refusal (Claims × String × String × String) :=
  match rsplit token with
  | none => .error .malformedToken
  | some (payload, mac) =>
    match parseFields payload with
    | .error refusal => .error refusal
    | .ok (claims, session) => .ok (claims, session, payload, mac)

structure Request where
  workerSession : String
  currentSecret : String
  previousSecret : Option String
  maxTtlS : Int
  clockSkewS : Int
  nowUnix : Int

def signed (digests : Digests) (req : Request) (payload mac : String) : Bool :=
  mac = digests.hmacSha256 req.currentSecret payload ||
    match req.previousSecret with
    | none => false
    | some previous => mac = digests.hmacSha256 previous payload

def checkClaims (req : Request) (claims : Claims) (session : String) : Validation :=
  if session ≠ req.workerSession then .invalid .sessionMismatch
  else if claims.issuedAtUnix > req.nowUnix + req.clockSkewS then .invalid .issuedInFuture
  else if claims.ttlS < 0 then .invalid .negativeTtl
  else if claims.ttlS > req.maxTtlS then .invalid .ttlExceedsMax
  else if claims.issuedAtUnix + claims.ttlS < req.nowUnix then .invalid .expired
  else .valid claims

def validate (digests : Digests) (req : Request) (token : String) : Validation :=
  match parse token with
  | .error refusal => .invalid refusal
  | .ok (claims, session, payload, mac) =>
    if req.currentSecret = "" ∧ req.previousSecret.getD "" = "" then .invalid .noSecret
    else if ¬mac.toList.all (·.toNat < 128) then .typeError
    else if ¬signed digests req payload mac then .invalid .badSignature
    else checkClaims req claims session

theorem checkClaims_cases (req : Request) (claims : Claims) (session : String) :
    checkClaims req claims session = .valid claims ∨
      ∃ refusal, checkClaims req claims session = .invalid refusal := by
  unfold checkClaims
  by_cases h₁ : session ≠ req.workerSession
  · exact .inr ⟨_, if_pos h₁⟩
  rw [if_neg h₁]
  by_cases h₂ : claims.issuedAtUnix > req.nowUnix + req.clockSkewS
  · exact .inr ⟨_, if_pos h₂⟩
  rw [if_neg h₂]
  by_cases h₃ : claims.ttlS < 0
  · exact .inr ⟨_, if_pos h₃⟩
  rw [if_neg h₃]
  by_cases h₄ : claims.ttlS > req.maxTtlS
  · exact .inr ⟨_, if_pos h₄⟩
  rw [if_neg h₄]
  by_cases h₅ : claims.issuedAtUnix + claims.ttlS < req.nowUnix
  · exact .inr ⟨_, if_pos h₅⟩
  exact .inl (if_neg h₅)

section

variable {digests : Digests} {req : Request} {token : String} {claims : Claims}
  (h : validate digests req token = .valid claims)
include h

theorem validate_valid : ∃ session payload mac, parse token = .ok (claims, session, payload, mac) ∧
      mac.toList.all (·.toNat < 128) = true := by
  unfold validate at h
  split at h
  · cases h
  · rename_i claims' session payload mac hp
    split_ifs at h with _ hascii
    refine ⟨session, payload, mac, ?_, hascii⟩
    rcases checkClaims_cases req claims' session with hc | ⟨refusal, hc⟩ <;> rw [hc] at h
    · rw [hp, Validation.valid.inj h]
    · cases h

/-- What a token says does not depend on the secrets, the session and the clock it is checked
against: once valid, it is valid with the same claims or refused. -/
theorem validate_again (req' : Request) : validate digests req' token = .valid claims ∨
      ∃ refusal, validate digests req' token = .invalid refusal := by
  obtain ⟨session, payload, mac, hp, hascii⟩ := validate_valid h
  unfold validate
  rw [hp]
  dsimp only
  rw [if_neg (not_not.mpr hascii)]
  split_ifs
  · exact .inr ⟨_, rfl⟩
  · exact checkClaims_cases req' claims session
  · exact .inr ⟨_, rfl⟩

end

end AuthTokens

end Tram.Agent
