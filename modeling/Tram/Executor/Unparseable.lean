import Tram.Executor.Success

/-! # Chunks that cannot be parsed

`_process_chunk` parses a chunk as a whole, `_process_chunk_incrementally` asks the serializer for
one batch after the other. Either may come upon bytes that are no records. -/

namespace Tram.Executor

open List State Procedure

variable {ρ : Type} {parts : List (List ρ × Answers)}

/-- The envelopes of stage "parse" among the effects: the bytes of the chunk, and the records. -/
def parseEnvelopes (es : List (Effect ρ)) : List (List UInt8 × List ρ) :=
  es.filterMap fun
    | .enveloped _ stage records => stage.raw.map (·, records)
    | _ => none

def State.since (t s : State ρ) : List (Effect ρ) := t.effects.drop s.effects.length

/-- The chunk is accounted: one envelope carries its bytes, and the loss is on its unit, which is
to be acknowledged as gone to the DLQ. -/
def ChunkAccounted (p : Pipeline ρ) (key : Option UnitKey) (raw : List UInt8) (s t : State ρ) : Prop :=
  parseEnvelopes (t.since s) = [(raw, [])] ∧
    ∀ k u, key = some k → s.delivery.units.lookup k = some u →
      ∃ u', t.delivery.units.lookup k = some u' ∧ u.dlqSucceeded < u'.dlqSucceeded ∧
        u'.disposition p.onError = some .dlq

namespace Content

def incremental : Content ρ → Bool
  | .parsed _ _ => false
  | .unparsed _ => false
  | .batches _ _ => true

end Content

/-- The loop over the batches asks for what comes after the last of them: neither the batch size
nor an exception ends it before. -/
def asksForMore (job : BatchJob ρ) (key : Option UnitKey) :
    List (List ρ × Answers) → State ρ → Bool
  | [], _ => true
  | (records, answers) :: parts, s =>
    match job.room s records with
    | none => false
    | some [] => asksForMore job key parts s
    | some (r :: rs) =>
      match processRecords job.toPipeline ⟨⟨key, true⟩, answers⟩ job.transforms true (r :: rs) s with
      | (.error _, _) => false
      | (.ok _, t) => !job.limitReached t && asksForMore job key parts t

/-- `parse`, or `parse_chunks` when it is asked for one more batch, raises a `SerializerError`. -/
def Content.raises (job : BatchJob ρ) (key : Option UnitKey) (s : State ρ) : Content ρ → Bool
  | .parsed _ _ => false
  | .unparsed _ => true
  | .batches parts ending => ending.any (·.isTram) && asksForMore job key parts s

theorem processBatches_raises {job : BatchJob ρ} {key : Option UnitKey} (fault : Fault)
    {s : State ρ} (h : asksForMore job key parts s = true) :
    (processBatches job key (some fault) parts s).1 = .error (fault.failure .serializer) := by
  induction parts generalizing s with
  | nil => rfl
  | cons part parts ih =>
    obtain ⟨records, answers⟩ := part
    rw [asksForMore] at h
    rw [processBatches, bind_run_ok (get_run s)]
    cases hroom : job.room s records with
    | none => simp [hroom] at h
    | some fitting =>
      cases fitting with
      | nil =>
        simp only [hroom] at h
        exact ih h
      | cons r rs =>
        simp only [hroom] at h
        cases hcall : processRecords job.toPipeline ⟨⟨key, true⟩, answers⟩ job.transforms true
            (r :: rs) s with
        | mk result t =>
          rw [hcall] at h
          cases result with
          | error f => cases h
          | ok b =>
            simp only [Bool.and_eq_true, Bool.not_eq_true'] at h
            simp only
            rw [bind_run_ok hcall, bind_run_ok (get_run t),
              if_neg (by simp [h.1])]
            exact ih h.2

/-- Effects were added, none of them an envelope of stage "parse". -/
def Parseless (s t : State ρ) : Prop :=
  ∃ es, t.effects = s.effects ++ es ∧ parseEnvelopes es = []

theorem parseEnvelopes_append (es fs : List (Effect ρ)) :
    parseEnvelopes (es ++ fs) = parseEnvelopes es ++ parseEnvelopes fs := filterMap_append

namespace Parseless

variable {s t u : State ρ}

theorem of_effects (h : t.effects = s.effects) : Parseless s t := ⟨[], by simp [h], rfl⟩

theorem trans (h : Parseless s t) (h' : Parseless t u) : Parseless s u := by
  obtain ⟨es, hes, hnone⟩ := h
  obtain ⟨fs, hfs, hnone'⟩ := h'
  refine ⟨es ++ fs, by rw [hfs, hes, append_assoc], ?_⟩
  rw [parseEnvelopes_append, hnone, hnone', append_nil]

theorem emit (s : State ρ) {e : Effect ρ} (h : parseEnvelopes [e] = []) :
    Parseless s (s.emit e) :=
  ⟨[e], rfl, h⟩

theorem losing (s : State ρ) (c : Account) (l : Loss) : Parseless s (s.losing c l) :=
  .of_effects (losing_effects l)

theorem parseEnvelopes_since (h : Parseless s t) : parseEnvelopes (t.since s) = [] := by
  obtain ⟨es, hes, hnone⟩ := h
  rw [since, hes, drop_left]
  exact hnone

theorem stepwise (p : Pipeline ρ) (c : Call) : Stepwise p c (fun _ => True) Parseless where
  refl _ := .of_effects rfl
  trans := .trans
  lose sink stage records count taken text s hstage := by
    have hnone : parseEnvelopes [Effect.enveloped sink stage records] = [] := by
      simp [parseEnvelopes, hstage]
    rcases lose_cases p c.toAccount sink stage records count taken text s with
      ⟨-, -, h⟩ | ⟨-, -, -, -, h⟩ | ⟨-, -, -, h⟩ | ⟨-, h⟩ <;> rw [h]
    · exact (emit s hnone).trans (losing _ _ _)
    all_goals exact losing _ _ _
  breaker _ _ _ _ _ := .of_effects rfl
  wrote s _ _ := emit s rfl
  skipped s _ _ := (losing s _ _).trans (emit _ rfl)
  counted _ _ := .of_effects rfl
  chunk _ _ _ := .of_effects rfl
  refused _ _ := .of_effects rfl

end Parseless

/-! ## Both paths -/

section Paths

variable {job : BatchJob ρ} {key : Option UnitKey} {s : State ρ}

section

variable (hpolicy : job.onError = .dlq ∨ job.onError = .continues)
include hpolicy

theorem not_reraises (elsewhere : Bool) (d : Delivery) (origin : Origin) (text : String) :
    reraises job.toPipeline true elsewhere d (.tram origin text) = false := by
  rcases hpolicy with h | h <;> simp [reraises, h]

/-- `_process_chunk`: the chunk is in the DLQ and the loss on its unit. -/
theorem processChunk_unparsed (hsink : job.dlqSink = true) (raw : List UInt8) (text : String)
    (elsewhere : Bool) : processChunk job key ⟨raw, .unparsed text, true, elsewhere⟩ s =
      (.ok false, ((s.emit (.enveloped none (.parse raw) [])).losing ⟨key, true⟩ ⟨0, 1, 0⟩).refuse
        (.unparsed true)) := by
  have hbody : chunkBody job key raw true (.unparsed text) s =
      (.error (.tram .parse s!"Parse error: {text}"),
        (s.emit (.enveloped none (.parse raw) [])).losing ⟨key, true⟩ ⟨0, 1, 0⟩) := by
    rw [chunkBody, parseFailed, lose, if_pos hsink, if_pos rfl]
    rfl
  rw [processChunk, handling_error hbody, not_reraises hpolicy, if_neg Bool.false_ne_true, if_pos rfl]
  simp [refusalOf, hsink]

/-- `_process_chunk_incrementally`: a `SerializerError` passes by the handler that writes the
envelope. -/
theorem processChunk_batches {fault : Fault} (hfault : fault.isTram = true) (raw : List UInt8)
    (taken elsewhere : Bool) (hasks : asksForMore job key parts s = true) :
    Parseless s (processChunk job key ⟨raw, .batches parts (some fault), taken, elsewhere⟩ s).2 := by
  have hparts : Parseless s (processBatches job key (some fault) parts s).2 :=
    Stepwise.processBatches (fun answers => Parseless.stepwise _ ⟨_, answers⟩) (fun _ => trivial) _ parts s
  have hraise := processBatches_raises fault hasks
  rw [Fault.failure, if_pos hfault] at hraise
  cases hrun : processBatches job key (some fault) parts s with
  | mk result t =>
    rw [hrun] at hparts hraise
    obtain rfl : result = _ := hraise
    have hbody : chunkBody job key raw taken (.batches parts (some fault)) s =
        (.error (.tram .serializer fault.text), t) := by
      rw [chunkBody, processIncrementally, hrun]
    rw [processChunk, handling_error hbody, not_reraises hpolicy, if_neg Bool.false_ne_true, if_pos rfl]
    exact hparts.trans (.of_effects rfl)

end

theorem disposition_lose {u : UnitOutcome} (h : u.dlqFailed = 0) (onError : OnError) :
    (u.lose ⟨0, 1, 0⟩).disposition onError = some .dlq := by
  simp [UnitOutcome.disposition, UnitOutcome.lose, h]

/-- A chunk the serializer raises a `SerializerError` on, with a DLQ sink that takes everything and
has taken everything of the chunk's unit so far, is accounted exactly if it is parsed as a
whole. -/
theorem unparseable_chunk_accounted (job : BatchJob ρ) (key : Option UnitKey) (work : Work ρ)
    (s : State ρ)
    (hpolicy : job.onError = .dlq ∨ job.onError = .continues) (hsink : job.dlqSink = true)
    (htaken : work.taken = true)
    (hunit : ∀ k u, key = some k → s.delivery.units.lookup k = some u → u.dlqFailed = 0)
    (hraises : work.content.raises job key s = true) :
    ChunkAccounted job.toPipeline key work.raw s (processChunk job key work s).2 ↔
      work.content.incremental = false := by
  obtain ⟨raw, content, taken, elsewhere⟩ := work
  subst htaken
  cases content with
  | parsed records answers => cases hraises
  | unparsed text =>
    rw [processChunk_unparsed hpolicy hsink]
    refine iff_of_true ⟨?_, ?_⟩ rfl
    · simp [since, refuse, emit, parseEnvelopes, Stage.raw]
    · intro k u hkey hu
      subst hkey
      refine ⟨u.lose ⟨0, 1, 0⟩, ?_, Nat.lt_succ_self _, disposition_lose (hunit k u rfl hu) _⟩
      simp [refuse, losing, emit, onDelivery, Delivery.recordLoss,
        Delivery.onUnit, Dict.lookup_modify, hu]
  | batches parts ending =>
    simp only [Content.raises, Bool.and_eq_true, Option.any_eq_true] at hraises
    obtain ⟨⟨fault, hending, hfault⟩, hasks⟩ := hraises
    subst hending
    refine iff_of_false (fun h => ?_) (by simp [Content.incremental])
    have hone := h.1
    rw [(processChunk_batches hpolicy hfault raw true elsewhere hasks).parseEnvelopes_since] at hone
    cases hone

end Paths

def enteredFile : State Nat :=
  new.onDelivery (·.registerUnit ("/in/a", "a") ⟨some ("/in/a", "a"), false, none, false⟩)

theorem unparseable_chunk_accounted_whole :
    ChunkAccounted (dlqJob 1 1 false).toPipeline (some ("/in/a", "a")) [0x30, 0x80] enteredFile
      (processChunk (dlqJob 1 1 false) (some ("/in/a", "a")) ⟨[0x30, 0x80], .unparsed "short", true, false⟩
        enteredFile).2 := by
  refine (unparseable_chunk_accounted (dlqJob 1 1 false) (some ("/in/a", "a"))
    ⟨[0x30, 0x80], .unparsed "short", true, false⟩ enteredFile (by decide) rfl rfl ?_ rfl).mpr rfl
  intro k u hk hu
  cases hk
  cases hu
  rfl

/-- Records from the first half of a file, then bytes that are none: no envelope, no loss, and the
unit is to be acknowledged as delivered. -/
theorem unparseable_chunk_unaccounted :
    parseEnvelopes ((processChunk (dlqJob 1 1 false) (some ("/in/a", "a"))
        ⟨[0x30, 0x80], .batches [([1], .quiet)] (some ⟨true, "short"⟩), true, false⟩ enteredFile).2.since
          enteredFile) = [] ∧
      ((processChunk (dlqJob 1 1 false) (some ("/in/a", "a"))
        ⟨[0x30, 0x80], .batches [([1], .quiet)] (some ⟨true, "short"⟩), true, false⟩
          enteredFile).2.delivery.units.lookup ("/in/a", "a")).bind (·.disposition .dlq) =
        some .delivered ∧
      ¬ ChunkAccounted (dlqJob 1 1 false).toPipeline (some ("/in/a", "a")) [0x30, 0x80] enteredFile
        (processChunk (dlqJob 1 1 false) (some ("/in/a", "a"))
          ⟨[0x30, 0x80], .batches [([1], .quiet)] (some ⟨true, "short"⟩), true, false⟩ enteredFile).2 :=
  ⟨by decide +kernel, by decide +kernel, fun h => absurd h.1 (by decide +kernel)⟩

end Tram.Executor
