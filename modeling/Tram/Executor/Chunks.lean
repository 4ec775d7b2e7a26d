import Tram.Executor.Honest

/-! # Chunks, barriers and both loops keep the accounting honest -/

namespace Tram.Executor

open Procedure (Meets bind_run_error bind_run_ok raise_run raised)

variable {ρ : Type}

section Chunk

variable {p : Pipeline ρ} {s t u : State ρ}

theorem Honest.after_other {text : String} {g : Failure}
    (h : Honest p true s (some (.other text)) t) (h' : Honest p true t (some g) u) :
    Honest p true s (some g) u :=
  h.append h' (fun _ hf => ⟨text, (Option.some.inj hf).symm⟩) fun _ => Option.some_ne_none g

/-- Which exception it was matters only where a `_DLQDeliveryError` or a `TramError` excuses an
envelope that was not taken. -/
theorem Honest.of_other {text : String} (h : Honest p true s (some (.other text)) t)
    (g : Failure) : Honest p true s (some g) t where
  __ := h
  untracked := nofun
  failed hlt := (h.failed hlt).imp id (.imp (fun h => ⟨h.1, nofun⟩) id)
  undelivered hlt := by
    rcases h.undelivered hlt with ⟨habort, -⟩ | htolerant |
      ⟨hdlq, ⟨_, hraise⟩ | ⟨hpool, ⟨_, _, hraise⟩ | hswallowed⟩⟩
    · exact .inl ⟨habort, nofun⟩
    · exact .inr (.inl htolerant)
    · cases hraise
    · cases hraise
    · exact .inr (.inr ⟨hdlq, .inr ⟨hpool, .inr hswallowed⟩⟩)

/-- The two ways the body of a chunk call ends: with nothing but the errors of `_process_records`,
or with the parse error, whose loss is in the DLQ or recorded. -/
def Chunked (p : Pipeline ρ) (taken : Bool) (s : State ρ) (r : Except Failure Bool × State ρ) :
    Prop :=
  Answerable p true s (raised r.1) r.2 ∨
    ∃ text, r.1 = .error (.tram .parse text) ∧ Honest p true s (some (.other text)) r.2 ∧
      (p.onError ≠ .abort → Allowed p r.2.delivery (.unparsed (p.dlqSink && taken)))

section

variable (p : Pipeline ρ) (key : Option UnitKey) (raw : List UInt8) (text : String) (taken : Bool)
  (s : State ρ)

theorem parseFailed_chunked : Chunked p taken s (parseFailed p key raw text taken s) := by
  unfold parseFailed
  by_cases habort : p.onError = .abort
  · obtain ⟨t, hlose, ht⟩ := lose_abort (c := ⟨key, true⟩) habort none (.parse raw) [] 1 taken
      s!"DLQ delivery failed for unparseable chunk: {text}" (.other s!"Parse error: {text}") s
    rw [bind_run_ok hlose]
    exact .inr ⟨_, rfl, ht.toHonest, fun h => absurd habort h⟩
  · have hlose := lose_answerable (c := ⟨key, true⟩) habort none (.parse raw) [] 1 taken
      s!"DLQ delivery failed for unparseable chunk: {text}" s
    have hpolicy := p.onError.cases.resolve_left habort
    rcases lose_cases p ⟨key, true⟩ none (.parse raw) [] 1 taken
        s!"DLQ delivery failed for unparseable chunk: {text}" s with
      ⟨hsink, rfl, h⟩ | ⟨-, -, -, -, h⟩ | ⟨-, -, hnot, h⟩ | ⟨hsink, h⟩
    · -- in the DLQ
      rw [bind_run_ok h]
      have hquiet : Answerable p true s (some (.other s!"Parse error: {text}")) _ :=
        (Answerable.emit (.enveloped none (.parse raw) []) true).trans
          (.of_losing (c := ⟨key, true⟩) (l := ⟨0, 1, 0⟩) (by simp) (by simp) (by simp))
      exact .inr ⟨_, rfl, hquiet.toHonest, fun _ => .inl (by simp [hsink])⟩
    · rw [h] at hlose
      rw [bind_run_error h]
      exact .inl hlose
    · -- not in the DLQ, and the policy is to continue
      have htolerant : p.onError.Tolerant := hpolicy.resolve_left fun hd => hnot ⟨.inl hd, rfl⟩
      have hlost : Answerable p true s (some (.other s!"Parse error: {text}"))
          (s.losing ⟨key, true⟩ ⟨0, 0, 1⟩) :=
        .of_losing (c := ⟨key, true⟩) (by simp) (fun _ _ => .inr (.inl htolerant)) (by simp)
      rw [bind_run_ok h]
      refine .inr ⟨_, rfl, hlost.toHonest, fun _ => .inr ⟨htolerant, ?_⟩⟩
      simp [raise_run, Delivery.hasLoss]
    · have htolerant : p.onError.Tolerant := hpolicy.resolve_left fun hd => by
        simp [p.dlqSink_of_dlq hd] at hsink
      have hlost : Answerable p true s (some (.other s!"Parse error: {text}"))
          (s.losing ⟨key, true⟩ ⟨1, 0, 0⟩) :=
        .of_losing (c := ⟨key, true⟩) (fun _ => .inr htolerant) (by simp) (by simp)
      rw [bind_run_ok h]
      refine .inr ⟨_, rfl, hlost.toHonest, fun _ => .inr ⟨htolerant, ?_⟩⟩
      simp [raise_run, Delivery.hasLoss]

theorem parseFailed_raises :
    ∃ f t, (parseFailed p key raw text taken : Exec ρ Bool) s = (.error f, t) := by
  unfold parseFailed
  match h : lose p ⟨key, true⟩ none (.parse raw) [] 1 taken
      s!"DLQ delivery failed for unparseable chunk: {text}" s with
  | (.ok (), t) => exact ⟨_, t, bind_run_ok h _⟩
  | (.error f, t) => exact ⟨f, t, bind_run_error h _⟩

end

variable (job : BatchJob ρ)

theorem processBatches_answerable (key : Option UnitKey) (ending : Option Fault)
    (parts : List (List ρ × Answers)) :
    Meets (Answerable job.toPipeline true) (processBatches job key ending parts) := by
  induction parts with
  | nil =>
    cases ending with
    | none => exact .pure ()
    | some fault =>
      refine .raise fun s => .of_same (List.prefix_refl _) rfl rfl (fun _ => rfl) rfl ?_
      intro _ origin text h
      unfold Fault.failure at h
      split_ifs at h
      · cases h; exact .inr (.inl rfl)
      · cases h
  | cons part parts ih =>
    obtain ⟨records, answers⟩ := part
    refine .bind .get fun s => ?_
    match job.room s records with
    | none => exact .pure ()
    | some [] => exact ih
    | some (r :: rs) =>
      refine .bind (processRecords_answerable ⟨⟨key, true⟩, answers⟩ _ _ _) fun _ =>
        .bind .get fun t => ?_
      split_ifs with hlimit
      · exact .pure ()
      · exact ih

theorem chunkBody_chunked (key : Option UnitKey) (raw : List UInt8) (taken : Bool)
    (content : Content ρ) (s : State ρ) :
    Chunked job.toPipeline taken s (chunkBody job key raw taken content s) := by
  cases content with
  | parsed records answers =>
    exact .inl (processRecords_answerable ⟨⟨key, true⟩, answers⟩ _ _ _ s)
  | unparsed text => exact parseFailed_chunked job.toPipeline key raw text taken s
  | batches parts ending =>
    have hs := processBatches_answerable job key ending parts s
    rw [chunkBody, processIncrementally]
    rcases hrun : processBatches job key ending parts s with ⟨(⟨origin, text⟩ | text | text) | ⟨⟩, t⟩ <;>
      rw [hrun] at hs
    · exact .inl hs
    · exact .inl hs
    · rcases parseFailed_chunked job.toPipeline key raw text taken t with h | ⟨text', hr, h, hallowed⟩
      · obtain ⟨f, u, hraise⟩ := parseFailed_raises job.toPipeline key raw text taken t
        rw [hraise] at h
        simp only [hraise]
        exact .inl ⟨hs.toHonest.after_other h.toHonest, h.raised⟩
      · exact .inr ⟨text', hr, hs.toHonest.after_other h, hallowed⟩
    · exact .inl hs

theorem processChunk_honest (key : Option UnitKey) (work : Work ρ) :
    Meets (Honest job.toPipeline true) (processChunk job key work) := by
  intro s
  unfold processChunk
  have hs := chunkBody_chunked job key work.raw work.taken work.content s
  rcases hrun : chunkBody job key work.raw work.taken work.content s with ⟨f | b, t⟩ <;> rw [hrun] at hs
  · rw [handling_error hrun]
    cases hraise : reraises job.toPipeline true work.lossElsewhere t.delivery f with
    | true =>
      rcases hs with hs | ⟨text, -, hs, -⟩
      · exact hs.toHonest
      · exact hs.of_other f
    | false =>
      rcases hs with hs | ⟨text, hf, hs, hallowed⟩
      · obtain ⟨habort, origin, text, rfl, horigin⟩ := hs.swallowed hraise
        have hrefusal : refusalOf job.toPipeline work.taken (.tram origin text) =
            .failed (.tram origin text) := by rcases horigin with rfl | rfl <;> rfl
        simp only [hrefusal]
        exact hs.toHonest.refuse habort (by simp) (fun _ => ⟨_, rfl⟩) ⟨origin, text, rfl, horigin⟩
      · cases hf
        have habort : job.onError ≠ .abort := fun h => by simp [reraises, h] at hraise
        exact hs.refuse habort (by simp) (by simp) (hallowed habort)
  · rw [handling_ok hrun]
    rcases hs with hs | ⟨text, hf, -⟩
    · exact hs.toHonest
    · cases hf

end Chunk

/-! ## Barriers -/

/-- Nothing the outcome of a run depends on has changed, except for checkpoints left pending. -/
structure Still (s : State ρ) (o : Option Failure) (s' : State ρ) : Prop where
  effects : s'.effects = s.effects
  recordsFailed : s'.delivery.recordsFailed = s.delivery.recordsFailed
  dlqFailed : s'.delivery.dlqFailed = s.delivery.dlqFailed
  refused : s'.refused = s.refused

instance : Procedure.Sequential (Still (ρ := ρ)) where
  refl _ := ⟨rfl, rfl, rfl, rfl⟩
  trans h h' := ⟨h'.effects.trans h.effects, h'.recordsFailed.trans h.recordsFailed,
    h'.dlqFailed.trans h.dlqFailed, h'.refused.trans h.refused⟩

theorem Still.honest {p : Pipeline ρ} {s t : State ρ} {o : Option Failure} (h : Still s o t) :
    Honest p true s o t where
  effects := h.effects ▸ List.prefix_refl _
  recordsFailed_le := Nat.le_of_eq h.recordsFailed.symm
  dlqFailed_le := Nat.le_of_eq h.dlqFailed.symm
  untracked := nofun
  refused := ⟨[], by rw [h.refused, List.append_nil], by simp⟩
  failed hlt := absurd hlt (by rw [h.recordsFailed]; exact Nat.lt_irrefl _)
  undelivered hlt := absurd hlt (by rw [h.dlqFailed]; exact Nat.lt_irrefl _)

instance : AtBarriers (Still (ρ := ρ)) where
  raise _ _ := ⟨rfl, rfl, rfl, rfl⟩
  register _ _ _ := ⟨rfl, rfl, rfl, rfl⟩
  drop _ _ := ⟨rfl, rfl, rfl, rfl⟩
  pend _ := ⟨rfl, rfl, rfl, rfl⟩

theorem Still.tells (info : Meta) : Tells (Still (ρ := ρ)) info :=
  ⟨fun _ _ => ⟨rfl, rfl, rfl, rfl⟩, fun _ _ => ⟨rfl, rfl, rfl, rfl⟩⟩

theorem Still.meets_honest {α : Type} {p : Pipeline ρ} {m : Exec ρ α} (h : Meets Still m) :
    Meets (Honest p true) m := fun s => (h s).honest

theorem abandoning_honest {α : Type} {p : Pipeline ρ} (current : Option Meta) {m : Exec ρ α}
    (h : Meets (Honest p true) m) : Meets (Honest p true) (abandoning current m) := by
  refine .onRaise h fun s f t ht => ?_
  cases current with
  | none => exact ht
  | some info =>
    exact ⟨ht.effects, ht.recordsFailed_le, ht.dlqFailed_le, ht.untracked, ht.refused, ht.failed,
      ht.undelivered⟩

theorem runBatchChunksSequential_honest (job : BatchJob ρ) (fault : Option Fault) (last : Barrier)
    (current : Option Meta) (items : List (Item ρ)) :
    Meets (Honest job.toPipeline true)
      (runBatchChunksSequential job fault last current items) := by
  induction items generalizing current with
  | nil =>
    unfold runBatchChunksSequential
    cases fault with
    | none => exact Still.meets_honest (finishUnit_meets (fun _ a _ => Still.tells a) last)
    | some fault => exact abandoning_honest current (Still.meets_honest (.raise (AtBarriers.raise · _)))
  | cons item items ih =>
    unfold runBatchChunksSequential
    split_ifs with hstop
    · exact Still.meets_honest (finishUnit_meets (fun _ a _ => Still.tells a) last)
    · refine .bind (abandoning_honest current
          (Still.meets_honest (enterUnit_meets (fun a _ _ _ => Still.tells a) item.before))) fun entered =>
        .bind (abandoning_honest entered (.bind (processChunk_honest job item.info.unit item.work)
          fun _ => Still.meets_honest (leaveUnit_meets (fun _ => Still.tells _) entered item.after)))
          fun left => .bind .get fun s => ?_
      split_ifs with hlimit
      · exact Still.meets_honest (finishUnit_meets (fun _ a _ => Still.tells a) last)
      · exact ih left

end Tram.Executor
