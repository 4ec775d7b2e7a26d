import Tram.Executor.Accounts

/-! # No record of a sink write is lost silently -/

namespace Tram.Executor

open List

variable {ρ : Type}

/-- How many records the effect adds to `records_failed`. -/
def Effect.fails : Effect ρ → Nat
  | .skipped _ records => records.length
  | .wrote _ _ => 0
  | .enveloped _ _ _ => 0

def failedIn (es : List (Effect ρ)) : Nat := (es.map (·.fails)).sum

@[simp] theorem failedIn_append (es fs : List (Effect ρ)) :
    failedIn (es ++ fs) = failedIn es + failedIn fs := by simp [failedIn]

/-- The records counted as failed are those of the effects. -/
def Tallied (c : Call) (s t : State ρ) : Prop :=
  ∃ es, t.effects = s.effects ++ es ∧
    (c.tracked = true → t.delivery.recordsFailed = s.delivery.recordsFailed + failedIn es)

theorem Tallied.of_same {c : Call} {s t : State ρ} (heffects : t.effects = s.effects)
    (hfailed : t.delivery.recordsFailed = s.delivery.recordsFailed) : Tallied c s t :=
  ⟨[], by rw [heffects, append_nil], fun _ => hfailed⟩

theorem Tallied.stepwise {p : Pipeline ρ} (hdlq : p.dlqSink = true) (c : Call) :
    Stepwise p c (fun _ => True) (Tallied c) where
  refl _ := .of_same rfl rfl
  trans := by
    rintro s t u ⟨es, hes, hfailed⟩ ⟨fs, hfs, hfailed'⟩
    refine ⟨es ++ fs, by rw [hfs, hes, append_assoc], fun ht => ?_⟩
    rw [hfailed' ht, hfailed ht, failedIn_append, Nat.add_assoc]
  lose sink stage records count taken text s _ := by
    rcases lose_cases p c.toAccount sink stage records count taken text s with
      ⟨-, -, h⟩ | ⟨-, -, -, -, h⟩ | ⟨-, -, -, h⟩ | ⟨hsink, -⟩
    · rw [h]
      exact ⟨[.enveloped sink stage records], by simp [State.emit], fun _ => by
        simp [State.emit, failedIn, Effect.fails]⟩
    · rw [h]
      exact .of_same (by simp) (by simp)
    · rw [h]
      exact .of_same (by simp) (by simp)
    · cases hsink.symm.trans hdlq
  breaker _ _ _ _ _ := .of_same rfl rfl
  wrote _ i records := ⟨[.wrote i records], rfl, fun _ => rfl⟩
  skipped s i records := ⟨[.skipped i records], by simp [State.emit], fun ht => by
    simp [State.emit, failedIn, Effect.fails, ht]⟩
  counted _ _ := .of_same rfl rfl
  chunk _ _ _ := .of_same rfl (Delivery.recordChunk_recordsFailed _ _ _ _)
  refused _ _ := .of_same rfl rfl

/-- Every record handed to a sink that has neither a condition nor transforms is accounted for. If
its breaker is open the sink is left out, and all its records are counted as failed; otherwise it
has each of them in a payload it took or in an envelope, unless one of its partitions fails before
the last. -/
theorem process_records_conserves (p : Pipeline ρ) (c : Call) (transforms : List (Transform ρ))
    (countIn : Bool) (records : List ρ) (s : State ρ) (policy : p.onError = .dlq)
    (taken : c.answers.DlqTakesAll) (serialized : c.answers.SerializesAll)
    (conditions : ConditionsHold c (handed c transforms 0 records) 0 p.sinks) :
    ∃ es s', processRecords p c transforms countIn records s = (.ok true, s') ∧
      s'.effects = s.effects ++ es ∧
      (transforms = [] →
        handed c transforms 0 records = records ∧ untransformed c transforms 0 records = []) ∧
      rejected es = untransformed c transforms 0 records ∧
      (∀ i sink, p.sinks[i]? = some sink → sink.Plain →
        (s.breakerOpen p c i sink = false →
          OnlyLastFails c i sink 0 (partitionRecords p sink (handed c transforms 0 records)) →
          (accounted i es).Perm (handed c transforms 0 records)) ∧
        (s.breakerOpen p c i sink = true →
          accounted i es = [] ∧ skippedFor i es = handed c transforms 0 records)) ∧
      (c.tracked = true →
        s'.delivery.recordsFailed = s.delivery.recordsFailed + failedIn es) := by
  -- with such a DLQ no call comes to a bad end
  have hdlq := p.dlqSink_of_dlq policy
  have hX : Exits p c fun _ _ => False :=
    { lasts := fun h => h.elim
      swallowed := fun h => h.elim
      aborted := fun habort => by cases policy.symm.trans habort
      lost := fun hlost => by simp [hdlq, taken] at hlost }
  obtain hbad | ⟨b, es, s', hrun, heffects, rfl, hrej, hshare⟩ :=
    hX.processRecords transforms (fun _ => serialized) countIn records s fun _ => conditions
  · exact hbad.elim
  refine ⟨es, s', hrun, heffects, ?_, hrej, fun i sink hi plain => ⟨fun hclosed hlast => ?_, ?_⟩,
    fun ht => ?_⟩
  · rintro rfl
    exact ⟨handed_nil c 0 records, untransformed_nil c 0 records⟩
  · have hperm := (hshare i sink hi).conserved (fun _ => hclosed) fun _ _ => by rwa [plain.dueFor]
    rwa [plain.dueFor] at hperm
  · exact (hshare i sink hi).skipped plain
  · obtain ⟨fs, hfs, hfailed⟩ :=
      (Tallied.stepwise hdlq c).processRecords (fun _ => trivial) transforms countIn records s
    rw [hrun] at hfs hfailed
    rw [hfailed ht, append_cancel_left (hfs.symm.trans heffects)]

def parityPipeline : Pipeline Nat where
  name := "p"
  onError := .dlq
  dlqSink := true
  parallelSinks := false
  transforms := []
  sinks := [⟨"file", none, [], ["parity"], 0, 1, 60⟩]
  lookupField r _ := toString (r % 2)
  dlqSink_of_dlq _ := rfl

theorem parityPipeline_plain : ∀ sink ∈ parityPipeline.sinks, sink.Plain := by
  simp [parityPipeline, Sink.Plain]

def Answers.failing (j : Nat) : Answers :=
  { Answers.quiet with write := fun _ k _ => if k = j then some "down" else none }

theorem process_records_conserves_parity :
    ∃ es s', processRecords parityPipeline ⟨⟨none, true⟩, .failing 1⟩ [] true [1, 2, 3] .new =
        (.ok true, s') ∧ s'.effects = es ∧ (accounted 0 es).Perm [1, 2, 3] := by
  obtain ⟨es, s', hrun, heffects, hnone, -, hsinks, -⟩ :=
    process_records_conserves parityPipeline ⟨⟨none, true⟩, .failing 1⟩ [] true [1, 2, 3] .new rfl
      ⟨fun _ => rfl, fun _ => rfl, fun _ _ => rfl⟩ (fun _ _ => rfl)
      (fun k sink hk => ⟨_, (parityPipeline_plain sink (mem_of_getElem? hk)).select _ _⟩)
  refine ⟨es, s', hrun, heffects, ?_⟩
  rw [(hnone rfl).1] at hsinks
  refine (hsinks 0 _ rfl ⟨rfl, rfl⟩).1 (by decide) fun k hk => ?_
  have : k = 0 := by
    have hlen : (partitionRecords parityPipeline ⟨"file", none, [], ["parity"], 0, 1, 60⟩
      [1, 2, 3]).length = 2 := by decide +kernel
    omega
  subst this
  decide

/-- Records in no payload and in no envelope, although the DLQ takes every envelope: those an open
breaker kept from its sink, those of the partitions after one that failed, and those of a
partition that could not be serialized. -/
theorem sink_writes_unaccounted :
    (∃ s s', processRecords parityPipeline ⟨⟨none, true⟩, .quiet⟩ [] true [1] s = (.ok true, s') ∧
      s.effects = [] ∧ ¬ (accounted 0 s'.effects).Perm [1]) ∧
    (∃ s', processRecords parityPipeline ⟨⟨none, true⟩, .failing 0⟩ [] true [1, 2] .new =
      (.ok true, s') ∧ ¬ (accounted 0 s'.effects).Perm [1, 2]) ∧
    ∃ s', processRecords parityPipeline
        ⟨⟨none, true⟩, { Answers.quiet with serialize := fun _ _ => some ⟨true, "bad"⟩ }⟩ [] true [1]
        .new = (.ok false, s') ∧ ¬ (accounted 0 s'.effects).Perm [1] := by
  refine ⟨⟨{ State.new with breakers := (∅ : Dict String _).insert "p:file:0" (1, 60) }, _, rfl,
    rfl, by decide +kernel⟩, ⟨_, rfl, by decide +kernel⟩, ⟨_, rfl, by decide +kernel⟩⟩

end Tram.Executor
