import Tram.Executor.Accounts
import Tram.Executor.Chunks

/-! # What becomes of the records a sink accepts

A call of `_process_records` whose conditions and serializers work has each record a sink accepts
written by that sink or in an envelope; or it leaves its unit with an outcome no barrier
acknowledges; or, under "abort", it raises. -/

namespace Tram.Executor

open List
open Procedure (bind_run_ok get_run)

variable {ρ : Type} {p : Pipeline ρ} {s t : State ρ}

/-- Each record due to the sink is in a payload it took or in an envelope. -/
def Provided (c : Call) (i : Nat) (sink : Sink ρ) (records : List ρ) (es : List (Effect ρ)) : Prop :=
  (dueFor c i sink records).Subperm (accounted i es)

/-! ## Doomed units -/

/-- A barrier does not acknowledge the unit, as long as only a DLQ sink takes envelopes. -/
def UnitOutcome.Doomed (p : Pipeline ρ) (u : UnitOutcome) : Prop :=
  0 < u.dlqFailed ∨ (p.dlqSink = false ∧ 0 < u.recordsFailed)

theorem UnitOutcome.Doomed.grown {u v : UnitOutcome} (h : u.Doomed p) (hgrown : u.Grown v) :
    v.Doomed p :=
  h.imp (fun h => Nat.lt_of_lt_of_le h hgrown.dlqFailed)
    fun h => ⟨h.1, Nat.lt_of_lt_of_le h.2 hgrown.recordsFailed⟩

theorem UnitOutcome.Doomed.disposition {u : UnitOutcome} (h : u.Doomed p)
    (hpolicy : p.onError ≠ .continues) (hdlq : p.dlqSink = false → u.dlqSucceeded = 0) :
    u.disposition p.onError = none := by
  unfold UnitOutcome.disposition
  rcases h with h | ⟨hsink, h⟩
  · rw [if_pos h]
  · rw [if_neg (by simp [hdlq hsink] : ¬ 0 < u.dlqSucceeded), if_pos h, if_neg hpolicy, ite_self]

def State.Doomed (p : Pipeline ρ) (s : State ρ) (key : Option UnitKey) : Prop :=
  ∀ k u, key = some k → s.delivery.units.lookup k = some u → u.Doomed p

theorem State.Doomed.keeps {key : Option UnitKey} (h : s.Doomed p key) (hkeeps : Keeps s t) :
    t.Doomed p key := by
  intro k u hkey hu
  obtain ⟨v, hv⟩ := hkeeps.registered ⟨u, hu⟩
  obtain ⟨u', hu', hgrown⟩ := hkeeps.grows k v hv
  obtain rfl := Option.mem_unique hu hu'
  exact (h k v hkey hv).grown hgrown

theorem State.doomed_losing (s : State ρ) (key : Option UnitKey) {l : Loss}
    (h : 0 < l.dlqFailed ∨ (p.dlqSink = false ∧ 0 < l.recordsFailed)) :
    (s.losing ⟨key, true⟩ l).Doomed p key := by
  intro k u hkey hu
  subst hkey
  have hlookup : (s.losing ⟨some k, true⟩ l).delivery.units.lookup k =
      (s.delivery.units.lookup k).map (·.lose l) := by
    show (Dict.modify s.delivery.units k (·.lose l)).lookup k = _
    rw [Dict.lookup_modify, if_pos rfl]
  rw [hlookup] at hu
  obtain ⟨v, -, rfl⟩ := Option.map_eq_some_iff.mp hu
  exact h.imp (fun h => Nat.lt_of_lt_of_le h (Nat.le_add_left _ _))
    fun h => ⟨h.1, Nat.lt_of_lt_of_le h.2 (Nat.le_add_left _ _)⟩

/-- There is nothing more to show of a stretch of a call: its unit is doomed, or it raised under
"abort". -/
def Settled (p : Pipeline ρ) (key : Option UnitKey) (o : Option Failure) (t : State ρ) : Prop :=
  t.Doomed p key ∨ (p.onError = .abort ∧ o ≠ none)

theorem reraises_abort (h : p.onError = .abort) (tracked elsewhere : Bool) (d : Delivery) (f : Failure) :
    reraises p tracked elsewhere d f = true := by
  cases f <;> simp [reraises, h]

theorem settled_exits (p : Pipeline ρ) (key : Option UnitKey) (answers : Answers) :
    Exits p ⟨⟨key, true⟩, answers⟩ (Settled p key) where
  lasts h hkeeps hraised := h.imp (·.keeps hkeeps) fun h => ⟨h.1, hraised h.2⟩
  swallowed h hreraises := by
    refine h.imp id fun h => ?_
    rw [reraises_abort h.1] at hreraises
    cases hreraises
  aborted habort _ _ := .inr ⟨habort, nofun⟩
  lost h s _ := .inl (s.doomed_losing key (h.symm.imp And.right id))

/-- What the call finds that makes every loss tell for sink `i`: its breaker is closed if there is a
DLQ sink and, unless the first failure is raised, its condition can be evaluated and with a DLQ sink
no partition but the last fails. -/
structure CleanFor (p : Pipeline ρ) (c : Call) (records : List ρ) (s : State ρ) (i : Nat) (sink : Sink ρ) :
    Prop where
  closed : p.dlqSink = true → s.breakerOpen p c i sink = false
  evaluates : p.onError ≠ .abort →
    ∃ selected, sink.select (c.answers.conditionAt i) records = .ok selected
  onlyLast : p.onError ≠ .abort → p.dlqSink = true →
    OnlyLastFails c i sink 0 (partitionRecords p sink (dueFor c i sink records))

/-! ## Chunks -/

/-- A call of `_process_records` for a chunk of a unit, and the state it finds. -/
structure SinkCall (ρ : Type) where
  key : Option UnitKey
  answers : Answers
  records : List ρ
  before : State ρ

variable {v : SinkCall ρ}

namespace SinkCall

def call (v : SinkCall ρ) : Call := ⟨⟨v.key, true⟩, v.answers⟩

def run (job : BatchJob ρ) (v : SinkCall ρ) : Except Failure Bool × State ρ :=
  processRecords job.toPipeline v.call job.transforms true v.records v.before

def survivors (job : BatchJob ρ) (v : SinkCall ρ) : List ρ := handed v.call job.transforms 0 v.records

def effects (job : BatchJob ρ) (v : SinkCall ρ) : List (Effect ρ) :=
  (v.run job).2.effects.drop v.before.effects.length

/-- Each record a sink accepted is in a payload the sink took or in an envelope. -/
def Accounted (job : BatchJob ρ) (v : SinkCall ρ) : Prop :=
  ∀ i sink, job.sinks[i]? = some sink → Provided v.call i sink (v.survivors job) (v.effects job)

/-- Every loss in the call tells: see `CleanFor`, and every payload can be serialized unless the
first failure is raised. -/
structure Clean (job : BatchJob ρ) (v : SinkCall ρ) : Prop where
  serializes : job.onError ≠ .abort → v.answers.SerializesAll
  sinks : ∀ i sink, job.sinks[i]? = some sink →
    CleanFor job.toPipeline v.call (v.survivors job) v.before i sink

theorem Clean.fate {job : BatchJob ρ} (h : v.Clean job) :
    Ends (Settled job.toPipeline v.key) (processRecords job.toPipeline v.call job.transforms true v.records)
      v.before ∨ v.Accounted job := by
  rcases (settled_exits job.toPipeline v.key v.answers).processRecords job.transforms h.serializes true
    v.records v.before (fun habort k sink hk => by
      rw [Nat.zero_add]
      exact (h.sinks k sink hk).evaluates habort) with
    hsettled | ⟨_, es, t, hrun, heffects, rfl, -, hshare⟩
  · exact .inl hsettled
  · refine .inr fun i sink hi => ?_
    have hes : v.effects job = es := by
      rw [effects, show v.run job = (.ok true, t) from hrun, heffects, drop_left]
    rw [hes]
    exact ((hshare i sink hi).conserved (h.sinks i sink hi).closed (h.sinks i sink hi).onlyLast).symm.subperm

end SinkCall

def batchCalls (job : BatchJob ρ) (key : Option UnitKey) :
    List (List ρ × Answers) → State ρ → List (SinkCall ρ)
  | [], _ => []
  | (records, answers) :: parts, s =>
    match job.room s records with
    | none => []
    | some [] => batchCalls job key parts s
    | some (r :: rs) =>
      ⟨key, answers, r :: rs, s⟩ ::
        match SinkCall.run job ⟨key, answers, r :: rs, s⟩ with
        | (.error _, _) => []
        | (.ok _, t) => if job.limitReached t then [] else batchCalls job key parts t

def Content.calls (job : BatchJob ρ) (key : Option UnitKey) (s : State ρ) : Content ρ → List (SinkCall ρ)
  | .parsed records answers => [⟨key, answers, records, s⟩]
  | .unparsed _ => []
  | .batches parts _ => batchCalls job key parts s

section Chunks

variable {job : BatchJob ρ} {key : Option UnitKey}

theorem mem_batchCalls {parts : List (List ρ × Answers)} (h : v ∈ batchCalls job key parts s) :
    v.key = key := by
  induction parts generalizing s with
  | nil => cases h
  | cons part parts ih =>
    obtain ⟨records, answers⟩ := part
    rw [batchCalls] at h
    split at h
    · cases h
    · exact ih h
    · rcases mem_cons.mp h with rfl | h
      · rfl
      · split at h
        · cases h
        · split_ifs at h
          · cases h
          · exact ih h

theorem Content.mem_calls {content : Content ρ} (h : v ∈ content.calls job key s) : v.key = key := by
  cases content with
  | parsed records answers => rw [mem_singleton.mp h]
  | unparsed text => cases h
  | batches parts ending => exact mem_batchCalls h

theorem processBatches_fate (ending : Option Fault) (parts : List (List ρ × Answers)) (s : State ρ)
    (hclean : ∀ v ∈ batchCalls job key parts s, v.Clean job) :
    Ends (Settled job.toPipeline key) (processBatches job key ending parts) s ∨
      ∀ v ∈ batchCalls job key parts s, v.Accounted job := by
  induction parts generalizing s with
  | nil => exact .inr (forall_mem_nil _)
  | cons part parts ih =>
    obtain ⟨records, answers⟩ := part
    rw [Ends, processBatches, bind_run_ok (get_run s)]
    rw [batchCalls] at hclean ⊢
    cases hroom : job.room s records with
    | none => exact .inr (forall_mem_nil _)
    | some fitting =>
      rw [hroom] at hclean
      cases fitting with
      | nil => exact ih s hclean
      | cons r rs =>
        dsimp only at hclean ⊢
        rcases (hclean _ mem_cons_self).fate with hsettled | haccounted
        · refine .inl (hsettled.bind (settled_exits _ _ answers) fun _ => .bind .get fun t => ?_)
          split_ifs
          · exact .pure ()
          · exact Stepwise.processBatches (fun answers => Keeps.stepwise _ ⟨_, answers⟩) (fun _ => trivial)
              ending parts
        · cases hrun : SinkCall.run job ⟨key, answers, r :: rs, s⟩ with
          | mk result t =>
            rw [hrun] at hclean
            cases result with
            | error f =>
              exact .inr (forall_mem_singleton.mpr haccounted)
            | ok b =>
              dsimp only at hclean ⊢
              have hcall : processRecords job.toPipeline ⟨⟨key, true⟩, answers⟩ job.transforms true
                (r :: rs) s = (.ok b, t) := hrun
              rw [bind_run_ok hcall, bind_run_ok (get_run t)]
              split_ifs at hclean ⊢ with hlimit
              · exact .inr (forall_mem_singleton.mpr haccounted)
              · exact (ih t fun v hv => hclean v (mem_cons_of_mem _ hv)).imp id fun hrest =>
                  forall_mem_cons.mpr ⟨haccounted, hrest⟩

theorem processChunk_fate (work : Work ρ) (s : State ρ)
    (hclean : ∀ v ∈ work.content.calls job key s, v.Clean job) :
    Ends (Settled job.toPipeline key) (processChunk job key work) s ∨
      ∀ v ∈ work.content.calls job key s, v.Accounted job := by
  unfold processChunk
  cases hcontent : work.content with
  | parsed records answers =>
    rw [hcontent] at hclean
    rcases (hclean _ mem_cons_self).fate with hsettled | haccounted
    · exact .inl (hsettled.handling (settled_exits _ _ answers) _ _ _)
    · refine .inr fun v hv => ?_
      rwa [mem_singleton.mp hv]
  | unparsed text => exact .inr (forall_mem_nil _)
  | batches parts ending =>
    rw [hcontent] at hclean
    refine (processBatches_fate ending parts s hclean).imp (fun hsettled => ?_) id
    refine Ends.handling (settled_exits _ _ .quiet) ?_ _ _ _
    unfold Ends at hsettled ⊢
    rw [chunkBody, processIncrementally]
    cases hrun : processBatches job key ending parts s with
    | mk r t =>
      rw [hrun] at hsettled
      cases r with
      | ok _ => exact hsettled
      | error f =>
        cases f with
        | tram | dlqDelivery => exact hsettled
        | other text =>
          obtain ⟨f, u, hraises⟩ := parseFailed_raises job.toPipeline key work.raw text work.taken t
          exact (settled_exits _ _ .quiet).lasts hsettled (parseFailed_keeps key _ text _ t) fun _ =>
            ne_of_eq_of_ne (congrArg (fun r => Procedure.raised r.1) hraises) (by rintro ⟨⟩)

end Chunks

/-- No unit has more envelopes than it had. -/
def SameDlq (s t : State ρ) : Prop :=
  ∀ k u', t.delivery.units.lookup k = some u' →
    ∃ u, s.delivery.units.lookup k = some u ∧ u'.dlqSucceeded = u.dlqSucceeded

theorem SameDlq.of_eq (h : t.delivery = s.delivery) : SameDlq s t :=
  fun _ u' hu' => ⟨u', by rwa [h] at hu', rfl⟩

theorem SameDlq.onUnit (s : State ρ) (key : Option UnitKey) {f : UnitOutcome → UnitOutcome}
    (hf : ∀ u : UnitOutcome, (f u).dlqSucceeded = u.dlqSucceeded) :
    SameDlq s (s.onDelivery (·.onUnit key f)) := by
  cases key with
  | none => exact fun _ u hu => ⟨u, hu, rfl⟩
  | some key => exact Dict.forall_modify (fun u hu => ⟨u, hu, hf u⟩) fun _ u hu => ⟨u, hu, rfl⟩

theorem SameDlq.losing (s : State ρ) (c : Account) (n : Nat) : SameDlq s (s.losing c ⟨n, 0, 0⟩) := by
  unfold State.losing
  split_ifs
  · exact SameDlq.onUnit s c.key (f := (·.lose ⟨n, 0, 0⟩)) fun u => rfl
  · exact .of_eq rfl

theorem SameDlq.lose (hsink : p.dlqSink = false) (c : Account) (sink : Option Nat) (stage : Stage)
    (records : List ρ) (count : Nat) (taken : Bool) (text : String) (s : State ρ) :
    SameDlq s (lose p c sink stage records count taken text s).2 := by
  rw [Executor.lose, if_neg (by simp [hsink])]
  exact SameDlq.losing s c count

theorem SameDlq.stepwise (hsink : p.dlqSink = false) (c : Call) :
    Stepwise p c (fun _ => True) SameDlq where
  refl _ := .of_eq rfl
  trans h h' k u' hu' := by
    obtain ⟨u, hu, heq⟩ := h' k u' hu'
    obtain ⟨v, hv, heq'⟩ := h k u hu
    exact ⟨v, hv, heq.trans heq'⟩
  lose sink stage records count taken text s _ := .lose hsink _ _ _ _ _ _ _ s
  breaker _ _ _ _ _ := .of_eq rfl
  wrote _ _ _ := .of_eq rfl
  skipped s _ records := SameDlq.losing s c.toAccount records.length
  counted _ _ := .of_eq rfl
  chunk s m n := .onUnit s c.key fun u => rfl
  refused _ _ := .of_eq rfl

theorem processChunk_sameDlq {job : BatchJob ρ} (hsink : job.dlqSink = false) (key : Option UnitKey)
    (work : Work ρ) (s : State ρ) : SameDlq s (processChunk job key work s).2 :=
  Stepwise.processChunk (fun answers => SameDlq.stepwise hsink ⟨_, answers⟩) (fun _ => trivial)
    (fun _ taken text s => .lose hsink _ _ _ _ _ taken text s) work s

end Tram.Executor
