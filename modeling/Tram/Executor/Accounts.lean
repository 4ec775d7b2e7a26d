import Mathlib.Algebra.GroupWithZero.Nat
import Tram.Executor.Growth

/-! # What a call accounts for

A call of `_process_records` ends in one of the ways that count as a bad end, or it returns and each
sink has an account of the records handed to it: written, in an envelope, or left out by an open
breaker. What a bad end is differs: none at all where a DLQ takes everything, a unit that no barrier
acknowledges where it may not. -/

namespace Tram.Executor

open List Effect State
open Procedure (bind_run_error bind_run_ok get_run modify_run pure_run raised)

variable {ρ α β : Type}

/-! ## What effects account for -/

namespace Effect

/-- The records for sink `i` in a payload it took or in an envelope. -/
def accounts (i : Nat) : Effect ρ → List ρ
  | .wrote k records => if k = i then records else []
  | .enveloped (some k) _ records => if k = i then records else []
  | .enveloped none _ _ => []
  | .skipped _ _ => []

/-- The records an open breaker kept from sink `i`. -/
def skips (i : Nat) : Effect ρ → List ρ
  | .skipped k records => if k = i then records else []
  | .wrote _ _ => []
  | .enveloped _ _ _ => []

/-- The records enveloped before any sink was asked. -/
def rejects : Effect ρ → List ρ
  | .enveloped none _ records => records
  | .enveloped (some _) _ _ => []
  | .wrote _ _ => []
  | .skipped _ _ => []

def sink? : Effect ρ → Option Nat
  | .wrote k _ => some k
  | .enveloped k _ _ => k
  | .skipped k _ => some k

variable {e : Effect ρ}

theorem accounts_of_sink_ne {i : Nat} (h : e.sink? ≠ some i) :
    e.accounts i = [] := by
  cases e with
  | wrote k records => exact if_neg fun hk => h (congrArg some hk)
  | enveloped k stage records => cases k <;> simp_all [accounts, sink?]
  | skipped k records => rfl

theorem skips_of_sink_ne {i : Nat} (h : e.sink? ≠ some i) : e.skips i = [] := by
  cases e with
  | skipped k records => exact if_neg fun hk => h (congrArg some hk)
  | _ => rfl

theorem rejects_of_sink (h : e.sink? ≠ none) : e.rejects = [] := by
  cases e with
  | enveloped k stage records => cases k <;> simp_all [rejects, sink?]
  | _ => rfl

end Effect

def accounted (i : Nat) (es : List (Effect ρ)) : List ρ := es.flatMap (·.accounts i)

def skippedFor (i : Nat) (es : List (Effect ρ)) : List ρ := es.flatMap (·.skips i)

def rejected (es : List (Effect ρ)) : List ρ := es.flatMap (·.rejects)

variable {es : List (Effect ρ)} {i : Nat}

@[simp] theorem accounted_append (i : Nat) (es fs : List (Effect ρ)) :
    accounted i (es ++ fs) = accounted i es ++ accounted i fs := flatMap_append

@[simp] theorem skippedFor_append (i : Nat) (es fs : List (Effect ρ)) :
    skippedFor i (es ++ fs) = skippedFor i es ++ skippedFor i fs := flatMap_append

@[simp] theorem rejected_append (es fs : List (Effect ρ)) :
    rejected (es ++ fs) = rejected es ++ rejected fs := flatMap_append

theorem accounted_of_sinks_ne (h : ∀ e ∈ es, e.sink? ≠ some i) :
    accounted i es = [] :=
  flatMap_eq_nil_iff.mpr fun e he => e.accounts_of_sink_ne (h e he)

theorem skippedFor_of_sinks_ne (h : ∀ e ∈ es, e.sink? ≠ some i) : skippedFor i es = [] :=
  flatMap_eq_nil_iff.mpr fun e he => e.skips_of_sink_ne (h e he)

theorem rejected_of_sinks (h : ∀ e ∈ es, e.sink? ≠ none) :
    rejected es = [] :=
  flatMap_eq_nil_iff.mpr fun e he => e.rejects_of_sink (h e he)

structure Answers.DlqTakesAll (a : Answers) : Prop where
  transform : ∀ n, a.transformDlq n = true
  sinkTransform : ∀ i, a.sinkTransformDlq i = true
  partition : ∀ i j, a.partitionDlq i j = true

def Answers.SerializesAll (a : Answers) : Prop := ∀ i j, a.serialize i j = none

def Sink.Plain (sink : Sink ρ) : Prop := sink.condition = none ∧ sink.transforms = []

/-- The jth of these partitions fails only if it is the last one. -/
def OnlyLastFails (c : Call) (i : Nat) (sink : Sink ρ) (j : Nat) (parts : List (List ρ)) : Prop :=
  ∀ k, k + 1 < parts.length → partitionError c i sink (j + k) = none

section

variable {c : Call} {sink : Sink ρ} {j : Nat} {part : List ρ} {parts : List (List ρ)}
  (h : OnlyLastFails c i sink j (part :: parts))
include h

theorem OnlyLastFails.tail : OnlyLastFails c i sink (j + 1) parts := by
  intro k hk
  have := h (k + 1) (by simpa using hk)
  rwa [show j + 1 + k = j + (k + 1) by omega]

theorem OnlyLastFails.eq_nil {text : String} (hfail : partitionError c i sink j = some text) :
    parts = [] := by
  cases parts with
  | nil => rfl
  | cons next rest =>
    have := h 0 (by simp)
    rw [Nat.add_zero, hfail] at this
    cases this

end

theorem flatten_partitionRecords (p : Pipeline ρ) (sink : Sink ρ) (records : List ρ) :
    (partitionRecords p sink records).flatten.Perm records := by
  unfold partitionRecords
  split_ifs with h
  · simp
  · exact Grouping.ungroup_groups _ records

def ConditionsHold (c : Call) (records : List ρ) (i : Nat) (sinks : List (Sink ρ)) : Prop :=
  ∀ (k : Nat) (sink : Sink ρ), sinks[k]? = some sink →
    ∃ selected, sink.select (c.answers.conditionAt (i + k)) records = .ok selected

theorem Sink.Plain.select {sink : Sink ρ} (plain : sink.Plain) (moment : Nat → Nat) (records : List ρ) :
    sink.select moment records = .ok records := by
  rw [Sink.select, plain.1]

theorem breakerOpen_congr {p : Pipeline ρ} {c : Call} {sink : Sink ρ} {s t : State ρ}
    (h : t.breakers.lookup (p.sinkCbKey sink i) = s.breakers.lookup (p.sinkCbKey sink i)) :
    t.breakerOpen p c i sink = s.breakerOpen p c i sink := by
  unfold breakerOpen breakerAt
  rw [h]

/-! ## Records due to a sink -/

def acceptedFrom (cond : Condition ρ) (moment : Nat → Nat) : Nat → List ρ → List ρ
  | _, [] => []
  | n, record :: records =>
    match cond.eval (moment n) record with
    | .ok true => record :: acceptedFrom cond moment (n + 1) records
    | .ok false => acceptedFrom cond moment (n + 1) records
    | .error _ => acceptedFrom cond moment (n + 1) records

def Sink.accepted (sink : Sink ρ) (moment : Nat → Nat) (records : List ρ) : List ρ :=
  match sink.condition with
  | none => records
  | some cond => acceptedFrom cond moment 0 records

variable {records : List ρ} {moment : Nat → Nat}

theorem filterByCondition_ok {cond : Condition ρ} {n : Nat} {kept : List ρ}
    (h : filterByCondition cond moment n records = .ok kept) :
    kept = acceptedFrom cond moment n records := by
  induction records generalizing n kept with
  | nil => exact (Except.ok.inj h).symm
  | cons record records ih =>
    rw [filterByCondition] at h
    rw [acceptedFrom]
    cases heval : cond.eval (moment n) record with
    | error text => simp [heval] at h
    | ok keep =>
      simp only [heval] at h
      cases hrest : filterByCondition cond moment (n + 1) records with
      | error f => simp [hrest] at h
      | ok rest =>
        rw [hrest] at h
        obtain rfl := Except.ok.inj h
        cases keep <;> simp [ih hrest]

theorem Sink.select_ok {sink : Sink ρ} {selected : List ρ}
    (h : sink.select moment records = .ok selected) : selected = sink.accepted moment records := by
  unfold select at h
  unfold accepted
  cases hcond : sink.condition with
  | none => rw [hcond] at h; exact (Except.ok.inj h).symm
  | some cond => rw [hcond] at h; exact filterByCondition_ok h

theorem Sink.select_nil (sink : Sink ρ) (moment : Nat → Nat) : sink.select moment [] = .ok [] := by
  unfold select
  cases sink.condition <;> rfl

/-- What a sink is to write: what its transforms make of the records it accepts, or the records on
which a transform fails. -/
def dueFor (c : Call) (i : Nat) (sink : Sink ρ) (records : List ρ) : List ρ :=
  match sink.accepted (c.answers.conditionAt i) records with
  | [] => []
  | r :: rs =>
    match applyTransforms (c.answers.sinkTransformAt i) sink.transforms (r :: rs) with
    | .ok out => out
    | .error (_, before) => before

def handed (c : Call) (transforms : List (Transform ρ)) : Nat → List ρ → List ρ
  | _, [] => []
  | n, record :: records =>
    match applyTransforms (c.answers.transformAt n) transforms [record] with
    | .ok out => out ++ handed c transforms (n + 1) records
    | .error _ => handed c transforms (n + 1) records

def untransformed (c : Call) (transforms : List (Transform ρ)) : Nat → List ρ → List ρ
  | _, [] => []
  | n, record :: records =>
    match applyTransforms (c.answers.transformAt n) transforms [record] with
    | .ok _ => untransformed c transforms (n + 1) records
    | .error _ => record :: untransformed c transforms (n + 1) records

theorem handed_nil (c : Call) (n : Nat) (records : List ρ) : handed c [] n records = records := by
  induction records generalizing n with
  | nil => rfl
  | cons r rs ih => simp [handed, applyTransforms, ih]

theorem untransformed_nil (c : Call) (n : Nat) (records : List ρ) :
    untransformed c [] n records = [] := by
  induction records generalizing n with
  | nil => rfl
  | cons r rs ih => simp [untransformed, applyTransforms, ih]

/-! ## Bad ends -/

/-- `m`, started in `s`, comes to an end in `X`. -/
def Ends (X : Option Failure → State ρ → Prop) (m : Exec ρ α) (s : State ρ) : Prop :=
  X (raised (m s).1) (m s).2

/-- `m`, started in `s`, comes to an end in `X`, or it returns after effects of which `Q` holds. -/
def Fares (X : Option Failure → State ρ → Prop) (m : Exec ρ α) (s : State ρ)
    (Q : α → List (Effect ρ) → Prop) : Prop :=
  Ends X m s ∨ ∃ a es t, m s = (.ok a, t) ∧ t.effects = s.effects ++ es ∧ Q a es

/-- A call that loses something else than into an envelope comes to an end in `X`, and what it does
then does not mend it. -/
structure Exits (p : Pipeline ρ) (c : Call) (X : Option Failure → State ρ → Prop) : Prop where
  lasts : ∀ {o o'} {s t : State ρ}, X o s → Keeps s t → (o ≠ none → o' ≠ none) → X o' t
  swallowed : ∀ {f s} {tracked elsewhere : Bool}, X (some f) s →
    reraises p tracked elsewhere s.delivery f = false → X none s
  aborted : p.onError = .abort → ∀ f s, X (some f) s
  lost : ∀ {l : Loss}, (p.dlqSink = false ∧ 0 < l.recordsFailed) ∨
    (¬ c.answers.DlqTakesAll ∧ 0 < l.dlqFailed) → ∀ (s : State ρ) o, X o (s.losing c.toAccount l)

variable {p : Pipeline ρ} {c : Call} {X : Option Failure → State ρ → Prop} {s t : State ρ}

variable {m : Exec ρ α} {f : α → Exec ρ β} {Q : α → List (Effect ρ) → Prop} {R : β → List (Effect ρ) → Prop}
  {body : Exec ρ Bool}

theorem Ends.bind (hX : Exits p c X) (h : Ends X m s) (hkeeps : ∀ a, Keeping (f a)) : Ends X (m >>= f) s := by
  unfold Ends at h ⊢
  rcases hrun : m s with ⟨e | a, t⟩ <;> rw [hrun] at h
  · rw [bind_run_error hrun]
    exact h
  · rw [bind_run_ok hrun]
    exact hX.lasts h (hkeeps a t) (absurd rfl)

theorem Ends.handling (hX : Exits p c X) (h : Ends X body s) (tracked elsewhere : Bool)
    (refusal : Failure → Refusal) : Ends X (handling p tracked elsewhere refusal body) s := by
  unfold Ends at h ⊢
  rcases hrun : body s with ⟨f | b, t⟩ <;> rw [hrun] at h
  · rw [handling_error hrun]
    split_ifs with hraises
    · exact h
    · exact hX.lasts (hX.swallowed h (by simpa using hraises)) (.of_delivery rfl rfl rfl) id
    · exact hX.swallowed h (by simpa using hraises)
  · rw [handling_ok hrun]
    exact h

namespace Fares

variable {a : α}

theorem pure (h : Q a []) : Fares X (pure a) s Q := .inr ⟨a, [], s, rfl, (append_nil _).symm, h⟩

theorem mono {Q' : α → List (Effect ρ) → Prop} (h : Fares X m s Q) (hQ : ∀ a es, Q a es → Q' a es) :
    Fares X m s Q' := by
  refine h.imp id ?_
  rintro ⟨a, es, t, hrun, heffects, ha⟩
  exact ⟨a, es, t, hrun, heffects, hQ a es ha⟩

theorem after (hrun : m s = (.ok a, t)) (heffects : t.effects = s.effects ++ es)
    (h : Fares X (f a) t fun b fs => R b (es ++ fs)) : Fares X (m >>= f) s R := by
  unfold Fares Ends
  rw [bind_run_ok hrun]
  refine h.imp id ?_
  rintro ⟨b, fs, u, hrest, heffects', hR⟩
  exact ⟨b, es ++ fs, u, hrest, by rw [heffects', heffects, append_assoc], hR⟩

theorem quiet (hrun : m s = (.ok a, t)) (heffects : t.effects = s.effects) (h : Fares X (f a) t R) :
    Fares X (m >>= f) s R :=
  .after hrun (heffects.trans (append_nil _).symm) h

theorem bind (hX : Exits p c X) (hm : Fares X m s Q) (hkeeps : ∀ a, Keeping (f a))
    (hf : ∀ a es t, m s = (.ok a, t) → Q a es → Fares X (f a) t fun b fs => R b (es ++ fs)) :
    Fares X (m >>= f) s R := by
  rcases hm with hbad | ⟨a, es, t, hrun, heffects, hQ⟩
  · exact .inl (hbad.bind hX hkeeps)
  · exact .after hrun heffects (hf a es t hrun hQ)

theorem handling (hX : Exits p c X) {Q : List (Effect ρ) → Prop}
    (h : Fares X body s fun b es => b = true ∧ Q es) (tracked elsewhere : Bool)
    (refusal : Failure → Refusal) :
    Fares X (handling p tracked elsewhere refusal body) s fun b es => b = true ∧ Q es := by
  rcases h with hbad | ⟨b, es, t, hrun, heffects, h⟩
  · exact .inl (hbad.handling hX tracked elsewhere refusal)
  · exact .inr ⟨b, es, t, handling_ok hrun, heffects, h⟩

end Fares

namespace Exits

variable (hX : Exits p c X)
include hX

theorem lose (sink : Option Nat) (stage : Stage) (records : List ρ) {count : Nat} (hcount : 0 < count)
    {taken : Bool} (htaken : c.answers.DlqTakesAll → taken = true) (text : String) (s : State ρ) :
    Fares X (lose p c.toAccount sink stage records count taken text) s fun _ es =>
      p.dlqSink = true ∧ taken = true ∧ es = [.enveloped sink stage records] := by
  have hmissed : taken = false → ¬ c.answers.DlqTakesAll := fun hfalse hall => by
    simp [htaken hall] at hfalse
  rcases lose_cases p c.toAccount sink stage records count taken text s with
    ⟨hsink, htrue, h⟩ | ⟨-, hfalse, -, -, h⟩ | ⟨-, hfalse, -, h⟩ | ⟨hsink, h⟩
  · exact .inr ⟨(), _, _, h, losing_effects _, hsink, htrue, rfl⟩
  · left; rw [Ends, h]; exact hX.lost (.inr ⟨hmissed hfalse, Nat.one_pos⟩) s _
  · left; rw [Ends, h]; exact hX.lost (.inr ⟨hmissed hfalse, Nat.one_pos⟩) s _
  · left; rw [Ends, h]; exact hX.lost (.inl ⟨hsink, hcount⟩) s _

/-! ## One sink -/

theorem partitionFailed (i : Nat) (sink : Sink ρ) (j : Nat) {part : List ρ} (hpart : part ≠ [])
    (text : String) (s : State ρ) :
    Fares X (partitionFailed p c i sink j part text) s fun _ es =>
      p.dlqSink = true ∧ p.onError ≠ .abort ∧ es = [.enveloped (some i) .sink part] := by
  refine .quiet (modify_run _ s) (by split_ifs <;> rfl) ?_
  refine .bind hX (hX.lose (some i) .sink part (length_pos_iff.mpr hpart) (·.partition i j) _ _)
    (fun _ => ?_) ?_
  · split_ifs
    · exact raise_keeps _
    · exact .pure ()
  · rintro _ es t - ⟨hsink, htaken, rfl⟩
    by_cases habort : p.onError = .abort
    · rw [if_pos (.inl habort)]
      exact .inl (hX.aborted habort _ t)
    · rw [if_neg (by simp [habort, hsink, htaken])]
      exact .pure ⟨hsink, habort, rfl⟩

section

variable (hserializes : p.onError ≠ .abort → c.answers.SerializesAll)
include hserializes

theorem writePartitions (i : Nat) (sink : Sink ρ) (j written : Nat) (parts : List (List ρ))
    (hparts : ∀ part ∈ parts, part ≠ []) (s : State ρ) :
    Fares X (writePartitions p c i sink j written parts) s fun _ es =>
      (∀ e ∈ es, e.sink? = some i) ∧
        ((p.onError ≠ .abort → p.dlqSink = true → OnlyLastFails c i sink j parts) →
          accounted i es = parts.flatten) := by
  induction parts generalizing j written s with
  | nil => exact .pure ⟨by simp, fun _ => rfl⟩
  | cons part parts ih =>
    rw [Executor.writePartitions]
    cases hser : c.answers.serialize i j with
    | some fault =>
      -- only "abort" may come upon a payload that cannot be serialized
      by_cases habort : p.onError = .abort
      · exact .inl (hX.aborted habort _ s)
      · rw [hserializes habort i j] at hser
        cases hser
    | none =>
      cases herr : partitionError c i sink j with
      | none =>
        refine .after (modify_run _ s) rfl (.quiet (modify_run _ _) ?_ ?_)
        · split_ifs <;> rfl
        · refine (ih (j + 1) _ (fun q hq => hparts q (mem_cons_of_mem _ hq)) _).mono ?_
          rintro n es ⟨hown, hacc⟩
          refine ⟨by simpa [sink?] using hown, fun hlast => ?_⟩
          rw [flatten_cons, ← hacc fun habort hsink => (hlast habort hsink).tail]
          simp [accounted, accounts]
      | some text =>
        refine .bind hX (hX.partitionFailed i sink j (hparts part mem_cons_self) text s)
          (fun _ => .pure written) ?_
        rintro _ es t - ⟨hsink, habort, rfl⟩
        refine .pure ⟨by simp [sink?], fun hlast => ?_⟩
        rw [(hlast habort hsink).eq_nil herr]
        simp [accounted, accounts]

end

end Exits

/-- The account the effects give of the records handed to sink `i`, whose breaker was or was not
open. -/
structure Share (p : Pipeline ρ) (c : Call) (i : Nat) (sink : Sink ρ) (opened : Bool)
    (records : List ρ) (es : List (Effect ρ)) : Prop where
  skipped : sink.Plain → opened = true → accounted i es = [] ∧ skippedFor i es = records
  conserved : (p.dlqSink = true → opened = false) →
    (p.onError ≠ .abort → p.dlqSink = true →
      OnlyLastFails c i sink 0 (partitionRecords p sink (dueFor c i sink records))) →
    (accounted i es).Perm (dueFor c i sink records)

theorem Sink.Plain.dueFor {sink : Sink ρ} (plain : sink.Plain) (c : Call) (i : Nat) (records : List ρ) :
    dueFor c i sink records = records := by
  rw [Executor.dueFor, Sink.accepted, plain.1]
  cases records with
  | nil => rfl
  | cons r rs => simp only [plain.2, applyTransforms]

theorem Share.append {sink : Sink ρ} {opened : Bool} {before after : List (Effect ρ)}
    (h : Share p c i sink opened records es) (hbefore : ∀ e ∈ before, e.sink? ≠ some i)
    (hafter : ∀ e ∈ after, e.sink? ≠ some i) :
    Share p c i sink opened records (before ++ (es ++ after)) := by
  have hacc : accounted i (before ++ (es ++ after)) = accounted i es := by
    rw [accounted_append, accounted_append, accounted_of_sinks_ne hbefore, accounted_of_sinks_ne hafter,
      nil_append, append_nil]
  have hskip : skippedFor i (before ++ (es ++ after)) = skippedFor i es := by
    rw [skippedFor_append, skippedFor_append, skippedFor_of_sinks_ne hbefore, skippedFor_of_sinks_ne hafter,
      nil_append, append_nil]
  exact ⟨by rw [hacc, hskip]; exact h.skipped, by rw [hacc]; exact h.conserved⟩

namespace Exits

variable (hX : Exits p c X) (hserializes : p.onError ≠ .abort → c.answers.SerializesAll)
include hX hserializes

theorem writeOneSink {sink : Sink ρ}
    (hevaluates : p.onError ≠ .abort →
      ∃ selected, sink.select (c.answers.conditionAt i) records = .ok selected) (s : State ρ) :
    Fares X (writeOneSink p c records i sink) s fun _ es => (∀ e ∈ es, e.sink? = some i) ∧
      Share p c i sink (s.breakerOpen p c i sink) records es := by
  unfold Executor.writeOneSink
  cases hselect : sink.select (c.answers.conditionAt i) records with
  | error f =>
    by_cases habort : p.onError = .abort
    · exact .inl (hX.aborted habort f s)
    · obtain ⟨selected, hok⟩ := hevaluates habort
      cases hselect.symm.trans hok
  | ok selected =>
    -- what is selected, of which a plain sink leaves nothing out
    have hdue : sink.accepted (c.answers.conditionAt i) records = selected := (Sink.select_ok hselect).symm
    have hplain : sink.Plain → records = selected := fun plain =>
      Except.ok.inj ((plain.select _ _).symm.trans hselect)
    cases selected with
    | nil =>
      refine .pure ⟨by simp, fun plain _ => ⟨rfl, (hplain plain).symm⟩, fun _ _ => ?_⟩
      rw [dueFor, hdue]
      exact .nil
    | cons r rs =>
      have hkept : sink.Plain → applyTransforms (c.answers.sinkTransformAt i) sink.transforms (r :: rs) =
        .ok (r :: rs) := fun plain => by rw [plain.2, applyTransforms]
      cases htr : applyTransforms (c.answers.sinkTransformAt i) sink.transforms (r :: rs) with
      | error e =>
        simp only [htr]
        by_cases habort : p.onError = .abort
        · rw [if_pos habort]
          exact .inl (hX.aborted habort _ s)
        rw [if_neg habort]
        refine .bind hX (hX.lose (some i) .transform e.2 Nat.one_pos (·.sinkTransform i) _ s)
          (fun _ => .pure 0) ?_
        rintro _ es t - ⟨-, -, rfl⟩
        refine .pure ⟨by simp [sink?], fun plain => (by cases htr.symm.trans (hkept plain)), fun _ _ => ?_⟩
        simp [dueFor, hdue, htr, accounted, accounts]
      | ok out =>
        have hout : dueFor c i sink records = out := by simp only [dueFor, hdue, htr]
        cases out with
        | nil =>
          simp only [htr]
          refine .pure ⟨by simp, fun plain => (by cases htr.symm.trans (hkept plain)), fun _ _ => ?_⟩
          rw [hout]
          exact .nil
        | cons o os =>
          simp only [htr]
          refine .after (get_run s) (append_nil _).symm ?_
          cases hopen : s.breakerOpen p c i sink with
          | true =>
            cases hsink : p.dlqSink with
            | false =>
              have hrecords : records ≠ [] := by
                rintro rfl
                rw [Sink.select_nil] at hselect
                cases hselect
              exact .inl (hX.lasts (hX.lost (.inl ⟨hsink, length_pos_iff.mpr hrecords⟩) s none)
                (.of_delivery rfl rfl rfl) id)
            | true =>
              refine .inr ⟨0, [.skipped i records], _, rfl, congrArg (· ++ _) (losing_effects _),
                by simp [sink?], fun _ _ => ⟨rfl, by simp [skippedFor, skips]⟩, fun hclosed => ?_⟩
              cases hclosed hsink
          | false =>
            refine (hX.writePartitions hserializes i sink 0 0 _ (fun part hpart =>
              ne_nil_of_mem_partitionRecords (cons_ne_nil o os) hpart) s).mono ?_
            rintro n es ⟨hown, hacc⟩
            refine ⟨hown, nofun, fun _ hlast => ?_⟩
            rw [hout] at hlast ⊢
            rw [nil_append, hacc hlast]
            exact flatten_partitionRecords p sink (o :: os)

end Exits

/-! ## All sinks -/

def KeepsBreakers (p : Pipeline ρ) (own : Nat → Prop) (s t : State ρ) : Prop :=
  ∀ i sink, ¬ own i → t.breakers.lookup (p.sinkCbKey sink i) = s.breakers.lookup (p.sinkCbKey sink i)

theorem KeepsBreakers.of_eq {own : Nat → Prop} (h : t.breakers = s.breakers) :
    KeepsBreakers p own s t := fun _ _ _ => by rw [h]

theorem State.losing_breakers (s : State ρ) (c : Account) (l : Loss) :
    (s.losing c l).breakers = s.breakers := by
  unfold losing
  split_ifs <;> rfl

theorem KeepsBreakers.stepwise (p : Pipeline ρ) (c : Call) (own : Nat → Prop) :
    Stepwise p c own (KeepsBreakers p own) where
  refl _ := .of_eq rfl
  trans h h' i sink hi := (h' i sink hi).trans (h i sink hi)
  lose sink stage records count taken text s _ := by
    rcases lose_cases p c.toAccount sink stage records count taken text s with
      ⟨-, -, h⟩ | ⟨-, -, -, -, h⟩ | ⟨-, -, -, h⟩ | ⟨-, h⟩ <;> rw [h] <;>
      exact .of_eq (losing_breakers _ _ _)
  breaker s k sink e hk i sink' hi := by
    refine AList.lookup_insert_ne fun heq => hi ?_
    rwa [Pipeline.sinkCbKey_inj heq]
  wrote _ _ _ := .of_eq rfl
  skipped s _ _ := .of_eq (losing_breakers s _ _)
  counted _ _ := .of_eq rfl
  chunk _ _ _ := .of_eq rfl
  refused _ _ := .of_eq rfl

theorem ConditionsHold.tail {sink : Sink ρ} {sinks : List (Sink ρ)}
    (h : ConditionsHold c records i (sink :: sinks)) : ConditionsHold c records (i + 1) sinks := by
  intro k sink' hk
  rw [Nat.add_assoc, Nat.add_comm 1 k]
  exact h (k + 1) sink' (by simpa using hk)

namespace Exits

variable (hX : Exits p c X) (hserializes : p.onError ≠ .abort → c.answers.SerializesAll)
  (records : List ρ) (i : Nat) (sinks : List (Sink ρ))
  (hevaluates : p.onError ≠ .abort → ConditionsHold c records i sinks) (s : State ρ)
include hX hserializes hevaluates

theorem writeSinks : Fares X (writeSinks p c records i sinks) s fun _ es =>
    (∀ e ∈ es, ∃ k, i ≤ k ∧ e.sink? = some k) ∧ ∀ k sink, sinks[k]? = some sink →
      Share p c (i + k) sink (s.breakerOpen p c (i + k) sink) records es := by
  induction sinks generalizing i s with
  | nil => exact .pure ⟨by simp, by simp⟩
  | cons sink sinks ih =>
    have hkeeps := Keeps.stepwise p c
    refine .bind hX (hX.writeOneSink hserializes (fun habort => hevaluates habort 0 sink rfl) s)
      (fun n => .bind (hkeeps.rule.writeSinks (fun _ => trivial) records (i + 1) sinks) fun ns =>
        .pure (n :: ns)) ?_
    rintro n es t hrun ⟨hown, hshare⟩
    refine .bind hX (ih (i + 1) (fun habort => (hevaluates habort).tail) t) (fun ns => .pure (n :: ns)) ?_
    rintro ns fs u - ⟨hlater, hshares⟩
    refine .pure ⟨fun e he => ?_, fun k sink' hk => ?_⟩
    · rw [append_nil] at he
      rcases mem_append.mp he with he | he
      · exact ⟨i, le_rfl, hown e he⟩
      · obtain ⟨k, hk, hs⟩ := hlater e he
        exact ⟨k, by omega, hs⟩
    · cases k with
      | zero =>
        -- the first sink: the effects of the others are about later ones
        cases hk
        refine hshare.append (forall_mem_nil _) fun e he => ?_
        obtain ⟨k, hk, hs⟩ := hlater e (by simpa using he)
        simp [hs]
        omega
      | succ k =>
        -- a later sink: its breaker is none the first sink changed
        have hbreaker := (KeepsBreakers.stepwise p c (· = i)).rule.writeOneSink records i rfl sink s
        rw [hrun] at hbreaker
        have hshare' := hshares k sink' (by simpa using hk)
        rw [show i + 1 + k = i + (k + 1) by omega, breakerOpen_congr (hbreaker _ sink' (by omega))] at hshare'
        refine hshare'.append (fun e he => ?_) (by simp)
        simp [hown e he]

theorem runSinks : X (raised (gather (runSinks p c records i sinks s).1)) (runSinks p c records i sinks s).2 ∨
    ∃ ns t, Executor.writeSinks p c records i sinks s = (.ok ns, t) := by
  induction sinks generalizing i s with
  | nil => exact .inr ⟨[], s, rfl⟩
  | cons sink sinks ih =>
    rw [Executor.runSinks, Executor.writeSinks]
    dsimp only
    rcases hX.writeOneSink hserializes (fun habort => hevaluates habort 0 sink rfl) s with
      hbad | ⟨n, es, t, hrun, -, -⟩
    · refine .inl (hX.lasts hbad ((Keeps.stepwise p c).runSinks (fun _ => trivial) records (i + 1) sinks _)
        fun hraised => ?_)
      rw [Nat.add_zero] at hraised
      rcases h : (Executor.writeOneSink p c records i sink s).1 with f | n <;> rw [h] at hraised
      · cases f <;> rintro ⟨⟩
      · exact absurd rfl hraised
    · rw [Nat.add_zero] at hrun
      rw [hrun, bind_run_ok hrun, raised_gather_ok]
      refine (ih (i + 1) (fun habort => (hevaluates habort).tail) t).imp id ?_
      rintro ⟨ns, u, hrest⟩
      exact ⟨n :: ns, u, by rw [bind_run_ok hrest, pure_run]⟩

omit hevaluates in
theorem fanOut (hevaluates : p.onError ≠ .abort → ConditionsHold c records 0 p.sinks) :
    Fares X (fanOut p c records) s fun _ es => (∀ e ∈ es, ∃ k, e.sink? = some k) ∧
      ∀ i sink, p.sinks[i]? = some sink →
        Share p c i sink (s.breakerOpen p c i sink) records es := by
  have hsinks : Fares X (Executor.writeSinks p c records 0 p.sinks) s fun _ es =>
      (∀ e ∈ es, ∃ k, e.sink? = some k) ∧ ∀ i sink, p.sinks[i]? = some sink →
        Share p c i sink (s.breakerOpen p c i sink) records es := by
    refine (hX.writeSinks hserializes records 0 p.sinks hevaluates s).mono fun ns es h => ⟨fun e he => ?_, ?_⟩
    · obtain ⟨k, -, hk⟩ := h.1 e he
      exact ⟨k, hk⟩
    · simpa using h.2
  by_cases hok : ∃ ns t, Executor.writeSinks p c records 0 p.sinks s = (.ok ns, t)
  · obtain ⟨ns, t, hrun⟩ := hok
    unfold Fares Ends at hsinks ⊢
    rwa [fanOut_of_ok hrun, ← hrun]
  · unfold Executor.fanOut
    split_ifs
    · exact .inl ((hX.runSinks hserializes records 0 p.sinks hevaluates s).resolve_right hok)
    · exact hsinks

end Exits

/-! ## The call -/

namespace Exits

variable (hX : Exits p c X) (transforms : List (Transform ρ))
include hX

theorem applyGlobalTransforms (n : Nat) (records : List ρ) (s : State ρ) :
    Fares X (applyGlobalTransforms p c transforms n records) s fun out es =>
      out = handed c transforms n records ∧ (∀ e ∈ es, e.sink? = none) ∧
        rejected es = untransformed c transforms n records := by
  have hkeeps := Keeps.stepwise p c
  induction records generalizing n s with
  | nil => exact .pure ⟨rfl, by simp, rfl⟩
  | cons record records ih =>
    rw [Executor.applyGlobalTransforms, handed, untransformed]
    cases applyTransforms (c.answers.transformAt n) transforms [record] with
    | ok out =>
      refine .bind hX (ih (n + 1) s) (fun rest => .pure (out ++ rest)) ?_
      rintro rest es t - ⟨rfl, hnone, hrej⟩
      exact .pure ⟨rfl, by simpa using hnone, by simpa using hrej⟩
    | error e =>
      dsimp only
      by_cases habort : p.onError = .abort
      · rw [if_pos habort]
        exact .inl (hX.aborted habort _ s)
      rw [if_neg habort]
      refine .bind hX (hX.lose none .transform [record] Nat.one_pos (·.transform n) _ s)
        (fun _ => hkeeps.rule.applyGlobalTransforms transforms (n + 1) records) ?_
      rintro _ es t - ⟨-, -, rfl⟩
      refine (ih (n + 1) t).mono ?_
      rintro rest es ⟨rfl, hnone, hrej⟩
      exact ⟨rfl, by simpa [sink?] using hnone, by rw [← hrej]; rfl⟩

theorem processRecords (hserializes : p.onError ≠ .abort → c.answers.SerializesAll) (countIn : Bool)
    (records : List ρ) (s : State ρ)
    (hevaluates : p.onError ≠ .abort → ConditionsHold c (handed c transforms 0 records) 0 p.sinks) :
    Fares X (processRecords p c transforms countIn records) s fun b es => b = true ∧
      rejected es = untransformed c transforms 0 records ∧ ∀ i sink, p.sinks[i]? = some sink →
        Share p c i sink (s.breakerOpen p c i sink) (handed c transforms 0 records) es := by
  have hkeeps := Keeps.stepwise p c
  have hchunk := hkeeps.rule.recordChunk
  refine .handling hX ?_ _ _ _
  refine .bind hX (Q := fun _ es => rejected es = untransformed c transforms 0 records ∧
    ∀ i sink, p.sinks[i]? = some sink →
      Share p c i sink (s.breakerOpen p c i sink) (handed c transforms 0 records) es) ?_
        (fun _ => .pure true) ?_
  · refine .quiet (modify_run _ s) (by split_ifs <;> rfl) ?_
    refine .bind hX (hX.applyGlobalTransforms transforms 0 records _) (fun survivors =>
      .bind (hkeeps.rule.fanOut (fun _ => trivial) survivors) fun counts => hchunk _ _) ?_
    rintro survivors es t hrun ⟨rfl, hnone, hrej⟩
    refine .bind hX (hX.fanOut hserializes (handed c transforms 0 records) t hevaluates)
      (fun counts => hchunk _ _) ?_
    rintro counts fs u - ⟨hsome, hshares⟩
    refine .inr ⟨(), [], _, rfl, by split_ifs <;> exact (append_nil _).symm, ?_, fun i sink hi => ?_⟩
    · have hfs : rejected fs = [] := rejected_of_sinks fun e he => by
        obtain ⟨k, hk⟩ := hsome e he
        simp [hk]
      simp [hfs, hrej]
    · -- the transforms leave the breakers alone
      have hbreakers := (KeepsBreakers.stepwise p c (fun _ => False)).rule.applyGlobalTransforms
        transforms 0 records
        (if countIn then { s with recordsIn := s.recordsIn + records.length } else s)
      rw [hrun] at hbreakers
      have hshare := hshares i sink hi
      rw [breakerOpen_congr (hbreakers i sink id)] at hshare
      have hbefore : (if countIn then { s with recordsIn := s.recordsIn + records.length } else s).breakers =
        s.breakers := by split_ifs <;> rfl
      rw [breakerOpen_congr (congrArg (AList.lookup _) hbefore)] at hshare
      exact hshare.append (fun e he => by simp [hnone e he]) (by simp)
  · rintro _ es t - h
    exact .pure ⟨rfl, by rwa [append_nil]⟩

end Exits

end Tram.Executor
