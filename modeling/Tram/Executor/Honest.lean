import Tram.Executor.CallRule

/-! # What the accounting says after a call

A loss that no policy tolerates is raised by the call it happens in. The relation below says this
of a stretch of a run; it is proved for one call of `_process_records` and then for a chunk. -/

namespace Tram.Executor

open List State Delivery
open Procedure (Meets Sequential bind_run_ok raise_run raised)

variable {ρ : Type} {o' : Option Failure} {r : Refusal}

/-- No sink was left out because its breaker was open. -/
def Unskipped (es : List (Effect ρ)) : Prop := ∀ e ∈ es, ∀ i records, e ≠ .skipped i records

def Unswallowed (rs : List Refusal) : Prop := ∀ r ∈ rs, ∀ f, r ≠ .failed f

theorem Unskipped.of_prefix {es fs : List (Effect ρ)} (h : es <+: fs) (hfs : Unskipped fs) :
    Unskipped es := fun e he => hfs e (h.subset he)

theorem Unswallowed.of_append {rs rs' : List Refusal} (h : Unswallowed (rs ++ rs')) :
    Unswallowed rs := fun r hr => h r (mem_append_left rs' hr)

/-- Under these policies the run goes on after a loss, and its outcome tells. -/
def OnError.Tolerant (o : OnError) : Prop := o = .continues ∨ o = .retry

/-- A call that may return False: it could not parse its chunk, and the DLQ has it or the loss is
recorded, or a condition or a serializer failed. -/
def Allowed (p : Pipeline ρ) (d : Delivery) : Refusal → Prop
  | .unparsed taken => taken = true ∨ (p.onError.Tolerant ∧ d.hasLoss = true)
  | .failed f => ∃ origin text, f = .tram origin text ∧ (origin = .condition ∨ origin = .serializer)

/-- What a stretch of a run, which raised `o` if anything, did to the accounting. -/
structure Honest (p : Pipeline ρ) (tracked : Bool) (s : State ρ) (o : Option Failure)
    (s' : State ρ) : Prop where
  effects : s.effects <+: s'.effects
  recordsFailed_le : s.delivery.recordsFailed ≤ s'.delivery.recordsFailed
  dlqFailed_le : s.delivery.dlqFailed ≤ s'.delivery.dlqFailed
  untracked : tracked = false → s'.delivery = s.delivery ∧ s'.refused = s.refused
  refused : ∃ rs, s'.refused = s.refused ++ rs ∧ ∀ r ∈ rs, Allowed p s'.delivery r
  failed : s.delivery.recordsFailed < s'.delivery.recordsFailed →
    ¬ Unskipped s'.effects ∨ (p.onError = .abort ∧ o ≠ none) ∨ p.onError.Tolerant
  undelivered : s.delivery.dlqFailed < s'.delivery.dlqFailed →
    (p.onError = .abort ∧ o ≠ none) ∨ p.onError.Tolerant ∨
      (p.onError = .dlq ∧ ((∃ text, o = some (.dlqDelivery text)) ∨
        (p.Pooled ∧ ((∃ origin text, o = some (.tram origin text)) ∨ ¬ Unswallowed s'.refused))))

/-- `Honest`, of a stretch of a single call: a `TramError` it raises comes from a condition or a
serializer, or the policy is not to go on. -/
structure Answerable (p : Pipeline ρ) (tracked : Bool) (s : State ρ) (o : Option Failure)
    (s' : State ρ) : Prop extends Honest p tracked s o s' where
  raised : tracked = true → ∀ origin text, o = some (.tram origin text) →
    origin = .condition ∨ origin = .serializer ∨ p.onError = .abort ∨
      (p.onError = .retry ∧ s'.delivery.hasLoss = true)

section Rules

variable {p : Pipeline ρ} {tracked : Bool} {s t u : State ρ} {o : Option Failure}

section

variable {d e : Delivery} (hf : d.recordsFailed ≤ e.recordsFailed) (hd : d.dlqFailed ≤ e.dlqFailed)
include hf hd

theorem Delivery.hasLoss_mono (h : d.hasLoss = true) : e.hasLoss = true := by
  simp only [hasLoss, Bool.or_eq_true, decide_eq_true_eq] at h ⊢
  omega

theorem Allowed.mono (h : Allowed p d r) : Allowed p e r := by
  cases r with
  | unparsed taken => exact h.imp id fun h => ⟨h.1, hasLoss_mono hf hd h.2⟩
  | failed f => exact h

end

theorem Answerable.of_same (heffects : s.effects <+: t.effects)
    (hfailed : t.delivery.recordsFailed = s.delivery.recordsFailed)
    (hdlq : t.delivery.dlqFailed = s.delivery.dlqFailed)
    (huntracked : tracked = false → t.delivery = s.delivery) (hrefused : t.refused = s.refused)
    (hraised : tracked = true → ∀ origin text, o = some (.tram origin text) →
      origin = .condition ∨ origin = .serializer ∨ p.onError = .abort) :
    Answerable p tracked s o t where
  effects := heffects
  recordsFailed_le := Nat.le_of_eq hfailed.symm
  dlqFailed_le := Nat.le_of_eq hdlq.symm
  untracked h := ⟨huntracked h, hrefused⟩
  refused := ⟨[], by simp [hrefused], by simp⟩
  failed h := absurd h (by omega)
  undelivered h := absurd h (by omega)
  raised ht origin text ho := by
    rcases hraised ht origin text ho with h | h | h
    · exact .inl h
    · exact .inr (.inl h)
    · exact .inr (.inr (.inl h))

theorem Answerable.of_quiet (heffects : s.effects <+: t.effects) (hdelivery : t.delivery = s.delivery)
    (hrefused : t.refused = s.refused) : Answerable p tracked s none t :=
  .of_same heffects (by rw [hdelivery]) (by rw [hdelivery]) (fun _ => hdelivery) hrefused nofun

theorem Honest.refused_append (h : Honest p tracked s o' t) (h' : Honest p tracked t o u) :
    ∃ rs, u.refused = s.refused ++ rs ∧ ∀ r ∈ rs, Allowed p u.delivery r := by
  obtain ⟨rs, hrs, hallowed⟩ := h.refused
  obtain ⟨rs', hrs', hallowed'⟩ := h'.refused
  refine ⟨rs ++ rs', by rw [hrs', hrs, append_assoc], fun r hr => ?_⟩
  rcases mem_append.mp hr with hr | hr
  · exact (hallowed r hr).mono h'.recordsFailed_le h'.dlqFailed_le
  · exact hallowed' r hr

/-- What follows on a stretch that raised nothing, or an exception that is no `TramError` and in
whose place another is raised. -/
theorem Honest.append (h : Honest p tracked s o' t) (h' : Honest p tracked t o u)
    (hother : ∀ f, o' = some f → ∃ text, f = .other text) (hraised : o' ≠ none → o ≠ none) :
    Honest p tracked s o u where
  effects := h.effects.trans h'.effects
  recordsFailed_le := Nat.le_trans h.recordsFailed_le h'.recordsFailed_le
  dlqFailed_le := Nat.le_trans h.dlqFailed_le h'.dlqFailed_le
  untracked ht :=
    ⟨(h'.untracked ht).1.trans (h.untracked ht).1, (h'.untracked ht).2.trans (h.untracked ht).2⟩
  refused := h.refused_append h'
  failed hlt := by
    by_cases hsecond : t.delivery.recordsFailed < u.delivery.recordsFailed
    · exact h'.failed hsecond
    · rcases h.failed (by omega) with hskip | ⟨habort, hne⟩ | htolerant
      · exact .inl fun hu => hskip (hu.of_prefix h'.effects)
      · exact .inr (.inl ⟨habort, hraised hne⟩)
      · exact .inr (.inr htolerant)
  undelivered hlt := by
    by_cases hsecond : t.delivery.dlqFailed < u.delivery.dlqFailed
    · exact h'.undelivered hsecond
    · obtain ⟨rs, hrs, -⟩ := h'.refused
      rcases h.undelivered (by omega) with ⟨habort, hne⟩ | htolerant |
        ⟨hdlq, ⟨_, hraise⟩ | ⟨hpool, ⟨_, _, hraise⟩ | hswallowed⟩⟩
      · exact .inl ⟨habort, hraised hne⟩
      · exact .inr (.inl htolerant)
      · obtain ⟨_, heq⟩ := hother _ hraise
        cases heq
      · obtain ⟨_, heq⟩ := hother _ hraise
        cases heq
      · refine .inr (.inr ⟨hdlq, .inr ⟨hpool, .inr fun hu => hswallowed ?_⟩⟩)
        rw [hrs] at hu
        exact hu.of_append

theorem Honest.trans (h : Honest p tracked s none t) (h' : Honest p tracked t o u) :
    Honest p tracked s o u :=
  h.append h' (nofun) (absurd rfl)

theorem Answerable.trans (h : Answerable p tracked s none t) (h' : Answerable p tracked t o u) :
    Answerable p tracked s o u :=
  ⟨h.toHonest.trans h'.toHonest, h'.raised⟩

theorem Answerable.refl (s : State ρ) : Answerable p tracked s none s :=
  .of_quiet (prefix_refl _) rfl rfl

instance : Sequential (Answerable p tracked) := ⟨.refl, .trans⟩

instance : Sequential (Honest p tracked) := ⟨fun s => (Answerable.refl s).toHonest, .trans⟩

end Rules

/-! ## Losing records -/

section Lose

variable {p : Pipeline ρ} {c : Account} {s : State ρ}

theorem Answerable.of_losing {l : Loss} {o : Option Failure}
    (hfailed : 0 < l.recordsFailed → (p.onError = .abort ∧ o ≠ none) ∨ p.onError.Tolerant)
    (hdlq : c.tracked = true → 0 < l.dlqFailed → (p.onError = .abort ∧ o ≠ none) ∨
      p.onError.Tolerant ∨ (p.onError = .dlq ∧ ∃ text, o = some (.dlqDelivery text)))
    (hraised : c.tracked = true → ∀ origin text, o = some (.tram origin text) →
      p.onError = .abort ∨ (p.onError = .retry ∧ 0 < l.recordsFailed)) :
    Answerable p c.tracked s o (s.losing c l) where
  effects := by simp
  recordsFailed_le := by simp
  dlqFailed_le := by simp
  untracked h := by simp [losing_untracked _ h]
  refused := ⟨[], by simp, by simp⟩
  failed h := by
    rw [losing_recordsFailed] at h
    have : 0 < l.recordsFailed := by split_ifs at h <;> omega
    exact .inr (hfailed this)
  undelivered h := by
    rw [losing_dlqFailed] at h
    cases ht : c.tracked with
    | false => rw [ht] at h; exact absurd h (by simp)
    | true =>
      rw [ht, if_pos rfl] at h
      rcases hdlq ht (by omega) with habort | htolerant | ⟨hpolicy, hraise⟩
      · exact .inl habort
      · exact .inr (.inl htolerant)
      · exact .inr (.inr ⟨hpolicy, .inl hraise⟩)
  raised ht origin text ho := by
    rcases hraised ht origin text ho with habort | ⟨hretry, hpos⟩
    · exact .inr (.inr (.inl habort))
    · refine .inr (.inr (.inr ⟨hretry, ?_⟩))
      simp only [hasLoss, losing_recordsFailed, ht, Bool.or_eq_true,
        decide_eq_true_eq]
      exact .inl (by simp; omega)

theorem Answerable.emit (e : Effect ρ) (tracked : Bool) :
    Answerable p tracked s none (s.emit e) :=
  .of_quiet (prefix_append _ _) rfl rfl

theorem OnError.cases (o : OnError) : o = .abort ∨ o = .dlq ∨ o.Tolerant := by
  cases o <;> simp [OnError.Tolerant]

theorem lose_answerable (hpolicy : p.onError ≠ .abort) (sink : Option Nat) (stage : Stage)
    (records : List ρ) (count : Nat) (taken : Bool) (text : String) :
    Meets (Answerable p c.tracked) (lose p c sink stage records count taken text) := by
  intro s
  have hpolicy' : p.onError = .dlq ∨ p.onError.Tolerant := p.onError.cases.resolve_left hpolicy
  rcases lose_cases p c sink stage records count taken text s with
    ⟨-, -, h⟩ | ⟨-, -, -, -, h⟩ | ⟨-, -, hnot, h⟩ | ⟨hsink, h⟩
  · rw [h]
    exact (Answerable.emit _ _).trans (.of_losing nofun nofun nofun)
  · rw [h]
    refine .of_losing nofun (fun _ _ => .inr ?_) nofun
    exact hpolicy'.symm.imp id fun hdlq => ⟨hdlq, text, rfl⟩
  · rw [h]
    refine .of_losing nofun (fun ht _ => .inr (.inl ?_)) nofun
    exact hpolicy'.resolve_left fun hdlq => hnot ⟨.inl hdlq, ht⟩
  · rw [h]
    refine .of_losing (fun _ => .inr ?_) nofun nofun
    exact hpolicy'.resolve_left fun hdlq => by simp [p.dlqSink_of_dlq hdlq] at hsink

theorem lose_abort (hpolicy : p.onError = .abort) (sink : Option Nat) (stage : Stage)
    (records : List ρ) (count : Nat) (taken : Bool) (text : String) (f : Failure) (s : State ρ) :
    ∃ s', lose p c sink stage records count taken text s = (.ok (), s') ∧
      Answerable p c.tracked s (some f) s' := by
  have habort : p.onError = .abort ∧ some f ≠ none := ⟨hpolicy, nofun⟩
  rcases lose_cases p c sink stage records count taken text s with
    ⟨-, -, h⟩ | ⟨-, -, hretry, -, -⟩ | ⟨-, -, -, h⟩ | ⟨-, h⟩
  · exact ⟨_, h, (Answerable.emit _ _).trans
      (.of_losing (fun _ => .inl habort) (fun _ _ => .inl habort) fun _ _ _ _ => .inl hpolicy)⟩
  · simp [hpolicy] at hretry
  all_goals exact ⟨_, h, .of_losing (fun _ => .inl habort) (fun _ _ => .inl habort)
    fun _ _ _ _ => .inl hpolicy⟩

end Lose

section Sinks

variable {p : Pipeline ρ} {c : Call}

variable {records : List ρ} {f : Failure}

/-- Under "retry" the error raised for a partition comes with a recorded loss, since no partition
is empty. -/
theorem partitionFailed_answerable (i : Nat) (sink : Sink ρ) (j : Nat) {part : List ρ}
    (hpart : part ≠ []) (text : String) :
    Meets (Answerable p c.tracked) (partitionFailed p c i sink j part text) := by
  refine .bind (.modify fun s => ?_) fun _ => ?_
  · split_ifs
    · exact .of_quiet (prefix_refl _) rfl rfl
    · exact .refl s
  by_cases habort : p.onError = .abort
  · intro s
    obtain ⟨t, hlose, ht⟩ := lose_abort (c := c.toAccount) habort (some i) .sink part part.length
      (c.answers.partitionDlq i j) s!"DLQ delivery failed for sink error: {text}"
      (.tram .sinkWrite s!"Sink write error: {text}") s
    rw [bind_run_ok hlose, if_pos (.inl habort), raise_run]
    exact ht
  by_cases hretry : p.onError = .retry ∧
      (p.dlqSink = false ∨ c.answers.partitionDlq i j = false)
  · intro s
    have hraise : p.onError = .abort ∨ (p.onError = .retry ∧
        (p.dlqSink = false ∨ c.answers.partitionDlq i j = false)) := .inr hretry
    have htolerant : p.onError.Tolerant := .inr hretry.1
    have hpos : 0 < part.length := length_pos_iff.mpr hpart
    rcases lose_cases p c.toAccount (some i) .sink part part.length (c.answers.partitionDlq i j)
        s!"DLQ delivery failed for sink error: {text}" s with
      ⟨hsink, htaken, -⟩ | ⟨-, -, -, -, h⟩ | ⟨-, -, hnot, h⟩ | ⟨-, h⟩
    · simp [hsink, htaken] at hretry
    · rw [Procedure.bind_run_error h]
      exact .of_losing nofun (fun _ _ => .inr (.inl htolerant)) nofun
    · rw [bind_run_ok h, if_pos hraise, raise_run]
      exact .of_losing nofun (fun _ _ => .inr (.inl htolerant))
        fun ht _ _ _ => absurd ⟨.inr hretry.1, ht⟩ hnot
    · rw [bind_run_ok h, if_pos hraise, raise_run]
      exact .of_losing (fun _ => .inr htolerant) nofun fun _ _ _ _ => .inr ⟨hretry.1, hpos⟩
  · refine .bind (lose_answerable habort _ _ _ _ _ _) fun _ => ?_
    rw [if_neg (not_or.mpr ⟨habort, hretry⟩)]
    exact .pure ()

theorem skipSink_answerable (i : Nat) (records : List ρ) :
    Meets (Answerable p c.tracked) (skipSink c i records) := by
  intro s
  have hskipped : ¬ Unskipped ((s.losing c.toAccount ⟨records.length, 0, 0⟩).emit
      (.skipped i records)).effects := fun h =>
    h _ (mem_append_right _ mem_cons_self) i records rfl
  show Answerable p c.tracked s none ((s.losing c.toAccount ⟨records.length, 0, 0⟩).emit
    (.skipped i records))
  exact {
    effects := by simp [emit]
    recordsFailed_le := by simp [emit]
    dlqFailed_le := by simp [emit]
    untracked := fun h => by simp [losing_untracked _ h, emit]
    refused := ⟨[], by simp [emit], by simp⟩
    failed := fun _ => .inl hskipped
    undelivered := fun h => absurd h (by simp [emit])
    raised := nofun }

/-- A sink on the pool raised `f`, and the others went on; `g` is what the call raises. -/
theorem Answerable.overruled {tracked : Bool} {s t u : State ρ} {g : Failure} {o : Option Failure}
    (hpool : p.Pooled) (h : Answerable p tracked s (some f) t) (h' : Answerable p tracked t o u)
    (hg : g = f ∧ (∀ text, f ≠ .other text) ∨ ∃ text, g = .tram .serializer text) :
    Answerable p tracked s (some g) u where
  effects := h.effects.trans h'.effects
  recordsFailed_le := Nat.le_trans h.recordsFailed_le h'.recordsFailed_le
  dlqFailed_le := Nat.le_trans h.dlqFailed_le h'.dlqFailed_le
  untracked ht :=
    ⟨(h'.untracked ht).1.trans (h.untracked ht).1, (h'.untracked ht).2.trans (h.untracked ht).2⟩
  refused := h.toHonest.refused_append h'.toHonest
  failed hlt := by
    by_cases hsecond : t.delivery.recordsFailed < u.delivery.recordsFailed
    · exact (h'.failed hsecond).imp id (.imp (fun h => ⟨h.1, nofun⟩) id)
    · rcases h.failed (by omega) with hskip | ⟨habort, -⟩ | htolerant
      · exact .inl fun hu => hskip (hu.of_prefix h'.effects)
      · exact .inr (.inl ⟨habort, nofun⟩)
      · exact .inr (.inr htolerant)
  undelivered _ := by
    rcases p.onError.cases with habort | hdlq | htolerant
    · exact .inl ⟨habort, nofun⟩
    · refine .inr (.inr ⟨hdlq, ?_⟩)
      rcases hg with ⟨rfl, hother⟩ | ⟨text, rfl⟩
      · cases g with
        | tram origin text => exact .inr ⟨hpool, .inl ⟨origin, text, rfl⟩⟩
        | dlqDelivery text => exact .inl ⟨text, rfl⟩
        | other text => exact absurd rfl (hother text)
      · exact .inr ⟨hpool, .inl ⟨_, text, rfl⟩⟩
    · exact .inr (.inl htolerant)
  raised ht origin text ho := by
    rcases hg with ⟨rfl, -⟩ | ⟨text', rfl⟩
    · exact (h.raised ht origin text ho).imp id (.imp id (.imp id fun h =>
        ⟨h.1, hasLoss_mono h'.recordsFailed_le h'.dlqFailed_le h.2⟩))
    · cases ho
      exact .inr (.inl rfl)

theorem Answerable.rule (p : Pipeline ρ) (c : Call) : Rule p c (fun _ => True) (Answerable p c.tracked) where
  refl := .refl
  trans := .trans
  condition _ _ := .of_same (prefix_refl _) rfl rfl (fun _ => rfl) rfl fun _ _ _ h => by
    cases h
    exact .inl rfl
  serializer _ fault := .of_same (prefix_refl _) rfl rfl (fun _ => rfl) rfl fun _ origin text h => by
    unfold Fault.failure at h
    split_ifs at h with ht
    · cases h
      exact .inr (.inl rfl)
    · cases h
  aborted habort _ _ := .of_same (prefix_refl _) rfl rfl (fun _ => rfl) rfl fun _ _ _ _ => .inr (.inr habort)
  lose habort _ _ _ _ _ _ _ := lose_answerable habort _ _ _ _ _ _
  breaker _ _ _ _ _ := .of_quiet (prefix_refl _) rfl rfl
  failed i sink j _ text _ hpart := partitionFailed_answerable i sink j hpart text
  wrote _ _ _ := .emit _ _
  skipped i records := skipSink_answerable i records
  counted _ _ := .of_quiet (prefix_refl _) rfl rfl
  chunk _ _ _ ht := .of_same (prefix_refl _) (recordChunk_recordsFailed _ _ _ _)
    (recordChunk_dlqFailed _ _ _ _) (fun h => by cases ht.symm.trans h) rfl nofun
  overruled hpool _ _ _ _ _ _ h h' hg := h.overruled hpool h' hg

end Sinks

/-! ## The handler -/

section Handler

variable {p : Pipeline ρ} {s t : State ρ} {f : Failure}

variable {tracked elsewhere : Bool} {body : Exec ρ Bool} {refusal : Failure → Refusal}

theorem Honest.refuse (h : Honest p true s (some f) t) (habort : p.onError ≠ .abort)
    (hdlq : ∀ text, f ≠ .dlqDelivery text)
    (htram : (∃ origin text, f = .tram origin text) → ∃ g, r = .failed g)
    (hallowed : Allowed p t.delivery r) : Honest p true s none (t.refuse r) := by
  refine { h with
    untracked := nofun
    refused := ?_
    failed := fun hlt => (h.failed hlt).imp id (.imp (fun h => absurd h.1 habort) id)
    undelivered := fun hlt => ?_ }
  · obtain ⟨rs, hrs, hrest⟩ := h.refused
    exact ⟨rs ++ [r], by rw [State.refuse, hrs, append_assoc], forall_mem_concat hrest hallowed⟩
  · rcases h.undelivered hlt with ⟨h, -⟩ | htolerant |
      ⟨hpolicy, ⟨text, hraise⟩ | ⟨hpool, ⟨origin, text, hraise⟩ | hswallowed⟩⟩
    · exact absurd h habort
    · exact .inr (.inl htolerant)
    · exact absurd (Option.some.inj hraise) (hdlq text)
    · refine .inr (.inr ⟨hpolicy, .inr ⟨hpool, .inr fun hall => ?_⟩⟩)
      obtain ⟨g, hg⟩ := htram ⟨origin, text, Option.some.inj hraise⟩
      exact hall r (mem_append_right _ mem_cons_self) g hg
    · exact .inr (.inr ⟨hpolicy, .inr ⟨hpool, .inr fun hall => hswallowed hall.of_append⟩⟩)

theorem Honest.of_untracked {o : Option Failure} (h : Honest p false s o t) :
    Honest p false s o' t :=
  { h with
    failed := fun hlt => by rw [(h.untracked rfl).1] at hlt; exact absurd hlt (Nat.lt_irrefl _)
    undelivered := fun hlt => by rw [(h.untracked rfl).1] at hlt; exact absurd hlt (Nat.lt_irrefl _) }

theorem Answerable.swallowed (h : Answerable p true s (some f) t)
    (hswallow : reraises p true elsewhere t.delivery f = false) :
    p.onError ≠ .abort ∧
      ∃ origin text, f = .tram origin text ∧ (origin = .condition ∨ origin = .serializer) := by
  cases f with
  | dlqDelivery | other => cases hswallow
  | tram origin text =>
    simp only [reraises, Bool.or_eq_false_iff, decide_eq_false_iff_not, Bool.and_true] at hswallow
    obtain ⟨habort, hretry⟩ := hswallow
    refine ⟨habort, origin, text, rfl, ?_⟩
    rcases h.raised rfl origin text rfl with h | h | h | ⟨hpolicy, hloss⟩
    · exact .inl h
    · exact .inr h
    · exact absurd h habort
    · simp [hpolicy, hloss] at hretry

theorem handling_answerable (hbody : Meets (Answerable p tracked) body)
    (hrefusal : ∀ origin text, origin = .condition ∨ origin = .serializer → refusal (.tram origin
      text) = .failed (.tram origin text)) :
    Meets (Answerable p tracked) (handling p tracked elsewhere refusal body) := by
  intro s
  have hs := hbody s
  match hrun : body s with
  | (.ok b, t) =>
    rw [hrun] at hs
    rw [handling_ok hrun]
    exact hs
  | (.error f, t) =>
    rw [hrun] at hs
    rw [handling_error hrun]
    cases hraise : reraises p tracked elsewhere t.delivery f with
    | true => exact hs
    | false =>
      refine ⟨?_, nofun⟩
      cases tracked with
      | false => exact hs.toHonest.of_untracked
      | true =>
        obtain ⟨habort, origin, text, rfl, horigin⟩ := hs.swallowed hraise
        simp only [hrefusal origin text horigin]
        exact hs.toHonest.refuse habort nofun (fun _ => ⟨_, rfl⟩) ⟨origin, text, rfl, horigin⟩

theorem processRecords_answerable (c : Call) (transforms : List (Transform ρ)) (countIn : Bool)
    (records : List ρ) :
    Meets (Answerable p c.tracked) (processRecords p c transforms countIn records) :=
  handling_answerable (.bind ((Answerable.rule p c).routeRecords (fun _ => trivial) transforms
    countIn records)
    fun _ => .pure true) fun _ _ _ => rfl

end Handler

end Tram.Executor
