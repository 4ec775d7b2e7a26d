import Tram.Persistence.Effects

/-! # Guards and attempts agree

An attempt that is not terminal is the holder of its pipeline's guard. Every transaction but one
keeps this whatever its arguments are. The exception is the settling of an attempt: its release
of the guard is fenced on less than its update of the attempt, so it needs the attempt to be in
flight and the generation to be the attempt's. -/

namespace Tram

open Option

theorem Attempt.SameIdentity.refl (a : Attempt) : a.SameIdentity a := ⟨rfl, rfl, rfl, rfl⟩

theorem Attempt.SameIdentity.trans {a b c : Attempt} (h₁ : a.SameIdentity b)
    (h₂ : b.SameIdentity c) : a.SameIdentity c :=
  ⟨h₂.runId.trans h₁.runId, h₂.pipelineName.trans h₁.pipelineName, h₂.ordinal.trans h₁.ordinal,
    h₂.generation.trans h₁.generation⟩

namespace Ledger

def Agrees (l : Ledger) : Prop :=
  ∀ a row, l.attempts.lookup a = some row → row.state ≠ .terminal →
    l.holder? row.pipelineName = some ⟨row.runId, a, row.generation⟩

/-- No attempt appears or changes its identity, and guards are at most released. -/
structure Calm (l l' : Ledger) : Prop where
  rows : ∀ a row', l'.attempts.lookup a = some row' →
    ∃ row, l.attempts.lookup a = some row ∧ row.SameIdentity row'
  holders : ∀ key h, l'.holder? key = some h → l.holder? key = some h

/-- The attempt `a` may be settled under this identity: if it is active it is in flight, and of
the given generation. -/
def MaySettle (l : Ledger) (a runId pipelineName : String) (generation : Nat) : Prop :=
  ∀ row, l.attempts.lookup a = some row → row.state ≠ .terminal → row.runId = runId →
    row.pipelineName = pipelineName → row.generation = generation ∧ row.state.inFlight = true

/-- The run has an attempt that is not terminal and not in flight: it is 'unknown', as nothing
sets 'stopping'. -/
def Parked (l : Ledger) (runId : String) : Prop :=
  ∃ a row, l.attempts.lookup a = some row ∧ row.runId = runId ∧ row.state ≠ .terminal ∧
    row.state.inFlight = false

instance (l : Ledger) (runId : String) : Decidable (l.Parked runId) :=
  decidable_of_iff (∃ e ∈ l.attempts.entries, e.2.runId = runId ∧ e.2.state ≠ .terminal ∧
      e.2.state.inFlight = false)
    ⟨fun ⟨e, he, h⟩ => ⟨e.1, e.2, Dict.mem_entries.mp he, h⟩,
      fun ⟨a, row, hrow, h⟩ => ⟨⟨a, row⟩, Dict.mem_entries.mpr hrow, h⟩⟩

variable {l l' l₁ : Ledger}

/-! ## Calm transactions -/

variable {set : Attempt → Attempt} {fence : Attempt → Bool} {runId : String} {req : ClaimRequest}
  {generation : Nat}

theorem Calm.refl (l : Ledger) : Calm l l := ⟨fun _ row h => ⟨row, h, .refl row⟩, fun _ _ h => h⟩

theorem Calm.trans (h₁ : Calm l l₁) (h₂ : Calm l₁ l') : Calm l l' := by
  refine ⟨fun a row' h => ?_, fun key h hh => h₁.holders key h (h₂.holders key h hh)⟩
  obtain ⟨row₁, hrow₁, hid₂⟩ := h₂.rows a row' h
  obtain ⟨row, hrow, hid₁⟩ := h₁.rows a row₁ hrow₁
  exact ⟨row, hrow, hid₁.trans hid₂⟩

theorem Calm.of_eq (ha : l'.attempts = l.attempts) (hg : l'.guards = l.guards) : Calm l l' :=
  ⟨fun a row' h => ⟨row', ha ▸ h, .refl row'⟩, fun key h hh => by rwa [holder?, hg] at hh⟩

theorem Agrees.of_eq (h : l.Agrees) (ha : l'.attempts = l.attempts) (hg : l'.guards = l.guards) :
    l'.Agrees := by
  intro a row hrow hactive
  rw [holder?, hg]
  exact h a row (ha ▸ hrow) hactive

theorem calm_updateAttempt (l : Ledger) (a : String)
    (hid : ∀ row : Attempt, row.SameIdentity (set row)) :
    Calm l (l.updateAttempt a fence set) := by
  refine ⟨Dict.forall_modify (fun row hrow => ⟨row, hrow, ?_⟩) fun _ row hrow => ⟨row, hrow, .refl row⟩,
    fun _ _ h => h⟩
  split_ifs
  · exact hid row
  · exact .refl row

theorem Agrees.updateAttempt (h : l.Agrees) (a : String)
    (hid : ∀ row : Attempt, row.SameIdentity (set row))
    (hdead : ∀ row, fence row = true → (set row).state ≠ .terminal → row.state ≠ .terminal) :
    (l.updateAttempt a fence set).Agrees := by
  refine Dict.forall_modify (fun row hrow hactive => ?_) h
  by_cases hf : fence row
  · rw [if_pos hf] at hactive ⊢
    rw [holder?_updateAttempt, (hid row).runId, (hid row).pipelineName, (hid row).generation]
    exact h a row hrow (hdead row hf hactive)
  · rw [if_neg hf] at hactive ⊢
    exact h a row hrow hactive

theorem settled_sameIdentity (runId : String) (generation : Nat) (reason : Option String) (now : Nat)
    (row : Attempt) : row.SameIdentity (settled runId generation reason now row) := by
  unfold settled
  split_ifs
  · exact ⟨rfl, rfl, rfl, rfl⟩
  · exact .refl row

theorem calm_terminalizeAttempt (l : Ledger) (a runId pipelineName : String) (generation : Nat)
    (o : Option IntentOutcome) (reason : Option String) (now : Nat) :
    Calm l (l.terminalizeAttempt a runId pipelineName generation o reason now) := by
  refine ⟨fun b row' h => ?_, fun key h hh => ?_⟩
  · rw [lookup_terminalizeAttempt] at h
    split_ifs at h with hb
    · subst hb
      obtain ⟨row, hrow, rfl⟩ := map_eq_some_iff.mp h
      exact ⟨row, hrow, settled_sameIdentity ..⟩
    · exact ⟨row', h, .refl row'⟩
  · rw [holder?_terminalizeAttempt] at hh
    split_ifs at hh with hkey
    · subst hkey
      exact (filter_eq_some_iff.mp hh).1
    · exact hh

theorem Agrees.terminalizeAttempt (h : l.Agrees) {a pipelineName : String}
    (hmay : l.MaySettle a runId pipelineName generation) (o : Option IntentOutcome)
    (reason : Option String) (now : Nat) :
    (l.terminalizeAttempt a runId pipelineName generation o reason now).Agrees := by
  intro b row' hrow' hactive
  rw [lookup_terminalizeAttempt] at hrow'
  -- a row that is still active was active before, held its guard, and is not the one released
  have hbefore : l.attempts.lookup b = some row' ∧
      ¬(b = a ∧ row'.runId = runId ∧ row'.pipelineName = pipelineName) := by
    split_ifs at hrow' with hb
    · subst hb
      obtain ⟨row, hrow, rfl⟩ := map_eq_some_iff.mp hrow'
      by_cases hfence : row.runId = runId ∧ row.generation = generation ∧ row.state.inFlight
      · simp [settled, hfence] at hactive
      · have hsame : settled runId generation reason now row = row := by rw [settled, if_neg hfence]
        rw [hsame] at hactive ⊢
        refine ⟨hrow, fun hid => hfence ?_⟩
        obtain ⟨hgen, hfly⟩ := hmay row hrow hactive hid.2.1 hid.2.2
        exact ⟨hid.2.1, hgen, hfly⟩
    · exact ⟨hrow', fun hid => hb hid.1⟩
  rw [holder?_terminalizeAttempt]
  have hheld := h b row' hbefore.1 hactive
  split_ifs with hkey
  · have hne : ¬(b = a ∧ row'.runId = runId) := fun hid => hbefore.2 ⟨hid.1, hid.2, hkey⟩
    rw [← hkey, hheld, filter_some_pos (by rw [decide_eq_false hne]; rfl)]
  · exact hheld

/-- The attempt of `req` is new, in flight and the holder of a guard that was free. -/
structure Added (req : ClaimRequest) (l l' : Ledger) : Prop where
  free : l.holder? req.guardKey = none
  fresh : l.attempts.lookup req.attemptId = none
  row : ∃ row', req.row.SameIdentity row' ∧ row'.state.inFlight = true ∧
    ∀ b, l'.attempts.lookup b = if b = req.attemptId then some row' else l.attempts.lookup b
  holder : ∀ key, l'.holder? key = if key = req.guardKey then some req.holder else l.holder? key

theorem Claimed.added (h : Claimed req l l') : Added req l l' where
  free := h.free
  fresh := h.fresh
  row := by
    refine ⟨req.row, .refl _, rfl, fun b => ?_⟩
    rw [h.attempts, Dict.lookup_insert_ite]
  holder := h.holder

theorem Added.mark (h : Added req l l') (r : String) (g now : Nat) :
    Added req l (l'.markAttemptDispatching req.attemptId r g now) where
  __ := h
  row := by
    obtain ⟨row', hsame, hfly, hrows⟩ := h.row
    refine ⟨if row'.runId = r ∧ row'.state = .claimed ∧ row'.generation = g then
      { row' with state := .dispatching, dispatchSentAt := some now } else row',
      hsame.trans ?_, ?_, fun b => ?_⟩
    · split_ifs
      · exact ⟨rfl, rfl, rfl, rfl⟩
      · exact .refl row'
    · split_ifs
      · rfl
      · exact hfly
    · rw [markAttemptDispatching, lookup_updateAttempt, hrows, hrows, if_pos rfl]
      simp only [map_some, decide_eq_true_eq]
      split_ifs <;> rfl

/-- A claim finds the guard free, so the pipeline had no active attempt. -/
theorem Agrees.added (h : l.Agrees) (hkey : req.guardKey = req.pipelineName) (hc : Added req l l') :
    l'.Agrees := by
  intro a row hrow hactive
  obtain ⟨row', hsame, -, hrows⟩ := hc.row
  rw [hrows] at hrow
  rw [hc.holder]
  split_ifs at hrow with ha
  · cases hrow
    subst ha
    rw [hsame.pipelineName, hsame.runId, hsame.generation]
    exact if_pos hkey.symm
  · have hheld := h a row hrow hactive
    split_ifs with hpipe
    · rw [hpipe, hc.free] at hheld
      cases hheld
    · exact hheld

/-! ## The two kinds of change -/

/-- A change that adds no attempt. It keeps the agreement, provided that what it settles may be
settled, which `spares` says. -/
structure Quiet (spares : Prop) (l l' : Ledger) : Prop where
  calm : Calm l l'
  agrees : spares → l.Agrees → l'.Agrees

/-- The claim of a new attempt `a` of the run. -/
structure Grows (l l' : Ledger) (runId a : String) (generation : Nat) : Prop where
  rows : ∀ b row', l'.attempts.lookup b = some row' →
    (b = a ∧ row'.generation = generation) ∨
      ∃ row, l.attempts.lookup b = some row ∧ row.SameIdentity row'
  new : ∀ row', l'.attempts.lookup a = some row' → row'.generation = generation
  holders : ∀ key h, l'.holder? key = some h → h.runId = runId ∨ l.holder? key = some h
  agrees : l.Agrees → l'.Agrees

variable {spares : Prop}

theorem Quiet.refl (spares : Prop) (l : Ledger) : Quiet spares l l := ⟨.refl l, fun _ => id⟩

theorem Quiet.trans (h₁ : Quiet spares l l₁) (h₂ : Quiet spares l₁ l') : Quiet spares l l' :=
  ⟨h₁.calm.trans h₂.calm, fun hs => h₂.agrees hs ∘ h₁.agrees hs⟩

theorem Quiet.of_eq (ha : l'.attempts = l.attempts) (hg : l'.guards = l.guards) : Quiet spares l l' :=
  ⟨.of_eq ha hg, fun _ h => h.of_eq ha hg⟩

theorem quiet_updateAttempt (l : Ledger) (a : String)
    (hid : ∀ row : Attempt, row.SameIdentity (set row))
    (hdead : ∀ row, fence row = true → (set row).state ≠ .terminal → row.state ≠ .terminal) :
    Quiet spares l (l.updateAttempt a fence set) :=
  ⟨calm_updateAttempt l a hid, fun _ h => h.updateAttempt a hid hdead⟩

theorem quiet_markAttemptDispatching (l : Ledger) (a r : String) (g now : Nat) :
    Quiet spares l (l.markAttemptDispatching a r g now) := by
  refine quiet_updateAttempt l a (fun row => ⟨rfl, rfl, rfl, rfl⟩) fun row hf _ hs => ?_
  simp [hs] at hf

theorem quiet_markAttemptRunning (l : Ledger) (a r : String) (g now : Nat) :
    Quiet spares l (l.markAttemptRunning a r g now) := by
  refine quiet_updateAttempt l a (fun row => ⟨rfl, rfl, rfl, rfl⟩) fun row hf _ hs => ?_
  simp [hs] at hf

theorem quiet_markAttemptUnknown (l : Ledger) (a r : String) (g : Nat) (reason : String) :
    Quiet spares l (l.markAttemptUnknown a r g reason) := by
  refine quiet_updateAttempt l a (fun row => ⟨rfl, rfl, rfl, rfl⟩) fun row hf _ hs => ?_
  simp [hs] at hf

theorem quiet_recordAttemptWorker (l : Ledger) (a r : String) (g : Nat) (w : String) :
    Quiet spares l (l.recordAttemptWorker a r g w) :=
  quiet_updateAttempt l a (fun _ => ⟨rfl, rfl, rfl, rfl⟩) fun _ _ hs => hs

theorem quiet_terminalizeAttempt {a pipelineName : String}
    (hmay : spares → l.MaySettle a runId pipelineName generation) (o : Option IntentOutcome)
    (reason : Option String) (now : Nat) :
    Quiet spares l (l.terminalizeAttempt a runId pipelineName generation o reason now) :=
  ⟨calm_terminalizeAttempt .., fun hs h => h.terminalizeAttempt (hmay hs) o reason now⟩

theorem quiet_terminalizeActive (hpark : spares → ¬l.Parked runId) (o : Option IntentOutcome)
    (reason : Option String) (now : Nat) :
    Quiet spares l (l.terminalizeActive runId o reason now) := by
  unfold terminalizeActive
  split
  · exact .refl spares l
  · rename_i e he
    refine quiet_terminalizeAttempt (fun hs row hrow hactive hrun _ => ?_) o reason now
    obtain rfl := mem_unique (lookup_of_activeAttempt he).1 hrow
    refine ⟨rfl, ?_⟩
    by_contra hidle
    exact hpark hs ⟨e.1, e.2, hrow, hrun, hactive, by simpa using hidle⟩

theorem quiet_pruneLedgerAudit (l : Ledger) (cutoff : Nat) :
    Quiet spares l (l.pruneLedgerAudit cutoff) where
  calm := ⟨fun _ row' h => ⟨row', (Dict.lookup_retain_eq_some.mp h).1, .refl row'⟩, fun _ _ h => h⟩
  agrees := fun _ h a row hrow => h a row (Dict.lookup_retain_eq_some.mp hrow).1

theorem Added.grows (hkey : req.guardKey = req.pipelineName) (hc : Added req l l') :
    Grows l l' req.runId req.attemptId req.generation := by
  obtain ⟨row₁, hsame, -, hrows⟩ := hc.row
  refine ⟨fun b row' h => ?_, fun row' h => ?_, fun key h hh => ?_, fun h => h.added hkey hc⟩
  · rw [hrows] at h
    split_ifs at h with hb
    · cases h
      exact .inl ⟨hb, hsame.generation⟩
    · exact .inr ⟨row', h, .refl row'⟩
  · rw [hrows, if_pos rfl] at h
    cases h
    exact hsame.generation
  · rw [hc.holder] at hh
    split_ifs at hh
    · cases hh
      exact .inl rfl
    · exact .inr hh

end Ledger

end Tram
