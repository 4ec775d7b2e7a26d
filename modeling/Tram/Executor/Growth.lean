import Tram.Executor.CallRule
import Tram.Executor.Stream

/-! # What a call leaves in place

A call of the executor registers no unit and drops none: the counters of the units in the
accounting only grow, and the acknowledgements, the gaps and the pending checkpoints stay as they
are. -/

namespace Tram.Executor

variable {ρ : Type} {f : UnitOutcome → UnitOutcome}

/-- The same unit later. -/
structure UnitOutcome.Grown (u u' : UnitOutcome) : Prop where
  info : u'.info = u.info
  recordsIn : u.recordsIn ≤ u'.recordsIn
  delivered : u.delivered ≤ u'.delivered
  recordsFailed : u.recordsFailed ≤ u'.recordsFailed
  dlqSucceeded : u.dlqSucceeded ≤ u'.dlqSucceeded
  dlqFailed : u.dlqFailed ≤ u'.dlqFailed

namespace UnitOutcome

variable (u : UnitOutcome)

def lost : Nat := u.recordsFailed + u.dlqSucceeded + u.dlqFailed

theorem Grown.refl : u.Grown u :=
  ⟨rfl, Nat.le_refl _, Nat.le_refl _, Nat.le_refl _, Nat.le_refl _, Nat.le_refl _⟩

theorem Grown.trans {u v w : UnitOutcome} (h : u.Grown v) (h' : v.Grown w) : u.Grown w :=
  ⟨h'.info.trans h.info, Nat.le_trans h.recordsIn h'.recordsIn,
    Nat.le_trans h.delivered h'.delivered, Nat.le_trans h.recordsFailed h'.recordsFailed,
    Nat.le_trans h.dlqSucceeded h'.dlqSucceeded, Nat.le_trans h.dlqFailed h'.dlqFailed⟩

theorem Grown.lost_le {u v : UnitOutcome} (h : u.Grown v) : u.lost ≤ v.lost :=
  Nat.add_le_add (Nat.add_le_add h.recordsFailed h.dlqSucceeded) h.dlqFailed

theorem grown_lose (l : Loss) : u.Grown (u.lose l) :=
  ⟨rfl, Nat.le_refl _, Nat.le_refl _, Nat.le_add_right _ _, Nat.le_add_right _ _,
    Nat.le_add_right _ _⟩

theorem grown_deliver (m n : Nat) : u.Grown (u.deliver m n) :=
  ⟨rfl, Nat.le_add_right _ _, Nat.le_add_right _ _, Nat.le_refl _, Nat.le_refl _, Nat.le_refl _⟩

end UnitOutcome

variable (d : Delivery)

def Delivery.Registered (key : UnitKey) : Prop := ∃ u, d.units.lookup key = some u

/-- Every unit of `d` is in `e`, with counters that did not shrink. -/
def Delivery.Grows (d e : Delivery) : Prop :=
  ∀ key u, d.units.lookup key = some u → ∃ u', e.units.lookup key = some u' ∧ u.Grown u'

namespace Delivery

theorem Grows.refl : d.Grows d := fun _ u h => ⟨u, h, .refl u⟩

theorem Grows.trans {d e f : Delivery} (h : d.Grows e) (h' : e.Grows f) : d.Grows f := by
  intro key u hu
  obtain ⟨v, hv, huv⟩ := h key u hu
  obtain ⟨w, hw, hvw⟩ := h' key v hv
  exact ⟨w, hw, huv.trans hvw⟩

theorem Grows.registered {d e : Delivery} (h : d.Grows e) {key : UnitKey} (hd : d.Registered key) :
    e.Registered key := by
  obtain ⟨u, hu⟩ := hd
  obtain ⟨u', hu', -⟩ := h key u hu
  exact ⟨u', hu'⟩

theorem grows_registerUnit (key : UnitKey) (info : Meta) :
    d.Grows (d.registerUnit key info) := by
  intro k u hu
  refine ⟨u, ?_, .refl u⟩
  rw [registerUnit, Dict.lookup_setdefault]
  split_ifs with hk
  · subst hk; rw [hu]; rfl
  · exact hu

theorem grows_onUnit (key : Option UnitKey) (hf : ∀ u : UnitOutcome, u.Grown (f u)) :
    d.Grows (d.onUnit key f) := by
  intro k u hu
  cases key with
  | none => exact ⟨u, hu, .refl u⟩
  | some key =>
    rw [onUnit, Dict.lookup_modify]
    split_ifs with hk
    · subst hk; exact ⟨f u, by rw [hu]; rfl, hf u⟩
    · exact ⟨u, hu, .refl u⟩

theorem onUnit_registered {d : Delivery} {key : Option UnitKey} {k : UnitKey}
    (h : (d.onUnit key f).Registered k) : d.Registered k := by
  obtain ⟨u, hu⟩ := h
  cases key with
  | none => exact ⟨u, hu⟩
  | some key =>
    exact Dict.forall_modify (P := fun k _ => d.Registered k) (fun v hv => ⟨v, hv⟩)
      (fun _ v hv => ⟨v, hv⟩) k u hu

@[simp] theorem onUnit_brokerGaps (key : Option UnitKey)
    (f : UnitOutcome → UnitOutcome) : (d.onUnit key f).brokerGaps = d.brokerGaps := by
  cases key <;> rfl

@[simp] theorem onUnit_checkpointPending (key : Option UnitKey)
    (f : UnitOutcome → UnitOutcome) : (d.onUnit key f).checkpointPending = d.checkpointPending := by
  cases key <;> rfl

end Delivery

/-- What a stretch of a run that decides nothing leaves in place. -/
structure Keeps (s t : State ρ) : Prop where
  grows : s.delivery.Grows t.delivery
  registered : ∀ {key}, t.delivery.Registered key → s.delivery.Registered key
  gaps : t.delivery.brokerGaps = s.delivery.brokerGaps
  pending : t.delivery.checkpointPending = s.delivery.checkpointPending
  acks : t.acks = s.acks
  finalized : t.finalized = s.finalized

namespace Keeps

variable {s t u : State ρ}

theorem of_delivery (hdelivery : t.delivery = s.delivery) (hacks : t.acks = s.acks)
    (hfinalized : t.finalized = s.finalized) : Keeps s t :=
  ⟨by rw [hdelivery]; exact .refl _, fun h => by rwa [hdelivery] at h, by rw [hdelivery],
    by rw [hdelivery], hacks, hfinalized⟩

theorem refl (s : State ρ) : Keeps s s := .of_delivery rfl rfl rfl

theorem trans (h : Keeps s t) (h' : Keeps t u) : Keeps s u :=
  ⟨h.grows.trans h'.grows, fun hu => h.registered (h'.registered hu), h'.gaps.trans h.gaps,
    h'.pending.trans h.pending, h'.acks.trans h.acks, h'.finalized.trans h.finalized⟩

instance : Procedure.Sequential (ε := Failure) fun s (_ : Option Failure) (t : State ρ) => Keeps s t :=
  ⟨.refl, .trans⟩

theorem onUnit (s : State ρ) (key : Option UnitKey) (hf : ∀ u : UnitOutcome, u.Grown (f u)) :
    Keeps s (s.onDelivery (·.onUnit key f)) :=
  ⟨Delivery.grows_onUnit _ key hf, Delivery.onUnit_registered, Delivery.onUnit_brokerGaps _ _ _,
    Delivery.onUnit_checkpointPending _ _ _, rfl, rfl⟩

theorem losing (s : State ρ) (c : Account) (l : Loss) : Keeps s (s.losing c l) := by
  unfold State.losing
  split_ifs
  · have h := Keeps.onUnit s c.key (f := (·.lose l)) (·.grown_lose l)
    exact { h with acks := rfl, finalized := rfl }
  · exact .refl s

end Keeps

abbrev Keeping {α : Type} (m : Exec ρ α) : Prop := Procedure.Meets (fun s _ t => Keeps s t) m

theorem lose_keeps {p : Pipeline ρ} (c : Account) (sink : Option Nat) (stage : Stage) (records : List ρ)
    (count : Nat) (taken : Bool) (text : String) :
    Keeping (lose p c sink stage records count taken text) := by
  intro s
  rcases lose_cases p c sink stage records count taken text s with
    ⟨-, -, h⟩ | ⟨-, -, -, -, h⟩ | ⟨-, -, -, h⟩ | ⟨-, h⟩ <;> rw [h]
  · exact Keeps.trans (t := s.emit _) (.of_delivery rfl rfl rfl) (.losing _ _ _)
  all_goals exact .losing _ _ _

theorem Keeps.stepwise (p : Pipeline ρ) (c : Call) : Stepwise p c (fun _ => True) Keeps where
  refl := .refl
  trans := .trans
  lose sink stage records count taken text s _ := lose_keeps _ sink stage records count taken text s
  breaker _ _ _ _ _ := .of_delivery rfl rfl rfl
  wrote _ _ _ := .of_delivery rfl rfl rfl
  skipped s _ _ := (Keeps.losing s _ _).trans (.of_delivery rfl rfl rfl)
  counted _ _ := .of_delivery rfl rfl rfl
  chunk s m n := .onUnit s c.key (·.grown_deliver m n)
  refused _ _ := .of_delivery rfl rfl rfl

theorem processRecords_keeps {p : Pipeline ρ} {c : Call} (transforms : List (Transform ρ))
    (countIn : Bool) (records : List ρ) :
    Keeping (processRecords p c transforms countIn records) :=
  (Keeps.stepwise p c).processRecords (fun _ => trivial) transforms countIn records

theorem raise_keeps {α : Type} (f : Failure) : Keeping (.raise f : Exec ρ α) :=
  Procedure.Meets.raise Keeps.refl

section Chunks

variable {job : BatchJob ρ}

theorem parseFailed_keeps {α : Type} {p : Pipeline ρ} (key : Option UnitKey) (raw : List UInt8)
    (text : String) (taken : Bool) : Keeping (parseFailed p key raw text taken : Exec ρ α) :=
  .bind (lose_keeps _ _ _ _ _ _ _) fun _ => raise_keeps _

theorem processChunk_keeps (key : Option UnitKey) (work : Work ρ) :
    Keeping (processChunk job key work) :=
  Stepwise.processChunk (fun answers => Keeps.stepwise _ ⟨_, answers⟩) (fun _ => trivial)
    (fun _ taken text s => lose_keeps _ _ _ _ _ taken text s) work

end Chunks

section Stream

variable {p : Pipeline ρ}

theorem arrive_keeps (info : Meta) (raw : List UInt8) (taken : Bool)
    (parsed : Except String (List ρ × Answers)) : Keeping (arrive p info raw taken parsed) := by
  match parsed with
  | .error text => exact parseFailed_keeps _ _ _ _
  | .ok (records, answers) =>
    have hcall := Keeps.stepwise p ⟨⟨info.unit, true⟩, answers⟩
    refine .bind (hcall.rule.countRecords true _) fun _ => .bind ?_ fun _ =>
      hcall.rule.applyGlobalTransforms p.transforms 0 records
    unfold countArrival
    split_ifs
    · exact hcall.rule.recordChunk _ _
    · exact .pure ()

theorem onUnit_keeps (key : Option UnitKey) (hf : ∀ u : UnitOutcome, u.Grown (f u)) :
    Keeping (onUnit key f : Exec ρ Unit) :=
  .modify fun s => .onUnit s key hf

theorem shareDelivery_keeps (moment : Nat → Nat → Nat) (delivered : Nat) (info : Meta)
    (survivors : List ρ) : Keeping (shareDelivery p moment delivered info survivors) := by
  unfold shareDelivery
  split_ifs
  · exact .pure ()
  · match selected moment survivors 0 p.sinks with
    | .error f => exact raise_keeps f
    | .ok false => exact .pure ()
    | .ok true => exact onUnit_keeps _ (·.grown_deliver _ _)

theorem shareOutcome_keeps (moment : Nat → Nat → Nat) (cohort : Option UnitOutcome) (info : Meta)
    (survivors : List ρ) : Keeping (shareOutcome p moment cohort info survivors) := by
  match cohort, survivors with
  | none, _ => exact .pure ()
  | some _, [] => exact .pure ()
  | some outcome, r :: rs =>
    exact .bind (onUnit_keeps _ (·.grown_lose _)) fun _ => shareDelivery_keeps _ _ _ _

theorem settle_keeps (moment : Nat → Nat → Nat → Nat) (cohort : Option UnitOutcome) (n : Nat)
    (contributors : List (Meta × List ρ)) : Keeping (settle p moment cohort n contributors) := by
  induction contributors generalizing n with
  | nil => exact .pure []
  | cons entry rest ih =>
    obtain ⟨info, survivors⟩ := entry
    refine .bind .get fun s => ?_
    match info.unit.bind s.delivery.units.lookup with
    | none => exact ih (n + 1)
    | some _ =>
      exact .bind (shareOutcome_keeps _ _ _ _) fun _ =>
        .bind (ih (n + 1)) fun infos => .pure _

end Stream

end Tram.Executor
