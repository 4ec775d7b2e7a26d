import Tram.ClickHouse.Sink

/-! # What the sink delivers

In every interleaving the rows that were admitted are those inserted and those still to be inserted,
in this order, and a payload is admitted once, however often it is retried. -/

namespace Tram.ClickHouse

open List Sink Dict

def Phase.covers {ρ : Type} (inserted : List ρ) : Phase ρ → Option Nat
  | .entered => none
  | .inserting rows => some (inserted.length + rows.length)
  | .confirmed _ => some inserted.length

def Phase.copy {ρ : Type} : Phase ρ → List ρ
  | .entered => []
  | .inserting rows => rows
  | .confirmed rows => rows

namespace Sink

variable {δ ρ : Type} {cfg : Config δ ρ} {s : Sink δ ρ} {id : CallId} {status : Status}
  {caller : Caller δ}

def pending (s : Sink δ ρ) : List ρ :=
  match s.holder with
  | some (_, .confirmed rows) => s.buffer.drop rows.length
  | _ => s.buffer

structure Consistent (cfg : Config δ ρ) (s : Sink δ ρ) : Prop where
  conserved : s.admitted = s.inserted ++ s.pending
  copied : ∀ id phase, s.holder = some (id, phase) → phase.copy <+: s.buffer
  confirmed : ∀ id rows, s.holder = some (id, .confirmed rows) → rows <:+ s.inserted
  /-- The holder of the flush lock is in its flush; if it is a commit, its insert covers all rows
  that were admitted when it began. -/
  holding : ∀ id phase, s.holder = some (id, phase) →
    ∃ caller observed, s.calls.lookup id = some ⟨caller, .flushing observed⟩ ∧
      ∀ since n, caller = .commit since → phase.covers s.inserted = some n → since ≤ n
  distinct : (s.admissions.map Prod.fst).Nodup
  /-- A payload that is admitted is retried as such. -/
  admission : ∀ a ∈ s.admissions, ∃ w status, s.calls.lookup a.1 = some ⟨.write w, status⟩ ∧
    cfg.parse w.data = some a.2 ∧ (status = .raised → ∃ error, w.admitted = some (w.data, error))
  /-- A write that does not raise has admitted its rows, and so has one that is retried as such. -/
  written : ∀ id w status rows, s.calls.lookup id = some ⟨.write w, status⟩ →
    (status ≠ .raised ∨ w.admitted ≠ none) → cfg.parse w.data = some rows → rows ≠ [] →
      (id, rows) ∈ s.admissions
  began : ∀ id since status, s.calls.lookup id = some ⟨.commit since, status⟩ →
    since ≤ s.admitted.length
  receipt : ∀ id since, s.calls.lookup id = some ⟨.commit since, .returned⟩ →
    since ≤ s.inserted.length

namespace Consistent

theorem new (cfg : Config δ ρ) : Consistent cfg (.new cfg) :=
  ⟨rfl, nofun, nofun, nofun, .nil, nofun, nofun, nofun, nofun⟩

variable (h : Consistent cfg s)
include h

theorem frame (latchedError : Option ErrorId) (nextError : ErrorId)
    (closed scheduled : Bool) : Consistent cfg { s with
      latchedError := latchedError
      nextError := nextError
      closed := closed
      scheduled := scheduled } :=
  { h with }

structure Fits (cfg : Config δ ρ) (s : Sink δ ρ) (id : CallId) (call : Call δ) : Prop where
  admission : ∀ rows, (id, rows) ∈ s.admissions → ∃ w, call.caller = .write w ∧
    cfg.parse w.data = some rows ∧ (call.status = .raised → ∃ error, w.admitted = some (w.data, error))
  written : ∀ w rows, call.caller = .write w → (call.status ≠ .raised ∨ w.admitted ≠ none) →
    cfg.parse w.data = some rows → rows ≠ [] → (id, rows) ∈ s.admissions
  began : ∀ since, call.caller = .commit since → since ≤ s.admitted.length
  receipt : ∀ since, call.caller = .commit since → call.status = .returned → since ≤ s.inserted.length

theorem setCall (hfree : ∀ phase, s.holder ≠ some (id, phase))
    (hfits : Fits cfg s id ⟨caller, status⟩) : Consistent cfg (s.setCall id caller status) := by
  have hlookup : ∀ k, (s.setCall id caller status).calls.lookup k =
      if k = id then some ⟨caller, status⟩ else s.calls.lookup k :=
    fun k => lookup_insert_ite _ _ _ _
  refine ⟨h.conserved, h.copied, h.confirmed, fun k phase hholder => ?_, h.distinct, fun a ha => ?_,
    fun k w st rows hk => ?_, fun k since st hk => ?_, fun k since hk => ?_⟩
  · have hne : k ≠ id := fun heq => hfree phase (heq ▸ hholder)
    rw [hlookup, if_neg hne]
    exact h.holding k phase hholder
  · rw [hlookup]
    split_ifs with heq
    · obtain ⟨w, hcaller, hparse, hraised⟩ := hfits.admission a.2 (heq ▸ ha)
      dsimp only at hcaller
      exact ⟨w, status, by rw [hcaller], hparse, hraised⟩
    · exact h.admission a ha
  · rw [hlookup] at hk
    split_ifs at hk with heq
    · cases hk
      rw [heq]
      exact hfits.written w rows rfl
    · exact h.written k w st rows hk
  · rw [hlookup] at hk
    split_ifs at hk with heq
    · cases hk
      exact hfits.began since rfl
    · exact h.began k since st hk
  · rw [hlookup] at hk
    split_ifs at hk with heq
    · cases hk
      exact hfits.receipt since rfl rfl
    · exact h.receipt k since hk

theorem newCall (hnew : id ∉ s.calls) (hwrite : ∀ w, caller ≠ .write w)
    (hcommit : ∀ since, caller = .commit since → since ≤ s.admitted.length ∧ status ≠ .returned) :
    Consistent cfg (s.setCall id caller status) := by
  have hnone : s.calls.lookup id = none := AList.lookup_eq_none.mpr hnew
  refine h.setCall (fun phase hholder => ?_) ⟨fun rows ha => ?_, fun w rows hw => absurd hw (hwrite w),
    fun since hc => (hcommit since hc).1, fun since hc hs => absurd hs (hcommit since hc).2⟩
  · obtain ⟨caller, observed, hcall, -⟩ := h.holding id phase hholder
    rw [hnone] at hcall
    cases hcall
  · obtain ⟨w, st, hcall, -⟩ := h.admission _ ha
    rw [hnone] at hcall
    cases hcall

/-! ## `write` -/

theorem not_holding
    (hidle : ∀ caller observed, s.calls.lookup id ≠ some ⟨caller, .flushing observed⟩) (phase : Phase ρ) :
    s.holder ≠ some (id, phase) := by
  intro hholder
  obtain ⟨caller, observed, hcall, -⟩ := h.holding id phase hholder
  exact hidle caller observed hcall

variable {rows : List ρ}

theorem pending_append : ({ s with buffer := s.buffer ++ rows } : Sink δ ρ).pending = s.pending ++ rows := by
  unfold pending
  cases hholder : s.holder with
  | none => rfl
  | some held =>
    obtain ⟨holder, phase⟩ := held
    cases phase with
    | entered | inserting => rfl
    | confirmed copy =>
      have hle : copy.length ≤ s.buffer.length := (h.copied holder _ hholder).length_le
      exact drop_append_of_le_length hle

theorem appendRows {w : Write δ}
    (hidle : ∀ caller observed, s.calls.lookup id ≠ some ⟨caller, .flushing observed⟩)
    (hnew : ∀ rows, (id, rows) ∉ s.admissions) (hparse : cfg.parse w.data = some rows) :
    Consistent cfg (s.appendRows cfg id w rows) := by
  have hadmitted : ({ s with admissions := s.admissions ++ [(id, rows)] } : Sink δ ρ).admitted =
      s.admitted ++ rows := by
    simp [admitted]
  obtain ⟨status, hne, heq⟩ : ∃ status : Status, status ≠ .raised ∧ s.appendRows cfg id w rows = { s with
      buffer := s.buffer ++ rows
      calls := s.calls.insert id ⟨.write w, status⟩
      admissions := s.admissions ++ [(id, rows)] } := by
    refine ⟨_, ?_, rfl⟩
    split_ifs <;> exact nofun
  rw [heq]
  refine ⟨?_, fun k phase hholder => ?_, h.confirmed, fun k phase hholder => ?_, ?_, fun a ha => ?_,
    fun k w' st rows' hk hst hp hrows => ?_, fun k since st hk => ?_, fun k since hk => ?_⟩
  · refine hadmitted.trans ?_
    rw [h.conserved, append_assoc]
    exact congrArg (s.inserted ++ ·) h.pending_append.symm
  · exact (h.copied k phase hholder).trans (prefix_append _ _)
  · obtain ⟨caller, observed, hcall, hcovers⟩ := h.holding k phase hholder
    refine ⟨caller, observed, ?_, hcovers⟩
    have hk : k ≠ id := fun heq => hidle caller observed (heq ▸ hcall)
    rw [lookup_insert_ite, if_neg hk]
    exact hcall
  · rw [map_append, nodup_append]
    refine ⟨h.distinct, nodup_singleton _, fun a ha b hb heq => ?_⟩
    obtain ⟨⟨k, rows'⟩, hmem, rfl⟩ := mem_map.mp ha
    rw [map_singleton, mem_singleton] at hb
    dsimp only at heq hb
    exact hnew rows' (by rwa [heq, hb] at hmem)
  · rcases mem_append.mp ha with ha | ha
    · have hk : a.1 ≠ id := fun heq => hnew a.2 (heq ▸ ha)
      obtain ⟨w', st, hcall, hrest⟩ := h.admission a ha
      exact ⟨w', st, by rw [lookup_insert_ite, if_neg hk]; exact hcall, hrest⟩
    · rw [mem_singleton.mp ha]
      exact ⟨w, status, by rw [lookup_insert_ite, if_pos rfl], hparse, fun hs => absurd hs hne⟩
  · rw [lookup_insert_ite] at hk
    split_ifs at hk with heq
    · cases hk
      rw [hparse] at hp
      cases hp
      rw [heq]
      exact mem_append_right _ mem_cons_self
    · exact mem_append_left _ (h.written k w' st rows' hk hst hp hrows)
  · rw [lookup_insert_ite] at hk
    split_ifs at hk with heq
    · cases hk
    · have hbegan := h.began k since st hk
      have hlength := congrArg length hadmitted
      rw [length_append] at hlength
      exact Nat.le_trans hbegan (Nat.le_trans (Nat.le_add_right _ _) (Nat.le_of_eq hlength.symm))
  · rw [lookup_insert_ite] at hk
    split_ifs at hk with heq
    · cases hk
    · exact h.receipt k since hk

section Write

variable [DecidableEq δ] {w : Write δ}

theorem write
    (hidle : ∀ caller observed, s.calls.lookup id ≠ some ⟨caller, .flushing observed⟩)
    (hadmitted : ∀ rows, (id, rows) ∈ s.admissions →
      cfg.parse w.data = some rows ∧ 0 < w.attempt ∧ ∃ error, w.admitted = some (w.data, error))
    (hrecorded : ∀ rows, w.admitted ≠ none → cfg.parse w.data = some rows → rows ≠ [] →
      (id, rows) ∈ s.admissions) :
    Consistent cfg (s.write cfg id w) := by
  have hfits : ∀ {status : Status}, (∀ rows, cfg.parse w.data = some rows → rows ≠ [] →
      status ≠ .raised → w.admitted ≠ none) → Fits cfg s id ⟨.write w, status⟩ := by
    intro status hwritten
    refine ⟨fun rows ha => ?_, fun w' rows hw hst hp hrows => ?_, nofun, nofun⟩
    · obtain ⟨hparse, -, herror⟩ := hadmitted rows ha
      exact ⟨w, rfl, hparse, fun _ => herror⟩
    · cases hw
      exact hrecorded rows (hst.elim (hwritten rows hp hrows) fun hw => hw) hp hrows
  have hfree := h.not_holding hidle
  unfold Sink.write
  split
  · rename_i hparse
    exact h.setCall hfree (hfits fun rows hp => by rw [hparse] at hp; cases hp)
  · rename_i hparse
    refine h.setCall hfree (hfits fun rows hp hrows => ?_)
    rw [hparse] at hp
    exact absurd (Option.some.inj hp).symm hrows
  · rename_i rows hrows hparse
    split
    · -- an earlier attempt has admitted the rows
      rename_i error hretries
      refine h.setCall hfree (hfits fun rows' hp hne hst hnone => ?_)
      simp [Write.retries, hnone] at hretries
    · rename_i hretries
      refine h.appendRows hidle (fun rows' ha => ?_) hparse
      obtain ⟨-, hattempt, error, herror⟩ := hadmitted rows' ha
      simp [Write.retries, herror, hattempt] at hretries

end Write

/-! ## `_flush` -/

theorem acquire (id : CallId) : Consistent cfg (s.acquire id) := by
  unfold Sink.acquire
  split
  · rename_i caller observed hholder hcall
    have hconserved := h.conserved
    rw [pending, hholder] at hconserved
    refine ⟨hconserved, fun k phase hk => ?_, nofun, fun k phase hk => ?_, h.distinct, h.admission,
      h.written, h.began, h.receipt⟩
    · cases hk
      exact nil_prefix
    · cases hk
      exact ⟨caller, observed, hcall, nofun⟩
  · exact h

variable {buffer : List ρ}

theorem release (hbuffer : buffer = s.pending) : Consistent cfg { s with buffer := buffer, holder := none } :=
  ⟨h.conserved.trans (by rw [← hbuffer]; rfl), nofun, nofun, nofun, h.distinct, h.admission,
    h.written, h.began,
    h.receipt⟩

variable {observed : Option ErrorId}

theorem fits_write {w : Write δ} (hcall : s.calls.lookup id = some ⟨.write w, .flushing observed⟩)
    {admitted : Option (δ × ErrorId)}
    (hraised : status = .raised → ∃ error, admitted = some (w.data, error)) :
    Fits cfg s id ⟨.write { w with admitted := admitted }, status⟩ := by
  refine ⟨fun rows ha => ?_, fun w' rows hw' hst hp hrows => ?_, nofun, nofun⟩
  · obtain ⟨w', st, hcall', hparse, -⟩ := h.admission _ ha
    rw [hcall] at hcall'
    cases hcall'
    exact ⟨_, rfl, hparse, hraised⟩
  · cases hw'
    exact h.written id w _ rows hcall (.inl nofun) hp hrows

theorem fits_other (hcall : s.calls.lookup id = some ⟨caller, .flushing observed⟩)
    (hwrite : ∀ w, caller ≠ .write w)
    (hcommit : ∀ since, caller = .commit since → status = .returned → since ≤ s.inserted.length) :
    Fits cfg s id ⟨caller, status⟩ := by
  refine ⟨fun rows ha => ?_, fun w rows hw => absurd hw (hwrite w), fun since hc => ?_, hcommit⟩
  · obtain ⟨w, st, hcall', -⟩ := h.admission _ ha
    rw [hcall] at hcall'
    cases hcall'
    exact absurd rfl (hwrite w)
  · dsimp only at hc
    rw [hc] at hcall
    exact h.began id since _ hcall

theorem settle {phase : Phase ρ} (hholder : s.holder = some (id, phase))
    (hbuffer : buffer = s.pending) (error : Option ErrorId)
    (hdelivered : error = none → s.admitted.length ≤ s.inserted.length ∨
      phase.covers s.inserted = some s.inserted.length) :
    Consistent cfg (({ s with buffer := buffer } : Sink δ ρ).settle cfg id error) := by
  obtain ⟨caller, observed, hcall, hcovers⟩ := h.holding id phase hholder
  have hrelease := h.release hbuffer
  unfold Sink.settle
  simp only [hcall]
  cases caller with
  | write w =>
    cases error with
    | none => exact hrelease.setCall nofun (hrelease.fits_write hcall nofun)
    | some e => exact hrelease.setCall nofun (hrelease.fits_write hcall fun _ => ⟨e, rfl⟩)
  | timer =>
    exact (hrelease.frame _ _ _ _).setCall nofun
      ((hrelease.frame _ _ _ _).fits_other hcall nofun nofun)
  | commit since =>
    refine hrelease.setCall nofun (hrelease.fits_other hcall nofun fun since' hc hst => ?_)
    cases hc
    cases error with
    | some e => cases hst
    | none =>
      rcases hdelivered rfl with hall | hphase
      · exact Nat.le_trans (h.began id since _ hcall) hall
      · exact hcovers since _ rfl hphase
  | close => exact hrelease.setCall nofun (hrelease.fits_other hcall nofun nofun)

theorem snapshot : Consistent cfg (s.snapshot cfg) := by
  unfold Sink.snapshot
  split
  · rename_i id hholder
    have hpending : s.pending = s.buffer := by rw [pending, hholder]
    have hconserved := h.conserved
    rw [hpending] at hconserved
    split
    · rename_i hbuffer
      refine h.settle hholder (hpending.symm.trans rfl) none fun _ => .inl ?_
      rw [hconserved, hbuffer, append_nil]
    · rename_i rows hrows
      refine ⟨hconserved, fun k phase hk => ?_, nofun, fun k phase hk => ?_, h.distinct, h.admission,
        h.written, h.began, h.receipt⟩
      · cases hk
        exact prefix_rfl
      · cases hk
        obtain ⟨caller, observed, hcall, -⟩ := h.holding id _ hholder
        refine ⟨caller, observed, hcall, fun since n hc hn => ?_⟩
        cases hn
        rw [hc] at hcall
        have hbegan := h.began id since _ hcall
        rwa [hconserved, length_append] at hbegan
  · exact h

theorem insert (succeeds : Bool) : Consistent cfg (s.insert cfg succeeds) := by
  unfold Sink.insert
  split
  · rename_i id rows hholder
    have hconserved := h.conserved
    rw [pending, hholder] at hconserved
    split_ifs
    · obtain ⟨later, hbuffer⟩ := h.copied id _ hholder
      rw [Phase.copy] at hbuffer
      obtain ⟨caller, observed, hcall, hcovers⟩ := h.holding id _ hholder
      refine ⟨?_, fun k phase hk => ?_, fun k rows' hk => ?_, fun k phase hk => ?_, h.distinct,
        h.admission, h.written, h.began, fun k since hk => ?_⟩
      · refine hconserved.trans ?_
        simp [pending, ← hbuffer]
      · cases hk
        exact ⟨later, hbuffer⟩
      · cases hk
        exact suffix_append _ _
      · cases hk
        refine ⟨caller, observed, hcall, fun since n hc hn => ?_⟩
        cases hn
        rw [length_append]
        exact hcovers since _ hc rfl
      · rw [length_append]
        exact Nat.le_trans (h.receipt k since hk) (Nat.le_add_right _ _)
    · refine (h.frame (some s.nextError) (s.nextError + 1) s.closed s.scheduled).settle hholder ?_
        (some s.nextError) nofun
      simp only [pending, hholder]
  · exact h

theorem drop : Consistent cfg (s.drop cfg) := by
  unfold Sink.drop
  split
  · rename_i id rows hholder
    refine h.settle hholder ?_ none fun _ => .inr rfl
    rw [pending, hholder]
  · exact h

/-! ## Runs -/

theorem commit (hnew : id ∉ s.calls) (late : Bool) : Consistent cfg (s.commit id late) := by
  unfold Sink.commit
  split
  · refine (h.frame none s.nextError s.closed s.scheduled).newCall hnew nofun fun since hc => ?_
    cases hc
    exact ⟨Nat.le_refl _, nofun⟩
  · refine h.newCall hnew nofun fun since hc => ?_
    cases hc
    refine ⟨Nat.le_refl _, ?_⟩
    split_ifs <;> exact nofun

theorem close (hnew : id ∉ s.calls) : Consistent cfg (s.close cfg id) := by
  unfold Sink.close
  split_ifs
  · exact h.newCall hnew nofun nofun
  all_goals exact (h.frame s.latchedError s.nextError true false).newCall hnew nofun nofun

theorem step [DecidableEq δ] (e : Event δ) : Consistent cfg (s.step cfg e) := by
  cases e with
  | write id data =>
    rw [Sink.step]
    split_ifs with hnew
    · exact h
    · have hnone : s.calls.lookup id = none := AList.lookup_eq_none.mpr hnew
      refine h.write (by rw [hnone]; exact nofun) (fun rows ha => ?_) (fun rows hw => absurd rfl hw)
      obtain ⟨w, st, hcall, -⟩ := h.admission _ ha
      rw [hnone] at hcall
      cases hcall
  | retry id =>
    rw [Sink.step]
    split
    · rename_i w hcall
      split_ifs
      · refine h.write (by rw [hcall]; exact nofun) (fun rows ha => ?_) fun rows hw hp hrows => ?_
        · obtain ⟨w', st, hcall', hparse, herror⟩ := h.admission _ ha
          rw [hcall] at hcall'
          cases hcall'
          exact ⟨hparse, Nat.succ_pos _, herror rfl⟩
        · exact h.written id w _ rows hcall (.inr hw) hp hrows
      · exact h
    · exact h
  | timer id =>
    rw [Sink.step]
    split_ifs with hnew
    · exact h
    · exact (h.frame s.latchedError s.nextError s.closed false).newCall (fun hmem => hnew (.inl hmem))
        nofun nofun
  | commit id late =>
    rw [Sink.step]
    split_ifs with hnew
    · exact h
    · exact h.commit hnew late
  | close id =>
    rw [Sink.step]
    split_ifs with hnew
    · exact h
    · exact h.close hnew
  | latchedError => exact h.frame _ _ _ _
  | acquire id => exact h.acquire id
  | snapshot => exact h.snapshot
  | insert succeeds => exact h.insert succeeds
  | drop => exact h.drop

theorem dropped : ∃ dropped, s.admitted = dropped ++ s.buffer ∧ dropped <+: s.inserted := by
  have hconserved := h.conserved
  have hcopied := h.copied
  have hconfirmed := h.confirmed
  unfold pending at hconserved
  split at hconserved
  · rename_i id rows hholder
    obtain ⟨later, hbuffer⟩ := hcopied id _ hholder
    obtain ⟨earlier, hinserted⟩ := hconfirmed id rows hholder
    rw [Phase.copy] at hbuffer
    rw [← hbuffer, drop_left, ← hinserted, append_assoc, hbuffer] at hconserved
    exact ⟨earlier, hconserved, rows, hinserted⟩
  · exact ⟨s.inserted, hconserved, prefix_rfl⟩

theorem inserted_prefix : s.inserted <+: s.admitted :=
  ⟨s.pending, h.conserved.symm⟩

end Consistent

/-! ## What a step keeps -/

/-- Admissions are only added, and a commit stays the commit it began as. -/
structure Grows (s t : Sink δ ρ) : Prop where
  admissions : s.admissions <+: t.admissions
  commit : ∀ id since status, s.calls.lookup id = some ⟨.commit since, status⟩ →
    ∃ status', t.calls.lookup id = some ⟨.commit since, status'⟩

namespace Grows

theorem refl (s : Sink δ ρ) : Grows s s := ⟨prefix_rfl, fun _ _ status h => ⟨status, h⟩⟩

variable {t : Sink δ ρ}

theorem trans {u : Sink δ ρ} (h : Grows s t) (h' : Grows t u) : Grows s u := by
  refine ⟨h.admissions.trans h'.admissions, fun id since status hs => ?_⟩
  obtain ⟨status', ht⟩ := h.commit id since status hs
  exact h'.commit id since status' ht

theorem frame (hadmissions : t.admissions = s.admissions) (hcalls : t.calls = s.calls) :
    Grows s t :=
  ⟨hadmissions ▸ prefix_rfl, fun _ _ status h => ⟨status, hcalls ▸ h⟩⟩

section

variable (s : Sink δ ρ)

theorem setCall
    (hcommit : ∀ since st, s.calls.lookup id = some ⟨.commit since, st⟩ → caller = .commit since) :
    Grows s (s.setCall id caller status) := by
  refine ⟨prefix_rfl, fun k since st hk => ?_⟩
  rw [Sink.setCall, lookup_insert_ite]
  split_ifs with heq
  · subst heq
    rw [hcommit since st hk]
    exact ⟨status, rfl⟩
  · exact ⟨st, hk⟩

theorem setCall_new (hnew : id ∉ s.calls) (caller : Caller δ) (status : Status) :
    Grows s (s.setCall id caller status) := by
  refine setCall s fun since st hk => ?_
  rw [AList.lookup_eq_none.mpr hnew] at hk
  cases hk

theorem settle (id : CallId) (error : Option ErrorId) : Grows s (s.settle cfg id error) := by
  have hrelease : Grows s { s with holder := none } := frame rfl rfl
  unfold Sink.settle
  dsimp only
  split
  · exact hrelease
  all_goals rename_i hcall
  · cases error
    all_goals exact hrelease.trans (setCall _ fun since st hk => by rw [hcall] at hk; cases hk)
  · refine .trans ?_ (setCall _ fun since st hk => by rw [hcall] at hk; cases hk)
    exact frame rfl rfl
  · exact hrelease.trans (setCall _ fun since st hk => by rw [hcall] at hk; cases hk; rfl)
  · exact hrelease.trans (setCall _ fun since st hk => by rw [hcall] at hk; cases hk)

theorem write [DecidableEq δ] (w : Write δ)
    (hcommit : ∀ since st, s.calls.lookup id ≠ some ⟨.commit since, st⟩) :
    Grows s (s.write cfg id w) := by
  have hother : ∀ since st, s.calls.lookup id = some ⟨.commit since, st⟩ → Caller.write w = .commit since :=
    fun since st hk => absurd hk (hcommit since st)
  unfold Sink.write
  split
  · exact setCall s hother
  · exact setCall s hother
  · split
    · exact setCall s hother
    · refine .trans ?_ (setCall _ hother)
      exact ⟨prefix_append _ _, fun _ _ status h => ⟨status, h⟩⟩

theorem step [DecidableEq δ] (e : Event δ) : Grows s (s.step cfg e) := by
  cases e with
  | write id data =>
    rw [Sink.step]
    split_ifs with hnew
    · exact refl s
    · exact write s _ (by rw [AList.lookup_eq_none.mpr hnew]; exact nofun)
  | retry id =>
    rw [Sink.step]
    split
    · rename_i w hcall
      split_ifs
      · exact write s _ (by rw [hcall]; exact nofun)
      · exact refl s
    · exact refl s
  | timer id =>
    rw [Sink.step]
    split_ifs with hnew
    · exact refl s
    · refine .trans ?_ (setCall_new _ ?_ _ _)
      · exact frame rfl rfl
      · exact fun hmem => hnew (.inl hmem)
  | commit id late =>
    rw [Sink.step]
    split_ifs with hnew
    · exact refl s
    · unfold Sink.commit
      split
      · refine .trans ?_ (setCall_new _ ?_ _ _)
        · exact frame rfl rfl
        · exact hnew
      · exact setCall_new s hnew _ _
  | close id =>
    rw [Sink.step]
    split_ifs with hnew
    · exact refl s
    · unfold close
      split
      · exact setCall_new s hnew _ _
      · refine .trans ?_ (setCall_new _ ?_ _ _)
        · exact frame rfl rfl
        · exact hnew
  | latchedError => exact frame rfl rfl
  | acquire id =>
    rw [Sink.step, Sink.acquire]
    split
    · exact frame rfl rfl
    · exact refl s
  | snapshot =>
    rw [Sink.step, Sink.snapshot]
    split
    · split
      · exact settle s _ _
      · exact frame rfl rfl
    · exact refl s
  | insert succeeds =>
    rw [Sink.step, Sink.insert]
    split
    · split_ifs
      · exact frame rfl rfl
      · refine .trans ?_ (settle _ _ _)
        exact frame rfl rfl
    · exact refl s
  | drop =>
    rw [Sink.step, Sink.drop]
    split
    · refine .trans ?_ (settle _ _ _)
      exact frame rfl rfl
    · exact refl s

end

theorem admitted (h : Grows s t) : s.admitted <+: t.admitted := by
  obtain ⟨later, hlater⟩ := h.admissions
  exact ⟨later.flatMap Prod.snd, by rw [Sink.admitted, Sink.admitted, ← hlater, flatMap_append]⟩

end Grows

end Sink

/-- In every interleaving of writes, retries, timer flushes, commits and closes, whichever inserts
fail: the rows that have left the buffer were inserted before, and what was inserted is the first of
the rows that were admitted, in their order and each once, since a payload is admitted at most once.
A commit that returns its receipt has delivered the rows of every write that had returned before it
began. -/
theorem buffered_rows_delivered {δ ρ : Type} [DecidableEq δ] (cfg : Config δ ρ) (events : List (Event δ))
    (s : Sink δ ρ) (hs : s = Run.exec (step cfg) (.new cfg) events) :
    (∃ dropped, s.admitted = dropped ++ s.buffer ∧ dropped <+: s.inserted) ∧
    s.inserted <+: s.admitted ∧
    (s.admissions.map Prod.fst).Nodup ∧
    (∀ a ∈ s.admissions, ∃ w status, s.calls.lookup a.1 = some ⟨.write w, status⟩ ∧
      cfg.parse w.data = some a.2) ∧
    ∀ before id late after t, events = before ++ .commit id late :: after →
      t = Run.exec (step cfg) (.new cfg) before → id ∉ t.calls →
      ∀ since, s.calls.lookup id = some ⟨.commit since, .returned⟩ →
      ∀ k w rows, t.calls.lookup k = some ⟨.write w, .returned⟩ → cfg.parse w.data = some rows →
        rows ≠ [] → ∃ earlier later, t.admissions = earlier ++ (k, rows) :: later ∧
          earlier.flatMap Prod.snd ++ rows <+: s.inserted := by
  have hrun : ∀ events, Consistent cfg (Run.exec (step cfg) (.new cfg) events) :=
    Run.exec_invariant (fun s e h => h.step e) (.new cfg)
  have h := hrun events
  rw [← hs] at h
  refine ⟨h.dropped, h.inserted_prefix, h.distinct, fun a ha => ?_, ?_⟩
  · obtain ⟨w, status, hcall, hparse, -⟩ := h.admission a ha
    exact ⟨w, status, hcall, hparse⟩
  · intro before id late after t hevents ht hnew since hreceipt k w rows hcall hparse hrows
    have hbefore := hrun before
    rw [← ht] at hbefore
    -- the commit begins with all rows that were admitted by then
    have hbegan : ∃ status, (t.step cfg (.commit id late)).calls.lookup id =
        some ⟨.commit t.admitted.length, status⟩ := by
      rw [step, if_neg hnew, commit]
      split <;> exact ⟨_, by rw [setCall, lookup_insert_ite, if_pos rfl]⟩
    have hgrows : Grows (t.step cfg (.commit id late)) s := by
      rw [hs, hevents, Run.exec_append, Run.exec_cons, ← ht]
      exact Run.exec_rel Grows.refl (fun _ _ _ => .trans) (fun s e => .step s e) _ after
    obtain ⟨status, hbegan⟩ := hbegan
    obtain ⟨status', hsame⟩ := hgrows.commit id _ _ hbegan
    rw [hreceipt] at hsame
    cases hsame
    have hle := h.receipt id _ hreceipt
    have hadmitted : t.admitted <+: s.inserted :=
      prefix_of_prefix_length_le ((Grows.step t _).trans hgrows).admitted h.inserted_prefix hle
    obtain ⟨earlier, later, hsplit⟩ := append_of_mem
      (hbefore.written k w _ rows hcall (.inl nofun) hparse hrows)
    refine ⟨earlier, later, hsplit, IsPrefix.trans ⟨later.flatMap Prod.snd, ?_⟩ hadmitted⟩
    rw [admitted, hsplit, flatMap_append, flatMap_cons, append_assoc]

def pairConfig : Config (List Nat) Nat := ⟨2, true, true, 1, some⟩

/-- The insert of a full batch fails while another payload is admitted; the retry inserts both, so
that the other write has nothing left to flush. -/
def failedBatch : List (Event (List Nat)) :=
  [.write 0 [1, 2], .acquire 0, .snapshot, .write 1 [3], .insert false, .retry 0, .acquire 0, .snapshot,
    .insert true, .drop, .acquire 1, .snapshot]

theorem buffered_rows_delivered_failed_batch :
    (Run.exec (step pairConfig) (.new pairConfig)
      (failedBatch ++ [.commit 2 false, .acquire 2, .snapshot])).inserted = [1, 2, 3] ∧
    ∃ earlier later, (Run.exec (step pairConfig) (.new pairConfig) failedBatch).admissions =
        earlier ++ (1, [3]) :: later ∧
      earlier.flatMap Prod.snd ++ [3] <+: (Run.exec (step pairConfig) (.new pairConfig)
        (failedBatch ++ [.commit 2 false, .acquire 2, .snapshot])).inserted := by
  refine ⟨by decide +kernel, ?_⟩
  obtain ⟨-, -, -, -, hcommit⟩ := buffered_rows_delivered pairConfig
    (failedBatch ++ [.commit 2 false, .acquire 2, .snapshot]) _ rfl
  exact hcommit failedBatch 2 false [.acquire 2, .snapshot] _ rfl rfl (by decide +kernel) 3
    (by decide +kernel) 1 ⟨[3], 0, none⟩ [3] (by decide +kernel) rfl nofun

end Tram.ClickHouse
