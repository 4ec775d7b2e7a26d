import Tram.Executor.Growth
import Tram.Executor.Moves

/-! # Units are finished whole -/

namespace Tram.Executor

open List State
open Procedure (Meets bind_ok)

variable {ρ : Type} {run : State ρ} {whole : Bool}

/-- The chunks of a unit come one after the other, and no chunk of its unit comes after a broker
record. -/
structure SourceOrder (plan : List Meta) : Prop where
  contiguous : ∀ {pre info post key}, plan = pre ++ info :: post → (∃ x ∈ pre, x.unit = some key) →
    info.unit ≠ some key → ∀ y ∈ post, y.unit ≠ some key
  broker : ∀ {pre info post key}, plan = pre ++ info :: post → info.broker = true →
    info.unit = some key → ∀ y ∈ post, y.unit ≠ some key

/-- A stop between these two chunks is not inside a unit. -/
def Between (before next : Option Meta) : Prop :=
  ∀ x y key, before = some x → next = some y → x.unit = some key → y.unit ≠ some key

/-- As many chunks of the unit are processed as the source would yield. -/
def WhollyProcessed (plan : List Meta) (processed : List (Option UnitKey)) (info : Meta) : Prop :=
  ∀ key, info.unit = some key → (plan.map (·.unit)).count (some key) = processed.count (some key)

theorem SourceOrder.none_left {plan read rest : List Meta} (h : SourceOrder plan)
    (hsplit : plan = read ++ rest) {key : UnitKey} (hread : ∃ x ∈ read, x.unit = some key)
    (hnext : ∀ y, rest.head? = some y → y.unit ≠ some key) : ∀ y ∈ rest, y.unit ≠ some key := by
  cases rest with
  | nil => exact nofun
  | cons next rest =>
    exact forall_mem_cons.mpr ⟨hnext next rfl, h.contiguous hsplit hread (hnext next rfl)⟩

/-! ## Barriers -/

section Barriers

variable {p : Pipeline ρ}

/-- The metas the source was told of: finalized with success, or acknowledged. -/
def State.mentioned (s : State ρ) : List Meta :=
  (s.finalized.filter (·.2)).map Prod.fst ++ s.acks.map Prod.fst

/-- If all that the source was told of has `N`, it still has. -/
def Telling (N : Meta → Prop) (s : State ρ) (_ : Option Failure) (t : State ρ) : Prop :=
  (∀ info ∈ s.mentioned, N info) → ∀ info ∈ t.mentioned, N info

instance (N : Meta → Prop) : AtBarriers (Telling (ρ := ρ) N) where
  refl _ := id
  trans h h' := h' ∘ h
  raise _ _ := id
  register _ _ _ := id
  drop _ _ := id
  pend _ := id

variable {s t : State ρ} {b : Barrier} {info : Meta} {current : Option Meta}

theorem Telling.tells {N : Meta → Prop} (h : N info) : Tells (Telling (ρ := ρ) N) info where
  ack s d hs a ha := by
    simp only [mentioned, map_append, mem_append, map_cons, map_nil, mem_singleton] at ha hs
    rcases ha with ha | ha | rfl
    · exact hs a (.inl ha)
    · exact hs a (.inr ha)
    · exact h
  finalize s success hs a ha := by
    simp only [mentioned, finalize, filter_append, map_append, mem_append] at ha hs
    rcases ha with (ha | ha) | ha
    · exact hs a (.inl ha)
    · obtain rfl : a = info := by cases success <;> simp_all
      exact h
    · exact hs a (.inr ha)

theorem State.mentioned_of_eq (hacks : t.acks = s.acks) (hfinalized : t.finalized = s.finalized) :
    t.mentioned = s.mentioned := by rw [mentioned, mentioned, hacks, hfinalized]

theorem State.mentioned_abandon (s : State ρ) (current : Option Meta) :
    (s.abandon current).mentioned = s.mentioned := by
  cases current <;> simp [mentioned, abandon, finalize]

theorem enterUnit_ok {entered : Option Meta} (h : enterUnit p current info b s = (.ok entered, t)) :
    entered = if info.unit = none then current else some info := by
  unfold enterUnit at h
  cases hunit : info.unit with
  | none =>
    simp only [hunit] at h
    exact (Except.ok.inj (Prod.mk.inj h).1).symm
  | some key =>
    simp only [hunit] at h
    split_ifs at h
    · exact (Except.ok.inj (Prod.mk.inj h).1).symm
    · obtain ⟨_, s₁, -, h⟩ := bind_ok h
      obtain ⟨_, s₂, -, h⟩ := bind_ok h
      exact (Except.ok.inj (Prod.mk.inj h).1).symm

theorem leaveUnit_ok {left : Option Meta} (h : leaveUnit p current info b s = (.ok left, t)) :
    left = none ∨ left = current := by
  unfold leaveUnit at h
  split_ifs at h
  · obtain ⟨_, s₁, -, h⟩ := bind_ok h
    exact .inl (Except.ok.inj (Prod.mk.inj h).1).symm
  · exact .inr (Except.ok.inj (Prod.mk.inj h).1).symm

end Barriers

theorem Keeps.mentioned {s t : State ρ} (h : Keeps s t) : t.mentioned = s.mentioned :=
  mentioned_of_eq h.acks h.finalized

/-! ## One chunk after the other -/

def StopsBetween (items : List (Item ρ)) : Prop :=
  ∀ pre item post, items = pre ++ item :: post → item.stop = true →
    Between (pre.getLast?.map (·.info)) (some item.info)

namespace Loop

variable {job : BatchJob ρ} {items : List (Item ρ)} {l : Loop ρ} {s : State ρ}

def NoneLeft (l : Loop ρ) (key : UnitKey) : Prop := ∀ y ∈ l.rest, y.info.unit ≠ some key

/-- What holds between two chunks. `read` are the chunks processed. -/
structure Sound (items : List (Item ρ)) (l : Loop ρ) : Prop where
  split : ∃ read, items = read ++ l.rest ∧ l.processed = read.map (·.info.unit)
  current : l.phase = .reading → ∀ info, l.current = some info → ∃ key, info.unit = some key ∧
    some key ∈ l.processed ∧ (l.processed.getLast? = some (some key) ∨ l.NoneLeft key)
  mentioned : ∀ info ∈ l.run.mentioned, ∀ key, info.unit = some key → l.NoneLeft key

theorem Sound.start (items : List (Item ρ)) (hnew : s.mentioned = []) :
    Sound items (Loop.start items s) where
  split := ⟨[], rfl, rfl⟩
  current := nofun
  mentioned info hinfo := by
    rw [Loop.start, hnew] at hinfo
    cases hinfo

section Chunk

variable (h : Sound items l)
include h

theorem Sound.whollyProcessed : ∀ info ∈ l.run.mentioned,
    WhollyProcessed (items.map (·.info)) l.processed info := by
  intro info hinfo key hkey
  obtain ⟨read, hitems, hprocessed⟩ := h.split
  have hrest := h.mentioned info hinfo key hkey
  have hzero : (l.rest.map (·.info.unit)).count (some key) = 0 := by
    rw [count_eq_zero, mem_map]
    rintro ⟨y, hy, hunit⟩
    exact hrest y hy hunit
  rw [hitems, hprocessed, map_map, map_append, count_append]
  exact Nat.add_eq_left.mpr hzero

theorem Sound.close (p : Pipeline ρ) (whole : Bool) (b : Barrier)
    (hwhole : whole = true → ∀ info key, l.current = some info → info.unit = some key →
      l.NoneLeft key) : Sound items (l.close p whole b) := by
  have hmentioned := finishUnit_meets (p := p)
    (fun hw info hinfo => Telling.tells fun key => hwhole hw info key hinfo) b l.run h.mentioned
  unfold Loop.close
  rcases hrun : finishUnit p l.current whole b l.run with ⟨f | _, s⟩
  all_goals
    rw [hrun] at hmentioned
    exact ⟨h.split, nofun, hmentioned⟩

variable {item : Item ρ} {rest : List (Item ρ)} {key : UnitKey}

theorem Sound.split_cons (hrest : l.rest = item :: rest) :
    ∃ read, items = read ++ rest ∧ l.processed ++ [item.info.unit] = read.map (·.info.unit) := by
  obtain ⟨read, hitems, hprocessed⟩ := h.split
  refine ⟨read ++ [item], ?_, ?_⟩
  · rw [hitems, hrest, append_assoc]; rfl
  · rw [hprocessed, map_append]; rfl

variable (horder : SourceOrder (items.map (·.info)))
include horder

theorem Sound.noneLeft (hread : some key ∈ l.processed)
    (hnext : ∀ y, l.rest.head? = some y → y.info.unit ≠ some key) : l.NoneLeft key := by
  obtain ⟨read, hitems, hprocessed⟩ := h.split
  rw [hprocessed] at hread
  obtain ⟨x, hx, hunit⟩ := mem_map.mp hread
  intro y hy
  have hmetas : items.map (·.info) = read.map (·.info) ++ l.rest.map (·.info) := by
    rw [hitems, map_append]
  refine horder.none_left hmetas ⟨x.info, mem_map_of_mem hx, hunit⟩ ?_ y.info
    (mem_map_of_mem hy)
  intro m hm
  rw [head?_map] at hm
  obtain ⟨y', hy', rfl⟩ := Option.map_eq_some_iff.mp hm
  exact hnext y' hy'

variable (hrest : l.rest = item :: rest)
include hrest

theorem Sound.left (hentered : ∀ info ∈ s.mentioned, ∀ key, info.unit = some key → l.NoneLeft key)
    (p : Pipeline ρ) (entered : Option Meta) (b : Barrier) :
    ∀ info ∈ (leaveUnit p entered item.info b s).2.mentioned,
      ∀ key, info.unit = some key → ∀ y ∈ rest, y.info.unit ≠ some key := by
  refine leaveUnit_meets (fun hbroker => Telling.tells fun key hkey y hy => ?_) entered b s
    fun info hinfo key hkey y hy => hentered info hinfo key hkey y (hrest ▸ mem_cons_of_mem _ hy)
  obtain ⟨read, hitems, -⟩ := h.split
  have hplan : items.map (·.info) = read.map (·.info) ++ item.info :: rest.map (·.info) := by
    rw [hitems, hrest, map_append, map_cons]
  exact horder.broker hplan hbroker hkey y.info (mem_map_of_mem hy)

variable (hphase : l.phase = .reading)
include hphase

theorem Sound.ended {info : Meta} (hcurrent : l.current = some info)
    (hne : item.info.unit ≠ info.unit) (hkey : info.unit = some key) : l.NoneLeft key := by
  obtain ⟨key', hkey', hread, -⟩ := h.current hphase info hcurrent
  obtain rfl := Option.mem_unique hkey hkey'
  refine h.noneLeft horder hread fun y hy => ?_
  rw [hrest] at hy
  cases hy
  rwa [hkey] at hne

theorem Sound.entered (p : Pipeline ρ) (b : Barrier) :
    ∀ info ∈ (enterUnit p l.current item.info b l.run).2.mentioned,
      ∀ key, info.unit = some key → l.NoneLeft key :=
  enterUnit_meets (fun _ hcurrent _ hne => Telling.tells fun _ hkey =>
    h.ended horder hrest hphase hcurrent hne hkey) b l.run h.mentioned

theorem Sound.advance (left : Option Meta)
    (hmentioned : ∀ info ∈ run.mentioned, ∀ key, info.unit = some key →
      ∀ y ∈ rest, y.info.unit ≠ some key) (hleft : ∀ info, left = some info →
      (if item.info.unit = none then l.current else some item.info) = some info) :
    Sound items { l with
      run := run
      current := left
      rest := rest
      processed := l.processed ++ [item.info.unit] } := by
  refine ⟨h.split_cons hrest, fun _ info hinfo => ?_, hmentioned⟩
  have hcurrent := hleft info hinfo
  split_ifs at hcurrent with hunit
  · obtain ⟨key, hkey, hread, -⟩ := h.current hphase info hcurrent
    have hnone := h.ended horder hrest hphase hcurrent (by rw [hunit, hkey]; nofun) hkey
    exact ⟨key, hkey, mem_append_left _ hread,
      .inr fun y hy => hnone y (hrest ▸ mem_cons_of_mem _ hy)⟩
  · cases hcurrent
    obtain ⟨key, hkey⟩ := Option.ne_none_iff_exists'.mp hunit
    rw [hkey]
    exact ⟨key, rfl, mem_concat_self, .inl getLast?_concat⟩

theorem Sound.chunk (last : Barrier) : Sound items (l.chunk job last item rest) := by
  have hentered := h.entered horder hrest hphase job.toPipeline item.before
  unfold Loop.chunk
  rcases henter : enterUnit job.toPipeline l.current item.info item.before l.run with ⟨f | entered, s⟩
  · rw [henter, ← s.mentioned_abandon l.current] at hentered
    exact ⟨h.split, nofun, hentered⟩
  · rw [henter] at hentered
    simp only []
    have hprocess : (processChunk job item.info.unit item.work s).2.mentioned = s.mentioned :=
      (processChunk_keeps item.info.unit item.work s).mentioned
    rcases hrun : processChunk job item.info.unit item.work s with ⟨f | b, t⟩ <;>
      rw [hrun] at hprocess <;> rw [← hprocess] at hentered
    · rw [← t.mentioned_abandon entered] at hentered
      exact ⟨h.split, nofun, hentered⟩
    · simp only []
      have hleft := h.left horder hrest hentered job.toPipeline entered item.after
      rcases hleave : leaveUnit job.toPipeline entered item.info item.after t with ⟨f | left, u⟩ <;>
        rw [hleave] at hleft
      · rw [← u.mentioned_abandon entered] at hleft
        exact ⟨h.split_cons hrest, nofun, hleft⟩
      · simp only []
        have hsound := h.advance horder hrest hphase left hleft fun info hinfo => by
          rw [← enterUnit_ok henter]
          rcases leaveUnit_ok hleave with rfl | rfl
          · cases hinfo
          · exact hinfo
        split_ifs
        · exact hsound.close _ false last nofun
        · exact hsound

end Chunk

theorem Sound.step (horder : SourceOrder (items.map (·.info))) (hstops : StopsBetween items)
    (fault : Option Fault) (last : Barrier) (l : Loop ρ) (h : Sound items l) :
    Sound items (l.step job fault last) := by
  cases hphase : l.phase with
  | reading =>
    cases hrest : l.rest with
    | nil =>
      rw [Loop.step_nil hphase hrest]
      cases fault with
      | none =>
        refine h.close _ true last fun _ info key _ _ y hy => ?_
        rw [hrest] at hy
        cases hy
      | some fault =>
        refine ⟨h.split, nofun, fun info hinfo => h.mentioned info ?_⟩
        rwa [← l.run.mentioned_abandon l.current]
    | cons item rest =>
      rw [Loop.step_cons hphase hrest]
      split_ifs with hstop
      · refine h.close _ true last fun _ info key hcurrent hkey => ?_
        obtain ⟨key', hkey', hread, hlast⟩ := h.current hphase info hcurrent
        obtain rfl := Option.mem_unique hkey hkey'
        rcases hlast with hlast | hnone
        · refine h.noneLeft horder hread fun y hy => ?_
          rw [hrest] at hy
          cases hy
          obtain ⟨read, hitems, hprocessed⟩ := h.split
          rw [hprocessed, getLast?_map] at hlast
          obtain ⟨x, hx, hunit⟩ := Option.map_eq_some_iff.mp hlast
          exact hstops read item rest (by rw [hitems, hrest]) hstop x.info item.info key
            (by rw [hx]; rfl) rfl hunit
        · exact hnone
      · exact h.chunk horder hrest hphase last
  | draining | ended | raised => simpa [Loop.step, hphase] using h

end Loop

/-! ## Threads -/

namespace Watched

variable {job : BatchJob ρ} {plan : List Meta} {w : Watched ρ} {info : Meta}

def NoneLeft (w : Watched ρ) (key : UnitKey) : Prop := ∀ y ∈ w.rest, y.unit ≠ some key

theorem NoneLeft.tail {key : UnitKey} {rest : List Meta} (hrest : w.rest = info :: rest)
    (h : w.NoneLeft key) : ∀ y ∈ rest, y.unit ≠ some key :=
  fun y hy => h y (hrest ▸ mem_cons_of_mem _ hy)

/-- A chunk in flight that no thread has processed. -/
def waits (key : UnitKey) (f : Future ρ) : Bool := f.key = some key && f.result.isNone

structure Sound (plan : List Meta) (w : Watched ρ) : Prop where
  split : plan = w.yielded ++ w.rest
  account : ∀ key, (w.yielded.map (·.unit)).count (some key) =
    w.processed.count (some key) + w.threads.inFlight.countP (waits key)
  distinct : (w.threads.units.map (·.key)).Nodup
  entry : ∀ u ∈ w.threads.units, u.info.unit = some u.key ∧
    (∃ x ∈ w.yielded, x.unit = some u.key) ∧ (u.submitted = true → w.NoneLeft u.key)
  bound : ∀ u ∈ w.threads.units,
    w.threads.inFlight.countP (fun f => f.key = some u.key) ≤ u.remaining
  unsubmitted : ∀ u ∈ w.threads.units, u.submitted = false → w.threads.units.getLast? = some u ∧
    ((∃ x, w.yielded.getLast? = some x ∧ x.unit = some u.key) ∨ w.NoneLeft u.key)
  tracked : ∀ f ∈ w.threads.inFlight, ∀ key, f.key = some key → ∃ u ∈ w.threads.units, u.key = key
  finished : ∀ info ∈ w.threads.run.mentioned, ∀ key, info.unit = some key →
    w.NoneLeft key ∧ ∀ f ∈ w.threads.inFlight, f.key ≠ some key

theorem Sound.start (plan : List Meta) {s : State ρ} (hnew : s.mentioned = []) :
    Sound plan (Watched.start plan s) where
  split := rfl
  account _ := rfl
  distinct := .nil
  entry := nofun
  bound := nofun
  unsubmitted := nofun
  tracked := nofun
  finished info hinfo := by
    rw [Watched.start, Threads.start, hnew] at hinfo
    cases hinfo

section Moves

variable (h : Sound plan w)
include h

theorem Sound.whollyProcessed :
    ∀ info ∈ w.threads.run.mentioned, WhollyProcessed plan w.processed info := by
  intro info hinfo key hkey
  obtain ⟨hrest, hflight⟩ := h.finished info hinfo key hkey
  have hzero : (w.rest.map (·.unit)).count (some key) = 0 := by
    rw [count_eq_zero, mem_map]
    rintro ⟨y, hy, hunit⟩
    exact hrest y hy hunit
  have hnone : w.threads.inFlight.countP (waits key) = 0 := by
    rw [countP_eq_zero]
    intro f hf
    simp [waits, hflight f hf]
  have haccount := h.account key
  rw [h.split, map_append, count_append]
  omega

section Drain

variable {fut : Future ρ} {futs : List (Future ρ)} {u : UnitEntry} {us : List UnitEntry}

section

variable (hunits : w.threads.units = u :: us)
include hunits

theorem Sound.others : u ∈ w.threads.units ∧ ∀ v ∈ us, v ∈ w.threads.units ∧ v.key ≠ u.key := by
  have hdistinct := h.distinct
  rw [hunits, map_cons] at hdistinct
  refine ⟨hunits ▸ mem_cons_self, fun v hv => ⟨hunits ▸ mem_cons_of_mem _ hv, fun heq => ?_⟩⟩
  exact (nodup_cons.mp hdistinct).1 (heq ▸ mem_map_of_mem hv)

/-- An open unit behind the oldest one is the last, also when the oldest has left. -/
theorem Sound.unsubmitted_tail {v : UnitEntry} (hv : v ∈ us) (hopen : v.submitted = false) :
    us.getLast? = some v ∧
      ((∃ x, w.yielded.getLast? = some x ∧ x.unit = some v.key) ∨ w.NoneLeft v.key) := by
  obtain ⟨hlast, hwhere⟩ := h.unsubmitted v ((h.others hunits).2 v hv).1 hopen
  rw [hunits] at hlast
  cases us with
  | nil => cases hv
  | cons v' us => exact ⟨by rwa [getLast?_cons_cons] at hlast, hwhere⟩

theorem Sound.alone (hopen : u.submitted = false) : us = [] := by
  obtain ⟨hu, hus⟩ := h.others hunits
  have hlast := (h.unsubmitted u hu hopen).1
  rw [hunits] at hlast
  cases us with
  | nil => rfl
  | cons v us =>
    rw [getLast?_cons_cons] at hlast
    exact absurd rfl (hus u (mem_of_getLast? hlast)).2

end

variable (hdone : w.Done job fut futs)
include hdone

theorem Sound.account_tail (key : UnitKey) : (w.yielded.map (·.unit)).count (some key) =
    w.processed.count (some key) + futs.countP (waits key) := by
  have hfut : waits key fut = false := by
    simp [waits, Option.isSome_iff_ne_none, hdone.result]
  have haccount := h.account key
  rwa [hdone.flight, countP_cons_of_neg (by simp [hfut])] at haccount

theorem Sound.bound_tail (hu : u ∈ w.threads.units) :
    futs.countP (fun f => f.key = some u.key) ≤ u.remaining := by
  have hbound := h.bound u hu
  rw [hdone.flight, countP_cons] at hbound
  omega

theorem Sound.tracked_tail : ∀ f ∈ futs, ∀ key, f.key = some key → ∃ u ∈ w.threads.units, u.key = key :=
  fun f hf => h.tracked f (hdone.flight ▸ mem_cons_of_mem _ hf)

theorem Sound.finished_tail (hinfo : info ∈ w.threads.run.mentioned) {key : UnitKey}
    (hkey : info.unit = some key) :
    w.NoneLeft key ∧ ∀ f ∈ futs, f.key ≠ some key := by
  obtain ⟨hnone, hfree⟩ := h.finished info hinfo key hkey
  exact ⟨hnone, fun f hf => hfree f (hdone.flight ▸ mem_cons_of_mem _ hf)⟩

theorem Sound.passed (phase : Phase) :
    Sound plan { w with threads := { w.threads with inFlight := futs, phase := phase } } :=
  ⟨h.split, h.account_tail hdone, h.distinct, h.entry, fun _ hu => h.bound_tail hdone hu, h.unsubmitted,
    h.tracked_tail hdone, fun _ hinfo _ hkey => h.finished_tail hdone hinfo hkey⟩

variable (hunits : w.threads.units = u :: us) (hkey : fut.key = some u.key)
include hunits hkey

theorem Sound.bound_own : futs.countP (fun f => f.key = some u.key) ≤ u.remaining - 1 := by
  have hbound := h.bound u (h.others hunits).1
  rw [hdone.flight, countP_cons, if_pos (by simp [hkey])] at hbound
  omega

theorem Sound.gone (hzero : u.remaining - 1 = 0) : ∀ f ∈ futs, f.key ≠ some u.key := by
  intro f hf hfkey
  have hle := h.bound_own hdone hunits hkey
  have hpos : 0 < futs.countP (fun f => f.key = some u.key) :=
    countP_pos_iff.mpr ⟨f, hf, by simp [hfkey]⟩
  omega

theorem Sound.counted : Sound plan (w.afterCount futs u us) := by
  obtain ⟨hu, hus⟩ := h.others hunits
  refine ⟨h.split, h.account_tail hdone, ?_,
    forall_mem_cons.mpr ⟨h.entry u hu, fun v hv => h.entry v (hus v hv).1⟩,
    forall_mem_cons.mpr ⟨h.bound_own hdone hunits hkey, fun v hv => h.bound_tail hdone (hus v hv).1⟩,
    ?_, ?_, fun _ hinfo _ hkey => h.finished_tail hdone hinfo hkey⟩
  · have hdistinct := h.distinct
    rwa [hunits] at hdistinct
  · intro v hv hopen
    rcases mem_cons.mp hv with rfl | hv
    · exact ⟨by rw [h.alone hunits hopen]; rfl, (h.unsubmitted u hu hopen).2⟩
    · obtain ⟨hlast, hwhere⟩ := h.unsubmitted_tail hunits hv hopen
      cases us with
      | nil => cases hv
      | cons v' us => exact ⟨by rwa [getLast?_cons_cons], hwhere⟩
  · intro f hf key hfkey
    obtain ⟨v, hv, hvkey⟩ := h.tracked_tail hdone f hf key hfkey
    rw [hunits] at hv
    rcases mem_cons.mp hv with rfl | hv
    · exact ⟨_, mem_cons_self, hvkey⟩
    · exact ⟨v, mem_cons_of_mem _ hv, hvkey⟩

theorem Sound.retired (hlast : u.remaining - 1 = 0 ∧ u.submitted = true) (b : Barrier) :
    Sound plan (w.afterRetire job futs u us b) := by
  obtain ⟨hu, hus⟩ := h.others hunits
  obtain ⟨hunit, -, hnone⟩ := h.entry u hu
  have hgone := h.gone hdone hunits hkey hlast.1
  obtain ⟨run, taken, phase, o, hretire, htold, -⟩ := retireUnit_cases job
    { w.threads with inFlight := futs } { u with remaining := u.remaining - 1 } us b
    (Telling.tells (N := fun info => ∀ key, info.unit = some key →
      w.NoneLeft key ∧ ∀ f ∈ futs, f.key ≠ some key) fun key hkey => by
        obtain rfl := Option.mem_unique hkey hunit
        exact ⟨hnone hlast.2, hgone⟩)
  rw [afterRetire, hretire]
  refine ⟨h.split, h.account_tail hdone, ?_, fun v hv => h.entry v (hus v hv).1,
    fun v hv => h.bound_tail hdone (hus v hv).1, fun v => h.unsubmitted_tail hunits, ?_,
    htold fun info hinfo key hkey => h.finished_tail hdone hinfo hkey⟩
  · have hdistinct := h.distinct
    rw [hunits, map_cons] at hdistinct
    exact (nodup_cons.mp hdistinct).2
  · intro f hf key hfkey
    obtain ⟨v, hv, hvkey⟩ := h.tracked_tail hdone f hf key hfkey
    rw [hunits] at hv
    rcases mem_cons.mp hv with rfl | hv
    · exact absurd (hvkey ▸ hfkey) (hgone f hf)
    · exact ⟨v, hv, hvkey⟩

end Drain

theorem Sound.processed {n : Nat} {key : Option UnitKey} {work : Work ρ}
    (hn : w.threads.inFlight[n]? = some ⟨key, work, none⟩) : Sound plan (w.afterExecute job n key work) := by
  obtain ⟨hlt, hget⟩ := List.getElem?_eq_some_iff.mp hn
  have hmentioned : (processChunk job key work w.threads.run).2.mentioned = w.threads.run.mentioned :=
    (processChunk_keeps key work w.threads.run).mentioned
  have hkeys : ∀ f ∈ (w.afterExecute job n key work).threads.inFlight,
      ∃ g ∈ w.threads.inFlight, g.key = f.key := by
    intro f hf
    rcases mem_or_eq_of_mem_set hf with hf | rfl
    · exact ⟨f, hf, rfl⟩
    · exact ⟨_, mem_of_getElem? hn, rfl⟩
  refine ⟨h.split, fun k => ?_, h.distinct, h.entry, fun u hu => ?_, h.unsubmitted, ?_, ?_⟩
  · -- one waits less, one is processed more
    have haccount := h.account k
    rw [countP_set hlt, hget, count_append]
    by_cases hk : key = some k
    · have hpos : 0 < w.threads.inFlight.countP (waits k) :=
        countP_pos_iff.mpr ⟨_, mem_of_getElem? hn, by simp [waits, hk]⟩
      simp only [waits, hk, decide_true, Option.isNone_none, Option.isNone_some, Bool.and_true,
        Bool.and_false, if_true, count_singleton_self] at hpos haccount ⊢
      simp only [Bool.false_eq_true, if_false]
      omega
    · rw [count_singleton, if_neg (by simpa using hk)]
      simpa [waits, hk] using haccount
  · have hbound := h.bound u hu
    rw [countP_set hlt, hget]
    by_cases hk : key = some u.key
    · have hpos : 0 < w.threads.inFlight.countP (fun f => f.key = some u.key) :=
        countP_pos_iff.mpr ⟨_, mem_of_getElem? hn, by simp [hk]⟩
      simp only [hk, decide_true, if_true]
      omega
    · simpa [hk] using hbound
  · intro f hf k hk
    obtain ⟨g, hg, hgkey⟩ := hkeys f hf
    exact h.tracked g hg k (hgkey.trans hk)
  · intro info hinfo k hk
    rw [hmentioned] at hinfo
    obtain ⟨hnone, hfree⟩ := h.finished info hinfo k hk
    refine ⟨hnone, fun f hf hfk => ?_⟩
    obtain ⟨g, hg, hgkey⟩ := hkeys f hf
    exact hfree g hg (hgkey.trans hfk)

theorem Sound.marked :
    (markSubmitted w.threads.units).map (·.key) = w.threads.units.map (·.key) ∧
      ∀ u ∈ markSubmitted w.threads.units, ∃ v ∈ w.threads.units, u = { v with submitted := true } := by
  rcases eq_nil_or_concat w.threads.units with hnil | ⟨us, last, hunits⟩
  · rw [hnil]
    exact ⟨rfl, nofun⟩
  · rw [hunits, concat_eq_append, markSubmitted_concat]
    refine ⟨by simp, forall_mem_concat (fun u hu => ⟨u, mem_append_left _ hu, ?_⟩)
      ⟨last, mem_concat_self, rfl⟩⟩
    have hmem : u ∈ w.threads.units := by
      rw [hunits, concat_eq_append]
      exact mem_append_left _ hu
    cases hs : u.submitted with
    | true => rw [← hs]
    | false =>
      -- an open unit is the last one, and no two have the same key
      have hlast := (h.unsubmitted u hmem hs).1
      have hdistinct := h.distinct
      rw [hunits, concat_eq_append, getLast?_concat] at hlast
      rw [hunits, concat_eq_append, map_append, Option.some.inj hlast] at hdistinct
      exact absurd rfl ((nodup_append.mp hdistinct).2.2 _ (mem_map_of_mem hu) _
        mem_cons_self)

theorem Sound.exists_marked {u : UnitEntry} (hu : u ∈ w.threads.units) :
    ∃ v ∈ markSubmitted w.threads.units, v.key = u.key := by
  have hkey : u.key ∈ (markSubmitted w.threads.units).map (·.key) := by
    rw [h.marked.1]
    exact mem_map_of_mem hu
  exact mem_map.mp hkey

section Submit

variable {rest : List Meta} {key : UnitKey} (hrest : w.rest = info :: rest)
include hrest

theorem Sound.submitted (work : Work ρ) (hmentioned : run.mentioned = w.threads.run.mentioned)
    {units : List UnitEntry} (hdistinct : (units.map (·.key)).Nodup)
    (hentry : ∀ u ∈ units, u.info.unit = some u.key ∧ (∃ x ∈ w.yielded ++ [info], x.unit = some
      u.key) ∧ (u.submitted = true → ∀ y ∈ rest, y.unit ≠ some u.key))
    (hbound : ∀ u ∈ units, w.threads.inFlight.countP (fun f => f.key = some u.key) + (if info.unit =
      some u.key then 1 else 0) ≤ u.remaining)
    (hopen : ∀ u ∈ units, u.submitted = false → units.getLast? = some u ∧ (info.unit = some u.key ∨
      ∀ y ∈ rest, y.unit ≠ some u.key)) (hkept : ∀ u ∈ w.threads.units, ∃ v ∈ units, v.key = u.key)
    (hown : ∀ key, info.unit = some key → ∃ v ∈ units, v.key = key) :
    Sound plan (w.submitted info work rest run units) where
  split := by rw [h.split, hrest, append_assoc]; rfl
  account key := by
    have haccount := h.account key
    rw [map_append, count_append, countP_append, haccount, map_singleton,
      count_singleton, countP_singleton]
    by_cases hk : info.unit = some key
    · simp [waits, hk, Nat.add_assoc]
    · simp [waits, hk]
  distinct := hdistinct
  entry := hentry
  bound u hu := by
    rw [countP_append, countP_singleton]
    simpa using hbound u hu
  unsubmitted u hu hsub := by
    obtain ⟨hlast, hwhere⟩ := hopen u hu hsub
    exact ⟨hlast, hwhere.imp (fun hunit => ⟨info, getLast?_concat, hunit⟩) id⟩
  tracked := by
    refine forall_mem_concat (fun f hf key hkey => ?_) hown
    obtain ⟨u, hu, hukey⟩ := h.tracked f hf key hkey
    obtain ⟨v, hv, hvkey⟩ := hkept u hu
    exact ⟨v, hv, hvkey.trans hukey⟩
  finished m hm key hkey := by
    rw [hmentioned] at hm
    obtain ⟨hnone, hfree⟩ := h.finished m hm key hkey
    exact ⟨hnone.tail hrest, forall_mem_concat hfree (hnone info (hrest ▸ mem_cons_self))⟩

theorem Sound.entry_concat {u : UnitEntry} (hu : u ∈ w.threads.units) : u.info.unit = some u.key ∧
    (∃ x ∈ w.yielded ++ [info], x.unit = some u.key) ∧
      (u.submitted = true → ∀ y ∈ rest, y.unit ≠ some u.key) := by
  obtain ⟨hunit, ⟨x, hx, hxu⟩, hnone⟩ := h.entry u hu
  exact ⟨hunit, ⟨x, mem_append_left _ hx, hxu⟩, fun hs => (hnone hs).tail hrest⟩

theorem Sound.again {us : List UnitEntry} {u : UnitEntry} (hunits : w.threads.units = us ++ [u])
    (hunit : info.unit = some u.key) (work : Work ρ) : Sound plan (w.submitted info work rest
      w.threads.run (us ++ [{ u with remaining := u.remaining + 1 }])) := by
  have hdistinct := h.distinct
  rw [hunits, map_append] at hdistinct
  have hmem : u ∈ w.threads.units := hunits ▸ mem_concat_self
  have hus : ∀ v ∈ us, v ∈ w.threads.units ∧ v.key ≠ u.key := fun v hv =>
    ⟨hunits ▸ mem_append_left _ hv, (nodup_append.mp hdistinct).2.2 _
      (mem_map_of_mem hv) _ mem_cons_self⟩
  refine h.submitted hrest work rfl (by rwa [map_append])
    (forall_mem_concat (fun v hv => h.entry_concat hrest (hus v hv).1)
      (h.entry_concat (u := u) hrest hmem))
    (forall_mem_concat (fun v hv => ?_) ?_)
    (forall_mem_concat (fun v hv hs => ?_) fun _ => ⟨getLast?_concat, .inl hunit⟩) ?_ ?_
  · rw [hunit, if_neg fun heq => (hus v hv).2 (Option.some.inj heq).symm]
    exact h.bound v (hus v hv).1
  · rw [hunit, if_pos rfl]
    exact Nat.add_le_add_right (h.bound u hmem) 1
  · have hv' := (h.unsubmitted v (hus v hv).1 hs).1
    rw [hunits, getLast?_concat] at hv'
    exact absurd (congrArg (·.key) (Option.some.inj hv')).symm (hus v hv).2
  · rw [hunits]
    exact forall_mem_concat (fun v hv => ⟨v, mem_append_left _ hv, rfl⟩) ⟨_, mem_concat_self, rfl⟩
  · intro key hkey
    rw [hunit] at hkey
    exact ⟨_, mem_concat_self, Option.some.inj hkey⟩

theorem Sound.fresh (hunit : info.unit = some key)
    (hlast : w.threads.units.getLast?.map (·.key) ≠ some key) :
    ∀ u ∈ w.threads.units, info.unit ≠ some u.key := by
  intro u hu hkey
  cases hs : u.submitted with
  | true => exact (h.entry u hu).2.2 hs info (hrest ▸ mem_cons_self) hkey
  | false => exact hlast (by rw [(h.unsubmitted u hu hs).1, ← hunit, hkey]; rfl)

variable (horder : SourceOrder plan)
include horder

theorem Sound.noneLeft (hseen : ∃ x ∈ w.yielded, x.unit = some key) (hne : info.unit ≠ some key) :
    ∀ y ∈ rest, y.unit ≠ some key := by
  have hnone : w.NoneLeft key := horder.none_left h.split hseen fun y hy => by
    rw [hrest] at hy
    cases hy
    exact hne
  exact hnone.tail hrest

theorem Sound.unitless (hunit : info.unit = none) (work : Work ρ) :
    Sound plan (w.submitted info work rest w.threads.run w.threads.units) := by
  have hne : ∀ key, info.unit ≠ some key := fun key => by rw [hunit]; nofun
  refine h.submitted hrest work rfl h.distinct (fun u => h.entry_concat hrest) (fun u hu => ?_)
    (fun u hu hs => ⟨(h.unsubmitted u hu hs).1, .inr ?_⟩) (fun u hu => ⟨u, hu, rfl⟩)
    fun key hkey => absurd hkey (hne key)
  · rw [if_neg (hne u.key)]
    exact h.bound u hu
  · exact h.noneLeft hrest horder (h.entry u hu).2.1 (hne u.key)

theorem Sound.first (hunit : info.unit = some key)
    (hlast : w.threads.units.getLast?.map (·.key) ≠ some key) (work : Work ρ) :
    Sound plan (w.afterFirst info work rest key) := by
  have hfresh := h.fresh hrest hunit hlast
  obtain ⟨hkeys, hmarked⟩ := h.marked
  have hmentioned : (w.threads.run.onDelivery (·.registerUnit key info)).mentioned =
      w.threads.run.mentioned := rfl
  refine h.submitted hrest work hmentioned ?_ (forall_mem_concat (fun u hu => ?_) ?_)
    (forall_mem_concat (fun u hu => ?_) ?_)
    (forall_mem_concat (fun u hu hs => ?_) fun _ => ⟨getLast?_concat, .inl hunit⟩) ?_ ?_
  · rw [map_append, hkeys]
    refine nodup_append.mpr ⟨h.distinct, nodup_singleton _, ?_⟩
    intro a ha b hb heq
    obtain ⟨u, hu, rfl⟩ := mem_map.mp ha
    exact hfresh u hu (by rw [hunit, heq, mem_singleton.mp hb])
  · obtain ⟨v, hv, rfl⟩ := hmarked u hu
    obtain ⟨hvunit, hseen, -⟩ := h.entry_concat hrest hv
    exact ⟨hvunit, hseen, fun _ => h.noneLeft hrest horder (h.entry v hv).2.1 (hfresh v hv)⟩
  · exact ⟨hunit, ⟨info, mem_concat_self, hunit⟩,
      fun hbroker => horder.broker (hrest ▸ h.split) hbroker hunit⟩
  · obtain ⟨v, hv, rfl⟩ := hmarked u hu
    rw [if_neg (hfresh v hv)]
    exact h.bound v hv
  · rw [hunit, if_pos rfl]
    have hzero : w.threads.inFlight.countP (fun f => f.key = some key) = 0 := by
      refine countP_eq_zero.mpr fun f hf hfkey => ?_
      obtain ⟨v, hv, rfl⟩ := h.tracked f hf key (by simpa using hfkey)
      exact hfresh v hv hunit
    rw [hzero]
  · obtain ⟨v, hv, rfl⟩ := hmarked u hu
    cases hs
  · intro u hu
    obtain ⟨v, hv, hvkey⟩ := h.exists_marked hu
    exact ⟨v, mem_append_left _ hv, hvkey⟩
  · intro k hk
    rw [hunit] at hk
    exact ⟨_, mem_concat_self, Option.some.inj hk⟩

end Submit

theorem Sound.phase (phase : Phase) :
    Sound plan { w with threads := { w.threads with phase := phase } } := { h with }

theorem Sound.closed (horder : SourceOrder plan) (hbetween : Between w.yielded.getLast? w.rest.head?) :
    Sound plan w.afterClose := by
  obtain ⟨hkeys, hmarked⟩ := h.marked
  refine ⟨h.split, h.account, by rw [hkeys]; exact h.distinct, fun u hu => ?_, fun u hu => ?_,
    fun u hu hs => ?_, fun f hf key hkey => ?_, h.finished⟩
  · obtain ⟨v, hv, rfl⟩ := hmarked u hu
    obtain ⟨hunit, hseen, hnone⟩ := h.entry v hv
    refine ⟨hunit, hseen, fun _ => ?_⟩
    cases hs : v.submitted with
    | true => exact hnone hs
    | false =>
      rcases (h.unsubmitted v hv hs).2 with ⟨x, hx, hxunit⟩ | hleft
      · exact horder.none_left h.split hseen fun y hy => hbetween x y v.key hx hy hxunit
      · exact hleft
  · obtain ⟨v, hv, rfl⟩ := hmarked u hu
    exact h.bound v hv
  · obtain ⟨v, hv, rfl⟩ := hmarked u hu
    cases hs
  · obtain ⟨u, hu, hukey⟩ := h.tracked f hf key hkey
    obtain ⟨v, hv, hvkey⟩ := h.exists_marked hu
    exact ⟨v, hv, hvkey.trans hukey⟩

end Moves

/-- The read ends with the source or between two units. -/
def Orderly (w : Watched ρ) : Event ρ → Prop
  | .close none => Between w.yielded.getLast? w.rest.head?
  | _ => True

theorem Move.sound {e : Event ρ} {w' : Watched ρ} (hmove : Move job w e w') (horder : SourceOrder plan)
    (horderly : reads job w.threads = true → w.Orderly e) (h : Sound plan w) : Sound plan w' := by
  cases hmove with
  | idle => exact h
  | unitless _ hrest hunit => exact h.unitless hrest horder hunit _
  | again _ hrest hunits hunit => exact h.again hrest hunits hunit _
  | first _ hrest hunit hlast => exact h.first hrest horder hunit hlast _
  | processed hn => exact h.processed hn
  | raised hdone => exact h.passed hdone _
  | passed hold => exact h.passed hold.toDone _
  | counted hold hunits hkey => exact h.counted hold.toDone hunits hkey
  | retired hold hunits hkey hlast => exact h.retired hold.toDone hunits hkey hlast _
  | closed hreads => exact h.closed horder (horderly hreads)
  | limited | broken | finished => exact h.phase _

end Watched

/-! ## Both loops -/

/-- Whatever the loop, at every point of a run: if the source yields each unit's chunks one after
the other and every stop is observed between two units, then each unit that was acknowledged, or
finalized with success, has all its chunks processed. -/
theorem source_told_of_whole_units (job : BatchJob ρ) (breakers : Dict String (Nat × Nat)) :
    (∀ (items : List (Item ρ)) (fault : Option Fault) (last : Barrier),
      SourceOrder (items.map (·.info)) → StopsBetween items → ∀ n,
        ∀ info ∈ ((Loop.step job fault last)^[n]
            (.start items { new with breakers := breakers })).run.mentioned,
          WhollyProcessed (items.map (·.info)) ((Loop.step job fault last)^[n]
            (.start items { new with breakers := breakers })).processed info) ∧
    ∀ (plan : List Meta) (events : List (Event ρ)), SourceOrder plan →
      Run.AllSteps (Watched.step job) Watched.Orderly
        (.start plan { new with breakers := breakers }) events →
      ∀ info ∈ (Run.exec (Watched.step job)
          (.start plan { new with breakers := breakers }) events).threads.run.mentioned,
        WhollyProcessed plan (Run.exec (Watched.step job)
          (.start plan { new with breakers := breakers }) events).processed info := by
  constructor
  · intro items fault last horder hstops n
    have hstart : Loop.Sound items (.start items { new with breakers := breakers }) :=
      .start items rfl
    exact (Function.Iterate.rec (Loop.Sound items) hstart (Loop.Sound.step horder hstops fault last)
      n).whollyProcessed
  · intro plan events horder horderly
    have hstart : Watched.Sound plan
        (.start plan { new with breakers := breakers } : Watched ρ) := .start plan rfl
    have hstep : ∀ (w : Watched ρ) (e : Event ρ), Watched.Sound plan w → w.Orderly e →
        Watched.Sound plan (w.step job e) :=
      fun w e h hC => (w.step_move job e).sound horder (fun _ => hC) h
    exact (Run.AllSteps.invariant hstep hstart horderly).whollyProcessed

def twoChunks : List Meta := List.replicate 2 ⟨some ("/in/a", "a"), false, none, false⟩

theorem twoChunks_order : SourceOrder twoChunks := by
  have hunit : ∀ y ∈ twoChunks, y.unit = some ("/in/a", "a") ∧ y.broker = false := by decide
  refine ⟨fun {pre info post key} h hx hne y hy => ?_, fun {pre info post key} h hb => ?_⟩
  · obtain ⟨x, hx, hkey⟩ := hx
    have hxu := (hunit x (by rw [h]; exact mem_append_left _ hx)).1
    have hiu := (hunit info (by rw [h]; exact mem_append_right _ mem_cons_self)).1
    rw [hxu] at hkey
    exact absurd (hiu.trans hkey) hne
  · rw [(hunit info (by rw [h]; exact mem_append_right _ mem_cons_self)).2] at hb
    cases hb

theorem OnError.eq_true_of_abort_eq_dlq {b : Bool} (h : OnError.abort = .dlq) : b = true := by cases h

def fileJob (threadWorkers : Nat) : BatchJob Nat where
  name := "p"
  onError := .abort
  dlqSink := false
  parallelSinks := false
  transforms := []
  sinks := [⟨"file", none, [], [], 0, 0, 60⟩]
  lookupField _ _ := ""
  dlqSink_of_dlq := OnError.eq_true_of_abort_eq_dlq
  batchSize := none
  threadWorkers := threadWorkers
  retryCount := 0

/-- The file read to its end, or with a stop before its second chunk. -/
def readFile (stop : Bool) : List (Item Nat) :=
  let info : Meta := ⟨some ("/in/a", "a"), false, none, false⟩
  let work : Work Nat := ⟨[], .parsed [1] .quiet, true, false⟩
  [⟨info, false, work, ⟨none, true, none⟩, ⟨none, true, none⟩⟩,
    ⟨info, stop, work, ⟨none, true, none⟩, ⟨none, true, none⟩⟩]

theorem source_told_of_whole_file :
    (((Loop.step (fileJob 1) none ⟨none, true, none⟩)^[3]
        (.start (readFile false) { new with breakers := ∅ })).run.mentioned).length = 2 ∧
      ∀ info ∈ ((Loop.step (fileJob 1) none ⟨none, true, none⟩)^[3]
          (.start (readFile false) { new with breakers := ∅ })).run.mentioned,
        WhollyProcessed ((readFile false).map (·.info))
          ((Loop.step (fileJob 1) none ⟨none, true, none⟩)^[3]
            (.start (readFile false) { new with breakers := ∅ })).processed info := by
  have hstops : StopsBetween (readFile false) := by
    intro pre item post h hstop
    have hnone : ∀ item ∈ readFile false, item.stop = false := by simp [readFile]
    rw [hnone item (by rw [h]; exact mem_append_right _ mem_cons_self)] at hstop
    cases hstop
  exact ⟨by decide +kernel, (source_told_of_whole_units (fileJob 1) ∅).1 (readFile false) none
    ⟨none, true, none⟩ twoChunks_order hstops 3⟩

/-- A stop inside the file: it is finalized with success after its first chunk, by either loop. -/
theorem source_told_of_half_file :
    (∃ info, (info, true) ∈ ((Loop.step (fileJob 1) none ⟨none, true, none⟩)^[3]
        (.start (readFile true) { new with breakers := ∅ })).run.finalized ∧
      ¬ WhollyProcessed twoChunks ((Loop.step (fileJob 1) none ⟨none, true, none⟩)^[3]
        (.start (readFile true) { new with breakers := ∅ })).processed info) ∧
    ∃ info, (info, true) ∈ (Run.exec (Watched.step (fileJob 2))
        (.start twoChunks { new with breakers := ∅ })
        [.submit ⟨some ("/in/a", "a"), false, none, false⟩ ⟨[], .parsed [1] .quiet, true, false⟩,
          .close none, .execute 0, .drain ⟨none, true, none⟩, .finish]).threads.run.finalized ∧
      ¬ WhollyProcessed twoChunks (Run.exec (Watched.step (fileJob 2))
        (.start twoChunks { new with breakers := ∅ })
        [.submit ⟨some ("/in/a", "a"), false, none, false⟩ ⟨[], .parsed [1] .quiet, true, false⟩,
          .close none, .execute 0, .drain ⟨none, true, none⟩, .finish]).processed info := by
  refine ⟨⟨⟨some ("/in/a", "a"), false, none, false⟩, by decide +kernel, fun h => ?_⟩,
    ⟨⟨some ("/in/a", "a"), false, none, false⟩, by decide +kernel, fun h => ?_⟩⟩
  all_goals exact absurd (h ("/in/a", "a") rfl) (by decide +kernel)

end Tram.Executor
