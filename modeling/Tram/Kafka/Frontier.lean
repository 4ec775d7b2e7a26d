import Tram.Kafka.Partition

/-! # When a partition's frontier may be committed

A `History` is what has happened to one partition under one ownership epoch. `Partition.Inv` ties
the partition's record to its history: the queue holds exactly the observed offsets beyond the
frontier, so the frontier passes an offset only by taking it from the head of the queue, and it
takes only acked payloads and tombstones. -/

namespace Tram.Kafka

open List Option

/-- What happened to one partition in one ownership epoch. -/
structure History where
  observed : Int → Bool → Prop
  acked : Int → Prop
  committed : Int → Prop

def History.Seen (h : History) (o : Int) : Prop := ∃ payload, h.observed o payload

def History.Settled (h : History) (frontier : Int) : Prop :=
  ∀ o ≤ frontier, h.observed o true → h.acked o

/-- What the client library guarantees, and the intake records. -/
structure History.Wf (h : History) : Prop where
  nonneg : ∀ o, h.Seen o → 0 ≤ o
  exclusive : ∀ o, h.observed o true → ¬ h.observed o false

/-- The frontier, the queue beyond it and the two sets of decided offsets fit the history. -/
structure Cover (h : History) (frontier : Int) (queue : List Int) (ooo tombstones : Finset Int) :
    Prop where
  sorted : queue.Pairwise (· < ·)
  ahead : ∀ o ∈ queue, frontier < o ∧ h.Seen o
  barrier : ∀ o, h.Seen o → frontier < o → o ∈ queue
  reached : frontier = -1 ∨ h.Seen frontier
  settled : h.Settled frontier
  acked : ∀ o ∈ ooo, h.acked o
  bridged : ∀ o ∈ tombstones, h.observed o false

namespace Cover

variable {h : History} {frontier next : Int} {queue rest : List Int} {ooo tombstones : Finset Int}
  {w : Source.Sweep}

/-- Taking a decided head keeps the cover: between the old frontier and the head there is nothing
observed, and the head is acked or no payload. -/
theorem take (hw : h.Wf) (hc : Cover h frontier (next :: rest) ooo tombstones)
    (hd : next ∈ ooo ∨ next ∈ tombstones) :
    Cover h next rest (ooo.erase next) (tombstones.erase next) := by
  obtain ⟨hhead, htail⟩ := pairwise_cons.mp hc.sorted
  obtain ⟨hlt, hseen⟩ := hc.ahead next (by simp)
  refine ⟨htail, fun o ho => ⟨hhead o ho, (hc.ahead o (by simp [ho])).2⟩, ?_, .inr hseen, ?_,
    fun o ho => hc.acked o (Finset.mem_of_mem_erase ho),
    fun o ho => hc.bridged o (Finset.mem_of_mem_erase ho)⟩
  · intro o ho hno
    rcases mem_cons.mp (hc.barrier o ho (by omega)) with rfl | hr
    · omega
    · exact hr
  · intro o ho hpay
    by_cases hle : o ≤ frontier
    · exact hc.settled o hle hpay
    rcases mem_cons.mp (hc.barrier o ⟨true, hpay⟩ (by omega)) with rfl | hr
    · rcases hd with hd | hd
      · exact hc.acked o hd
      · exact absurd (hc.bridged o hd) (hw.exclusive o hpay)
    · have := hhead o hr
      omega

theorem overObserved_advanced (q : List Int) (hw : w.advanced = true) :
    (w.overObserved q).1.advanced = true := by
  induction q generalizing w with
  | nil => exact hw
  | cons next rest ih =>
    unfold Source.Sweep.overObserved
    split_ifs
    · exact ih rfl
    · exact hw

theorem overObserved (hw : h.Wf) {q : List Int} (hc : Cover h frontier q w.ooo w.tombstones)
    (hadv : w.advanced = true → w.frontier = frontier) :
    ∃ frontier', frontier ≤ frontier' ∧
      Cover h frontier' (w.overObserved q).2 (w.overObserved q).1.ooo (w.overObserved q).1.tombstones ∧
      ((w.overObserved q).1.advanced = false → frontier' = frontier) ∧
      ((w.overObserved q).1.advanced = true → (w.overObserved q).1.frontier = frontier') := by
  induction q generalizing w frontier with
  | nil => exact ⟨frontier, le_rfl, hc, fun _ => rfl, hadv⟩
  | cons next rest ih =>
    unfold Source.Sweep.overObserved
    split_ifs with hd
    · have hlt := (hc.ahead next (by simp)).1
      obtain ⟨frontier', hle, hcov, hno, hyes⟩ := ih (w := w.take next) (hc.take hw hd) fun _ => rfl
      refine ⟨frontier', by omega, hcov, fun hf => ?_, hyes⟩
      rw [overObserved_advanced rest (w := w.take next) rfl] at hf
      cases hf
    · exact ⟨frontier, le_rfl, hc, fun _ => rfl, hadv⟩

theorem mono {h' : History} (hc : Cover h frontier queue ooo tombstones)
    (hobs : h'.observed = h.observed) (hack : ∀ o, h.acked o → h'.acked o) :
    Cover h' frontier queue ooo tombstones := by
  have hseen : ∀ o, h'.Seen o ↔ h.Seen o := fun o => by simp [History.Seen, hobs]
  exact ⟨hc.sorted, fun o ho => ⟨(hc.ahead o ho).1, (hseen o).mpr (hc.ahead o ho).2⟩,
    fun o ho => hc.barrier o ((hseen o).mp ho), hc.reached.imp_right (hseen _).mpr,
    fun o ho hp => hack o (hc.settled o ho (by rwa [hobs] at hp)),
    fun o ho => hack o (hc.acked o ho), fun o ho => by rw [hobs]; exact hc.bridged o ho⟩

end Cover

structure Partition.Inv (p : Partition) (h : History) : Prop where
  wf : h.Wf
  covered : ∀ o, h.Seen o → p.readMin.isSome ∧ p.observed.isSome
  cover : Cover h p.frontier p.queue p.ooo p.tombstones
  pending_le : ∀ f, p.pending = some f → f ≤ p.frontier
  pending_ge : ∀ f g, p.pending = some f → h.committed g → g ≤ f
  committed_le : ∀ g, h.committed g → g ≤ p.frontier

/-- A partition only moves forward: the epoch stays, the frontier does not fall back, and a new
pending frontier is no older than the one reached before. -/
structure Partition.Progress (p p' : Partition) : Prop where
  epoch : p'.epoch = p.epoch
  frontier : p.frontier ≤ p'.frontier
  pending : ∀ f, p'.pending = some f → p.pending = some f ∨ p.frontier ≤ f

theorem Partition.Progress.refl (p : Partition) : p.Progress p := ⟨rfl, le_rfl, fun _ => .inl⟩

variable {o : Int}

namespace Partition.Inv

variable {p : Partition} {h h' : History}

theorem frontier_ge (hi : p.Inv h) : -1 ≤ p.frontier := by
  rcases hi.cover.reached with hf | hf
  · omega
  · have := hi.wf.nonneg _ hf
    omega

theorem fresh (e : Option Nat) (hobs : ∀ o b, ¬h.observed o b) (hcom : ∀ g, ¬h.committed g) :
    ({ epoch := e } : Partition).Inv h := by
  have hseen : ∀ o, ¬h.Seen o := fun o ⟨b, hb⟩ => hobs o b hb
  refine ⟨⟨fun o ho => (hseen o ho).elim, fun o ho => (hobs o true ho).elim⟩,
    fun o ho => (hseen o ho).elim, ⟨Pairwise.nil, ?_, fun o ho => (hseen o ho).elim, .inl rfl,
    fun o _ ho => (hobs o true ho).elim, ?_, ?_⟩, ?_, ?_, fun g hg => (hcom g hg).elim⟩ <;>
    simp [queue]

section

variable (hi : p.Inv h)
include hi

theorem mono (hobs : h'.observed = h.observed) (hack : ∀ o, h.acked o → h'.acked o)
    (hcom : ∀ g, h'.committed g → h.committed g ∨ (g ≤ p.frontier ∧ ∀ f, p.pending = some f → g ≤ f)) :
    p.Inv h' := by
  have hseen : ∀ o, h'.Seen o ↔ h.Seen o := fun o => by simp [History.Seen, hobs]
  refine ⟨⟨fun o ho => hi.wf.nonneg o ((hseen o).mp ho), fun o => ?_⟩,
    fun o ho => hi.covered o ((hseen o).mp ho), hi.cover.mono hobs hack, hi.pending_le, ?_, ?_⟩
  · rw [hobs]; exact hi.wf.exclusive o
  · intro f g hf hg
    rcases hcom g hg with h1 | ⟨-, h1⟩
    · exact hi.pending_ge f g hf h1
    · exact h1 f hf
  · intro g hg
    rcases hcom g hg with h1 | ⟨h1, -⟩
    · exact hi.committed_le g h1
    · exact h1

theorem note {f : Int} (hf : f ≤ p.frontier) (hg : ∀ g, h.committed g → g ≤ f) : (p.note f).Inv h := by
  have hge := hi.frontier_ge
  refine ⟨hi.wf, hi.covered, hi.cover, ?_, ?_, hi.committed_le⟩
  · intro f' hf'
    have hmax : max (p.pending.getD (-1)) f = f' := some.inj hf'
    show f' ≤ p.frontier
    cases hp : p.pending with
    | none => rw [hp, getD_none] at hmax; omega
    | some f₀ =>
      have := hi.pending_le f₀ hp
      rw [hp, getD_some] at hmax
      omega
  · intro f' g hf' hcom
    have hmax : max (p.pending.getD (-1)) f = f' := some.inj hf'
    have := hg g hcom
    omega

theorem advance (hq : p.observed.isSome) (readMin : Int) :
    (p.advance readMin).Inv h ∧ p.Progress (p.advance readMin) := by
  obtain ⟨q, hq⟩ := isSome_iff_exists.mp hq
  have hc := hi.cover
  rw [show p.queue = q by simp [queue, hq]] at hc
  obtain ⟨f, hle, hcov, hno, hyes⟩ := Cover.overObserved
    (w := ⟨max p.frontier (readMin - 1), p.ooo, p.tombstones, false⟩) hi.wf hc (by simp)
  simp only [Partition.advance, hq, Source.Sweep.run, Partition.storeSweep] at *
  generalize Source.Sweep.overObserved _ q = r at *
  obtain ⟨w, rest⟩ := r
  dsimp only at *
  cases ha : w.advanced with
  | false =>
    obtain rfl := hno ha
    exact ⟨{ hi with covered := fun o ho => ⟨(hi.covered o ho).1, rfl⟩, cover := hcov }, rfl, le_rfl,
      fun _ hf => .inl hf⟩
  | true =>
    obtain rfl := hyes ha
    have hnew : Partition.Inv { p with
        ooo := w.ooo, tombstones := w.tombstones, observed := some rest,
        completed := some w.frontier } h :=
      ⟨hi.wf, fun o ho => ⟨(hi.covered o ho).1, rfl⟩, hcov,
        fun g hg => (hi.pending_le g hg).trans hle, hi.pending_ge,
        fun g hg => (hi.committed_le g hg).trans hle⟩
    refine ⟨hnew.note le_rfl hnew.committed_le, rfl, hle, fun f hf => .inr ?_⟩
    have hmax : max (p.pending.getD (-1)) w.frontier = f := some.inj hf
    omega

theorem observe (payload : Bool) (ho : 0 ≤ o) (hnew : ∀ o', h.Seen o' → o' < o)
    (hobs : ∀ o' b, h'.observed o' b ↔ h.observed o' b ∨ (o' = o ∧ b = payload))
    (hack : h'.acked = h.acked) (hcom : h'.committed = h.committed) : (p.observe o).Inv h' := by
  have hseen : ∀ o', h'.Seen o' ↔ h.Seen o' ∨ o' = o := by
    intro o'
    simp only [History.Seen, hobs]
    constructor
    · rintro ⟨b, hb | ⟨rfl, -⟩⟩
      · exact .inl ⟨b, hb⟩
      · exact .inr rfl
    · rintro (⟨b, hb⟩ | rfl)
      · exact ⟨b, .inl hb⟩
      · exact ⟨payload, .inr ⟨rfl, rfl⟩⟩
  have hlast : p.frontier < o := by
    rcases hi.cover.reached with hf | hf
    · omega
    · exact hnew _ hf
  have hall : ∀ q ∈ p.queue, q < o := fun q hq => hnew q (hi.cover.ahead q hq).2
  -- so the intake test always lets the offset through
  have hfloor : o > p.queue.getLast?.getD p.frontier := by
    cases hl : p.queue.getLast? with
    | none => simpa using hlast
    | some l => simpa using hall l (mem_of_getLast? hl)
  have hqueue : (p.observe o).queue = p.queue ++ [o] := by
    simp only [Partition.observe, if_pos hfloor]; rfl
  refine ⟨⟨?_, ?_⟩, fun _ _ => ⟨rfl, rfl⟩, ⟨?_, ?_, ?_, ?_, ?_, ?_, ?_⟩, hi.pending_le, ?_, ?_⟩
  · intro o' ho'
    rcases (hseen o').mp ho' with h1 | rfl
    · exact hi.wf.nonneg o' h1
    · exact ho
  · intro o' ht hf
    rcases (hobs o' true).mp ht with h1 | ⟨rfl, h1⟩ <;> rcases (hobs _ false).mp hf with h2 | ⟨h2, h3⟩
    · exact hi.wf.exclusive o' h1 h2
    · exact absurd (hnew o' ⟨true, h1⟩) (by omega)
    · exact absurd (hnew o' ⟨false, h2⟩) (by omega)
    · exact absurd (h1.trans h3.symm) (by simp)
  · rw [hqueue]
    exact pairwise_append.mpr ⟨hi.cover.sorted, by simp, fun a ha b hb => by
      rw [mem_singleton.mp hb]; exact hall a ha⟩
  · intro o' ho'
    rw [hqueue, mem_append, mem_singleton] at ho'
    rcases ho' with h1 | rfl
    · exact ⟨(hi.cover.ahead o' h1).1, (hseen o').mpr (.inl (hi.cover.ahead o' h1).2)⟩
    · exact ⟨hlast, (hseen o').mpr (.inr rfl)⟩
  · intro o' ho' hlt
    rw [hqueue, mem_append, mem_singleton]
    exact ((hseen o').mp ho').imp_left fun h1 => hi.cover.barrier o' h1 hlt
  · exact hi.cover.reached.imp_right fun h1 => (hseen _).mpr (.inl h1)
  · intro o' hle ht
    rcases (hobs o' true).mp ht with h1 | ⟨rfl, -⟩
    · rw [hack]; exact hi.cover.settled o' hle h1
    · exact absurd hle (by show ¬ o' ≤ p.frontier; omega)
  · intro o' ho'
    rw [hack]; exact hi.cover.acked o' ho'
  · intro o' ho'
    exact (hobs o' false).mpr (.inl (hi.cover.bridged o' ho'))
  · intro f g hf hg
    exact hi.pending_ge f g hf (by rwa [hcom] at hg)
  · intro g hg
    exact hi.committed_le g (by rwa [hcom] at hg)

theorem insert_ooo (ho : h.acked o) : { p with ooo := insert o p.ooo }.Inv h := by
  refine { hi with cover := { hi.cover with acked := ?_ } }
  exact (Finset.forall_mem_insert _ _ _).mpr ⟨ho, hi.cover.acked⟩

theorem insert_tombstone (ho : h.observed o false) :
    { p with tombstones := insert o p.tombstones }.Inv h := by
  refine { hi with cover := { hi.cover with bridged := ?_ } }
  exact (Finset.forall_mem_insert _ _ _).mpr ⟨ho, hi.cover.bridged⟩

end

end Partition.Inv

/-! ## The source's operations on one partition -/

/-- The source changes one partition, which moves forward; nothing else changes. -/
structure Source.Progress (key : TopicPartition) (s s' : Source) : Prop where
  assignmentEpoch : s'.assignmentEpoch = s.assignmentEpoch
  assigned : s'.assigned = s.assigned
  others : ∀ k, k ≠ key → s'.partition k = s.partition k
  progress : (s.partition key).Progress (s'.partition key)

namespace Source

variable {s s' : Source} {key : TopicPartition} {h : History}

theorem Progress.refl (key : TopicPartition) (s : Source) : Progress key s s :=
  ⟨rfl, rfl, fun _ _ => rfl, .refl _⟩

theorem advance_progress (key : TopicPartition) (s₀ : Source) {p : Partition}
    (hae : s₀.assignmentEpoch = s.assignmentEpoch) (has : s₀.assigned = s.assigned)
    (hpart : ∀ k, s₀.partition k = if k = key then p else s.partition k)
    (hgrow : (s.partition key).epoch = p.epoch ∧ (s.partition key).frontier = p.frontier ∧
      (s.partition key).pending = p.pending) (hp : p.Inv h) (ho : h.Seen o) :
    ∃ s', s₀.advanceDecidedFrontier key = some s' ∧ Progress key s s' ∧ (s'.partition key).Inv h := by
  obtain ⟨hr, hq⟩ := hp.covered o ho
  have hkey : s₀.partition key = p := by simpa using hpart key
  have hsome : (s₀.readMin.lookup key).isSome := by
    rw [← partition_readMin, hkey]; exact hr
  obtain ⟨s', hs'⟩ := isSome_iff_exists.mp (advance_isSome hsome)
  obtain ⟨readMin, -, hall⟩ := partition_advance hs'
  obtain ⟨hframe, hassigned⟩ := advance_frame hs'
  have hself : s'.partition key = p.advance readMin := by simpa [hkey] using hall key
  obtain ⟨hinv, hprog⟩ := hp.advance hq readMin
  obtain ⟨he, hf, hpen⟩ := hgrow
  refine ⟨s', hs', ⟨by rw [hframe, hae], by rw [hassigned, has], ?_, ?_⟩, by rwa [hself]⟩
  · intro k hk
    rw [hall k, if_neg hk, hpart k, if_neg hk]
  · rw [hself]
    exact ⟨hprog.epoch.trans he.symm, hf ▸ hprog.frontier, by rw [hf, hpen]; exact hprog.pending⟩

theorem complete_progress (hi : (s.partition key).Inv h) (hack : h.acked o)
    (hobs : h.observed o true) :
    Progress key s (s.complete key o) ∧ ((s.complete key o).partition key).Inv h := by
  obtain ⟨hr, -⟩ := hi.covered o ⟨true, hobs⟩
  obtain ⟨readMin, hr⟩ := isSome_iff_exists.mp hr
  rw [partition_readMin] at hr
  simp only [complete, hr]
  split_ifs with hle hmem
  · exact ⟨.refl key s, hi⟩
  · exact ⟨.refl key s, hi⟩
  obtain ⟨s', hs', hprog, hinv⟩ := advance_progress (s := s) key
    { s with
      completedOoo := s.completedOoo.insert key (insert o ((s.completedOoo.lookup key).getD ∅)) }
    rfl rfl (p := { s.partition key with ooo := insert o (s.partition key).ooo }) (fun k => by
      by_cases hk : k = key
      · subst hk; simp [partition]
      · simp [partition, hk])
    ⟨rfl, rfl, rfl⟩ (hi.insert_ooo hack) ⟨true, hobs⟩
  rw [hs', getD_some]
  exact ⟨hprog, hinv⟩

theorem recordTombstone_progress (cfg : Config) {m : Message}
    (hi : (s.partition m.key).Inv h) (hobs : h.observed m.offset false) :
    ∃ s', s.recordTombstone cfg m = some s' ∧ Progress m.key s s' ∧
      (s'.partition m.key).Inv h := by
  unfold recordTombstone
  split_ifs with hgt hcfg
  · exact advance_progress m.key _ (p := { s.partition m.key with
        tombstones := insert m.offset (s.partition m.key).tombstones }) rfl rfl (fun k => by
      by_cases hk : k = m.key
      · subst hk; simp [partition]
      · simp [partition, hk])
      ⟨rfl, rfl, rfl⟩ (hi.insert_tombstone hobs) ⟨false, hobs⟩
  · refine ⟨_, rfl, ⟨rfl, rfl, fun k hk => ?_, rfl, le_rfl, fun _ => .inl⟩, ?_⟩
    · simp [partition, hk]
    · simpa [partition] using hi.insert_tombstone hobs
  · exact ⟨s, rfl, .refl _ s, hi⟩

end Source
end Tram.Kafka
