import Tram.Kafka.Frontier
import Tram.Kafka.Reader

/-! # Commit safety of an executor-managed Kafka source

The argument is one invariant of the whole world, kept by every step: each owned partition's record
fits its history (`Partition.Inv`), and histories of earlier epochs are fenced off by the epoch
counter. -/

namespace Tram.Kafka

open List Source Option World Drain

/-- A frontier of `key` was handed to `consumer.commit` under ownership epoch `e`. -/
def Committed (tr : List Event) (key : TopicPartition) (e : Nat) (f : Int) : Prop :=
  ∃ offsets, Event.commit offsets ∈ tr ∧ (key, some e, f) ∈ offsets

/-- Read newest first: at every commit, each partition is owned, every payload observed up to its
frontier in that ownership epoch has been acked, and no earlier commit of the epoch was higher. -/
def CommitSafe : List Event → Prop
  | [] => True
  | .commit offsets :: past =>
    (∀ key owner f, (key, owner, f) ∈ offsets → ∃ e, owner = some e ∧
      (∀ o ≤ f, .observed key e o true ∈ past → .acked key e o ∈ past) ∧
      ∀ g, Committed past key e g → g ≤ f) ∧ CommitSafe past
  | _ :: past => CommitSafe past

/-- The part of the trace that is about one partition in one ownership epoch. -/
def historyOf (tr : List Event) (key : TopicPartition) (e : Nat) : History where
  observed o b := .observed key e o b ∈ tr
  acked o := .acked key e o ∈ tr
  committed := Committed tr key e

def Drain.pending : Drain → Dict TopicPartition Int
  | .idle => ∅
  | .captured _ pending _ => pending
  | .failed _ pending _ => pending

theorem Drain.eq_idle {d : Drain} (h : d.isIdle = true) : d = .idle := by
  cases d with
  | idle => rfl
  | captured | failed => cases h

namespace World

/-- The epoch is the partition's own, or older than the counter. -/
def Fenced (s : Source) (key : TopicPartition) (e : Nat) : Prop :=
  s.partitionEpochs.lookup key = some e ∨ e < s.assignmentEpoch

/-- A captured frontier may still be committed, or put back: it has been reached, no commit of
the epoch was higher, and what has become pending since is no older. -/
def InFlight (w : World) (key : TopicPartition) (f : Int) : Prop :=
  ∃ e, w.src.partitionEpochs.lookup key = some e ∧ f ≤ w.src.frontierOf key ∧
    (∀ g, Committed w.trace key e g → g ≤ f) ∧
    ∀ p, w.src.pendingCommits.lookup key = some p → f ≤ p

def Reached (w : World) (key : TopicPartition) (f : Int) : Prop :=
  f ≤ w.src.frontierOf key ∧
    ∃ e, w.src.partitionEpochs.lookup key = some e ∧ ∀ g, Committed w.trace key e g → g ≤ f

/-- What becomes of a partition when the epoch counter moves on: it is dropped, keeps its record,
or starts afresh under the new epoch. -/
def Reowned (s s' : Source) (key : TopicPartition) : Prop :=
  (s'.partition key = {} ∧ key ∉ s'.assigned) ∨
    (s'.partition key = s.partition key ∧ (key ∈ s'.assigned ↔ key ∈ s.assigned)) ∨
    (s.partition key = {} ∧ key ∈ s'.assigned ∧
      s'.partition key = { epoch := some (s.assignmentEpoch + 1) })

structure Inv (w : World) : Prop where
  epoch_le : ∀ k e, w.src.partitionEpochs.lookup k = some e → e ≤ w.src.assignmentEpoch
  assigned : ∀ k, k ∈ w.src.assigned ↔ (w.src.partitionEpochs.lookup k).isSome
  unowned : ∀ k, w.src.partitionEpochs.lookup k = none → w.src.partition k = {}
  owned : ∀ k e, w.src.partitionEpochs.lookup k = some e →
    (w.src.partition k).Inv (historyOf w.trace k e)
  observed : ∀ k e o b, .observed k e o b ∈ w.trace → Fenced w.src k e
  committed : ∀ k e g, Committed w.trace k e g → Fenced w.src k e
  yielded : ∀ m ∈ w.yielded, ∃ t p o e, m = ⟨some t, some p, some o, some e⟩ ∧
    .observed ⟨t, p⟩ e o true ∈ w.trace
  todo : ∀ me ∈ w.todo, w.src.partitionEpochs.lookup me.1.key = some me.2 ∧
    .observed me.1.key me.2 me.1.offset me.1.value.isSome ∈ w.trace
  inFlight : ∀ k f, w.drain.pending.lookup k = some f → w.InFlight k f
  safe : CommitSafe w.trace

variable {tr tr' : List Event}

theorem inv_init : Inv {} := by
  refine ⟨?_, ?_, ?_, ?_, ?_, ?_, ?_, ?_, ?_, trivial⟩ <;>
    simp [Committed, pending, Source.partition]

def AckStep (tr tr' : List Event) : Prop := tr' = tr ∨ ∃ k e o, tr' = .acked k e o :: tr

section

variable (h : AckStep tr tr')
include h

theorem AckStep.observed (k e o b) : .observed k e o b ∈ tr' ↔ .observed k e o b ∈ tr := by
  obtain rfl | ⟨k', e', o', rfl⟩ := h <;> simp

theorem AckStep.acked {k e o} (ha : .acked k e o ∈ tr) : .acked k e o ∈ tr' := by
  obtain rfl | ⟨k', e', o', rfl⟩ := h
  · exact ha
  · exact mem_cons_of_mem _ ha

theorem AckStep.committed (k e) : Committed tr' k e = Committed tr k e := by
  obtain rfl | ⟨k', e', o', rfl⟩ := h
  · rfl
  · funext f; simp [Committed]

theorem AckStep.safe (hs : CommitSafe tr) : CommitSafe tr' := by
  obtain rfl | ⟨k', e', o', rfl⟩ := h <;> exact hs

theorem AckStep.owned {p : Partition} {k e} (hp : p.Inv (historyOf tr k e)) :
    p.Inv (historyOf tr' k e) :=
  hp.mono (by funext o b; exact propext (h.observed k e o b)) (fun _ => h.acked) fun g hg =>
    .inl ((congrFun (h.committed k e) g).mp hg)

end

/-! ## One lemma per kind of step -/

variable {w : World} {todo' : List (Message × Nat)} {key : TopicPartition} {s' : Source}

theorem Inv.progress (hi : w.Inv) {e : Nat} (hp : Progress key w.src s')
    (hk : w.src.partitionEpochs.lookup key = some e) (htr : AckStep w.trace tr')
    (hinv : (s'.partition key).Inv (historyOf tr' key e)) (htodo : ∀ me ∈ todo', me ∈ w.todo) :
    Inv { w with src := s', trace := tr', todo := todo' } := by
  have hep : ∀ k, s'.partitionEpochs.lookup k = w.src.partitionEpochs.lookup k := by
    intro k
    by_cases hkk : k = key
    · subst hkk; exact hp.progress.epoch
    · exact congrArg Partition.epoch (hp.others k hkk)
  have hfence : ∀ k e, Fenced w.src k e → Fenced s' k e := by
    intro k e hf
    rw [Fenced, hep k, hp.assignmentEpoch]; exact hf
  refine ⟨?_, ?_, ?_, ?_, ?_, ?_, ?_, ?_, ?_, htr.safe hi.safe⟩
  · intro k e' hk'
    rw [hp.assignmentEpoch]
    exact hi.epoch_le k e' (by rwa [hep] at hk')
  · intro k
    rw [hp.assigned, hep]
    exact hi.assigned k
  · intro k hk'
    rw [hep] at hk'
    have hne : k ≠ key := by rintro rfl; rw [hk] at hk'; cases hk'
    rw [hp.others k hne]
    exact hi.unowned k hk'
  · intro k e' hk'
    rw [hep] at hk'
    by_cases hkk : k = key
    · subst hkk
      rw [hk] at hk'
      obtain rfl := some.inj hk'
      exact hinv
    · rw [hp.others k hkk]
      exact htr.owned (hi.owned k e' hk')
  · intro k e' o b ho
    exact hfence k e' (hi.observed k e' o b ((htr.observed ..).mp ho))
  · intro k e' g hg
    exact hfence k e' (hi.committed k e' g (by rwa [htr.committed] at hg))
  · intro m hm
    obtain ⟨t, p, o, e', rfl, ho⟩ := hi.yielded m hm
    exact ⟨t, p, o, e', rfl, (htr.observed ..).mpr ho⟩
  · intro me hme
    obtain ⟨h1, h2⟩ := hi.todo me (htodo me hme)
    exact ⟨by rw [hep]; exact h1, (htr.observed ..).mpr h2⟩
  · intro k f hf
    obtain ⟨e', he', hle, hcom, hpen⟩ := hi.inFlight k f hf
    refine ⟨e', by rw [hep]; exact he', ?_, fun g hg => hcom g (by rwa [htr.committed] at hg), ?_⟩
    · by_cases hkk : k = key
      · subst hkk; exact hle.trans hp.progress.frontier
      · exact hle.trans (congrArg Partition.frontier (hp.others k hkk)).ge
    · intro p hp'
      by_cases hkk : k = key
      · subst hkk
        rcases hp.progress.pending p hp' with h1 | h1
        · exact hpen p h1
        · exact hle.trans h1
      · exact hpen p ((congrArg Partition.pending (hp.others k hkk)).symm.trans hp')

theorem Inv.reown (hi : w.Inv) (hdrain : w.drain.isIdle = true)
    (hae : s'.assignmentEpoch = w.src.assignmentEpoch + 1) (hcase : ∀ k, Reowned w.src s' k)
    (htodo : todo' = []) : Inv { w with src := s', todo := todo' } := by
  have hfence : ∀ k e, Fenced w.src k e → e < s'.assignmentEpoch := by
    rintro k e (hk | hlt)
    · have := hi.epoch_le k e hk; omega
    · omega
  have hidle := eq_idle hdrain
  refine ⟨?_, ?_, ?_, ?_, ?_, ?_, hi.yielded, ?_, ?_, hi.safe⟩
  · intro k e hk
    replace hk : (s'.partition k).epoch = some e := hk
    rcases hcase k with ⟨h1, -⟩ | ⟨h1, -⟩ | ⟨-, -, h1⟩ <;> rw [h1] at hk
    · cases hk
    · exact (hfence k e (.inl hk)).le
    · exact (some.inj hk ▸ hae).ge
  · intro k
    change k ∈ s'.assigned ↔ (s'.partition k).epoch.isSome
    rcases hcase k with ⟨h1, h2⟩ | ⟨h1, h2⟩ | ⟨-, h2, h1⟩ <;> rw [h1]
    · simpa using h2
    · exact h2.trans (hi.assigned k)
    · simpa using h2
  · intro k hk
    replace hk : (s'.partition k).epoch = none := hk
    rcases hcase k with ⟨h1, -⟩ | ⟨h1, -⟩ | ⟨-, -, h1⟩
    · exact h1
    · rw [h1] at hk ⊢; exact hi.unowned k hk
    · rw [h1] at hk; cases hk
  · intro k e hk
    replace hk : (s'.partition k).epoch = some e := hk
    rcases hcase k with ⟨h1, -⟩ | ⟨h1, -⟩ | ⟨-, -, h1⟩ <;> rw [h1] at hk ⊢
    · cases hk
    · exact hi.owned k e hk
    · cases hk
      refine Partition.Inv.fresh _ (fun o b ho => ?_) fun g hg => ?_
      · have := hfence k _ (hi.observed k _ o b ho); omega
      · have := hfence k _ (hi.committed k _ g hg); omega
  · exact fun k e o b ho => .inr (hfence k e (hi.observed k e o b ho))
  · exact fun k e g hg => .inr (hfence k e (hi.committed k e g hg))
  · simp [htodo]
  · simp [hidle, pending]

theorem Inv.intakeMessage (hi : w.Inv) (hdrain : w.drain = .idle) (m : Message) :
    (w.intakeMessage m).Inv := by
  unfold World.intakeMessage
  split_ifs with hdel
  swap
  · exact hi
  obtain ⟨hassigned, hnonneg, hbelow⟩ := hdel
  obtain ⟨e, he⟩ := isSome_iff_exists.mp ((hi.assigned m.key).mp hassigned)
  have hof : w.src.epochOf m.key = e := by simp [epochOf, he]
  rw [hof] at hbelow ⊢
  have hpart : ∀ k, (w.src.observe m).partition k =
      if k = m.key then (w.src.partition k).observe m.offset else w.src.partition k :=
    fun k => w.src.partition_observe k m
  have hcom : ∀ k e', Committed (.observed m.key e m.offset m.value.isSome :: w.trace) k e' =
      Committed w.trace k e' := by
    intro k e'; funext f; simp [Committed]
  have hkeep : ∀ ev, ev ∈ w.trace → ev ∈ .observed m.key e m.offset m.value.isSome :: w.trace :=
    fun ev => mem_cons_of_mem _
  refine ⟨hi.epoch_le, hi.assigned, ?_, ?_, ?_, ?_, ?_, ?_, ?_, hi.safe⟩
  · intro k hk
    have hne : k ≠ m.key := by rintro rfl; exact absurd (he.symm.trans hk) (by simp)
    rw [hpart, if_neg hne]
    exact hi.unowned k hk
  · intro k e' hk
    rw [hpart]
    split_ifs with hkk
    · subst hkk
      obtain rfl : e' = e := mem_unique hk he
      refine (hi.owned m.key e' he).observe m.value.isSome hnonneg ?_ ?_ ?_
        (hcom m.key e')
      · rintro o ⟨b, ho⟩
        exact hbelow _ ho o (by simp [Event.observedAt])
      · intro o b
        simp [historyOf, or_comm]
      · funext o; simp [historyOf]
    · refine (hi.owned k e' hk).mono ?_ (fun o ho => hkeep _ ho) fun g hg =>
        .inl ((congrFun (hcom k e') g).mp hg)
      funext o b
      simp [historyOf, hkk]
  · intro k e' o b ho
    rcases mem_cons.mp ho with h1 | h1
    · cases h1; exact .inl he
    · exact hi.observed k e' o b h1
  · intro k e' g hg
    exact hi.committed k e' g (by rwa [hcom] at hg)
  · intro m' hm'
    obtain ⟨t, p, o, e', rfl, ho⟩ := hi.yielded m' hm'
    exact ⟨t, p, o, e', rfl, hkeep _ ho⟩
  · exact forall_mem_concat (fun me hme => (hi.todo me hme).imp id (hkeep _)) ⟨he, mem_cons_self⟩
  · simp [hdrain, pending]

theorem drain_intakeMessage (m : Message) : (w.intakeMessage m).drain = w.drain := by
  unfold intakeMessage
  split_ifs <;> rfl

section

variable (hi : w.Inv)
include hi

theorem Inv.intake (batch : List Message) : (w.intake batch).Inv := by
  unfold World.intake
  split_ifs with hpoll
  swap
  · exact hi
  simp only [mayPoll, Bool.and_eq_true] at hpoll
  have hdrain := eq_idle hpoll.2
  have hstart : Inv { w with batchTps := ∅, batchEpoch := w.src.assignmentEpoch } := { hi with }
  exact (Run.exec_invariant (I := fun w : World => w.Inv ∧ w.drain = .idle)
    (fun w m h => ⟨h.1.intakeMessage h.2 m, (drain_intakeMessage m).trans h.2⟩)
    ⟨hstart, hdrain⟩ batch).1

theorem Inv.resume (cfg : Config) : (w.resume cfg).Inv := by
  unfold World.resume
  cases htodo : w.todo with
  | nil => exact hi
  | cons me rest =>
    obtain ⟨m, e⟩ := me
    obtain ⟨hown, hobs⟩ := hi.todo (m, e) (by simp [htodo])
    have hrest : ∀ me ∈ rest, me ∈ w.todo := fun me hme => by simp [htodo, hme]
    cases hv : m.value with
    | some v =>
      simp only [hv]
      refine { hi with
        yielded := forall_mem_cons.mpr ⟨⟨m.key.topic, m.key.partition, m.offset, e, rfl, ?_⟩, hi.yielded⟩
        todo := fun me hme => hi.todo me (hrest me hme) }
      simpa [hv] using hobs
    | none =>
      simp only [hv, isSome_none] at hobs
      obtain ⟨s', hs', hprog, hinv⟩ := recordTombstone_progress cfg
        (hi.owned m.key e hown) hobs
      simp only [hv, hs']
      exact hi.progress hprog hown (.inl rfl) hinv hrest

/-- An accepted completion is of a payload the partition's current epoch has observed: the meta
was yielded under its epoch, and an epoch of the past matches neither the partition's own epoch
nor, for a partition that is not owned, the counter. -/
theorem Inv.accepts {cfg : Config} {m : Meta} {o : Int} (hmay : w.MayAck m)
    (h : w.src.accepts cfg m = some (key, o)) :
    ∃ e, w.src.partitionEpochs.lookup key = some e ∧ w.src.epochOf key = e ∧
      .observed key e o true ∈ w.trace := by
  have hm := accepts_eq h
  subst hm
  rcases hmay with hmiss | hy
  · simp at hmiss
  obtain ⟨t, p, o', e, heq, hobs⟩ := hi.yielded _ hy
  simp only [Meta.mk.injEq, some.injEq] at heq
  obtain ⟨rfl, rfl, rfl, hepoch⟩ := heq
  refine ⟨e, ?_, hepoch, hobs⟩
  rcases hi.observed _ _ _ _ hobs with hown | hlt
  · exact hown
  · -- a fenced epoch is below the counter, so it is not the default of `epochOf`
    unfold epochOf at hepoch
    cases hl : w.src.partitionEpochs.lookup key with
    | none => rw [hl, getD_none] at hepoch; omega
    | some e' => rw [hl, getD_some] at hepoch; rw [hepoch]

theorem Inv.ack (cfg : Config) (m : Meta) (d : AckDisposition) : (w.ack cfg m d).Inv := by
  unfold World.ack
  split_ifs with hmay
  swap
  · exact hi
  unfold Source.ack
  cases hacc : w.src.accepts cfg m with
  | none => exact hi
  | some ko =>
    obtain ⟨key, o⟩ := ko
    obtain ⟨e, hown, hof, hobs⟩ := hi.accepts hmay hacc
    simp only [hof]
    have hstep : AckStep w.trace (.acked key e o :: w.trace) := .inr ⟨key, e, o, rfl⟩
    obtain ⟨hprog, hinv⟩ := complete_progress (hstep.owned (hi.owned key e hown))
      (o := o) mem_cons_self ((hstep.observed ..).mpr hobs)
    exact hi.progress hprog hown hstep hinv fun _ h => h

theorem Inv.setPending {pending : Dict TopicPartition Int} {drain : Drain}
    (hle : ∀ k f, pending.lookup k = some f → w.Reached k f)
    (hfl : ∀ k f, drain.pending.lookup k = some f →
      InFlight { w with src := { w.src with pendingCommits := pending } } k f) :
    Inv { w with src := { w.src with pendingCommits := pending }, drain := drain } := by
  refine { hi with unowned := ?_, owned := ?_, inFlight := hfl }
  · intro k hk
    have hnone : pending.lookup k = none := by
      cases hp : pending.lookup k with
      | none => rfl
      | some f =>
        obtain ⟨-, e, he, -⟩ := hle k f hp
        exact absurd (he.symm.trans hk) (by simp)
    have h := hi.unowned k hk
    simp only [Source.partition, hnone] at h ⊢
    simp_all
  · intro k e hk
    have h := hi.owned k e hk
    refine ⟨h.wf, h.covered, h.cover, fun f hf => (hle k f hf).1, ?_, h.committed_le⟩
    intro f g hf hg
    obtain ⟨-, e', he', hmax⟩ := hle k f hf
    obtain rfl : e' = e := mem_unique he' hk
    exact hmax g hg

theorem Inv.pending {k : TopicPartition} {f : Int} (hf : w.src.pendingCommits.lookup k = some f) :
    w.Reached k f := by
  cases he : w.src.partitionEpochs.lookup k with
  | none =>
    have h := congrArg Partition.pending (hi.unowned k he)
    exact absurd (hf.symm.trans h) (by simp)
  | some e =>
    have h := hi.owned k e he
    exact ⟨h.pending_le f hf, e, he, fun g hg => h.pending_ge f g hf hg⟩

theorem Inv.beginDrain (consumer : Option Nat) : (w.beginDrain consumer).Inv := by
  unfold World.beginDrain
  split
  · exact hi
  split_ifs
  swap
  · exact hi
  refine hi.setPending (by simp) fun k f hf => ?_
  obtain ⟨hle, e, he, hcom⟩ := hi.pending hf
  exact ⟨e, he, hle, hcom, by simp⟩

/-- The commit call itself: every captured frontier is safe to hand over, and stays the highest
one of its epoch. -/
theorem Inv.commit (ok : Bool) : (w.commit ok).Inv := by
  unfold World.commit
  split
  swap
  · exact hi
  rename_i consumer pending epochs hdrain
  have hfl : ∀ k f, pending.lookup k = some f → w.InFlight k f := fun k f hf =>
    hi.inFlight k f (by rw [hdrain]; exact hf)
  -- the entries of the call are the captured frontiers
  have hmem : ∀ k owner f, (k, owner, f) ∈ pending.entries.map (fun kf =>
      (kf.1, w.src.partitionEpochs.lookup kf.1, kf.2)) →
      pending.lookup k = some f ∧ owner = w.src.partitionEpochs.lookup k := by
    intro k owner f h
    obtain ⟨⟨k', f'⟩, hin, heq⟩ := mem_map.mp h
    simp only [Prod.mk.injEq] at heq
    obtain ⟨rfl, rfl, rfl⟩ := heq
    exact ⟨AList.mem_lookup_iff.mpr hin, rfl⟩
  have hcom : ∀ k e g, Committed (commitCall w.src pending :: w.trace) k e g →
      Committed w.trace k e g ∨
        (pending.lookup k = some g ∧ w.src.partitionEpochs.lookup k = some e) := by
    rintro k e g ⟨offsets, hin, hg⟩
    rcases mem_cons.mp hin with h1 | h1
    · cases h1
      obtain ⟨h2, h3⟩ := hmem k (some e) g hg
      exact .inr ⟨h2, h3.symm⟩
    · exact .inl ⟨offsets, h1, hg⟩
  have hobs : ∀ k e o b, .observed k e o b ∈ commitCall w.src pending :: w.trace ↔
      .observed k e o b ∈ w.trace := fun k e o b => by simp [commitCall]
  refine ⟨hi.epoch_le, hi.assigned, hi.unowned, ?_, ?_, ?_, ?_, ?_, ?_, ?_, hi.safe⟩
  · intro k e hk
    have h := hi.owned k e hk
    refine h.mono (by funext o b; exact propext (hobs k e o b))
      (fun o ho => mem_cons_of_mem _ ho) fun g hg => ?_
    refine (hcom k e g hg).imp_right fun ⟨h1, _⟩ => ?_
    obtain ⟨_, _, hle, _, hpen⟩ := hfl k g h1
    exact ⟨hle, hpen⟩
  · exact fun k e o b ho => hi.observed k e o b ((hobs ..).mp ho)
  · intro k e g hg
    rcases hcom k e g hg with h1 | ⟨-, h1⟩
    · exact hi.committed k e g h1
    · exact .inl h1
  · intro m hm
    obtain ⟨t, p, o, e, rfl, ho⟩ := hi.yielded m hm
    exact ⟨t, p, o, e, rfl, (hobs ..).mpr ho⟩
  · intro me hme
    obtain ⟨h1, h2⟩ := hi.todo me hme
    exact ⟨h1, (hobs ..).mpr h2⟩
  · intro k f hf
    cases ok with
    | true => simp [Drain.pending] at hf
    | false =>
      obtain ⟨e, he, hle, hmax, hpen⟩ := hfl k f hf
      refine ⟨e, he, hle, fun g hg => ?_, hpen⟩
      rcases hcom k e g hg with h1 | ⟨h1, -⟩
      · exact hmax g h1
      · exact (mem_unique h1 hf).le
  · intro k owner f hin
    obtain ⟨h1, rfl⟩ := hmem k owner f hin
    obtain ⟨e, he, hle, hmax, -⟩ := hfl k f h1
    exact ⟨e, he, fun o ho hp => (hi.owned k e he).cover.settled o (ho.trans hle) hp, hmax⟩

theorem Inv.restore : w.restore.Inv := by
  unfold World.restore
  split
  swap
  · exact hi
  rename_i consumer pending epochs hdrain
  have hidle : ∀ k f, idle.pending.lookup k = some f →
      InFlight { w with src := w.src.restorePending consumer pending epochs } k f := by
    simp [Drain.pending]
  unfold restorePending
  split_ifs with hc
  swap
  · exact { hi with inFlight := by simp [Drain.pending] }
  refine hi.setPending ?_ (by simp [Drain.pending])
  -- every frontier put back satisfies what a pending frontier has to satisfy
  have hfold : ∀ (l : List (Sigma fun _ : TopicPartition => Int)) (acc : Dict TopicPartition Int),
      (∀ kf ∈ l, w.InFlight kf.1 kf.2) → (∀ k f, acc.lookup k = some f → w.Reached k f) →
      ∀ k f, (l.foldl (fun acc kf => if epochs kf.1 = w.src.epochOf kf.1 then
          notePending acc kf.1 kf.2 else acc) acc).lookup k = some f → w.Reached k f := by
    intro l
    induction l with
    | nil => exact fun acc _ h => h
    | cons kf l ih =>
      intro acc hl hacc
      rw [foldl_cons]
      refine ih _ (fun kf' h => hl kf' (mem_cons_of_mem _ h)) ?_
      split_ifs
      swap
      · exact hacc
      intro k f hf
      rw [lookup_notePending] at hf
      split_ifs at hf with hk
      swap
      · exact hacc k f hf
      subst hk
      obtain ⟨e, he, hle, hmax, -⟩ := hl kf mem_cons_self
      have hge : -1 ≤ w.src.frontierOf kf.1 := (hi.owned kf.1 e he).frontier_ge
      have hmaxf : max ((acc.lookup kf.1).getD (-1)) kf.2 = f := some.inj hf
      refine ⟨?_, e, he, fun g hg => (hmax g hg).trans (by omega)⟩
      cases ha : acc.lookup kf.1 with
      | none => rw [ha, getD_none] at hmaxf; omega
      | some f₀ =>
        have := (hacc kf.1 f₀ ha).1
        rw [ha, getD_some] at hmaxf
        omega
  refine hfold pending.entries w.src.pendingCommits (fun kf hkf => ?_) fun k f hf => hi.pending hf
  exact hi.inFlight kf.1 kf.2 (by rw [hdrain]; exact AList.mem_lookup_iff.mpr hkf)

theorem Inv.rebalance {f : Source → Source}
    (hf : f w.src = w.src ∨
      ((f w.src).assignmentEpoch = w.src.assignmentEpoch + 1 ∧ ∀ k, Reowned w.src (f w.src) k)) :
    (w.rebalance f).Inv := by
  unfold World.rebalance
  split_ifs with hpoll
  swap
  · exact hi
  simp only [mayPoll, Bool.and_eq_true, List.isEmpty_iff] at hpoll
  rcases hf with hf | ⟨hae, hcase⟩
  · rw [hf]; exact hi
  · exact hi.reown hpoll.2 hae hcase hpoll.1

theorem Inv.revoked (partitions : List TopicPartition) :
    (w.rebalance (·.onPartitionsRevoked partitions)).Inv := by
  refine hi.rebalance (.inr ⟨w.src.assignmentEpoch_revoked partitions, fun k => ?_⟩)
  rw [Reowned, partition_revoked, mem_assigned_revoked]
  by_cases hk : k ∈ partitions
  · exact .inl ⟨if_pos hk, fun h => h.2 hk⟩
  · exact .inr (.inl ⟨if_neg hk, and_iff_left hk⟩)

theorem Inv.takeAssignment (current : List TopicPartition) (k : TopicPartition) :
    Reowned w.src (w.src.takeAssignment current) k := by
  have hassigned : (w.src.takeAssignment current).assigned = current := rfl
  rw [Reowned, partition_takeAssignment, hassigned]
  by_cases hc : k ∈ current
  · rw [if_pos hc]
    cases he : w.src.partitionEpochs.lookup k with
    | none =>
      have hp := hi.unowned k he
      exact .inr (.inr ⟨hp, hc, by rw [hp]; rfl⟩)
    | some e =>
      -- uninterrupted ownership keeps its epoch
      refine .inr (.inl ⟨?_, iff_of_true hc ((hi.assigned k).mpr (by simp [he]))⟩)
      simp only [partition_epoch, he, getD_some]
      rw [← he]; rfl
  · rw [if_neg hc]
    by_cases ha : k ∈ w.src.assigned
    · exact .inl ⟨if_pos ha, hc⟩
    · exact .inr (.inl ⟨if_neg ha, iff_of_false hc ha⟩)

theorem Inv.assignedTo (partitions : List TopicPartition) :
    (w.rebalance (·.onPartitionsAssigned partitions)).Inv :=
  hi.rebalance (.inr ⟨w.src.assignmentEpoch_takeAssignment _, hi.takeAssignment _⟩)

theorem Inv.sync (assignment : List TopicPartition) : (w.rebalance (·.syncAssignment assignment)).Inv := by
  refine hi.rebalance ?_
  simp only [syncAssignment]
  split_ifs
  · exact .inl rfl
  · exact .inr ⟨w.src.assignmentEpoch_takeAssignment _, hi.takeAssignment _⟩

theorem Inv.withConsumer (consumer : Option Nat) :
    Inv { w with src := { w.src with consumer := consumer } } :=
  { hi with }

theorem Inv.resetSession (hdrain : w.drain.isIdle = true) (consumer : Nat) :
    Inv { w with src := { w.src.resetSessionState with consumer := some consumer }, todo := [] } := by
  have hreset : Inv { w with src := w.src.resetSessionState, todo := [] } :=
    hi.reown hdrain rfl (fun k => .inl ⟨w.src.partition_resetSessionState k, by
      simp [resetSessionState]⟩) rfl
  exact hreset.withConsumer (some consumer)

end

end World

theorem step_inv {cfg : Config} (hm : cfg.ackManaged = true) {w : World} (hi : w.Inv) (op : Op) :
    (step cfg w op).Inv := by
  cases op with
  | resetSession consumer =>
    simp only [step]
    split_ifs with hd
    · exact hi.resetSession hd consumer
    · exact hi
  | revoked partitions => exact hi.revoked partitions
  | assigned partitions => exact hi.assignedTo partitions
  | sync assignment => exact hi.sync assignment
  | poll batch => exact hi.intake batch
  | resume => exact hi.resume cfg
  | abandon =>
    exact { hi with todo := fun _ h => absurd h not_mem_nil }
  | endBatch ok =>
    -- the legacy commit is not reached by a managed reader
    simp only [step, endBatch, hm]
    simpa using hi
  | ack m disposition => exact hi.ack cfg m disposition
  | drain consumer => exact hi.beginDrain consumer
  | commit ok => exact hi.commit ok
  | restore => exact hi.restore
  | close =>
    simp only [step]
    split_ifs
    · exact hi.withConsumer none
    · exact hi

/-- For every interleaving of polls, callbacks, acks and drains, every frontier handed to
`consumer.commit` covers only acked payloads of the current ownership epoch, and the frontiers of
one epoch never decrease. -/
theorem managed_commits_safe (cfg : Config) (hm : cfg.ackManaged = true) (ops : List Op) :
    CommitSafe (Run.exec (step cfg) {} ops).trace :=
  (Run.exec_invariant (I := Inv) (fun _ op hi => step_inv hm hi op) inv_init ops).safe

theorem managed_commits_safe_out_of_order :
    let key : TopicPartition := ⟨"t", 0⟩
    let ops : List Op := [.resetSession 1, .assigned [key],
      .poll [⟨key, 5, some []⟩, ⟨key, 7, none⟩, ⟨key, 9, some []⟩], .resume, .resume, .resume,
      .ack (metaOf ⟨key, 9, none⟩ 2) .delivered, .drain (some 1), .commit true,
      .ack (metaOf ⟨key, 5, none⟩ 2) .dlq, .drain (some 1), .commit false, .restore]
    (Run.exec (step ⟨false, true⟩) {} ops).trace =
      [.commit [(key, some 2, 9)], .acked key 2 5, .acked key 2 9, .observed key 2 9 true,
        .observed key 2 7 false, .observed key 2 5 true] ∧
    (Run.exec (step ⟨false, true⟩) {} ops).src.pendingCommits.lookup key = some 9 ∧
    CommitSafe (Run.exec (step ⟨false, true⟩) {} ops).trace :=
  ⟨by decide +kernel, by decide +kernel, managed_commits_safe ⟨false, true⟩ rfl _⟩

end Tram.Kafka
