import Tram.Executor.Fates
import Tram.Executor.Success
import Tram.Executor.WholeUnits

/-! # Acknowledged units have no loss that is not accounted for

Both loops again, with the calls of `_process_records` they make. -/

namespace Tram.Executor

open List Option State Watched Run
open Procedure (bind_run_error bind_run_ok get_run)

variable {ρ : Type}

/-! ## Barriers -/

section Barriers

variable {p : Pipeline ρ}

theorem commitSinks_run (commit : Option String) (s : State ρ) :
    (∃ b, commitSinks p commit s = (.ok b, s)) ∨ ∃ f, commitSinks p commit s = (.error f, s) := by
  cases commit with
  | none => exact .inl ⟨true, rfl⟩
  | some text =>
    rw [commitSinks]
    split_ifs
    · exact .inl ⟨false, rfl⟩
    · exact .inr ⟨_, rfl⟩

def Acking (P : Meta → Prop) (s t : State ρ) : Prop := ∀ a ∈ t.acks, a ∈ s.acks ∨ P a.1

theorem decideUnit_run (info : Meta) (checkpointed : Bool) (d : Option AckDisposition) (s : State ρ) :
    ∃ t, decideUnit info checkpointed d s = (.ok (), t) ∧ t.delivery.units = s.delivery.units ∧
      Acking (fun a => d ≠ none ∧ a = info) s t ∧ t.finalized = s.finalized := by
  have hack : ∀ d' : AckDisposition, Acking (fun a => some d' ≠ none ∧ a = info) s
      { s with acks := s.acks ++ [(info, d')] } :=
    fun d' => forall_mem_concat (fun _ => .inl) (.inr ⟨nofun, rfl⟩)
  rcases d with _ | _ | _ | _ | _
  case none => exact ⟨s, rfl, rfl, fun _ => .inl, rfl⟩
  case some.delivered =>
    rw [decideUnit]
    split_ifs
    · exact ⟨_, rfl, rfl, hack _, rfl⟩
    · exact ⟨_, rfl, rfl, fun _ => .inl, rfl⟩
  all_goals exact ⟨_, rfl, rfl, hack _, rfl⟩

theorem finalizeBatchSourceUnit_run (key : UnitKey) (info : Meta) (unit : Option UnitOutcome)
    (whole : Bool) (b : Barrier) (s : State ρ) :
    Acking (fun a => a = info ∧ ∃ o, (s.delivery.units.lookup key <|> unit) = some o ∧
        o.disposition p.onError ≠ none) s
      (finalizeBatchSourceUnit p key info unit whole b s).2 ∧
    ((finalizeBatchSourceUnit p key info unit whole b s).1 = .ok () →
      (finalizeBatchSourceUnit p key info unit whole b s).2.delivery.units =
        s.delivery.units.erase key) := by
  unfold finalizeBatchSourceUnit
  rcases commitSinks_run (p := p) b.commit s with ⟨committed, hcommit⟩ | ⟨f, hcommit⟩
  · rw [bind_run_ok hcommit, bind_run_ok (get_run s),
      bind_run_ok (Procedure.modify_run _ s)]
    generalize hd : (if (committed && whole) = true then
      (s.delivery.units.lookup key <|> unit).bind (·.disposition p.onError) else none) = d
    obtain ⟨t, hdecide, hunits, hacks, -⟩ :=
      decideUnit_run info b.checkpointed d (s.onDelivery (·.dropUnit key))
    rw [bind_run_ok hdecide]
    have hacked : Acking (fun a => a = info ∧ ∃ o, (s.delivery.units.lookup key <|> unit) = some o ∧
        o.disposition p.onError ≠ none) s t := by
      refine fun a ha => (hacks a ha).imp id fun hnew => ⟨hnew.2, ?_⟩
      split_ifs at hd
      · obtain ⟨d', hd'⟩ := ne_none_iff_exists'.mp hnew.1
        obtain ⟨o, ho, hdisposed⟩ := bind_eq_some_iff.mp (hd.trans hd')
        exact ⟨o, ho, by rw [hdisposed]; exact some_ne_none d'⟩
      · exact absurd hd.symm hnew.1
    split_ifs
    · unfold finalizeSource
      cases b.finalized with
      | none => exact ⟨hacked, fun _ => hunits⟩
      | some fault => exact ⟨hacked, nofun⟩
    · exact ⟨hacked, fun _ => hunits⟩
  · rw [bind_run_error hcommit]
    exact ⟨fun _ => .inl, nofun⟩

end Barriers

/-! ## What a unit's outcome tells -/

/-- The unit is in the accounting, and each call for a chunk of it is accounted, unless its outcome
shows that it is not or the loop is about to raise. -/
def Answered (job : BatchJob ρ) (calls : List (SinkCall ρ)) (raising : Prop) (s : State ρ)
    (key : UnitKey) : Prop :=
  ∃ o, s.delivery.units.lookup key = some o ∧
    (∀ v ∈ calls, v.key = some key → v.Accounted job ∨ o.Doomed job.toPipeline ∨ raising) ∧
    (job.dlqSink = false → o.dlqSucceeded = 0)

namespace Answered

variable {job : BatchJob ρ} {calls : List (SinkCall ρ)} {raising : Prop} {s : State ρ} {key : UnitKey}

theorem mono (h : Answered job calls raising s key) {raising' : Prop} (himp : raising → raising')
    {t : State ρ} (ht : t.delivery.units.lookup key = s.delivery.units.lookup key) :
    Answered job calls raising' t key := by
  obtain ⟨o, ho, htold, hdlq⟩ := h
  exact ⟨o, ht.trans ho, fun v hv hkey => (htold v hv hkey).imp id (.imp id himp), hdlq⟩

theorem new (hnew : ¬ s.delivery.Registered key) (hcalls : ∀ v ∈ calls, v.key ≠ some key) (info : Meta) :
    Answered job calls raising (s.onDelivery (·.registerUnit key info)) key := by
  have hnone : s.delivery.units.lookup key = none :=
    eq_none_iff_forall_ne_some.mpr fun o ho => hnew ⟨o, ho⟩
  refine ⟨.new info, ?_, fun v hv hkey => absurd hkey (hcalls v hv), fun _ => rfl⟩
  rw [onDelivery, Delivery.registerUnit, Dict.lookup_setdefault, if_pos rfl, hnone]
  rfl

theorem process (h : Answered job calls raising s key) (chunkKey : Option UnitKey) (work : Work ρ)
    (hclean : ∀ v ∈ work.content.calls job chunkKey s, v.Clean job) :
    Answered job (calls ++ work.content.calls job chunkKey s)
      (raising ∨ (chunkKey = some key ∧ job.onError = .abort ∧
        ∃ f, (processChunk job chunkKey work s).1 = .error f))
      (processChunk job chunkKey work s).2 key := by
  obtain ⟨o, ho, htold, hdlq⟩ := h
  have hkeeps : Keeps s (processChunk job chunkKey work s).2 := processChunk_keeps chunkKey work s
  obtain ⟨o', ho', hgrown⟩ := hkeeps.grows key o ho
  refine ⟨o', ho', fun v hv hkey => ?_, fun hsink => ?_⟩
  · rcases mem_append.mp hv with hv | hv
    · exact (htold v hv hkey).imp id (.imp (·.grown hgrown) .inl)
    · have hchunk : chunkKey = some key := (Content.mem_calls hv).symm.trans hkey
      rcases processChunk_fate work s hclean with (hdoomed | hraised) | haccounted
      · exact .inr (.inl (hdoomed key o' hchunk ho'))
      · exact .inr (.inr (.inr ⟨hchunk, hraised.imp id Procedure.exists_of_raised⟩))
      · exact .inl (haccounted v hv)
  · obtain ⟨u, hu, heq⟩ := processChunk_sameDlq hsink chunkKey work s key o' ho'
    obtain rfl := mem_unique ho hu
    exact heq.trans (hdlq hsink)

theorem finish (h : Answered job calls raising s key) (hcalm : ¬ raising)
    (hpolicy : job.onError ≠ .continues) (info : Meta) (unit : Option UnitOutcome) (whole : Bool)
    (b : Barrier) :
    Acking (fun a => a = info ∧ ∀ v ∈ calls, v.key = some key → v.Accounted job) s
      (finalizeBatchSourceUnit job.toPipeline key info unit whole b s).2 := by
  obtain ⟨o, ho, htold, hdlq⟩ := h
  refine fun a ha => ((finalizeBatchSourceUnit_run key info unit whole b s).1 a ha).imp id ?_
  rintro ⟨rfl, o', ho', hdisposed⟩
  rw [ho] at ho'
  obtain rfl := some.inj ho'
  refine ⟨rfl, fun v hv hkey => ?_⟩
  rcases htold v hv hkey with haccounted | hdoomed | hraising
  · exact haccounted
  · exact absurd (hdoomed.disposition hpolicy hdlq) hdisposed
  · exact absurd hraising hcalm

end Answered

/-- A loop, with the calls of `_process_records` it has made. -/
structure Logged (σ ρ : Type) where
  state : σ
  calls : List (SinkCall ρ)

/-! ## One chunk after the other -/

namespace Loop

def calls (job : BatchJob ρ) (l : Loop ρ) : List (SinkCall ρ) :=
  match l.phase, l.rest with
  | .reading, item :: _ =>
    if item.stop then []
    else
      match enterUnit job.toPipeline l.current item.info item.before l.run with
      | (.error _, _) => []
      | (.ok _, s) => item.work.content.calls job item.info.unit s
  | _, _ => []

def logStep (job : BatchJob ρ) (fault : Option Fault) (last : Barrier) (x : Logged (Loop ρ) ρ) :
    Logged (Loop ρ) ρ :=
  ⟨x.state.step job fault last, x.calls ++ x.state.calls job⟩

theorem logStep_state (job : BatchJob ρ) (fault : Option Fault) (last : Barrier) (x : Logged (Loop ρ) ρ)
    (n : Nat) : ((logStep job fault last)^[n] x).state = (step job fault last)^[n] x.state := by
  induction n generalizing x with
  | zero => rfl
  | succ n ih => exact ih _

variable {job : BatchJob ρ} {items : List (Item ρ)}

/-- What the accounting and the log hold while the loop reads: `key` is the unit it is in, `read` and
`rest` are the chunks before and after. -/
structure Open (job : BatchJob ρ) (calls : List (SinkCall ρ)) (s : State ρ) (key : Option UnitKey)
    (read rest : List (Item ρ)) : Prop where
  others : ∀ v ∈ calls, ∀ k, v.key = some k → key = some k ∨ ∀ y ∈ rest, y.info.unit ≠ some k
  current : ∀ k, key = some k → Answered job calls False s k ∧ ∃ x ∈ read, x.info.unit = some k
  registered : ∀ k, s.delivery.Registered k → key = some k
  acked : ∀ a ∈ s.acks, ∃ k, a.1.unit = some k ∧ key ≠ some k ∧ (∀ y ∈ rest, y.info.unit ≠ some k) ∧
    ∀ v ∈ calls, v.key = some k → v.Accounted job

def Accounts (job : BatchJob ρ) (calls : List (SinkCall ρ)) (s : State ρ) : Prop :=
  ∀ a ∈ s.acks, ∀ v ∈ calls, v.key = a.1.unit → v.Accounted job

variable {calls : List (SinkCall ρ)} {s : State ρ} {current : Option Meta} {read rest : List (Item ρ)}
  {key : Option UnitKey}

theorem Accounts.abandon (h : Accounts job calls s) (current : Option Meta) :
    Accounts job calls (s.abandon current) := by
  cases current <;> exact h

theorem Open.accounts (h : Open job calls s key read rest) : Accounts job calls s := by
  intro a ha v hv hkey
  obtain ⟨k, hunit, -, -, haccounted⟩ := h.acked a ha
  exact haccounted v hv (hkey.trans hunit)

section Chunk

variable {item : Item ρ} {b : Barrier} {t : State ρ} {result : Except Failure (Option Meta)}

theorem none_left (horder : SourceOrder (items.map (·.info))) (hitems : items = read ++ item :: rest)
    {k : UnitKey} (hread : ∃ x ∈ read, x.info.unit = some k) (hne : item.info.unit ≠ some k) :
    ∀ y ∈ item :: rest, y.info.unit ≠ some k := by
  obtain ⟨x, hx, hunit⟩ := hread
  have hmetas : items.map (·.info) = read.map (·.info) ++ (item :: rest).map (·.info) := by
    rw [hitems, map_append]
  intro y hy
  refine horder.none_left hmetas ⟨x.info, mem_map_of_mem hx, hunit⟩ (fun m hm => ?_) y.info
    (mem_map_of_mem hy)
  cases hm
  exact hne

theorem Open.register (h : Open job calls s none read (item :: rest)) {key : UnitKey}
    (hunit : item.info.unit = some key) :
    Open job calls (s.onDelivery (·.registerUnit key item.info)) (some key) (read ++ [item])
      (item :: rest) := by
  have hfresh : ∀ k, (∀ y ∈ item :: rest, y.info.unit ≠ some k) → k ≠ key := fun k hnone heq =>
    hnone item mem_cons_self (heq ▸ hunit)
  refine ⟨fun v hv k hk => ?_, fun k hk => ?_, fun k hk => ?_, fun a ha => ?_⟩
  · exact .inr ((h.others v hv k hk).resolve_left (by simp))
  · cases hk
    refine ⟨.new (fun hreg => by cases h.registered key hreg) (fun v hv hkey => ?_) item.info,
      item, mem_concat_self, hunit⟩
    exact hfresh key ((h.others v hv key hkey).resolve_left (by simp)) rfl
  · obtain ⟨o, ho⟩ := hk
    rw [onDelivery, Delivery.registerUnit, Dict.lookup_setdefault] at ho
    split_ifs at ho with heq
    · rw [heq]
    · cases h.registered k ⟨o, ho⟩
  · obtain ⟨k, hk, -, hnone, haccounted⟩ := h.acked a ha
    exact ⟨k, hk, fun heq => hfresh k hnone (some.inj heq).symm, hnone, haccounted⟩

theorem Open.process (h : Open job calls s key read (item :: rest))
    (hown : ∀ k, item.info.unit = some k → key = some k)
    (hclean : ∀ v ∈ item.work.content.calls job item.info.unit s, v.Clean job)
    {result : Except Failure Bool}
    (hrun : processChunk job item.info.unit item.work s = (result, t)) :
    Accounts job (calls ++ item.work.content.calls job item.info.unit s) t ∧
    ∀ b, result = .ok b →
      Open job (calls ++ item.work.content.calls job item.info.unit s) t key read rest := by
  have hkeeps : Keeps s (processChunk job item.info.unit item.work s).2 :=
    processChunk_keeps item.info.unit item.work s
  have hanswered := fun k hk => (h.current k hk).1.process item.info.unit item.work hclean
  rw [hrun] at hkeeps hanswered
  generalize hnew : item.work.content.calls job item.info.unit s = new at hanswered
  have hkey : ∀ v ∈ new, v.key = item.info.unit := fun v hv => Content.mem_calls (hnew ▸ hv)
  have hacked : ∀ a ∈ t.acks, ∃ k, a.1.unit = some k ∧ key ≠ some k ∧
      (∀ y ∈ rest, y.info.unit ≠ some k) ∧ ∀ v ∈ calls ++ new, v.key = some k → v.Accounted job := by
    intro a ha
    rw [hkeeps.acks] at ha
    obtain ⟨k, hk, hne, hnone, haccounted⟩ := h.acked a ha
    refine ⟨k, hk, hne, fun y hy => hnone y (mem_cons_of_mem _ hy), fun v hv hvkey => ?_⟩
    rcases mem_append.mp hv with hv | hv
    · exact haccounted v hv hvkey
    · exact absurd (hown k ((hkey v hv).symm.trans hvkey)) hne
  refine ⟨fun a ha v hv hvkey => ?_, fun b hok =>
    ⟨fun v hv k hk => ?_, fun k hk => ?_, fun k hk => ?_, hacked⟩⟩
  · obtain ⟨k, hk, -, -, haccounted⟩ := hacked a ha
    exact haccounted v hv (hvkey.trans hk)
  · rcases mem_append.mp hv with hv | hv
    · exact (h.others v hv k hk).imp id fun hnone y hy => hnone y (mem_cons_of_mem _ hy)
    · exact .inl (hown k ((hkey v hv).symm.trans hk))
  · refine ⟨(hanswered k hk).mono ?_ rfl, (h.current k hk).2⟩
    rintro (hfalse | ⟨-, -, f, herr⟩)
    · exact hfalse
    · cases hok.symm.trans herr
  · exact h.registered k (hkeeps.registered hk)

variable (hpolicy : job.onError ≠ .continues)
include hpolicy

/-- The current unit is finished: what the source hears is accounted, and if nothing is raised and
no more of the unit comes, the loop is in no unit. -/
theorem Open.finish (h : Open job calls s (current.bind (·.unit)) read rest) {whole : Bool}
    {result : Except Failure Unit} (hrun : finishUnit job.toPipeline current whole b s = (result, t)) :
    Accounts job calls t ∧ (result = .ok () →
      (∀ k, current.bind (·.unit) = some k → ∀ y ∈ rest, y.info.unit ≠ some k) →
      Open job calls t none read rest) := by
  cases hkey : current.bind (·.unit) with
  | none =>
    rw [finishUnit_none hkey] at hrun
    rw [hkey] at h
    cases hrun
    exact ⟨h.accounts, fun _ _ => h⟩
  | some key =>
    obtain ⟨info, rfl, hunit⟩ := bind_eq_some_iff.mp hkey
    rw [finishUnit_some hunit] at hrun
    rw [hkey] at h
    have hacks := (h.current key rfl).1.finish id hpolicy info none whole b
    obtain ⟨-, herased⟩ := finalizeBatchSourceUnit_run (p := job.toPipeline) key info none whole b s
    rw [hrun] at hacks herased
    refine ⟨fun a ha v hv hvkey => ?_, fun hok hnone => ⟨?_, ?_, ?_, ?_⟩⟩
    · rcases hacks a ha with hold | ⟨rfl, haccounted⟩
      · exact h.accounts a hold v hv hvkey
      · exact haccounted v hv (hvkey.trans hunit)
    · exact fun v hv k hk => .inr ((h.others v hv k hk).elim (hnone k) id)
    · exact nofun
    · rintro k ⟨o, ho⟩
      rw [herased hok, Dict.lookup_erase_ite] at ho
      split_ifs at ho with hk
      exact absurd (some.inj (h.registered k ⟨o, ho⟩)).symm hk
    · intro a ha
      rcases hacks a ha with hold | ⟨rfl, haccounted⟩
      · obtain ⟨k, hk, -, hleft, haccounted⟩ := h.acked a hold
        exact ⟨k, hk, by simp, hleft, haccounted⟩
      · exact ⟨key, hunit, by simp, hnone key rfl, haccounted⟩

variable (horder : SourceOrder (items.map (·.info))) (hitems : items = read ++ item :: rest)
include horder hitems

theorem Open.enter (h : Open job calls s (current.bind (·.unit)) read (item :: rest))
    (hrun : enterUnit job.toPipeline current item.info b s = (result, t)) :
    Accounts job calls t ∧ ∀ entered, result = .ok entered →
      Open job calls t (entered.bind (·.unit)) (read ++ [item]) (item :: rest) ∧
      ∀ k, item.info.unit = some k → entered.bind (·.unit) = some k := by
  have hread : ∀ {k}, (∃ x ∈ read, x.info.unit = some k) → ∃ x ∈ read ++ [item], x.info.unit = some k :=
    fun ⟨x, hx, hk⟩ => ⟨x, mem_append_left _ hx, hk⟩
  have hsame : Open job calls s (current.bind (·.unit)) (read ++ [item]) (item :: rest) :=
    ⟨h.others, fun k hk => ⟨(h.current k hk).1, hread (h.current k hk).2⟩, h.registered, h.acked⟩
  unfold enterUnit at hrun
  cases hunit : item.info.unit with
  | none =>
    simp only [hunit] at hrun
    cases hrun
    refine ⟨h.accounts, fun entered hok => ?_⟩
    cases hok
    exact ⟨hsame, nofun⟩
  | some key =>
    simp only [hunit] at hrun
    split_ifs at hrun with hcur
    · cases hrun
      refine ⟨h.accounts, fun entered hok => ?_⟩
      cases hok
      rw [hcur] at hsame
      rw [bind_some, hunit]
      exact ⟨hsame, fun k hk => hk⟩
    · rcases hfinish : finishUnit job.toPipeline current true b s with ⟨f | _, u⟩
      all_goals obtain ⟨haccounts, hopen⟩ := h.finish hpolicy hfinish
      · rw [bind_run_error hfinish] at hrun
        cases hrun
        exact ⟨haccounts, nofun⟩
      · rw [bind_run_ok hfinish] at hrun
        cases hrun
        refine ⟨haccounts, fun entered hok => ?_⟩
        cases hok
        rw [bind_some, hunit]
        refine ⟨(hopen rfl fun k hk => ?_).register hunit, fun k hk => hk⟩
        refine none_left horder hitems (h.current k hk).2 fun heq => hcur ?_
        rw [hk, ← heq, hunit]

theorem Open.leave (h : Open job calls s (current.bind (·.unit)) (read ++ [item]) rest)
    (hown : ∀ k, item.info.unit = some k → current.bind (·.unit) = some k)
    (hrun : leaveUnit job.toPipeline current item.info b s = (result, t)) :
    Accounts job calls t ∧ ∀ left, result = .ok left →
      Open job calls t (left.bind (·.unit)) (read ++ [item]) rest := by
  unfold leaveUnit at hrun
  split_ifs at hrun with hbroker
  · obtain ⟨key, hunit⟩ := isSome_iff_exists.mp hbroker.2
    have hcur : current.bind (·.unit) = (some item.info).bind (·.unit) := by
      rw [hown key hunit, bind_some, hunit]
    rw [hcur] at h
    rcases hfinish : finishUnit job.toPipeline (some item.info) true b s with ⟨f | _, u⟩
    all_goals obtain ⟨haccounts, hopen⟩ := h.finish hpolicy hfinish
    · rw [bind_run_error hfinish] at hrun
      cases hrun
      exact ⟨haccounts, nofun⟩
    · rw [bind_run_ok hfinish] at hrun
      cases hrun
      refine ⟨haccounts, fun left hok => ?_⟩
      cases hok
      refine hopen rfl fun k hk y hy => ?_
      have hplan : items.map (·.info) = read.map (·.info) ++ item.info :: rest.map (·.info) := by
        rw [hitems, map_append, map_cons]
      exact horder.broker hplan hbroker.1 hk y.info (mem_map_of_mem hy)
  · cases hrun
    refine ⟨h.accounts, fun left hok => ?_⟩
    cases hok
    exact h

end Chunk

structure Accounting (job : BatchJob ρ) (items : List (Item ρ)) (l : Loop ρ) (calls : List (SinkCall ρ)) :
    Prop where
  accounts : Accounts job calls l.run
  reading : l.phase = .reading → ∃ read, items = read ++ l.rest ∧
    Open job calls l.run (l.current.bind (·.unit)) read l.rest

theorem Accounting.start (items : List (Item ρ)) (hacks : s.acks = [])
    (hunits : s.delivery.units = ∅) : Accounting job items (Loop.start items s) [] := by
  have hopen : Open job [] s none [] items := by
    refine ⟨nofun, nofun, fun k hk => ?_, fun a ha => ?_⟩
    · obtain ⟨o, ho⟩ := hk
      rw [hunits] at ho
      cases ho
    · rw [hacks] at ha
      cases ha
  exact ⟨hopen.accounts, fun _ => ⟨[], rfl, hopen⟩⟩

variable {l : Loop ρ} (hpolicy : job.onError ≠ .continues)
include hpolicy

theorem Open.close (h : Open job calls l.run (l.current.bind (·.unit)) read rest) (whole : Bool)
    (b : Barrier) : Accounting job items (l.close job.toPipeline whole b) calls := by
  unfold Loop.close
  rcases hrun : finishUnit job.toPipeline l.current whole b l.run with ⟨f | _, t⟩
  all_goals exact ⟨(h.finish hpolicy hrun).1, nofun⟩

variable (horder : SourceOrder (items.map (·.info)))
include horder

theorem Open.chunk {item : Item ρ} (h : Open job calls l.run (l.current.bind (·.unit)) read (item :: rest))
    (hitems : items = read ++ item :: rest) (hphase : l.phase = .reading) (hrest : l.rest = item :: rest)
    (hstop : item.stop = false) (hclean : ∀ v ∈ l.calls job, v.Clean job) (last : Barrier) :
    Accounting job items (l.chunk job last item rest) (calls ++ l.calls job) := by
  unfold Loop.calls at hclean ⊢
  unfold Loop.chunk
  simp only [hphase, hrest, hstop] at hclean ⊢
  rcases henter : enterUnit job.toPipeline l.current item.info item.before l.run with ⟨f | entered, s⟩
  all_goals obtain ⟨haccounts, hentered⟩ := h.enter hpolicy horder hitems henter
  · refine ⟨?_, by simp⟩
    simpa using haccounts.abandon l.current
  · rw [henter] at hclean
    obtain ⟨hopen, hown⟩ := hentered entered rfl
    simp only [Bool.false_eq_true, if_false]
    rcases hrun : processChunk job item.info.unit item.work s with ⟨f | b, t⟩
    all_goals obtain ⟨haccounts, hprocessed⟩ := hopen.process hown (by simpa using hclean) hrun
    · exact ⟨haccounts.abandon entered, by simp⟩
    · dsimp only
      rcases hleave : leaveUnit job.toPipeline entered item.info item.after t with ⟨f | left, u⟩
      all_goals obtain ⟨haccounts, hleft⟩ := (hprocessed b rfl).leave hpolicy horder hitems hown hleave
      · exact ⟨haccounts.abandon entered, by simp⟩
      · have hnext := hleft left rfl
        dsimp only
        split_ifs
        · exact Open.close hpolicy hnext false last
        · exact ⟨haccounts, fun _ => ⟨read ++ [item], by rw [hitems, append_assoc]; rfl, hnext⟩⟩

theorem Accounting.step (h : Accounting job items l calls) (fault : Option Fault) (last : Barrier)
    (hclean : ∀ v ∈ l.calls job, v.Clean job) :
    Accounting job items (l.step job fault last) (calls ++ l.calls job) := by
  cases hphase : l.phase with
  | reading =>
    obtain ⟨read, hitems, hopen⟩ := h.reading hphase
    cases hrest : l.rest with
    | nil =>
      have hnone : l.calls job = [] := by simp only [Loop.calls, hphase, hrest]
      rw [Loop.step_nil hphase hrest, hnone, append_nil]
      cases fault with
      | none => exact hopen.close hpolicy true last
      | some fault => exact ⟨h.accounts.abandon l.current, nofun⟩
    | cons item rest =>
      rw [hrest] at hitems hopen
      rw [Loop.step_cons hphase hrest]
      cases hstop : item.stop with
      | true =>
        have hnone : l.calls job = [] := by simp only [Loop.calls, hphase, hrest, hstop, if_true]
        rw [if_pos rfl, hnone, append_nil]
        exact hopen.close hpolicy true last
      | false =>
        rw [if_neg (by simp)]
        exact hopen.chunk hpolicy horder hitems hphase hrest hstop hclean last
  | draining | ended | raised => simpa [Loop.step, Loop.calls, hphase] using h

theorem Accounting.run (fault : Option Fault) (last : Barrier) {x : Logged (Loop ρ) ρ}
    (h : Accounting job items x.state x.calls) (n : Nat)
    (hclean : ∀ v ∈ ((logStep job fault last)^[n] x).calls, v.Clean job) :
    Accounting job items ((logStep job fault last)^[n] x).state ((logStep job fault last)^[n] x).calls := by
  induction n with
  | zero => exact h
  | succ n ih =>
    rw [Function.iterate_succ_apply'] at hclean ⊢
    exact (ih fun v hv => hclean v (mem_append_left _ hv)).step hpolicy horder fault last
      fun v hv => hclean v (mem_append_right _ hv)

end Loop

/-! ## Threads -/

namespace Threads

variable (job : BatchJob ρ) (t : Threads ρ)

def calls : Event ρ → List (SinkCall ρ)
  | .execute n =>
    match t.inFlight[n]? with
    | some ⟨key, work, none⟩ => work.content.calls job key t.run
    | _ => []
  | _ => []

def submits : Event ρ → List Meta
  | .submit info _ => if reads job t then [info] else []
  | _ => []

def submitted (job : BatchJob ρ) : Threads ρ → List (Event ρ) → List Meta
  | _, [] => []
  | t, e :: events => t.submits job e ++ submitted job (t.step job e) events

def logStep (x : Logged (Threads ρ) ρ) (e : Event ρ) : Logged (Threads ρ) ρ :=
  ⟨x.state.step job e, x.calls ++ x.state.calls job e⟩

theorem logStep_state (x : Logged (Threads ρ) ρ) (events : List (Event ρ)) :
    (exec (logStep job) x events).state = exec (step job) x.state events := by
  induction events generalizing x with
  | nil => rfl
  | cons e events ih => exact ih _

theorem calls_subset (x : Logged (Threads ρ) ρ) (events : List (Event ρ)) :
    x.calls ⊆ (exec (logStep job) x events).calls :=
  exec_rel (R := fun x y => x.calls ⊆ y.calls) (fun _ => Subset.refl _)
    (fun _ _ _ => Subset.trans) (fun _ _ => subset_append_left _ _) x events

/-- Under "abort", an error of a chunk of the unit is on its way to the main thread. -/
def Raising (key : UnitKey) : Prop :=
  job.onError = .abort ∧ ∃ fut ∈ t.inFlight, fut.key = some key ∧ ∃ f, fut.result = some (.error f)

theorem step_phase {t : Threads ρ} (h : t.phase ≠ .reading) (e : Event ρ) :
    (t.step job e).phase ≠ .reading := by
  obtain ⟨w, rfl, hstep⟩ := exists_step job t e
  rw [← hstep]
  exact (w.step_move job e).phase h

theorem submitted_of_phase {t : Threads ρ} (h : t.phase ≠ .reading)
    (events : List (Event ρ)) : submitted job t events = [] := by
  induction events generalizing t with
  | nil => rfl
  | cons e events ih =>
    have hreads : reads job t = false := by
      unfold reads
      cases hphase : t.phase <;> simp_all
    have hsubmits : t.submits job e = [] := by
      cases e <;> simp [submits, hreads]
    rw [submitted, hsubmits, nil_append]
    exact ih (step_phase job h e)

end Threads

namespace Watched

variable {job : BatchJob ρ} {plan : List Meta} {w w' : Watched ρ} {calls : List (SinkCall ρ)}

structure Live (job : BatchJob ρ) (w : Watched ρ) (calls : List (SinkCall ρ)) : Prop where
  answered : ∀ u ∈ w.threads.units, Answered job calls (w.threads.Raising job u.key) w.threads.run u.key
  registered : ∀ k, w.threads.run.delivery.Registered k → ∃ u ∈ w.threads.units, u.key = k
  yielded : ∀ x ∈ w.yielded, ∀ k, x.unit = some k → (∃ u ∈ w.threads.units, u.key = k) ∨ w.NoneLeft k

structure Accounting (job : BatchJob ρ) (w : Watched ρ) (calls : List (SinkCall ρ)) : Prop where
  acked : ∀ a ∈ w.threads.run.acks, (∃ k, a.1.unit = some k) ∧
    ∀ v ∈ calls, v.key = a.1.unit → v.Accounted job
  seen : ∀ v ∈ calls, ∀ k, v.key = some k → ∃ x ∈ w.yielded, x.unit = some k
  live : (∀ f, w.threads.phase ≠ .raised f) → Live job w calls

theorem Accounting.start (plan : List Meta) {s : State ρ} (hacks : s.acks = [])
    (hunits : s.delivery.units = ∅) : Accounting job (start plan s) [] := by
  refine ⟨fun a ha => ?_, nofun, fun _ => ⟨nofun, fun k hk => ?_, nofun⟩⟩
  · have hnone : a ∈ s.acks := ha
    rw [hacks] at hnone
    cases hnone
  · obtain ⟨o, ho⟩ : s.delivery.Registered k := hk
    rw [hunits] at ho
    cases ho

section Moves

variable {fut : Future ρ} {futs : List (Future ρ)} {u : UnitEntry} {us : List UnitEntry}
  {t : Threads ρ}

theorem Oldest.raising (hold : w.Oldest job fut futs) (hflight : t.inFlight = futs) (k : UnitKey)
    (hraising : w.threads.Raising job k) : t.Raising job k := by
  obtain ⟨habort, g, hg, hkey, f, hf⟩ := hraising
  rw [hold.flight] at hg
  rcases mem_cons.mp hg with rfl | hg
  · exact absurd hf (hold.not_error habort f)
  · exact ⟨habort, g, hflight ▸ hg, hkey, f, hf⟩

variable (h : Accounting job w calls)
include h

theorem Accounting.raise (hrun : t.run = w.threads.run) {f : Failure} (hphase : t.phase = .raised f) :
    Accounting job { w with threads := t } calls :=
  ⟨by rw [hrun]; exact h.acked, h.seen, fun hcalm => absurd hphase (hcalm f)⟩

variable (hcalm : ∀ f, w.threads.phase ≠ .raised f)
include hcalm

theorem Accounting.frame (hrun : w'.threads.run = w.threads.run)
    (hunits : w'.threads.units.map (·.key) = w.threads.units.map (·.key))
    (hraising : ∀ k, w.threads.Raising job k → w'.threads.Raising job k) {new : List Meta}
    (hyielded : w'.yielded = w.yielded ++ new)
    (hnew : ∀ x ∈ new, ∀ k, x.unit = some k → ∃ u ∈ w.threads.units, u.key = k)
    (hrest : ∀ y ∈ w'.rest, y ∈ w.rest) : Accounting job w' calls := by
  have hlive := h.live hcalm
  have hkeys : ∀ k, (∃ u ∈ w'.threads.units, u.key = k) ↔ ∃ u ∈ w.threads.units, u.key = k := by
    intro k
    rw [← List.mem_map, hunits, List.mem_map]
  refine ⟨by rw [hrun]; exact h.acked, fun v hv k hk => ?_,
    fun _ => ⟨fun u hu => ?_, fun k hk => ?_, fun x hx k hk => ?_⟩⟩
  · obtain ⟨x, hx, hunit⟩ := h.seen v hv k hk
    exact ⟨x, hyielded ▸ mem_append_left _ hx, hunit⟩
  · obtain ⟨v, hv, hkey⟩ := (hkeys u.key).mp ⟨u, hu, rfl⟩
    rw [← hkey]
    exact (hlive.answered v hv).mono (hraising v.key) (by rw [hrun])
  · rw [hrun] at hk
    exact (hkeys k).mpr (hlive.registered k hk)
  · rw [hkeys]
    rw [hyielded] at hx
    rcases mem_append.mp hx with hold | hx
    · exact (hlive.yielded x hold k hk).imp id fun hnone y hy => hnone y (hrest y hy)
    · exact .inl (hnew x hx k hk)

theorem Accounting.quiet (hrun : t.run = w.threads.run)
    (hunits : t.units.map (·.key) = w.threads.units.map (·.key))
    (hraising : ∀ k, w.threads.Raising job k → t.Raising job k) :
    Accounting job { w with threads := t } calls :=
  h.frame hcalm hrun hunits hraising (append_nil _).symm nofun fun _ => id

section Submit

variable {info : Meta} {rest : List Meta} (hrest : w.rest = info :: rest)
include hrest

theorem Accounting.submit_known {units : List UnitEntry}
    (hunits : units.map (·.key) = w.threads.units.map (·.key))
    (hknown : ∀ k, info.unit = some k → ∃ u ∈ w.threads.units, u.key = k) (work : Work ρ) :
    Accounting job (w.submitted info work rest w.threads.run units) calls := by
  refine h.frame hcalm rfl hunits ?_ rfl (forall_mem_singleton.mpr hknown)
    fun y hy => hrest ▸ mem_cons_of_mem _ hy
  rintro k ⟨habort, fut, hfut, hraised⟩
  exact ⟨habort, fut, mem_append_left _ hfut, hraised⟩

theorem Accounting.submit_first (hsound : Sound plan w) {key : UnitKey} (hunit : info.unit = some key)
    (hfresh : ∀ u ∈ w.threads.units, u.key ≠ key) (work : Work ρ) :
    Accounting job (w.afterFirst info work rest key) calls := by
  have hlive := h.live hcalm
  obtain ⟨hkeys, hmarked⟩ := hsound.marked
  have hnew : ¬ w.threads.run.delivery.Registered key := by
    intro hreg
    obtain ⟨u, hu, hkey⟩ := hlive.registered key hreg
    exact hfresh u hu hkey
  have hcalls : ∀ v ∈ calls, v.key ≠ some key := by
    intro v hv hkey
    obtain ⟨x, hx, hxunit⟩ := h.seen v hv key hkey
    rcases hlive.yielded x hx key hxunit with ⟨u, hu, hukey⟩ | hnone
    · exact hfresh u hu hukey
    · exact hnone info (hrest ▸ mem_cons_self) hunit
  have hkept : ∀ k, (∃ u ∈ w.threads.units, u.key = k) →
      ∃ u ∈ markSubmitted w.threads.units ++ [⟨key, info, 1, info.broker⟩], u.key = k := by
    rintro k ⟨u, hu, rfl⟩
    obtain ⟨v, hv, hvkey⟩ := hsound.exists_marked hu
    exact ⟨v, mem_append_left _ hv, hvkey⟩
  refine ⟨h.acked, fun v hv k hk => ?_, fun _ => ⟨forall_mem_concat (fun u hu => ?_) (.new hnew hcalls info),
    fun k hk => ?_, forall_mem_concat (fun x hx k hk => ?_) fun k hk => ?_⟩⟩
  · obtain ⟨x, hx, hxunit⟩ := h.seen v hv k hk
    exact ⟨x, mem_append_left _ hx, hxunit⟩
  · obtain ⟨v, hv, rfl⟩ := hmarked u hu
    refine (hlive.answered v hv).mono ?_ ?_
    · rintro ⟨habort, fut, hfut, hraised⟩
      exact ⟨habort, fut, mem_append_left _ hfut, hraised⟩
    · show (Dict.setdefault w.threads.run.delivery.units key (.new info)).lookup v.key = _
      rw [Dict.lookup_setdefault, if_neg (hfresh v hv)]
  · obtain ⟨o, ho⟩ : (w.threads.run.delivery.registerUnit key info).Registered k := hk
    by_cases hkey : k = key
    · exact ⟨_, mem_concat_self, hkey.symm⟩
    · rw [Delivery.registerUnit, Dict.lookup_setdefault, if_neg hkey] at ho
      exact hkept k (hlive.registered k ⟨o, ho⟩)
  · exact (hlive.yielded x hx k hk).imp (hkept k) fun hnone => hnone.tail hrest
  · rw [hunit] at hk
    exact .inl ⟨_, mem_concat_self, some.inj hk⟩

end Submit

theorem Accounting.retired (hold : w.Oldest job fut futs) (hsound : Sound plan w)
    (hpolicy : job.onError ≠ .continues) (hunits : w.threads.units = u :: us)
    (hkey : fut.key = some u.key) (hlast : u.remaining - 1 = 0 ∧ u.submitted = true) (b : Barrier) :
    Accounting job (w.afterRetire job futs u us b) calls := by
  have hlive := h.live hcalm
  obtain ⟨hu, hus⟩ := hsound.others hunits
  obtain ⟨hunit, -, hnone⟩ := hsound.entry u hu
  have hquiet : ¬ w.threads.Raising job u.key := by
    intro hraising
    obtain ⟨-, g, hg, hgkey, -⟩ := hold.raising (t := { w.threads with inFlight := futs }) rfl _ hraising
    exact hsound.gone hold.toDone hunits hkey hlast.1 g hg hgkey
  have hacks := (hlive.answered u hu).finish hquiet hpolicy u.info (w.threads.taken.lookup u.key) true b
  obtain ⟨-, herased⟩ := finalizeBatchSourceUnit_run (p := job.toPipeline) u.key u.info
    (w.threads.taken.lookup u.key) true b w.threads.run
  unfold afterRetire retireUnit
  rcases hrun : finalizeBatchSourceUnit job.toPipeline u.key u.info (w.threads.taken.lookup u.key) true b
      w.threads.run with ⟨result, s⟩
  rw [hrun] at hacks herased
  have hacked : ∀ a ∈ s.acks, (∃ k, a.1.unit = some k) ∧ ∀ v ∈ calls, v.key = a.1.unit → v.Accounted job := by
    intro a ha
    rcases hacks a ha with hold | ⟨hown, haccounted⟩
    · exact h.acked a hold
    · rw [hown, hunit]
      exact ⟨⟨u.key, rfl⟩, haccounted⟩
  cases result with
  | error f => exact ⟨hacked, h.seen, fun hphase => absurd rfl (hphase f)⟩
  | ok =>
    have hlookup : ∀ k, s.delivery.units.lookup k =
        if k = u.key then none else w.threads.run.delivery.units.lookup k := by
      intro k
      rw [herased rfl, Dict.lookup_erase_ite]
    refine ⟨hacked, h.seen, fun _ => ⟨fun v hv => ?_, fun k hk => ?_, fun x hx k hk => ?_⟩⟩
    · refine (hlive.answered v (hus v hv).1).mono (hold.raising rfl _) ?_
      exact (hlookup v.key).trans (if_neg (hus v hv).2)
    · obtain ⟨o, ho⟩ := hk
      rw [hlookup] at ho
      split_ifs at ho with hne
      obtain ⟨v, hv, rfl⟩ := hlive.registered k ⟨o, ho⟩
      rw [hunits] at hv
      rcases mem_cons.mp hv with rfl | hv
      · exact absurd rfl hne
      · exact ⟨v, hv, rfl⟩
    · rcases hlive.yielded x hx k hk with ⟨v, hv, rfl⟩ | hleft
      · rw [hunits] at hv
        rcases mem_cons.mp hv with rfl | hv
        · exact .inr (hnone hlast.2)
        · exact .inl ⟨v, hv, rfl⟩
      · exact .inr hleft

end Moves

theorem Accounting.processed (h : Accounting job w calls) (hsound : Sound plan w) {n : Nat}
    {key : Option UnitKey} {work : Work ρ} (hn : w.threads.inFlight[n]? = some ⟨key, work, none⟩)
    (hclean : ∀ v ∈ work.content.calls job key w.threads.run, v.Clean job) :
    Accounting job (w.afterExecute job n key work) (calls ++ work.content.calls job key w.threads.run) := by
  have hmem := mem_of_getElem? hn
  obtain ⟨hlt, -⟩ := List.getElem?_eq_some_iff.mp hn
  have hkeeps : Keeps w.threads.run (processChunk job key work w.threads.run).2 :=
    processChunk_keeps key work w.threads.run
  refine ⟨fun a ha => ?_, fun v hv k hk => ?_, fun hcalm => ?_⟩
  · rw [hkeeps.acks] at ha
    obtain ⟨⟨k, hunit⟩, haccounted⟩ := h.acked a ha
    refine ⟨⟨k, hunit⟩, fun v hv hkey => ?_⟩
    rcases mem_append.mp hv with hv | hv
    · exact haccounted v hv hkey
    · -- nothing of an acknowledged unit is in flight
      have hmentioned : a.1 ∈ w.threads.run.mentioned := mem_append_right _ (mem_map_of_mem ha)
      have hfree := (hsound.finished a.1 hmentioned k hunit).2 _ hmem
      exact absurd ((Content.mem_calls hv).symm.trans (hkey.trans hunit)) hfree
  · rcases mem_append.mp hv with hv | hv
    · exact h.seen v hv k hk
    · obtain ⟨u, hu, rfl⟩ := hsound.tracked _ hmem k ((Content.mem_calls hv).symm.trans hk)
      exact (hsound.entry u hu).2.1
  · have hlive := h.live hcalm
    refine ⟨fun u hu => ?_, fun k hk => hlive.registered k (hkeeps.registered hk), hlive.yielded⟩
    refine ((hlive.answered u hu).process key work hclean).mono ?_ rfl
    rintro (⟨habort, fut, hfut, hkey, f, hf⟩ | ⟨hkey, habort, f, hf⟩)
    · exact ⟨habort, fut, mem_set_of_result hn hfut (by simp [hf]) _, hkey, f, hf⟩
    · exact ⟨habort, _, mem_set hlt _, hkey, f, by rw [hf]⟩

theorem Move.accounting {e : Event ρ} (hmove : Move job w e w') (h : Accounting job w calls)
    (hsound : Sound plan w) (hpolicy : job.onError ≠ .continues)
    (hclean : ∀ v ∈ w.threads.calls job e, v.Clean job) :
    Accounting job w' (calls ++ w.threads.calls job e) := by
  have hquiet : (∀ n, e = .execute n → ∀ key work, w.threads.inFlight[n]? ≠ some ⟨key, work, none⟩) →
      w.threads.calls job e = [] := by
    intro hexecute
    cases e with
    | execute n =>
      rcases hn : w.threads.inFlight[n]? with _ | ⟨key, work, _ | result⟩
      · simp only [Threads.calls, hn]
      · exact absurd hn (hexecute n rfl key work)
      · simp only [Threads.calls, hn]
    | _ => rfl
  cases hmove
  case processed hn =>
    simp only [Threads.calls, hn] at hclean ⊢
    exact h.processed hsound hn hclean
  case idle hexecute => rwa [hquiet hexecute, append_nil]
  all_goals rw [hquiet nofun, append_nil]
  case unitless hreads hrest hunit =>
    exact h.submit_known (not_raised hreads) hrest rfl (fun k hk => by cases hunit.symm.trans hk) _
  case again hreads hrest hunits hunit =>
    refine h.submit_known (not_raised hreads) hrest (by rw [hunits]; simp) (fun k hk => ?_) _
    rw [hunit] at hk
    exact ⟨_, hunits ▸ mem_concat_self, some.inj hk⟩
  case first hreads hrest hunit hlast =>
    exact h.submit_first (not_raised hreads) hrest hsound hunit
      (fun u hu hkey => hsound.fresh hrest hunit hlast u hu (hkey ▸ hunit)) _
  case raised => exact h.raise rfl rfl
  case passed hold _ => exact h.quiet hold.not_raised rfl rfl (hold.raising rfl)
  case counted hold hunits _ _ => exact h.quiet hold.not_raised rfl (by rw [hunits]; rfl) (hold.raising rfl)
  case retired hold hunits hkey hlast =>
    exact h.retired hold.not_raised hold hsound hpolicy hunits hkey hlast _
  case limited hreads => exact h.quiet (not_raised hreads) rfl rfl fun _ => id
  case closed hreads => exact h.quiet (not_raised hreads) rfl hsound.marked.1 fun _ => id
  case broken => exact h.raise rfl rfl
  case finished hphase _ => exact h.quiet (by simp [hphase]) rfl rfl fun _ => id

section

variable {events : List (Event ρ)} {e : Event ρ} (hrest : w.rest = w.threads.submitted job (e :: events))
include hrest

theorem step_submitted : (w.step job e).threads = w.threads.step job e ∧
      (w.step job e).rest = (w.threads.step job e).submitted job events := by
  rw [Threads.submitted] at hrest
  cases e with
  | submit info work =>
    cases hreads : reads job w.threads with
    | true =>
      simp only [Threads.submits, hreads, if_true, cons_append, nil_append] at hrest
      simp [step, hrest, hreads]
    | false =>
      have hidle := step_submit_idle hreads info work
      have hsame : w.step job (.submit info work) = w := by
        rw [step]
        split
        · rfl
        · rw [if_neg fun hboth => by simp [hreads] at hboth]
      rw [hidle] at hrest ⊢
      rw [hsame]
      exact ⟨rfl, by simpa [Threads.submits, hreads] using hrest⟩
  | execute n =>
    have hthreads : (w.step job (.execute n)).threads = w.threads.step job (.execute n) := by
      rcases hn : w.threads.inFlight[n]? with _ | ⟨key, work, _ | result⟩ <;>
        simp only [step, Threads.step, execute, hn]
    have hkept : (w.step job (.execute n)).rest = w.rest := by
      rw [step]
      split <;> rfl
    exact ⟨hthreads, hkept.trans hrest⟩
  | drain | limit | close | finish => exact ⟨rfl, hrest⟩

theorem orderly_of_submitted (hreads : reads job w.threads = true) : w.Orderly e := by
  cases e with
  | close fault =>
    cases fault with
    | some fault => trivial
    | none =>
      have hphase : (w.threads.step job (.close none)).phase ≠ .reading := by
        unfold reads at hreads
        cases hphase : w.threads.phase <;> simp_all [Threads.step]
      have hnil : w.rest = [] := by
        rw [hrest, Threads.submitted, Threads.submitted_of_phase job hphase]
        rfl
      intro x y key hx hy
      rw [hnil] at hy
      cases hy
  | _ => trivial

end

theorem Accounting.run (hpolicy : job.onError ≠ .continues) (horder : SourceOrder plan)
    (events : List (Event ρ)) (h : Accounting job w calls) (hsound : Sound plan w)
    (hrest : w.rest = w.threads.submitted job events)
    (hclean : ∀ v ∈ (exec (Threads.logStep job) ⟨w.threads, calls⟩ events).calls, v.Clean job) :
    ∃ w', w'.threads = (exec (Threads.logStep job) ⟨w.threads, calls⟩ events).state ∧
      Accounting job w' (exec (Threads.logStep job) ⟨w.threads, calls⟩ events).calls := by
  induction events generalizing w calls with
  | nil => exact ⟨w, rfl, h⟩
  | cons e events ih =>
    obtain ⟨hthreads, hnext⟩ := step_submitted hrest
    have hown : ∀ v ∈ w.threads.calls job e, v.Clean job := fun v hv =>
      hclean v (Threads.calls_subset job _ events (mem_append_right _ hv))
    have hrun : exec (Threads.logStep job) ⟨w.threads, calls⟩ (e :: events) =
        exec (Threads.logStep job) ⟨(w.step job e).threads, calls ++ w.threads.calls job e⟩ events := by
      rw [hthreads]
      rfl
    rw [hrun] at hclean ⊢
    exact ih ((w.step_move job e).accounting h hsound hpolicy hown)
      ((w.step_move job e).sound horder (orderly_of_submitted hrest) hsound)
      (by rw [hnext, hthreads]) hclean

end Watched

/-! ## Both loops -/

/-- Whatever the loop, at every point of a run: if the source yields each unit's chunks one after the
other and every call made is clean, then each record that a sink accepted from a chunk of an
acknowledged unit is in a payload the sink took or in an envelope. -/
theorem acked_units_accounted (job : BatchJob ρ) (breakers : Dict String (Nat × Nat))
    (hpolicy : job.onError ≠ .continues) :
    (∀ (items : List (Item ρ)) (fault : Option Fault) (last : Barrier) (n : Nat),
      SourceOrder (items.map (·.info)) →
      (∀ v ∈ ((Loop.logStep job fault last)^[n]
        ⟨.start items { new with breakers := breakers }, []⟩).calls, v.Clean job) →
      ∀ a ∈ ((Loop.logStep job fault last)^[n]
          ⟨.start items { new with breakers := breakers }, []⟩).state.run.acks,
        ∀ v ∈ ((Loop.logStep job fault last)^[n]
            ⟨.start items { new with breakers := breakers }, []⟩).calls,
          v.key = a.1.unit → v.Accounted job) ∧
    ∀ events : List (Event ρ),
      SourceOrder ((Threads.start { new with breakers := breakers }).submitted job events) →
      (∀ v ∈ (exec (Threads.logStep job)
        ⟨.start { new with breakers := breakers }, []⟩ events).calls, v.Clean job) →
      ∀ a ∈ (exec (Threads.logStep job)
          ⟨.start { new with breakers := breakers }, []⟩ events).state.run.acks,
        ∀ v ∈ (exec (Threads.logStep job)
            ⟨.start { new with breakers := breakers }, []⟩ events).calls,
          v.key = a.1.unit → v.Accounted job := by
  constructor
  · intro items fault last n horder hclean
    have hstart : Loop.Accounting job items (.start items { new with breakers := breakers }) [] :=
      .start items rfl rfl
    exact (Loop.Accounting.run hpolicy horder fault last (x := ⟨_, []⟩) hstart n hclean).accounts
  · intro events horder hclean
    obtain ⟨w, hthreads, haccounting⟩ := Accounting.run hpolicy horder events
      (w := .start _ { new with breakers := breakers }) (.start _ rfl rfl) (.start _ rfl) rfl hclean
    intro a ha
    exact (haccounting.acked a (by rw [hthreads]; exact ha)).2

def Answers.secondDown : Answers :=
  { Answers.quiet with write := fun i _ _ => if i = 1 then some "down" else none }

def oneChunk : List (Item Nat) :=
  [⟨⟨some ("/in/a", "a"), false, none, false⟩, false, ⟨[], .parsed [1] .secondDown, true, false⟩,
    .quiet, .quiet⟩]

def oneChunkRun (breakers : Dict String (Nat × Nat)) : Logged (Loop Nat) Nat :=
  (Loop.logStep (dlqJob 1 2 false) none .quiet)^[2]
    ⟨.start oneChunk { new with breakers := breakers }, []⟩

theorem oneChunk_order : SourceOrder (oneChunk.map (·.info)) := by
  have hone : ∀ {pre post : List Meta} {info : Meta}, oneChunk.map (·.info) = pre ++ info :: post →
      post = [] := by
    intro pre post info h
    have hlength := congrArg length h
    simp only [oneChunk, map_cons, map_nil, length_append, length_cons,
      length_nil] at hlength
    exact length_eq_zero_iff.mp (by omega)
  refine ⟨fun h _ _ => ?_, fun h _ _ => ?_⟩
  · rw [hone h]; simp
  · rw [hone h]; simp

theorem acked_units_accounted_one_chunk :
    (∃ a ∈ (oneChunkRun ∅).state.run.acks, a.2 = .dlq) ∧
      ∀ a ∈ (oneChunkRun ∅).state.run.acks, ∀ v ∈ (oneChunkRun ∅).calls, v.key = a.1.unit →
        v.Accounted (dlqJob 1 2 false) := by
  refine ⟨by decide +kernel, (acked_units_accounted (dlqJob 1 2 false) ∅ (by decide)).1 oneChunk none .quiet 2
    oneChunk_order fun v hv => ?_⟩
  obtain rfl := mem_singleton.mp hv
  refine ⟨fun _ _ _ => rfl, fun i sink hi => ?_⟩
  rcases i with _ | _ | i <;> cases hi
  all_goals exact ⟨fun _ => by decide +kernel, fun _ => ⟨_, rfl⟩,
    fun _ _ k hk => absurd (show k + 1 < 1 from hk) (by omega)⟩

/-- A file of two chunks. The sink cannot be written to when the second is delivered. -/
def skippedThenFailed : List (Item Nat) :=
  let info : Meta := ⟨some ("/in/a", "a"), false, none, false⟩
  let later := { Answers.quiet with checkedAt := fun _ => 61, write := fun _ _ _ => some "down" }
  [⟨info, false, ⟨[], .parsed [1] .quiet, true, false⟩, .quiet, .quiet⟩,
    ⟨info, false, ⟨[], .parsed [2] later, true, false⟩, .quiet, .quiet⟩]

/-- The breaker of the only sink is open for the first chunk and has expired at the second, which
the DLQ takes: the unit is acknowledged as dead-lettered, and the record of the first chunk is
neither written nor in any envelope. -/
theorem acked_unit_unaccounted :
    let x := (Loop.logStep (dlqJob 1 1 false) none .quiet)^[3]
      ⟨.start skippedThenFailed { new with breakers := (∅ : Dict String _).insert "p:db:0" (1, 60) }, []⟩
    x.state.run.effects = [.skipped 0 [1], .enveloped (some 0) .sink [2]] ∧
      ∃ a ∈ x.state.run.acks, a.2 = .dlq ∧
        ∃ v ∈ x.calls, v.key = a.1.unit ∧ v.records = [1] ∧ ¬ v.Accounted (dlqJob 1 1 false) := by
  refine ⟨by decide +kernel, _, mem_cons_self, rfl, _, mem_cons_self, rfl, rfl, fun h => ?_⟩
  have hle := (h 0 _ rfl).length_le
  exact absurd hle (by decide +kernel)

end Tram.Executor
