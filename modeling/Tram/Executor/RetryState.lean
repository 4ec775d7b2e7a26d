import Tram.Transforms.CounterDelta
import Tram.Transforms.WindowCells
import Tram.Transforms.WindowConservation

/-! # The state a retry starts from

A run loads its transform state once. When an attempt fails, `_batch_run_inner` builds the transforms
anew and hydrates them from the same in-run snapshot. The attempt goes through the chain record by
record; the failure may come after any of them. -/

namespace Tram.Executor

open List

open WindowAggregate (Cells Emitted Entry Follows SharedBlob Traced)

/-- A transform; `ω` is what a window_aggregate holds. Those without state may read the metadata of
the chunk. -/
inductive Built (ω : Type) where
  | stateless (apply : Record → List Record → Option (List Record))
  | counter (py : CounterDelta.Python) (cfg : CounterDelta.Config) (s : CounterDelta.State)
  | window (py : WindowAggregate.Python) (cfg : WindowAggregate.Config) (render : Emitted → Record) (s : ω)

section

variable {ω : Type}
  (fold : WindowAggregate.Python → WindowAggregate.Config → ω → List Record → Option (List Emitted) × ω)

/-- `t.apply(records)` after `set_runtime_meta`; `none` where it raises. -/
def Built.apply (runtimeMeta : Record) : Built ω → List Record → Option (List Record) × Built ω
  | .stateless f, records => (f runtimeMeta records, .stateless f)
  | .counter py cfg s, records =>
    let result := (s.setRuntimeMeta runtimeMeta).apply py cfg records
    (result.1.toOption, .counter py cfg result.2)
  | .window py cfg render s, records =>
    let result := fold py cfg s records
    (result.1.map (·.map render), .window py cfg render result.2)

/-- One record through the chain; the transforms behind one that raises do not see it. -/
def applyChain (runtimeMeta : Record) :
    List (Built ω) → List Record → Option (List Record) × List (Built ω)
  | [], records => (some records, [])
  | t :: ts, records =>
    match t.apply fold runtimeMeta records with
    | (none, t) => (none, t :: ts)
    | (some out, t) =>
      let rest := applyChain runtimeMeta ts out
      (rest.1, t :: rest.2)

/-- The records an attempt reads, each with the metadata of its chunk: what survives of each, and
the transforms afterwards. Under "retry" a record on which a transform raises is lost. -/
def attempt (chain : List (Built ω)) :
    List (Record × Record) → List (Option (List Record)) × List (Built ω)
  | [] => ([], chain)
  | (runtimeMeta, record) :: rest =>
    let first := applyChain fold runtimeMeta chain [record]
    let others := attempt first.2 rest
    (first.1 :: others.1, others.2)

end

/-- A configured transform with its part of the in-run snapshot. -/
inductive Configured where
  | stateless (apply : Record → List Record → Option (List Record))
  | counter (py : CounterDelta.Python) (cfg : CounterDelta.Config) (blob : CounterDelta.Table)
  | window (py : WindowAggregate.Python) (cfg : WindowAggregate.Config) (render : Emitted → Record)
      (blob : SharedBlob) (cells : Nat → Entry)

inductive Value where
  | none
  | counter (blob : CounterDelta.Table)
  | window (blob : WindowAggregate.State.Blob)

namespace Configured

def value : Configured → Value
  | .stateless _ => .none
  | .counter _ _ blob => .counter blob
  | .window _ _ _ blob cells => .window (blob.value cells)

def build : Configured → Built Cells
  | .stateless f => .stateless f
  | .counter py cfg blob => .counter py cfg (.setState blob)
  | .window py cfg render blob cells => .window py cfg render (.setState blob cells)

def reference : Configured → Built Traced
  | .stateless f => .stateless f
  | .counter py cfg blob => .counter py cfg (.setState blob)
  | .window py cfg render blob cells => .window py cfg render ⟨.hydrate (blob.value cells), []⟩

/-- The snapshot with what a transform that was hydrated from it has left in its cells. -/
def leave : Configured → Built Cells → Configured
  | .window py cfg render blob _, .window _ _ _ c =>
    .window py cfg render blob fun n => c.cell (.loaded n)
  | p, _ => p

/-- The transform counted no record into a window that is open in the snapshot. -/
def Spared : Configured → Built Traced → Prop
  | .window _ _ _ blob cells, .window _ _ _ t =>
    ∀ w ∈ t.counted, Nested.look (WindowAggregate.State.hydrate (blob.value cells)).windows w.1 w.2 = none
  | _, _ => True

end Configured

def attempted (snapshot : List Configured) (records : List (Record × Record)) :
    List (Option (List Record)) × List (Built Cells) :=
  attempt Cells.apply (snapshot.map (·.build)) records

def attemptedOnCopies (snapshot : List Configured) (records : List (Record × Record)) :
    List (Option (List Record)) × List (Built Traced) :=
  attempt Traced.apply (snapshot.map (·.reference)) records

def snapshotAfter (snapshot : List Configured) (records : List (Record × Record)) : List Configured :=
  zipWith Configured.leave snapshot (attempted snapshot records).2

/-! ## Attempts over cells and over copies -/

/-- Position by position: the snapshot, the transform over its cells, and the one over copies. -/
inductive Tracks : List Configured → List (Built Cells) → List (Built Traced) → Prop
  | nil : Tracks [] [] []
  | stateless {ps ts rs} (f : Record → List Record → Option (List Record)) (h : Tracks ps ts rs) :
      Tracks (.stateless f :: ps) (.stateless f :: ts) (.stateless f :: rs)
  | counter {ps ts rs} (py : CounterDelta.Python) (cfg : CounterDelta.Config)
      (blob : CounterDelta.Table) (s : CounterDelta.State) (h : Tracks ps ts rs) :
      Tracks (.counter py cfg blob :: ps) (.counter py cfg s :: ts) (.counter py cfg s :: rs)
  | window {ps ts rs} (py : WindowAggregate.Python) (cfg : WindowAggregate.Config)
      (render : Emitted → Record) {blob : SharedBlob} {cells : Nat → Entry} {c : Cells} {t : Traced}
      (hfollows : Follows cfg (.setState blob cells) c t) (h : Tracks ps ts rs) :
      Tracks (.window py cfg render blob cells :: ps) (.window py cfg render c :: ts)
        (.window py cfg render t :: rs)

namespace Tracks

theorem start (snapshot : List Configured) :
    Tracks snapshot (snapshot.map (·.build)) (snapshot.map (·.reference)) := by
  induction snapshot with
  | nil => exact .nil
  | cons p ps ih =>
    cases p with
    | stateless f => exact .stateless f ih
    | counter py cfg blob => exact .counter py cfg blob _ ih
    | window py cfg render blob cells => exact .window py cfg render (.setState blob cells) ih

variable {ps : List Configured} {ts : List (Built Cells)} {rs : List (Built Traced)}

section

variable (h : Tracks ps ts rs)
include h

theorem applyChain (runtimeMeta : Record) (records : List Record) :
    (applyChain Cells.apply runtimeMeta ts records).1 =
      (applyChain Traced.apply runtimeMeta rs records).1 ∧
    Tracks ps (applyChain Cells.apply runtimeMeta ts records).2
      (applyChain Traced.apply runtimeMeta rs records).2 := by
  induction h generalizing records with
  | nil => exact ⟨rfl, .nil⟩
  | stateless f h ih =>
    rw [Executor.applyChain, Executor.applyChain, Built.apply, Built.apply]
    cases f runtimeMeta records with
    | none => exact ⟨rfl, .stateless f h⟩
    | some out => exact ⟨(ih out).1, .stateless f (ih out).2⟩
  | counter py cfg blob s h ih =>
    rw [Executor.applyChain, Executor.applyChain, Built.apply, Built.apply]
    cases ((s.setRuntimeMeta runtimeMeta).apply py cfg records).1.toOption with
    | none => exact ⟨rfl, .counter py cfg blob _ h⟩
    | some out => exact ⟨(ih out).1, .counter py cfg blob _ (ih out).2⟩
  | window py cfg render hfollows h ih =>
    rename_i c t
    obtain ⟨hout, hnext⟩ := hfollows.apply py records
    rw [Executor.applyChain, Executor.applyChain, Built.apply, Built.apply]
    rw [hout]
    cases (t.apply py cfg records).1 with
    | none => exact ⟨rfl, .window py cfg render hnext h⟩
    | some out => exact ⟨(ih _).1, .window py cfg render hnext (ih _).2⟩

theorem attempt (records : List (Record × Record)) :
    (attempt Cells.apply ts records).1 = (attempt Traced.apply rs records).1 ∧
      Tracks ps (attempt Cells.apply ts records).2 (attempt Traced.apply rs records).2 := by
  induction records generalizing ts rs with
  | nil => exact ⟨rfl, h⟩
  | cons entry rest ih =>
    obtain ⟨hfirst, hnext⟩ := h.applyChain entry.1 [entry.2]
    obtain ⟨hrest, hlast⟩ := ih hnext
    exact ⟨congrArg₂ cons hfirst hrest, hlast⟩

theorem value_eq_iff :
    (zipWith Configured.leave ps ts).map Configured.value = ps.map Configured.value ↔
      Forall₂ Configured.Spared ps rs := by
  induction h with
  | nil => exact iff_of_true rfl .nil
  | stateless f h ih =>
    rw [zipWith_cons_cons, map_cons, map_cons, cons.injEq, ih, forall₂_cons]
    exact and_congr (iff_of_true rfl trivial) Iff.rfl
  | counter py cfg blob s h ih =>
    rw [zipWith_cons_cons, map_cons, map_cons, cons.injEq, ih, forall₂_cons]
    exact and_congr (iff_of_true rfl trivial) Iff.rfl
  | window py cfg render hfollows h ih =>
    rw [zipWith_cons_cons, map_cons, map_cons, cons.injEq, ih, forall₂_cons]
    exact and_congr ((iff_of_eq (Value.window.injEq _ _)).trans hfollows.value_eq_iff) Iff.rfl

theorem reference_eq
    (hvalue : (zipWith Configured.leave ps ts).map Configured.value = ps.map Configured.value) :
    (zipWith Configured.leave ps ts).map Configured.reference = ps.map Configured.reference := by
  induction h with
  | nil => rfl
  | stateless _ _ ih | counter _ _ _ _ _ ih => exact congrArg (_ :: ·) (ih (cons.inj hvalue).2)
  | window py cfg render hfollows h ih =>
    obtain ⟨hfirst, hrest⟩ := cons.inj hvalue
    refine congrArg₂ cons ?_ (ih hrest)
    simp only [Configured.leave, Configured.reference, Value.window.inj hfirst]

end

end Tracks

/-- Two transforms in the same state: the windows are open with equal entries, whatever the cells. -/
def Built.Agree : Built Cells → Built Cells → Prop
  | .stateless f, .stateless f' => f = f'
  | .counter _ _ s, .counter _ _ s' => s = s'
  | .window _ _ _ c, .window _ _ _ c' =>
    c.maxTs = c'.maxTs ∧ c.dueHeap = c'.dueHeap ∧ ∀ key stop,
      (Nested.look c.windows key stop).map c.cell = (Nested.look c'.windows key stop).map c'.cell
  | _, _ => False

theorem Tracks.agree {ps ps' : List Configured} {ts ts' : List (Built Cells)} {rs : List (Built Traced)}
    (h : Tracks ps ts rs) (h' : Tracks ps' ts' rs) : Forall₂ Built.Agree ts ts' := by
  induction h generalizing ps' ts' with
  | nil =>
    cases h'
    exact .nil
  | stateless f h ih =>
    cases h' with
    | stateless _ h' => exact .cons rfl (ih h')
  | counter py cfg blob s h ih =>
    cases h' with
    | counter _ _ _ _ h' => exact .cons rfl (ih h')
  | window py cfg render hfollows h ih =>
    cases h' with
    | window _ _ _ hfollows' h' =>
      exact .cons ⟨hfollows.sim.maxTs.trans hfollows'.sim.maxTs.symm,
        hfollows.sim.dueHeap.trans hfollows'.sim.dueHeap.symm, fun key stop =>
          (hfollows.sim.view key stop).trans (hfollows'.sim.view key stop).symm⟩ (ih h')

/-- For every chain of transforms, every snapshot and every attempt that fails after reading
`first`: the snapshot reads as it was loaded, and the next attempt has the survivors and the states
of a run that never failed, exactly if the failed attempt counted no record into a window that is
open in the snapshot. -/
theorem retry_starts_from_snapshot (snapshot : List Configured) (first : List (Record × Record)) :
    ((snapshotAfter snapshot first).map (·.value) = snapshot.map (·.value) ∧
      ∀ second, (attempted (snapshotAfter snapshot first) second).1 = (attempted snapshot second).1 ∧
        Forall₂ Built.Agree (attempted (snapshotAfter snapshot first) second).2
          (attempted snapshot second).2) ↔
    Forall₂ Configured.Spared snapshot (attemptedOnCopies snapshot first).2 := by
  have hfirst := ((Tracks.start snapshot).attempt first).2
  have hiff := hfirst.value_eq_iff
  refine ⟨fun h => hiff.mp h.1, fun hspared => ⟨hiff.mpr hspared, fun second => ?_⟩⟩
  obtain ⟨hretried, htracks⟩ := (Tracks.start (snapshotAfter snapshot first)).attempt second
  obtain ⟨hnever, htracks'⟩ := (Tracks.start snapshot).attempt second
  have hcopies : (snapshotAfter snapshot first).map (·.reference) = snapshot.map (·.reference) :=
    hfirst.reference_eq (hiff.mpr hspared)
  rw [hcopies] at hretried htracks
  exact ⟨hretried.trans hnever.symm, htracks.agree htracks'⟩

def hostCounts : Configured :=
  .window WindowAggregate.plainPython WindowAggregate.tenSeconds
    (fun em => [("n", .int em.sampleCount)]) ⟨some 1, [("a", [("10", 0)])], by decide⟩
    fun _ => ⟨0, 10, [.str "a"], 1, [.count 1]⟩

/-- The first attempt reads a sample and fails. The retry reads it again, and a sample that completes the
window: the window has three samples, and would have two had the first attempt not failed. -/
theorem retry_counts_twice :
    let sample (t : Int) : Record × Record := ([], WindowAggregate.sampleAt "a" t)
    let counts (out : List (Option (List Record))) : List (Option Int) :=
      (out.filterMap id).flatten.map fun r => (r.getPathD ["n"]).toInt?
    counts (attempted (snapshotAfter [hostCounts] [sample 2]) [sample 2, sample 12]).1 = [some 3] ∧
      counts (attempted [hostCounts] [sample 2, sample 12]).1 = [some 2] := by
  decide +kernel

end Tram.Executor
