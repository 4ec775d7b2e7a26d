import Tram.Lib.Run
import Tram.Placement.Redispatch

/-! # The pool's books of its runs

Three dictionaries say where the runs of a pipeline are: the worker and the pipeline of each tracked
run, and the workers of each pipeline. A completion and the loss of a worker prune the third by
different rules. -/

namespace Tram.Placement

open List Dict AList

/-- What a `WorkerPool` keeps of the runs it tracks. -/
structure Books where
  /-- `{run_id: worker_url}` -/
  assignments : Dict String String
  /-- `{run_id: pipeline_name}` -/
  runPipelines : Dict String String
  /-- `{pipeline_name: [worker_url, ...]}` -/
  pipelineWorkers : Dict String (List String)
  health : Dict String Health

namespace Books

def enlist (workerUrl : String) (workers : List String) : List String :=
  if workerUrl ∈ workers then workers else workers ++ [workerUrl]

def track (b : Books) (pipelineName runId workerUrl : String) : Books where
  assignments := b.assignments.insert runId workerUrl
  runPipelines := b.runPipelines.insert runId pipelineName
  pipelineWorkers := modify (setdefault b.pipelineWorkers pipelineName []) pipelineName
    (enlist workerUrl)
  health := modify b.health workerUrl fun h => { h with activeRuns := h.activeRuns + 1 }

/-- The end of `_dispatch_to_worker`, once the worker has accepted the run. -/
def dispatched (b : Books) (pipelineName runId workerUrl : String) : Books :=
  b.track pipelineName runId workerUrl

def adoptStreamAssignment (b : Books) (pipelineName runId workerUrl : String) : Books :=
  b.track pipelineName runId workerUrl

def pop (b : Books) (runId : String) : Books :=
  { b with assignments := b.assignments.erase runId, runPipelines := b.runPipelines.erase runId }

/-- Drop the worker list of a pipeline that no tracked run belongs to. -/
def prune (b : Books) : Option String → Books
  | none => b
  | some pipelineName =>
    if pipelineName ∈ b.runPipelines.entries.map (·.2) then b
    else { b with pipelineWorkers := b.pipelineWorkers.erase pipelineName }

def lower (b : Books) (workerUrl : String) (runs : Nat) : Books :=
  { b with health := modify b.health workerUrl fun h => { h with activeRuns := h.activeRuns - runs } }

def onRunComplete (b : Books) (runId : String) : Books :=
  let workerUrl := (b.assignments.lookup runId).getD ""
  let t := if workerUrl = "" then b.pop runId else (b.pop runId).lower workerUrl 1
  t.prune (b.runPipelines.lookup runId)

def delist (b : Books) (workerUrl : String) : Option String → Books
  | none => b
  | some pipelineName =>
    { b with pipelineWorkers := modify b.pipelineWorkers pipelineName (·.erase workerUrl) }

/-- The body of the loop over the runs of a worker that is down. -/
def reap (workerUrl : String) (b : Books) (runId : String) : Books :=
  let pipelineName := b.runPipelines.lookup runId
  ((b.pop runId).delist workerUrl pipelineName).prune pipelineName

def reapAssignmentsForDownWorker (b : Books) (workerUrl : String) : Books :=
  let reaped := (b.assignments.entries.filter (·.2 = workerUrl)).map (·.1)
  (reaped.foldl (reap workerUrl) b).lower workerUrl reaped.length

inductive Op where
  | dispatch (pipelineName runId workerUrl : String)
  | adopt (pipelineName runId workerUrl : String)
  | complete (runId : String)
  | down (workerUrl : String)

def step (b : Books) : Op → Books
  | .dispatch pipelineName runId workerUrl => b.dispatched pipelineName runId workerUrl
  | .adopt pipelineName runId workerUrl => b.adoptStreamAssignment pipelineName runId workerUrl
  | .complete runId => b.onRunComplete runId
  | .down workerUrl => b.reapAssignmentsForDownWorker workerUrl

/-- A run that is tracked is dispatched or adopted for no other pipeline. -/
def Same (b : Books) : Op → Prop
  | .dispatch pipelineName runId _ | .adopt pipelineName runId _ =>
    ∀ name ∈ b.runPipelines.lookup runId, name = pipelineName
  | _ => True

instance (b : Books) (op : Op) : Decidable (b.Same op) := by
  unfold Same
  split <;> infer_instance

def init (health : Dict String Health) : Books := ⟨∅, ∅, ∅, health⟩

/-- The dictionaries agree, up to two steps: while the runs of the worker `down` are reaped the lists
need not have that worker, and the pipeline of the run popped last may have a list but no run. -/
structure Agree (down popped : Option String) (b : Books) : Prop where
  keys : ∀ r, r ∈ b.assignments ↔ r ∈ b.runPipelines
  listed : ∀ r name url, b.runPipelines.lookup r = some name → b.assignments.lookup r = some url →
    ∃ ws, b.pipelineWorkers.lookup name = some ws ∧ (url ∈ ws ∨ down = some url)
  lists : ∀ name ws, b.pipelineWorkers.lookup name = some ws →
    ws.Nodup ∧ (popped = some name ∨ ∃ r, b.runPipelines.lookup r = some name)

variable {b : Books} {down o : Option String} {name url : String}

theorem mem_values : name ∈ b.runPipelines.entries.map (·.2) ↔ ∃ r, b.runPipelines.lookup r = some name := by
  simp only [mem_map, ← mem_entries]
  constructor
  · rintro ⟨⟨r, _⟩, he, rfl⟩
    exact ⟨r, he⟩
  · rintro ⟨r, he⟩
    exact ⟨_, he, rfl⟩

theorem enlist_spec (url : String) {ws : List String} (h : ws.Nodup) :
    url ∈ enlist url ws ∧ ws ⊆ enlist url ws ∧ (enlist url ws).Nodup := by
  unfold enlist
  split_ifs with hmem
  · exact ⟨hmem, Subset.refl ws, h⟩
  · exact ⟨mem_concat_self, subset_append_left ws _,
      h.append (nodup_singleton url) (disjoint_singleton.mpr hmem)⟩

theorem lookup_track (b : Books) (name r url name' : String) :
    (b.track name r url).pipelineWorkers.lookup name' =
      if name' = name then some (enlist url ((b.pipelineWorkers.lookup name).getD []))
      else b.pipelineWorkers.lookup name' := by
  rw [track, lookup_modify, lookup_setdefault, lookup_setdefault, if_pos rfl]
  split_ifs <;> rfl

namespace Agree

theorem track (h : Agree down none b) {r : String}
    (hsame : ∀ name' ∈ b.runPipelines.lookup r, name' = name) (url : String) :
    Agree down none (b.track name r url) := by
  have hnodup : ((b.pipelineWorkers.lookup name).getD []).Nodup := by
    cases hws : b.pipelineWorkers.lookup name with
    | none => exact nodup_nil
    | some ws => exact (h.lists name ws hws).1
  obtain ⟨hmem, hsub, hnew⟩ := enlist_spec url hnodup
  refine ⟨fun r' => by simp [Books.track, h.keys], fun r' name' url' hname hurl => ?_,
    fun name' ws hws => ?_⟩
  · rw [lookup_track]
    simp only [Books.track, lookup_insert_ite] at hname hurl
    split_ifs at hname hurl
    · cases hname
      cases hurl
      exact ⟨_, if_pos rfl, .inl hmem⟩
    · obtain ⟨ws, hws, hmem'⟩ := h.listed r' name' url' hname hurl
      split_ifs with heq
      · subst heq
        exact ⟨_, rfl, hmem'.imp_left fun hmem' => hsub (by rwa [hws])⟩
      · exact ⟨ws, hws, hmem'⟩
  · rw [lookup_track] at hws
    split_ifs at hws with heq
    · cases hws
      exact ⟨hnew, .inr ⟨r, heq ▸ lookup_insert _⟩⟩
    · obtain ⟨hws, hpopped | ⟨r', hr'⟩⟩ := h.lists name' ws hws
      · cases hpopped
      · refine ⟨hws, .inr ⟨r', (lookup_insert_ne ?_).trans hr'⟩⟩
        rintro rfl
        exact heq (hsame name' hr')

theorem pop (h : Agree down none b) (r : String) :
    Agree down (b.runPipelines.lookup r) (b.pop r) where
  keys r' := by simp [Books.pop, h.keys]
  listed r' name url hname hurl :=
    h.listed r' name url (lookup_of_erase hname) (lookup_of_erase hurl)
  lists name ws hws := by
    obtain ⟨hws, hpopped | ⟨r', hr'⟩⟩ := h.lists name ws hws
    · cases hpopped
    · refine ⟨hws, ?_⟩
      by_cases heq : r' = r
      · exact .inl (heq ▸ hr')
      · exact .inr ⟨r', (lookup_erase_ne heq).trans hr'⟩

theorem lower (h : Agree down o b) (url : String) (runs : Nat) : Agree down o (b.lower url runs) :=
  ⟨h.keys, h.listed, h.lists⟩

theorem prune (h : Agree down o b) : Agree down none (b.prune o) := by
  cases o with
  | none => exact h
  | some name =>
    rw [Books.prune]
    split_ifs with hvalue
    · refine ⟨h.keys, h.listed, fun name' ws hws => ?_⟩
      obtain ⟨hnodup, hpopped | hr⟩ := h.lists name' ws hws
      · cases hpopped
        exact ⟨hnodup, .inr (mem_values.mp hvalue)⟩
      · exact ⟨hnodup, .inr hr⟩
    · refine ⟨h.keys, fun r name' url hname hurl => ?_, fun name' ws hws => ?_⟩
      · have hne : name' ≠ name := by
          rintro rfl
          exact hvalue (mem_values.mpr ⟨r, hname⟩)
        obtain ⟨ws, hws, hmem⟩ := h.listed r name' url hname hurl
        exact ⟨ws, (lookup_erase_ne hne).trans hws, hmem⟩
      · rw [lookup_erase_ite] at hws
        split_ifs at hws with hne
        obtain ⟨hnodup, hpopped | hr⟩ := h.lists name' ws hws
        · exact absurd (Option.some.inj hpopped).symm hne
        · exact ⟨hnodup, .inr hr⟩

theorem delist (h : Agree (some url) o b) (o' : Option String) :
    Agree (some url) o (b.delist url o') := by
  cases o' with
  | none => exact h
  | some name =>
    refine ⟨h.keys, fun r name' url' hname hurl => ?_, ?_⟩
    · obtain ⟨ws, hws, hmem⟩ := h.listed r name' url' hname hurl
      rw [Books.delist, lookup_modify]
      split_ifs with heq
      · subst heq
        refine ⟨ws.erase url, by rw [hws]; rfl, ?_⟩
        by_cases hdown : url' = url
        · exact .inr (congrArg some hdown.symm)
        · exact hmem.imp_left (mem_erase_of_ne hdown).mpr
      · exact ⟨ws, hws, hmem⟩
    · exact forall_modify (fun ws hws => (h.lists name ws hws).imp_left (·.erase url)) h.lists

theorem reap (h : Agree (some url) none b) (r : String) : Agree (some url) none (b.reap url r) :=
  ((h.pop r).delist _).prune

theorem onRunComplete (h : Agree none none b) (r : String) : Agree none none (b.onRunComplete r) := by
  unfold Books.onRunComplete
  dsimp only
  split_ifs
  · exact (h.pop r).prune
  · exact ((h.pop r).lower _ _).prune

end Agree

theorem assignments_reap (url : String) (b : Books) (r : String) :
    (b.reap url r).assignments = b.assignments.erase r := by
  unfold reap
  cases b.runPipelines.lookup r with
  | none => rfl
  | some name =>
    dsimp only [prune]
    split_ifs <;> rfl

theorem lookup_reaped (url : String) (runs : List String) (b : Books) (r : String) :
    (runs.foldl (reap url) b).assignments.lookup r =
      if r ∈ runs then none else b.assignments.lookup r := by
  induction runs generalizing b with
  | nil => rfl
  | cons first runs ih =>
    rw [foldl_cons, ih, assignments_reap, lookup_erase_ite]
    by_cases hfirst : r = first <;> simp [hfirst]

theorem Agree.reapAssignments (h : Agree none none b) (url : String) :
    Agree none none (b.reapAssignmentsForDownWorker url) := by
  have hdown : Agree (some url) none b := by
    refine ⟨h.keys, fun r name url' hname hurl => ?_, h.lists⟩
    obtain ⟨ws, hws, hmem⟩ := h.listed r name url' hname hurl
    exact ⟨ws, hws, .inl (hmem.resolve_right nofun)⟩
  have hall : Agree (some url) none (b.reapAssignmentsForDownWorker url) :=
    (foldlRecOn _ _ hdown fun _ h r _ => h.reap r).lower _ _
  refine ⟨hall.keys, fun r name url' hname hurl => ?_, hall.lists⟩
  obtain ⟨ws, hws, hmem⟩ := hall.listed r name url' hname hurl
  refine ⟨ws, hws, .inl (hmem.resolve_right fun heq => ?_)⟩
  cases heq
  have hlookup := lookup_reaped url
    ((b.assignments.entries.filter (·.2 = url)).map (·.1)) b r
  split_ifs at hlookup with hreaped
  · cases hlookup.symm.trans hurl
  · refine hreaped (mem_map.mpr ⟨⟨r, url⟩, mem_filter.mpr ⟨?_, decide_eq_true rfl⟩, rfl⟩)
    exact mem_entries.mpr (hlookup.symm.trans hurl)

theorem Agree.step (h : Agree none none b) {op : Op} (hsame : b.Same op) :
    Agree none none (b.step op) := by
  cases op with
  | dispatch name r url | adopt name r url => exact h.track hsame url
  | complete r => exact h.onRunComplete r
  | down url => exact h.reapAssignments url

/-- As long as no tracked run is dispatched or adopted for another pipeline, the same runs have a
worker and a pipeline, the pipelines with a list are those with a tracked run, and the worker of a
run is listed for its pipeline, once. -/
theorem books_agree (health : Dict String Health) (calls : List Op)
    (h : Run.AllSteps step Same (init health) calls) :
    let b := Run.exec step (init health) calls
    (∀ r, r ∈ b.assignments ↔ r ∈ b.runPipelines) ∧
      (∀ name, name ∈ b.pipelineWorkers ↔ ∃ r, b.runPipelines.lookup r = some name) ∧
      ∀ r name url, b.runPipelines.lookup r = some name → b.assignments.lookup r = some url →
        ∃ ws, b.pipelineWorkers.lookup name = some ws ∧ url ∈ ws ∧ ws.Nodup := by
  intro b
  have hb : Agree none none b :=
    h.invariant (fun b op hb hsame => hb.step hsame) ⟨fun r => Iff.rfl, nofun, nofun⟩
  refine ⟨hb.keys, fun name => ⟨fun hname => ?_, ?_⟩, fun r name url hname hurl => ?_⟩
  · obtain ⟨ws, hws⟩ := Option.isSome_iff_exists.mp (lookup_isSome.mpr hname)
    exact (hb.lists name ws hws).2.resolve_left nofun
  · rintro ⟨r, hr⟩
    have hrun : r ∈ b.assignments :=
      (hb.keys r).mpr (lookup_isSome.mp (Option.isSome_of_mem hr))
    obtain ⟨url, hurl⟩ := Option.isSome_iff_exists.mp (lookup_isSome.mpr hrun)
    obtain ⟨ws, hws, -⟩ := hb.listed r name url hr hurl
    exact lookup_isSome.mp (Option.isSome_of_mem hws)
  · obtain ⟨ws, hws, hmem⟩ := hb.listed r name url hname hurl
    exact ⟨ws, hws, hmem.resolve_right nofun, (hb.lists name ws hws).1⟩

theorem books_agree_after_loss :
    let calls : List Op := [.dispatch "p" "r1" "w1", .adopt "p" "r2" "w2", .complete "r0", .down "w1"]
    Run.AllSteps step Same (init ∅) calls ∧
      ∀ r, r ∈ (Run.exec step (init ∅) calls).assignments ↔
        r ∈ (Run.exec step (init ∅) calls).runPipelines :=
  ⟨by decide, (books_agree ∅ _ (by decide)).1⟩

/-- A tracked run that is adopted for another pipeline leaves the list of the first. -/
theorem adopted_run_leaves_list :
    let b := Run.exec step (init ∅) [.dispatch "p" "r" "w", .adopt "q" "r" "w"]
    "p" ∈ b.pipelineWorkers ∧ ∀ r, b.runPipelines.lookup r ≠ some "p" := by
  intro b
  refine ⟨by decide, fun r hr => ?_⟩
  have hvalue := mem_values.mpr ⟨r, hr⟩
  revert hvalue
  decide

end Books

end Tram.Placement
