import Tram.Executor.UnitBarrier

/-! # Units that are to be read again

A unit the barrier does not acknowledge is pending: a later run has to find its file where it was.
An SFTP source moves, deletes or marks the file when it is told of success, and pays no attention
to the acknowledgement. -/

namespace Tram.Executor

open List

/-- The files on the server, and those the tracker has as processed. -/
structure RemoteFiles where
  files : List String
  processed : List String
  deriving DecidableEq, Repr

/-- `SFTPSource` as far as `finalize` reads it. An unset `move_after_read` is empty; `tracker` and
`connected` say whether there is a file tracker and an open connection, and `file` gives the path
and the name in a meta. -/
structure SftpSource where
  moveAfterRead : String
  deleteAfterRead : Bool
  skipProcessed : Bool
  tracker : Bool
  connected : Bool
  file : Meta → String × String

def stripSlashes (path : String) : String :=
  .ofList (path.toList.reverse.dropWhile (· = '/')).reverse

namespace SftpSource

/-- `_post_read`; `done` is False if the server refuses, which is only logged. -/
def postRead (src : SftpSource) (done : Bool) (path name : String) (r : RemoteFiles) : RemoteFiles :=
  if src.moveAfterRead ≠ "" then
    if done then
      { r with files := r.files.erase path ++ [stripSlashes src.moveAfterRead ++ "/" ++ name] }
    else r
  else if src.deleteAfterRead then
    if done then { r with files := r.files.erase path } else r
  else r

/-- `SFTPSource.finalize` -/
def finalize (src : SftpSource) (done : Bool) (info : Meta) (success : Bool) (r : RemoteFiles) :
    RemoteFiles :=
  if success then
    let (path, name) := src.file info
    if path = "" ∨ src.connected = false then r
    else
      let r := src.postRead done path name r
      if src.skipProcessed && src.tracker then { r with processed := r.processed ++ [path] } else r
  else r

/-- The source keeps the `ack` of `BaseSource`, which does nothing. -/
def hear (src : SftpSource) (done : Bool) (r : RemoteFiles) : SourceCall → RemoteFiles
  | .ack _ _ => r
  | .finalize info success => src.finalize done info success r

variable {src : SftpSource} {done : Bool}

theorem hear_of_no_success {calls : List SourceCall} (h : ∀ info, .finalize info true ∉ calls)
    (r : RemoteFiles) : calls.foldl (src.hear done) r = r := by
  induction calls with
  | nil => rfl
  | cons call calls ih =>
    have hcall : src.hear done r call = r := by
      cases call with
      | ack info disposition => rfl
      | finalize info success =>
        cases success with
        | false => rfl
        | true => exact absurd mem_cons_self (h info)
    rw [foldl_cons, hcall]
    exact ih fun info hmem => h info (mem_cons_of_mem call hmem)

end SftpSource

/-! ## Pending units -/

def SourceCall.isAck : SourceCall → Bool
  | .ack _ _ => true
  | .finalize _ _ => false

/-- Unless a unit is acknowledged, its source is not told of success, and the files of an SFTP
source stay as they were. -/
def StaysReplayable (src : SftpSource) (done : Bool) (r : RemoteFiles) (calls : List SourceCall) : Prop :=
  (∀ call ∈ calls, call.isAck = false) →
    (∀ info, .finalize info true ∉ calls) ∧ calls.foldl (src.hear done) r = r

namespace UnitBarrier

variable {u : UnitBarrier} {delivery : Option Delivery}

/-- The unit has a disposition and, if it is delivered and there is a gate, the contract is not
strict or the manager has the checkpoint. -/
def Decided (u : UnitBarrier) (delivery : Option Delivery) : Prop :=
  ∃ outcome disposition, u.outcome delivery = some outcome ∧
    outcome.disposition u.onError = some disposition ∧
    (disposition = .delivered → ∀ gate ∈ u.checkpointer, gate.confirms = true)

theorem passes_iff :
    u.passes = true ↔ ∀ gate, u.checkpointer = some gate → gate.confirms = true := by
  cases hgate : u.checkpointer <;> simp [passes, hgate]

theorem decided_iff : u.Decided delivery ↔ ∃ disposition, u.decision delivery = some disposition := by
  unfold Decided decision
  cases u.outcome delivery with
  | none => simp [admitted]
  | some outcome =>
    cases hdisposition : outcome.disposition u.onError with
    | none => simp [hdisposition, admitted]
    | some disposition =>
      cases disposition with
      | delivered =>
        simpa [hdisposition, admitted] using passes_iff.symm
      | filtered | dlq | dropped => simp [hdisposition, admitted]

/-- Unacknowledged, after the sinks committed: the source is told of success all the same. -/
theorem callsMade_undecided (hwhole : u.finalizeSource = true) (hcommit : commitFailure u.sinks = none)
    (hundecided : ¬ u.Decided delivery) : u.callsMade delivery = [.finalize u.info true] := by
  have hnone : u.decision delivery = none := by
    rw [decided_iff] at hundecided
    exact Option.eq_none_iff_forall_ne_some.mpr fun d h => hundecided ⟨d, h⟩
  simp [callsMade, hwhole, hcommit, hnone]

/-- A pending unit stays replayable exactly if the barrier stands inside the unit, or the sinks do
not commit, or the unit is decided, which makes it no pending one. -/
theorem pending_unit_replayable (u : UnitBarrier) (delivery : Option Delivery) (revision : Nat)
    (src : SftpSource) (done : Bool) (r : RemoteFiles) :
    StaysReplayable src done r (u.finalizeBatchSourceUnit (.start delivery revision)).2.calls ↔
      u.finalizeSource = false ∨ commitFailure u.sinks ≠ none ∨ u.Decided delivery := by
  have hcalls : (u.finalizeBatchSourceUnit (.start delivery revision)).2.calls = u.callsMade delivery :=
    finalizeBatchSourceUnit_calls u _
  rw [hcalls]
  constructor
  · intro hreplayable
    by_contra hcon
    push Not at hcon
    obtain ⟨hwhole, hcommit, hundecided⟩ := hcon
    rw [callsMade_undecided (by simpa using hwhole) hcommit hundecided] at hreplayable
    exact (hreplayable (by simp [SourceCall.isAck])).1 u.info mem_cons_self
  · rintro hcase hunacked
    have hsilent : ∀ info, .finalize info true ∉ u.callsMade delivery := by
      intro info hmem
      unfold callsMade at hmem hunacked
      rcases hcase with hwhole | hcommit | hdecided
      · simp [hwhole] at hmem
      · obtain ⟨text, htext⟩ := Option.ne_none_iff_exists'.mp hcommit
        rw [htext] at hmem
        split_ifs at hmem <;> simp at hmem
      · obtain ⟨disposition, hdecision⟩ := decided_iff.mp hdecided
        rw [hdecision] at hunacked hmem
        cases hwhole : u.finalizeSource with
        | false => simp [hwhole] at hmem
        | true =>
          cases hcommit : commitFailure u.sinks with
          | none =>
            have := hunacked (.ack u.info disposition) (by simp [hwhole, hcommit])
            cases this
          | some text =>
            rw [hcommit] at hmem
            split_ifs at hmem <;> simp at hmem
    exact ⟨hsilent, SftpSource.hear_of_no_success hsilent r⟩

/-- A unit of one file, with one sink that commits and a strict gate that no manager answers, or
without a gate. -/
def ofFile (onError : OnError) (gated : Bool) (outcome : UnitOutcome) : UnitBarrier where
  onError := onError
  sinks := [⟨some (.ok ⟨"db", true, ""⟩), some (.ok none)⟩]
  key := ("/in/a", "a")
  info := outcome.info
  unit := some outcome
  finalizeSource := true
  checkpointer := if gated then some ⟨true, true, some "sftp:h:/in:0:0", .error "timeout"⟩ else none
  finalized := none

def deletingSource : SftpSource := ⟨"", true, false, false, true, fun info => info.unit.getD ("", "")⟩

/-- A delivered unit whose checkpoint was not confirmed, and one whose envelope was lost: neither is
acknowledged, and both files are deleted. -/
theorem pending_unit_deleted :
    let file : Meta := ⟨some ("/in/a", "a"), false, none, false⟩
    let delivered := ofFile .abort true ⟨file, 1, 1, 0, 0, 0⟩
    let undecided := ofFile .continues false ⟨file, 1, 0, 0, 0, 1⟩
    (delivered.finalizeBatchSourceUnit (.start (some .new) 0)).2.calls = [.finalize file true] ∧
      (undecided.finalizeBatchSourceUnit (.start (some .new) 0)).2.calls = [.finalize file true] ∧
      [SourceCall.finalize file true].foldl (deletingSource.hear true) ⟨["/in/a"], []⟩ = ⟨[], []⟩ ∧
      ¬ StaysReplayable deletingSource true ⟨["/in/a"], []⟩
        (delivered.finalizeBatchSourceUnit (.start (some .new) 0)).2.calls ∧
      ¬ StaysReplayable deletingSource true ⟨["/in/a"], []⟩
        (undecided.finalizeBatchSourceUnit (.start (some .new) 0)).2.calls := by
  refine ⟨by decide +kernel, by decide +kernel, by decide +kernel, fun h => ?_, fun h => ?_⟩
  all_goals exact absurd (h (by decide +kernel)).2 (by decide +kernel)

end UnitBarrier

end Tram.Executor
