import Tram.FileSink.Backend

/-! # Publication of staged files

The output of a source unit is staged in temporary files and published when the unit is done: each
is moved to its final path and confirmed. A publication that raises leaves the manifest where it is,
and the next attempt goes on with what is not confirmed yet. -/

namespace Tram.FileSink

/-! ## Manifests -/

variable (writer : RollingWriter) (manifest : PublicationManifest) (b : Backend)

namespace PublicationManifest

def addTarget (target : StagedFileTarget) : PublicationManifest :=
  if manifest.targets.any fun existing =>
      existing.tempPath = target.tempPath ∧ existing.finalPath = target.finalPath then manifest
  else { manifest with targets := manifest.targets ++ [target] }

def complete : Bool :=
  manifest.targets.all fun target => target.finalPath ∈ manifest.confirmed

end PublicationManifest

def publishStagedTarget (target : StagedFileTarget) : Action Unit := do
  let finalExists ← b.existsAt target.finalPath
  if ← b.existsAt target.tempPath then
    b.fsync target.tempPath
    b.replace target.tempPath target.finalPath
    b.fsyncDir target.finalPath
  else if finalExists then
    b.fsync target.finalPath
    b.fsyncDir target.finalPath
  else .raise (.gone target.tempPath target.finalPath)

/-- What `publish` makes of an exception that is not the sink's own. -/
def publishError (finalPath : FilePath) : Raised → Raised
  | .failed _ => .publishing finalPath
  | raised => raised

namespace RollingWriter

def isConfirmed (sourceKey : SourceKey) (finalPath : FilePath) : Bool :=
  (writer.manifests.lookup sourceKey).any fun manifest => finalPath ∈ manifest.confirmed

def confirm (sourceKey : SourceKey) (finalPath : FilePath) : RollingWriter :=
  { writer with
    manifests := Dict.modify writer.manifests sourceKey fun manifest =>
      { manifest with confirmed := finalPath :: manifest.confirmed } }

def clearUnitBookkeeping : RollingWriter :=
  manifest.targets.foldl
    (fun writer target =>
      { writer with
        states := writer.states.erase target.stateKey
        currentPaths := writer.currentPaths.erase target.stateKey
        partCounters := writer.partCounters.erase target.stateKey
        droppedAfterCap := writer.droppedAfterCap.erase target.stateKey })
    writer

/-- The end of a publication, which drops a manifest that is complete. -/
def settle (sourceKey : SourceKey) : RollingWriter :=
  match writer.manifests.lookup sourceKey with
  | none => writer
  | some manifest =>
    if manifest.complete then
      { writer with manifests := writer.manifests.erase sourceKey }.clearUnitBookkeeping manifest
    else writer

end RollingWriter

def World.updateWriter (f : RollingWriter → RollingWriter) : Action Unit :=
  .modify fun w => { w with writer := f w.writer }

/-- `publish`: each target that is not confirmed, in order. -/
def publishTargets (b : Backend) (sourceKey : SourceKey) : List StagedFileTarget → Action Unit
  | [] => pure ()
  | target :: targets => do
    let w ← .get
    if w.writer.isConfirmed sourceKey target.finalPath then publishTargets b sourceKey targets
    else do
      .mapError (publishError target.finalPath) (publishStagedTarget b target)
      World.updateWriter fun writer => writer.confirm sourceKey target.finalPath
      publishTargets b sourceKey targets

def publishSource (sourceKey : SourceKey) : Action Unit := do
  let w ← .get
  match w.writer.manifests.lookup sourceKey with
  | none => pure ()
  | some manifest =>
    publishTargets b sourceKey manifest.targets
    World.updateWriter fun writer => writer.settle sourceKey

theorem publishSource_none {b : Backend} {sourceKey : SourceKey} {w : World}
    (h : w.writer.manifests.lookup sourceKey = none) : publishSource b sourceKey w = (.ok (), w) := by
  rw [publishSource, Procedure.bind_run_ok (Procedure.get_run w)]
  simp only [h]
  rfl

/-- The loop of `_discard_source`, which minds no failure. -/
def removeStaged (b : Backend) (manifest : PublicationManifest) : List StagedFileTarget → Action Unit
  | [] => pure ()
  | target :: targets => fun w =>
    let removed :=
      if target.finalPath ∈ manifest.confirmed then w else (b.remove target.tempPath w).2
    removeStaged b manifest targets removed

def discardSource (sourceKey : SourceKey) : Action Unit := do
  let w ← .get
  match w.writer.manifests.lookup sourceKey with
  | none => pure ()
  | some manifest =>
    World.updateWriter fun writer => { writer with manifests := writer.manifests.erase sourceKey }
    removeStaged b manifest manifest.targets
    World.updateWriter fun writer => writer.clearUnitBookkeeping manifest

def finalizeSource (sourceKey : SourceKey) (success : Bool) : Action Unit :=
  if success then publishSource b sourceKey else discardSource b sourceKey

end Tram.FileSink
