import Tram.Lib.Lines
import Tram.FileSink.Publication

/-! # The rolling writer

In append mode a chunk goes to the open part of its key, until a limit is reached and the next part
is opened. A part is opened in the bookkeeping before the first byte of it is written. Output that is
staged goes to a temporary file, which is a target of the source unit that opened the part. -/

namespace Tram.FileSink

open World

inductive FileMode where
  | append | single
  deriving DecidableEq, Repr

/-- The configuration of a writer; the template is the one the constructor settles on. -/
structure Config where
  filenameTemplate : Template
  fileMode : FileMode
  maxRecords : Option Nat
  maxTime : Option Nat
  maxBytes : Option Nat
  maxIndex : Nat

def shouldRoll (cfg : Config) (state : Option FilePartState) (now : Time)
    (incomingRecords incomingBytes : Nat) : Bool :=
  match state with
  | none => false
  | some s =>
    cfg.maxTime.any (fun limit => (limit : Int) * 1000000 ≤ now - s.openedAt) ||
      cfg.maxRecords.any (fun limit => 0 < s.recordsWritten ∧ limit < s.recordsWritten + incomingRecords) ||
      cfg.maxBytes.any fun limit => 0 < s.bytesWritten ∧ limit < s.bytesWritten + incomingBytes

def preparePayloadForAppend (serializer : Serializer) (isNewFile : Bool) (data : Bytes) : Bytes :=
  match serializer with
  | .csv hasHeader => if !isNewFile && hasHeader then (Lines.splitLines data).tail.flatten else data
  | .ndjson newline => if data = [] ∨ newline <:+ data then data else data ++ newline
  | .other => data

section

variable (cfg : Config) (py : Platform) (b : Backend)

variable (writer : RollingWriter)

def RollingWriter.counted (stateKey : StateKey) (partIndex : Nat) :
    RollingWriter :=
  { writer with partCounters := writer.partCounters.insert stateKey partIndex }

def nextPath (m : Meta) (now : Time) (stateKey : StateKey) : Action (FilePath × FilePartState) := do
  let w ← .get
  let partIndex := (w.writer.partCounters.lookup stateKey).getD 0 + 1
  if cfg.maxIndex < partIndex then do
    let dropped := (w.writer.droppedAfterCap.lookup stateKey).getD 0 + 1
    updateWriter fun writer =>
      { writer with droppedAfterCap := writer.droppedAfterCap.insert stateKey dropped }
    .raise (.pastCap cfg.maxIndex dropped)
  else do
    updateWriter fun writer => writer.counted stateKey partIndex
    match renderFilename py cfg.filenameTemplate now partIndex cfg.maxIndex m with
    | none => .raise .badTemplate
    | some filename => pure (py.joinRoot filename, ⟨partIndex, now, 0, 0⟩)

def RollingWriter.addStagedTarget (sourceKey : SourceKey)
    (target : StagedFileTarget) : RollingWriter :=
  { writer with
    manifests := writer.manifests.insert sourceKey
      (((writer.manifests.lookup sourceKey).getD ⟨[], []⟩).addTarget target) }

def stagingRun (m : Meta) : String := if m.runId = "" then "run" else m.runId

/-- The path of a new part, which is a target of the unit if its output is staged. -/
def stagePath (m : Meta) (stateKey : StateKey) (path : FilePath) : Action FilePath :=
  if shouldStageFileOutput py m then do
    if tempPathOk path (stagingRun m) then do
      let dest := tempPath path (stagingRun m)
      b.cleanupStaleTemp py path dest
      updateWriter fun writer =>
        writer.addStagedTarget (sourceUnitKey py m) ⟨stateKey, dest, path⟩
      pure dest
    else .raise (.badName path)
  else pure path

def RollingWriter.openPart (stateKey : StateKey) (path : FilePath)
    (state : FilePartState) : RollingWriter :=
  { writer with
    states := writer.states.insert stateKey state
    currentPaths := writer.currentPaths.insert stateKey path }

def RollingWriter.closePart (stateKey : StateKey) : RollingWriter :=
  { writer with
    states := writer.states.erase stateKey
    currentPaths := writer.currentPaths.erase stateKey }

/-- The writer once the part of a chunk's key is closed that has to roll. -/
def RollingWriter.rolled (m : Meta) (now : Time) (data : Bytes) :
    RollingWriter :=
  let stateKey := fileStateKey py cfg.filenameTemplate m
  if shouldRoll cfg (writer.states.lookup stateKey) now m.outputRecordCount data.length then
    writer.closePart stateKey
  else writer

def RollingWriter.count (stateKey : StateKey) (records bytes : Nat) :
    RollingWriter :=
  { writer with
    states := Dict.modify writer.states stateKey fun s =>
      { s with
        recordsWritten := s.recordsWritten + records
        bytesWritten := s.bytesWritten + bytes } }

def openPath (m : Meta) (now : Time) (data : Bytes) : Option FilePath :=
  let stateKey := fileStateKey py cfg.filenameTemplate m
  let state := writer.states.lookup stateKey
  if shouldRoll cfg state now m.outputRecordCount data.length then none
  else state.bind fun _ => writer.currentPaths.lookup stateKey

/-- The part a chunk goes to, in append mode: the open one or a new one. -/
def partFor (m : Meta) (now : Time) (data : Bytes) : Action (FilePath × Bool) := do
  let w ← .get
  let stateKey := fileStateKey py cfg.filenameTemplate m
  match openPath cfg py w.writer m now data with
  | some path => pure (path, false)
  | none => do
    updateWriter fun writer => writer.rolled cfg py m now data
    let (path, state) ← nextPath cfg py m now stateKey
    let dest ← stagePath py b m stateKey path
    updateWriter fun writer => writer.openPart stateKey dest state
    pure (dest, true)

def writeAppend (data : Bytes) (m : Meta) (now : Time) : Action (Option FilePath) := do
  let stateKey := fileStateKey py cfg.filenameTemplate m
  let (dest, isNewFile) ← partFor cfg py b m now data
  let payload := preparePayloadForAppend m.serializer isNewFile data
  if payload = [] then pure none
  else do
    b.append dest payload
    updateWriter fun writer => writer.count stateKey m.outputRecordCount payload.length
    pure (some dest)

def writeSingle (data : Bytes) (m : Meta) (now : Time) : Action (Option FilePath) := do
  let stateKey := fileStateKey py cfg.filenameTemplate m
  let (path, state) ← nextPath cfg py m now stateKey
  let dest ← stagePath py b m stateKey path
  let existing ← b.existsAt dest
  if shouldStageFileOutput py m then do
    let payload := preparePayloadForAppend m.serializer (!existing) data
    let written : FilePartState := { state with
      recordsWritten := m.outputRecordCount, bytesWritten := payload.length }
    if payload = [] then
      updateWriter fun writer => writer.openPart stateKey dest state
    else do
      b.append dest payload
      updateWriter fun writer => writer.openPart stateKey dest written
    pure (some dest)
  else if existing && !b.overwrite then .raise (.alreadyExists dest)
  else do
    b.writeBytes dest data
    updateWriter fun writer => writer.openPart stateKey dest state
    pure (some dest)

def write (data : Bytes) (m : Meta) (now : Time) : Action (Option FilePath) := do
  b.ensureDir
  match cfg.fileMode with
  | .append => writeAppend cfg py b data m now
  | .single => writeSingle cfg py b data m now

end

end Tram.FileSink
