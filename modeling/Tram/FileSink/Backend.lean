import Tram.Lib.Procedure
import Tram.FileSink.Template

/-! # The state of a rolling writer, and its file system

A file is known by its path. Each operation of the backend either takes full effect or raises with
none; which of them raise is told by an oracle that sees how many were made before. -/

namespace Tram.FileSink

abbrev Bytes := List UInt8

abbrev Files := Dict FilePath Bytes

structure FilePartState where
  partIndex : Nat
  openedAt : Time
  recordsWritten : Nat
  bytesWritten : Nat
  deriving DecidableEq, Repr

structure StagedFileTarget where
  stateKey : StateKey
  tempPath : FilePath
  finalPath : FilePath
  deriving DecidableEq, Repr

/-- The staged files of one source unit, and those of their final paths that are confirmed. -/
structure PublicationManifest where
  targets : List StagedFileTarget
  confirmed : List FilePath
  deriving DecidableEq, Repr

structure RollingWriter where
  states : Dict StateKey FilePartState
  currentPaths : Dict StateKey FilePath
  partCounters : Dict StateKey Nat
  manifests : Dict SourceKey PublicationManifest
  droppedAfterCap : Dict StateKey Nat

def RollingWriter.new : RollingWriter := ⟨∅, ∅, ∅, ∅, ∅⟩

/-- The writer, the files, and how many operations the backend has been asked for. -/
structure World where
  writer : RollingWriter
  files : Files
  clock : Nat

/-! ## Operations -/

inductive Op where
  | ensureDir | cleanupStaleTemp | existsAt | append | writeBytes | replace | remove | fsync | fsyncDir
  deriving DecidableEq, Repr

/-- What is raised: by the sink itself, by the template, or by the file system. -/
inductive Raised where
  | alreadyExists (path : FilePath)
  | gone (tempPath finalPath : FilePath)
  | publishing (finalPath : FilePath)
  | pastCap (maxIndex dropped : Nat)
  | badTemplate
  | badName (path : FilePath)
  | failed (op : Op)
  deriving DecidableEq, Repr

abbrev Action := Procedure World Raised

/-- A local backend: whether it replaces files, and which of its operations raise. -/
structure Backend where
  overwrite : Bool
  fails : Nat → Op → Bool

namespace Backend

variable (b : Backend)

def call (op : Op) : Action Unit := fun w =>
  (if b.fails w.clock op then .error (.failed op) else .ok (), { w with clock := w.clock + 1 })

def change (op : Op) (f : Files → Files) : Action Unit := do
  b.call op
  .modify fun w => { w with files := f w.files }

def ensureDir : Action Unit := b.call .ensureDir

def existsAt (path : FilePath) : Action Bool := do
  b.call .existsAt
  let w ← .get
  pure (w.files.lookup path).isSome

def append (path : FilePath) (payload : Bytes) : Action Unit :=
  b.change .append fun files => files.insert path ((files.lookup path).getD [] ++ payload)

def writeBytes (path : FilePath) (data : Bytes) : Action Unit :=
  b.change .writeBytes fun files => files.insert path data

/-- `replace`: the final file is unlinked, then the temporary one takes its place. -/
def replace (tempPath finalPath : FilePath) : Action Unit := do
  b.call .replace
  let w ← .get
  match w.files.lookup tempPath with
  | none => pure ()
  | some bytes =>
    if (w.files.lookup finalPath).isSome && !b.overwrite then .raise (.alreadyExists finalPath)
    else .modify fun w => { w with files := (w.files.erase tempPath).insert finalPath bytes }

def remove (path : FilePath) : Action Unit := b.change .remove fun files => files.erase path

def fsync (path : FilePath) : Action Unit := do
  b.call .fsync
  let w ← .get
  if (w.files.lookup path).isSome then pure () else .raise (.failed .fsync)

def fsyncDir (_path : FilePath) : Action Unit := b.call .fsyncDir

/-- What `cleanup_stale_temp` deletes: every file beside the final one that matches the pattern,
except one. -/
def isStaleTemp (py : Platform) (finalPath keep path : FilePath) : Bool :=
  path.parent = finalPath.parent ∧
    py.globMatch ("." ++ finalPath.name ++ ".tram-*.tmp") path.name ∧ path ≠ keep

def cleanupStaleTemp (py : Platform) (finalPath keep : FilePath) : Action Unit :=
  b.change .cleanupStaleTemp fun files =>
    Dict.retain files fun path _ => !isStaleTemp py finalPath keep path

end Backend

/-- `temp_path`: a hidden file beside the final one. -/
def tempPath (finalPath : FilePath) (runId : String) : FilePath :=
  { finalPath with name := "." ++ finalPath.name ++ ".tram-" ++ runId ++ ".tmp" }

/-- Whether `with_name` takes the name of the temporary file. -/
def tempPathOk (finalPath : FilePath) (runId : String) : Bool :=
  finalPath.name ≠ "" && !(tempPath finalPath runId).name.toList.contains '/'

end Tram.FileSink
