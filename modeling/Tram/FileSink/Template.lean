import Tram.Lib.DateTime
import Tram.Lib.Dict

/-! # Names of output files

A file sink names its files by a template. What stands for one part of the output and what for the
whole output of a key is told apart by the tokens: the rolling ones (`timestamp`, the epochs, `part`
and `index`) change from part to part, the others make up the key.

A template is given as `string.Formatter` parses it. What Python's own library does to texts and
times is a parameter. -/

namespace Tram.FileSink

abbrev Time := Int

inductive Token where
  | pipeline | timestamp | epoch | epochM | epochMs | part | index
  | runTimestamp | runId | sourceFilename | sourceStem | sourceSuffix | sourcePath
  | field (path : String)
  | unknown (name : String)
  deriving DecidableEq, Repr

/-- `_ROLLING_TOKENS` -/
def Token.rolling : Token → Bool
  | .timestamp | .epoch | .epochM | .epochMs | .part | .index => true
  | _ => false

/-- A replacement field of a template, with its conversion and its format specification. -/
structure Replacement where
  token : Token
  conversion : Option Char
  formatSpec : String
  deriving DecidableEq, Repr

/-- A piece of a template, as `Formatter.parse` yields them. -/
structure TemplatePart where
  literalText : String
  replacement : Option Replacement
  deriving DecidableEq, Repr

abbrev Template := List TemplatePart

/-- A file, by its directory and its name in it. -/
structure FilePath where
  parent : String
  name : String
  deriving DecidableEq, Repr

inductive Value where
  | str (s : String)
  | int (n : Int)
  deriving DecidableEq, Repr

def Value.text : Value → String
  | .str s => s
  | .int n => toString n

/-- What comes from outside: texts of times and of formatted values, the parts of a path, and the
names a shell pattern matches. -/
structure Platform where
  strftime : Time → String
  format : Value → Option Char → String → String
  strip : String → String
  stem : String → String
  suffix : String → String
  joinRoot : String → FilePath
  globMatch : String → String → Bool

/-- How the records are serialized; a `csv` sink may write a header, an `ndjson` sink ends its lines
with the given bytes. -/
inductive Serializer where
  | ndjson (newline : List UInt8)
  | csv (hasHeader : Bool)
  | other
  deriving DecidableEq, Repr

/-- What a sink is told about a chunk. `fieldValue` is `_resolve_field_path` of the chunk's
partition. -/
structure Meta where
  pipelineName : String
  runTimestamp : String
  runId : String
  sourcePath : String
  sourceFilename : String
  enableSafeFinalize : Bool
  serializer : Serializer
  outputRecordCount : Nat
  fieldValue : String → String

def basename (path : String) : String :=
  let normalized := path.toList.map fun c => if c = '\\' then '/' else c
  String.ofList ((normalized.reverse.dropWhile (· = '/')).takeWhile (· ≠ '/')).reverse

section

variable (py : Platform)

def resolveSourceFilename (m : Meta) : String :=
  if py.strip m.sourceFilename ≠ "" then py.strip m.sourceFilename
  else if basename (py.strip m.sourcePath) ≠ "" then basename (py.strip m.sourcePath)
  else "data"

abbrev SourceKey := String × String × String

def sourceUnitKey (m : Meta) : SourceKey :=
  (py.strip m.sourcePath, resolveSourceFilename py m, py.strip m.runId)

def Serializer.isRecordSafe : Serializer → Bool
  | .ndjson _ | .csv _ => true
  | .other => false

def shouldStageFileOutput (m : Meta) : Bool :=
  m.enableSafeFinalize && m.serializer.isRecordSafe &&
    ((sourceUnitKey py m).2.2 ≠ "" && ((sourceUnitKey py m).1 ≠ "" || (sourceUnitKey py m).2.1 ≠ ""))

/-- `format_part_index`: the number, with zeros up to the width of the highest. -/
def formatPartIndex (partIndex maxIndex : Nat) : String :=
  let width := max 1 (toString maxIndex).length
  "".pushn '0' (width - (toString partIndex).length) ++ toString partIndex

/-- `build_filename_vars` and `_resolve_template_value`: the value of a token; `none` is a KeyError. -/
def tokenValue (openedAt : Time) (partIndex maxIndex : Nat) (m : Meta) : Token → Option Value
  | .pipeline => some (.str m.pipelineName)
  | .timestamp => some (.str (py.strftime openedAt))
  | .epoch => some (.int (DateTime.unixOf openedAt))
  | .epochM | .epochMs => some (.int (DateTime.unixMsOf openedAt))
  | .part | .index => some (.str (formatPartIndex partIndex maxIndex))
  | .runTimestamp => some (.str m.runTimestamp)
  | .runId => some (.str m.runId)
  | .sourceFilename => some (.str (resolveSourceFilename py m))
  | .sourceStem =>
    let filename := resolveSourceFilename py m
    some (.str (if py.stem filename ≠ "" then py.stem filename else filename))
  | .sourceSuffix => some (.str (py.suffix (resolveSourceFilename py m)))
  | .sourcePath =>
    some (.str (if m.sourcePath ≠ "" then m.sourcePath else resolveSourceFilename py m))
  | .field path => some (.str (m.fieldValue path))
  | .unknown _ => none

def renderPart (openedAt : Time) (partIndex maxIndex : Nat) (m : Meta) (piece : TemplatePart) :
    Option String :=
  match piece.replacement with
  | none => some piece.literalText
  | some r => do
    let value ← tokenValue py openedAt partIndex maxIndex m r.token
    if r.conversion = none ∧ r.formatSpec = "" then some (piece.literalText ++ value.text)
    else some (piece.literalText ++ py.format value r.conversion r.formatSpec)

def renderFilename (template : Template) (openedAt : Time) (partIndex maxIndex : Nat) (m : Meta) :
    Option String := do
  let texts ← template.mapM (renderPart py openedAt partIndex maxIndex m)
  some (String.join texts)

abbrev StateKey := List (Token × String)

/-- `file_state_key`: the tokens that do not roll, with their values. -/
def fileStateKey (template : Template) (m : Meta) : StateKey :=
  template.filterMap fun piece => do
    let r ← piece.replacement
    if r.token.rolling then none
    else
      let value ← tokenValue py 0 1 1 m r.token
      some (r.token, value.text)

end

end Tram.FileSink
