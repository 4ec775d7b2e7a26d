import Tram.Lib.DateTime
import Tram.Transforms.Record

/-! # The transforms that look at one record at a time

Each of them is a loop over the records; json_flatten makes one loop for each of its steps. What
they call outside of the repository is a parameter. A record holds no datetime objects: cast to
datetime and the output format `datetime` are left out. -/

namespace Tram

open List

/-! ## Values as Python compares them -/

/-- The value of a number, which a `bool` is too. -/
def Json.numeric? : Json → Option ℚ
  | .bool b => some (if b then 1 else 0)
  | v => v.num?

mutual

/-- `==` and `<`: `none` where two values differ and `<` raises. -/
def Json.compare? : Json → Json → Option Ordering
  | .null, .null => some .eq
  | .str s, .str t => some (compare s t)
  | .arr xs, .arr ys => compareItems? xs ys
  | .obj fields, .obj fields' =>
    if fields.length = fields'.length ∧ sameFields fields fields' then some .eq else none
  | a, b =>
    match a.numeric?, b.numeric? with
    | some x, some y => some (compare x y)
    | _, _ => none

/-- Lists are compared at the first items that differ. -/
def compareItems? : List Json → List Json → Option Ordering
  | [], [] => some .eq
  | [], _ :: _ => some .lt
  | _ :: _, [] => some .gt
  | x :: xs, y :: ys =>
    match x.compare? y with
    | some .eq => compareItems? xs ys
    | other => other

/-- Every field stands in the other dictionary with an equal value. -/
def sameFields : List (String × Json) → List (String × Json) → Bool
  | [], _ => true
  | (key, v) :: rest, fields =>
    match fields.lookup key with
    | some w => v.compare? w = some .eq && sameFields rest fields
    | none => false

end

def Json.isIn (v : Json) (values : List Json) : Bool := values.any fun w => v.compare? w = some .eq

/-- `a < b`; `none` is `TypeError`. -/
def Json.less? (a b : Json) : Option Bool :=
  match a, b with
  | .obj _, .obj _ => none
  | a, b => (a.compare? b).map (· = .lt)

namespace Record

def get (r : Record) (key : String) : Json := (r.lookup key).getD .null

def update (r : Record) (fields : List (String × Json)) : Record :=
  fields.foldl (fun r field => r.put field.1 field.2) r

def renamePath (r : Record) (old new : Path) : Except String Record :=
  match r.getPath old with
  | none => .ok r
  | some value =>
    if old = new then .ok r else (r.setPath new value).map fun written => written.deletePath old

end Record

namespace Stateless

/-- An exception: of a type that the `except` around it names, or of another. -/
inductive Raised where
  | named (text : String)
  | other (text : String)

def rescue {α : Type} (handler : String → Except String α) : Except Raised α → Except String α
  | .ok a => .ok a
  | .error (.named text) => handler text
  | .error (.other text) => .error text

/-- What the transforms call outside. A datetime is read as its local time in microseconds with the
offset from UTC, if it has one. -/
structure Library where
  str : Json → String
  repr : Json → String
  typeName : Json → String
  int : Json → Except Raised Json
  float : Json → Except Raised Json
  /-- simpleeval: the error of a text that does not parse; the value of a text at a moment, for a
  field, under names -/
  parseError : String → Option String
  eval : Nat → String → String → Record → Except String Json
  jmespathError : String → Option String
  jmespath : String → Record → Except String Json
  formatMap : String → Record → Except Raised String
  /-- `re.search`: the named groups of the match -/
  search : String → String → Option (List (String × Json))
  groupNames : String → List String
  sha256 : String → String
  strip : String → String
  fromHex : String → Option (List UInt8)
  decode : String → List UInt8 → Except String String
  ipAddress : List UInt8 → String
  /-- `float` of a text that matches `-?\d+(\.\d+)?` -/
  number : String → Option ℚ
  fromisoformat : String → Option (Int × Option Int)
  strptime : String → String → Except String (Int × Option Int)
  strftime : String → DateTime → String
  isoMilliseconds : DateTime → String
  /-- the offset of a time zone at a local time -/
  zoneOffset : String → Int → Int
  outOfRange : Int → String
  deriving Inhabited

/-- What a transform makes of one record at a moment: the records that are appended to the result. -/
abbrev RowFunction := Nat → Record → Except String (List Record)

/-- A loop over the records. -/
structure Pass where
  /-- The error that is raised before the first record, whatever the records are. -/
  refuses : Option String
  row : RowFunction

variable (py : Library)

/-- One record for one record, written to in a loop over `entries`. -/
def edit {α : Type} (entries : List α) (step : Record → α → Except String Record) : RowFunction :=
  fun _ record => (entries.foldlM step record).map ([·])

/-- A record that is built up from nothing. -/
def build {α : Type} (entries : List α) (field : α → String)
    (value : Record → α → Except String Json) : RowFunction := fun _ record =>
  (entries.foldlM (fun made e => (value record e).map fun v => Record.put (field e) v made) []).map ([·])

/-! ## add_field, filter and template -/

/-- The names of an expression: `record` and `pipeline` win over fields. -/
def addField (fields : List (String × String)) (pipeline : Json) : RowFunction := fun moment record =>
  let step (s : Record × Record) (e : String × String) : Except String (Record × Record) :=
    let fails (exc : String) := "Expression error for field '" ++ e.1 ++ "': " ++ py.repr (.str e.2) ++
      " — " ++ exc
    match py.parseError e.2 with
    | some exc => .error (fails exc)
    | none =>
      match py.eval moment e.1 e.2 ((s.2.put "record" (.obj s.1)).put "pipeline" pipeline) with
      | .error exc => .error (fails exc)
      | .ok v => .ok (s.1.put e.1 v, s.2.put e.1 v)
  (fields.foldlM step (record, record)).map fun s => [s.1]

def filterError (condition exc : String) : String :=
  "Filter condition error: " ++ py.repr (.str condition) ++ " — " ++ exc

def filterRow (condition : String) : RowFunction := fun moment record =>
  match py.eval moment "" condition record with
  | .error exc => .error (filterError py condition exc)
  | .ok v => .ok (if v.falsy then [] else [record])

def template (fields : List (String × String)) : RowFunction := fun moment record =>
  edit fields (fun r e => (rescue (fun exc => .error ("template: cannot render '" ++ e.2 ++ "': " ++ exc))
    (py.formatMap e.2 record)).map fun text => r.put e.1 (.str text)) moment record

def jmespathRow (fields : List (String × String)) : RowFunction :=
  build fields (·.1) fun record e =>
    (py.jmespath e.2 record).mapError fun exc => "jmespath: expression '" ++ e.2 ++ "' failed: " ++ exc

/-! ## cast and value_map -/

inductive CastType where
  | str | int | float | bool

def CastType.text : CastType → String
  | .str => "str"
  | .int => "int"
  | .float => "float"
  | .bool => "bool"

def caster : CastType → Json → Except Raised Json
  | .str, v => .ok (.str (py.str v))
  | .int, v => py.int v
  | .float, v => py.float v
  | .bool, .bool b => .ok (.bool b)
  | .bool, v => .ok (.bool (["true", "1", "yes", "on"].contains (py.str v).toLower))

def cast (fields : List (Path × CastType)) : RowFunction :=
  edit fields fun r e =>
    match r.getPath e.1 with
    | none => .ok r
    | some value =>
      rescue (fun exc => .error ("Failed to cast field '" ++ e.1.text ++ "' to " ++ e.2.text ++ ": " ++ exc))
        ((caster py e.2 value).bind fun v => (r.setPath e.1 v).mapError .named)

def valueMap (field : Path) (mapping : List (String × Json)) (fallback : Option Json) : RowFunction :=
  fun _ record =>
    match (record.getPath field).bind fun value => (mapping.lookup (py.str value)).or fallback with
    | some mapped => (record.setPath field mapped).map ([·])
    | none => .ok [record]

/-! ## Fields from paths: coalesce_fields, project, select_from_list -/

structure CoalesceRule where
  sources : List Path
  emptyValues : List Json := [.null, .str ""]
  fallback : Json := .null

def coalesceFields (fields : List (String × CoalesceRule)) : RowFunction :=
  edit fields fun r e => .ok (r.put e.1
    (((e.2.sources.filterMap r.getPath).find? fun v => !v.isIn e.2.emptyValues).getD e.2.fallback))

inductive ProjectRule where
  | path (source : Path)
  | rule (sources : List Path) (fallback : Option Json) (required : Bool)

/-- `sources` is `[source]` where that is given, and `source_any` otherwise. -/
def resolveRule (record : Record) (outputField : String) : ProjectRule → Except String Json
  | .path source => .ok (record.getPathD source)
  | .rule sources fallback required =>
    match (sources.findSome? record.getPath).or fallback with
    | some value => .ok value
    | none =>
      if required then .error ("project: required field '" ++ outputField ++ "' could not be resolved")
      else .ok .null

def project (fields : List (String × ProjectRule)) : RowFunction :=
  build fields (·.1) fun record e => resolveRule record e.1 e.2

structure Selection where
  name : Option String
  firstItem : Bool
  matching : List (String × Json)
  output : List (Path × String)

def Selection.label (selection : Selection) : Json :=
  match selection.name, selection.matching with
  | some name, _ => .str name
  | none, [] => .str "selection"
  | none, matching => .obj matching

def Selection.matchesItem (selection : Selection) : Json → Bool
  | .obj item => selection.matching.all fun e => (Record.get item e.1).compare? e.2 = some .eq
  | _ => false

def pickItem (items : List Json) (selection : Selection) : Option Json :=
  if selection.firstItem then items.head?.filter (!·.isNull) else items.find? selection.matchesItem

def projectItem (item : Json) (source : Path) : Json :=
  match item with
  | .obj fields => Record.getPathD fields source
  | _ => .null

def selectFromList (field : Path) (select : List Selection) (raises : Bool) : RowFunction :=
  fun moment record =>
    let items := match record.getPath field with
      | some (.arr items) => items
      | _ => []
    edit select (fun r selection =>
      match pickItem items selection with
      | some item => .ok (r.update (selection.output.map fun o => (o.2, projectItem item o.1)))
      | none =>
        if raises then .error ("select_from_list: no match for " ++ py.repr selection.label ++
          " in field '" ++ field.text ++ "'")
        else .ok (r.update (selection.output.map fun o => (o.2, .null)))) moment record

/-! ## enrich and inject_meta -/

structure Enrich where
  joinKey : String
  lookupKey : String
  addFields : List String
  keyPrefix : String
  nullFields : Bool
  table : List (String × Record)

def enrich (cfg : Enrich) : RowFunction := fun _ record =>
  let found := if (record.get cfg.joinKey).isNull then none
    else cfg.table.lookup (py.str (record.get cfg.joinKey))
  match found with
  | none =>
    let added := if cfg.nullFields then cfg.addFields.map fun f => (cfg.keyPrefix ++ f, .null) else []
    .ok [record.update added]
  | some row =>
    let copied := if cfg.addFields = [] then (row.map (·.1)).filter (· ≠ cfg.lookupKey) else cfg.addFields
    .ok [record.update (copied.filterMap fun f => (row.lookup f).map fun v => (cfg.keyPrefix ++ f, v))]

structure InjectMeta where
  fields : List (String × String)
  includeAll : Bool
  keyPrefix : String
  nullMissing : Bool
  runtimeMeta : Record

def injectMeta (cfg : InjectMeta) : RowFunction := fun _ record =>
  let all := if cfg.includeAll then cfg.runtimeMeta.map fun e => (cfg.keyPrefix ++ e.1, e.2) else []
  let chosen := cfg.fields.filterMap fun e =>
    ((cfg.runtimeMeta.lookup e.1).or (if cfg.nullMissing then some .null else none)).map
      fun v => (cfg.keyPrefix ++ e.2, v)
  .ok [(record.update all).update chosen]

/-! ## mask and regex_extract -/

inductive MaskMode where
  | redact | hash | partially (visibleStart visibleEnd : Nat)

def maskValue (mode : MaskMode) (placeholder val : String) : String :=
  match mode with
  | .redact => placeholder
  | .hash => py.sha256 val
  | .partially visibleStart visibleEnd =>
    if val.length ≤ visibleStart + visibleEnd then placeholder
    else String.ofList (val.toList.take visibleStart) ++ placeholder ++
      String.ofList (val.toList.drop (val.length - visibleEnd))

def mask (fields : List String) (mode : MaskMode) (placeholder : String) : RowFunction :=
  edit fields fun r field => .ok <|
    match r.lookup field with
    | some v => r.put field (.str (maskValue py mode placeholder (py.str v)))
    | none => r

inductive OnNoMatch where
  | keep | null | drop

def regexExtract (field pattern : String) (destination : Option String) (onNoMatch : OnNoMatch) :
    RowFunction := fun _ record =>
  let merged (groups : List (String × Json)) (alone : Json) : Record :=
    match destination with
    | some destination => record.put destination alone
    | none => record.update groups
  match py.search pattern (py.str ((record.lookup field).getD (.str ""))), onNoMatch with
  | some groups, _ => .ok [merged groups (.obj groups)]
  | none, .keep => .ok [record]
  | none, .null => .ok [merged ((py.groupNames pattern).map (·, .null)) (.obj [])]
  | none, .drop => .ok []

/-! ## rename, drop and explode -/

def rename (fields : List (Path × Path)) : RowFunction :=
  edit fields fun r e => r.renamePath e.1 e.2

/-- The fields are a list, or a dictionary of the values for which each is dropped. -/
def drop (fields : List Path) (conditionalFields : List (Path × List Json)) : RowFunction :=
  fun moment record =>
    edit conditionalFields (fun r e => .ok <|
      match r.getPath e.1 with
      | some value => if value.isIn e.2 then r.deletePath e.1 else r
      | none => r) moment (fields.foldl Record.deletePath record)

/-- A list element in the place of the list. -/
def putElement (base : Record) (field : Path) : Json → Except String Record
  | .obj fields => .ok (base.update fields)
  | element => base.setPath field element

/-- `indexField` is set with `include_index`. -/
def explode (field : Path) (indexField : Option String) (dropSource : Bool) : RowFunction :=
  fun _ record =>
    match record.getPath field with
    | some (.arr elements) =>
      elements.zipIdx.mapM fun element =>
        (putElement (if dropSource then record.deletePath field else record) field element.1).map fun r =>
          match indexField with
          | some indexField => r.put indexField (.int element.2)
          | none => r
    | _ => .ok [record]

/-! ## melt and unnest -/

structure Melt where
  valueField : String
  labelFields : List String
  metricNameCol : String
  metricValueCol : String
  dropSource : Bool
  includeOnly : List String
  exclude : List String

def melt (cfg : Melt) : RowFunction := fun _ record =>
  match record.get cfg.valueField with
  | .obj values =>
    let base := if cfg.dropSource then record.remove cfg.valueField else record
    let base := cfg.labelFields.foldl (fun base field =>
      let label := if cfg.dropSource then base.get field else record.get field
      let base := if cfg.dropSource then base.remove field else base
      match label with
      | .obj labels => base.update labels
      | _ => base) base
    .ok <| (values.filter fun e => (cfg.includeOnly = [] ∨ e.1 ∈ cfg.includeOnly) ∧ e.1 ∉ cfg.exclude).map
      fun e => (base.put cfg.metricNameCol (.str e.1)).put cfg.metricValueCol e.2
  | _ => .ok [record]

inductive OnNonDict where
  | keep | drop | raise

def unnest (field : Path) (keyPrefix : String) (dropSource : Bool) (onNonDict : OnNonDict) :
    RowFunction := fun _ record =>
  match record.getPath field, onNonDict with
  | none, _ => .ok [record]
  | some (.obj fields), _ =>
    .ok [(if dropSource then record.deletePath field else record).update
      (fields.map fun e => (keyPrefix ++ e.1, e.2))]
  | some _, .keep => .ok [record]
  | some _, .drop => .ok []
  | some v, .raise => .error ("unnest: field '" ++ field.text ++ "' is not a dict (got " ++
      py.repr (.str (py.typeName v)) ++ ")")

/-! ## validate -/

structure ValidateRule where
  required : Bool
  type : Option String
  min : Option Json
  max : Option Json
  regex : Option String
  allowed : Option (List Json)

/-- `isinstance(val, _TYPE_CHECKS[type])`; `none` for an unknown type. -/
def checksType : String → Json → Option Bool
  | "str", v => some (v matches .str _)
  | "int", v => some (v matches .int _ | .bool _)
  | "float", v => some v.numeric?.isSome
  | "bool", v => some (v matches .bool _)
  | _, _ => none

/-- A bound that the value misses, or cannot be compared to. -/
def missesBound (val : Json) (bound : Option Json) (missed : Json → Option Bool) (comparison name : String) :
    Option String :=
  bound.bind fun b =>
    match missed b with
    | some false => none
    | some true => some (" value " ++ py.repr val ++ " is " ++ comparison ++ " than " ++ name ++
        " " ++ py.str b)
    | none => some (" value " ++ py.repr val ++ " is not comparable to " ++ name ++ " " ++ py.str b)

/-- What is wrong with a value that is not `None`, if anything, in the order of the checks. -/
def checkValue (field : String) (rule : ValidateRule) (val : Json) : Except String (Option String) :=
  let rest : Option String :=
    (missesBound py val rule.min (val.less? ·) "less" "min").or <|
    (missesBound py val rule.max (·.less? val) "greater" "max").or <|
    (rule.regex.bind fun pattern =>
      match val with
      | .str text =>
        if (py.search pattern text).isSome then none
        else some (" value " ++ py.repr val ++ " does not match regex " ++ py.repr (.str pattern))
      | _ => some (" regex check requires a string value, got " ++ py.typeName val)).or <|
    rule.allowed.bind fun allowed =>
      if val.isIn allowed then none
      else some (" value " ++ py.repr val ++ " not in allowed list " ++ py.str (.arr allowed))
  match rule.type with
  | none => .ok rest
  | some type =>
    match checksType type val with
    | none => .error ("validate: unknown type '" ++ type ++ "' for field '" ++ field ++
        "'. Supported: ['str', 'int', 'float', 'bool']")
    | some false => .ok (some (" expected type " ++ type ++ ", got " ++ py.typeName val))
    | some true => .ok rest

/-- `_check_record`: the first rule that fails. -/
def checkRecord (record : Record) : List (String × ValidateRule) → Except String (Option String)
  | [] => .ok none
  | (field, rule) :: rules =>
    let val := record.get field
    let verdict := if val.isNull then
        .ok (if rule.required then some " is required but missing or None" else none)
      else checkValue py field rule val
    match verdict with
    | .error exc => .error exc
    | .ok (some wrong) => .ok (some ("field '" ++ field ++ "'" ++ wrong))
    | .ok none => checkRecord record rules

def validate (rules : List (String × ValidateRule)) (raises : Bool) : RowFunction := fun _ record =>
  match checkRecord py record rules with
  | .error exc => .error exc
  | .ok none => .ok [record]
  | .ok (some error) =>
    if raises then .error ("validate: record failed validation — " ++ error) else .ok []

/-! ## timestamp_normalize -/

def inRange (us : Int) : Except Raised DateTime :=
  match DateTime.ofUs? us with
  | some t => .ok t
  | none => .error (.other (py.outOfRange us))

/-- `datetime.fromtimestamp` rounds the part of a second to microseconds. -/
def fromUnix (val : ℚ) : Except Raised DateTime :=
  let seconds :=
    if |val| ≤ 9999999999 then val
    else if |val| ≤ 9999999999999 then Binary64.round (val / 1000)
    else if |val| ≤ 9999999999999999 then Binary64.round (val / 1000000)
    else Binary64.round (val / 1000000000)
  let whole := Binary64.trunc seconds
  inRange py (whole * 1000000 + Binary64.roundHalfEven (Binary64.round ((seconds - whole) * 1000000)))

/-- `astimezone(UTC)`; a local time without offset is one of `source_tz`. -/
def toUtc (sourceTz : Option String) (read : Int × Option Int) : Except Raised DateTime :=
  inRange py (read.1 - read.2.getD ((sourceTz.map (py.zoneOffset · read.1)).getD 0))

def fallbackFormats : List String :=
  ["%Y-%m-%dT%H:%M:%S.%f%z", "%Y-%m-%dT%H:%M:%S%z", "%Y-%m-%dT%H:%M:%S.%f", "%Y-%m-%dT%H:%M:%S",
    "%Y-%m-%d %H:%M:%S.%f", "%Y-%m-%d %H:%M:%S", "%Y-%m-%d"]

def parseTimestampText (inputFormat sourceTz : Option String) (val : Json) (s : String) :
    Except Raised DateTime :=
  match py.number s, inputFormat with
  | some q, _ => fromUnix py q
  | none, some format =>
    match py.strptime format s with
    | .ok read => toUtc py sourceTz read
    | .error exc => .error (.named ("Cannot parse " ++ py.repr (.str s) ++ " with format " ++
        py.repr (.str format) ++ ": " ++ exc))
  | none, none =>
    match (py.fromisoformat s).or (fallbackFormats.findSome? fun format =>
      (py.strptime format s).toOption) with
    | some read => toUtc py sourceTz read
    | none => .error (.named ("Cannot parse timestamp: " ++ py.repr val))

def parseTimestamp (inputFormat sourceTz : Option String) (val : Json) : Except Raised DateTime :=
  match val.numeric? with
  | some q => fromUnix py q
  | none => parseTimestampText py inputFormat sourceTz val (py.strip (py.str val))

/-- `int(dt.timestamp() * scale)` -/
def epoch (scale : ℚ) (dt : DateTime) : Json :=
  .int (Binary64.trunc (Binary64.round (DateTime.timestampOf dt.us * scale)))

inductive OutputFormat where
  | epochS | epochMs | epochUs | epochNs | iso
  | strftime (format : String)

def formatTimestamp (dt : DateTime) : OutputFormat → Json
  | .epochS => .float (DateTime.timestampOf dt.us)
  | .epochMs => epoch 1000 dt
  | .epochUs => epoch 1000000 dt
  | .epochNs => epoch 1000000000 dt
  | .iso => .str (py.isoMilliseconds dt)
  | .strftime format => .str (py.strftime format dt)

inductive OnError where
  | raise | null | keep

def timestampNormalize (fields : List String) (inputFormat sourceTz : Option String)
    (outputFormat : OutputFormat) (onError : OnError) : RowFunction :=
  edit fields fun r field =>
    match r.lookup field with
    | none => .ok r
    | some val =>
      let failed (exc : String) : Except String Json := match onError with
        | .raise => .error exc
        | .null => .ok .null
        | .keep => .ok val
      (rescue failed ((parseTimestamp py inputFormat sourceTz val).map
        (formatTimestamp py · outputFormat))).map
        fun v => r.put field v

/-! ## Paths with wildcards -/

def hasPathPattern (path : String) : Bool := (path.splitOn ".").contains "*"

def pathMatchesPattern (path pattern : String) : Bool :=
  let tokens := path.splitOn "."
  let patternTokens := pattern.splitOn "."
  tokens.length = patternTokens.length ∧ (tokens.zip patternTokens).all fun e => e.2 = "*" ∨ e.2 = e.1

/-! ## flatten and json_flatten -/

/-- `_flatten_record`, and `_flatten_dict` where lists are preserved. -/
def flattenInto (separator : String) (maxDepth : Int) (preserveLists : Bool) (outer : String) (depth : Int) :
    Record → Record → Except String Record
  | made, [] => .ok made
  | made, (key, value) :: rest =>
    let outputKey := if outer = "" then key else outer ++ separator ++ key
    let written : Except String Record := match value with
      | .obj (f :: fs) =>
        if maxDepth = 0 ∨ depth < maxDepth then
          (flattenInto separator maxDepth preserveLists outputKey (depth + 1) [] (f :: fs)).map made.update
        else .ok (made.put outputKey (.obj (f :: fs)))
      | .arr items =>
        if preserveLists then .ok (made.put outputKey (.arr items))
        else .error ("json_flatten: list value at '" ++ outputKey ++ "' requires preserve_lists=true")
      | v => .ok (made.put outputKey v)
    written.bind fun made => flattenInto separator maxDepth preserveLists outer depth made rest

def flatten (separator : String) (maxDepth : Int) (keyPrefix : String) : RowFunction := fun _ record =>
  (flattenInto separator maxDepth true keyPrefix 0 [] record).map ([·])

inductive ChoiceMode where
  | keep | value | both

/-- The suffixes have no dot. -/
structure ChoiceUnwrap where
  mode : ChoiceMode
  paths : List Path
  typeSuffix : String
  valueSuffix : String

structure JsonFlatten where
  explodePaths : List Path
  separator : String
  keepEmptyRows : Bool
  preserveLists : Bool
  maxDepth : Int
  /-- The fields of each group, and whether it is strict. -/
  zipGroups : List (List (Path × Path) × Bool)
  choiceUnwrap : Option ChoiceUnwrap
  dropPaths : List String
  /-- The rows that one record is exploded into share its nested dictionaries, into which
  `choice_unwrap` would write through a path with a dot. -/
  unshared : explodePaths = [] ∧ zipGroups = [] ∨
    ∀ choice ∈ choiceUnwrap, ∀ path ∈ choice.paths, path.length = 1

/-- `_delete_path_pruned` of a path that is there: with it go the dictionaries that it leaves empty. -/
def deletePruned : Record → Path → Record
  | r, [] => r
  | r, [token] => r.remove token
  | r, token :: tokens =>
    match r.lookup token with
    | some (.obj fields) =>
      match deletePruned fields tokens with
      | [] => r.remove token
      | kept => r.put token (.obj kept)
    | _ => r

def explodeRow (keepEmptyRows : Bool) (path : Path) : RowFunction := fun _ row =>
  match row.getPath path with
  | none | some (.arr []) => .ok (if keepEmptyRows then [row] else [])
  | some (.arr elements) => elements.mapM (putElement (deletePruned row path) path)
  | some _ => .error ("json_flatten: explode path '" ++ path.text ++ "' is not a list")

/-- The lists of the group's fields, up to the first that is missing: then there are none. -/
def zipValues (row : Record) : List Path → Except String (Option (List (List Json)))
  | [] => .ok (some [])
  | source :: sources =>
    match row.getPath source with
    | none => .ok none
    | some (.arr values) => (zipValues row sources).map fun rest => rest.map (values :: ·)
    | some _ => .error ("json_flatten: zip group field '" ++ source.text ++ "' is not a list")

def zipRow (fields : List (Path × Path)) (strict : Bool) : RowFunction := fun _ row =>
  match zipValues row (fields.map (·.1)) with
  | .error exc => .error exc
  | .ok none | .ok (some []) => .ok [row]
  | .ok (some (values :: others)) =>
    if others.all fun other => other.length = values.length then
      let base := (fields.map (·.1)).foldl deletePruned row
      (range values.length).mapM fun idx =>
        ((fields.map (·.2)).zip (values :: others)).foldlM
          (fun r e => r.setPath e.1 (e.2.getD idx .null)) base
    else if strict then .error ("json_flatten: zip group fields " ++
      py.repr (.arr (fields.map fun e => .str e.1.text)) ++ " have different lengths")
    else .ok [row]

def zipPass (group : List (Path × Path) × Bool) : Pass where
  refuses :=
    if group.1 = [] then some "json_flatten: zip_groups[].fields must be a non-empty mapping" else none
  row := zipRow py group.1 group.2

/-- `_is_choice_dict`, with the type and the value. -/
def choiceOf : Json → Option (Json × Json)
  | .obj fields =>
    match fields.length, fields.lookup "type", fields.lookup "value" with
    | 2, some type, some value => some (type, value)
    | _, _, _ => none
  | _ => none

def unwrapRow (choice : ChoiceUnwrap) : RowFunction :=
  edit choice.paths fun row path =>
    match (row.getPath path).bind choiceOf, choice.mode with
    | none, _ | _, .keep => .ok row
    | some (_, value), .value => row.setPath path value
    | some (type, value), .both =>
      ((deletePruned row path).setPath (path.extend choice.typeSuffix) type).bind fun row =>
        row.setPath (path.extend choice.valueSuffix) value

def dropFlattened (dropPaths : List String) (row : Record) : Record :=
  row.filter fun field => !dropPaths.any fun path =>
    if hasPathPattern path then pathMatchesPattern field.1 path else path = field.1

def jsonFlatten (cfg : JsonFlatten) : List Pass :=
  cfg.explodePaths.map (⟨none, explodeRow cfg.keepEmptyRows ·⟩) ++ cfg.zipGroups.map (zipPass py) ++
    cfg.choiceUnwrap.toList.map (⟨none, unwrapRow ·⟩) ++
    [⟨none, fun _ row => (flattenInto cfg.separator cfg.maxDepth cfg.preserveLists "" 0 [] row).map ([·])⟩,
      ⟨none, fun _ row => .ok [dropFlattened cfg.dropPaths row]⟩]

/-! ## hex_decode -/

structure HexOverride where
  decodeAs : String
  format : Option String
  bitLengthField : Option Path
  mapping : List (Nat × String)
  output : Option String

inductive HexMode where
  | hex | utf8OrHex | latin1OrHex

structure HexDecode where
  mode : HexMode
  preserveOriginal : Bool
  originalSuffix : String
  overrides : List (String × HexOverride)

def isPrintableText (value : String) : Bool :=
  value.toList.all fun c => 32 ≤ c.toNat ∧ c.toNat < 127 ∨ 9 ≤ c.toNat ∧ c.toNat ≤ 13

def decodeText (data : List UInt8) (mode : HexMode) : Option String :=
  let encodings := match mode with
    | .hex => []
    | .utf8OrHex => ["utf-8", "latin-1"]
    | .latin1OrHex => ["latin-1"]
  encodings.findSome? fun encoding => (py.decode encoding data).toOption.filter isPrintableText

def low (byte : UInt8) : Nat := byte.toNat % 16

def high (byte : UInt8) : Nat := byte.toNat / 16

def decodeTbcd (data : List UInt8) : String :=
  "".intercalate (((data.flatMap fun byte => [low byte, high byte]).filter (· ≤ 9)).map toString)

def decodeBcdTimestamp (data : List UInt8) : String :=
  match data.map fun byte => toString (high byte) ++ toString (low byte) with
  | a :: b :: c :: d :: e :: f :: _ =>
    "20" ++ a ++ "-" ++ b ++ "-" ++ c ++ " " ++ d ++ ":" ++ e ++ ":" ++ f
  | parts => " ".intercalate parts

def twoDigits (n : Nat) : String := if n < 10 then "0" ++ toString n else toString n

def decodeTbcdTimezone : List UInt8 → Except String String
  | [] => .error "hex_decode: timezone tbcd_quarter_hour codec requires at least 1 byte"
  | first :: rest =>
    if high first > 9 then .error "hex_decode: invalid tbcd_quarter_hour timezone value"
    else
      let minutes := (low first % 8 * 10 + high first) * 15
      let dst := match rest with
        | [] => ""
        | byte :: _ => " DST=" ++ toString byte
      .ok ("UTC" ++ (if low first ≥ 8 then "-" else "+") ++ twoDigits (minutes / 60) ++ ":" ++
        twoDigits (minutes % 60) ++ dst)

def decodePackedIp (data : List UInt8) : Except String String :=
  if data.length = 4 ∨ data.length = 16 then .ok (py.ipAddress data)
  else .error "hex_decode: packed IP codec expects 4 or 16 bytes"

def decodeBitFlags (data : List UInt8) (bitLength : Option Int) (mapping : List (Nat × String))
    (output : Option String) : Except String Json :=
  let bits := bitLength.getD (data.length * 8)
  if bits < 0 then .error "hex_decode: bit_length_field must be >= 0"
  else if bits > data.length * 8 then .error "hex_decode: bit_length_field exceeds available bits"
  else
    let set := (range bits.toNat).filter fun i => ((data.getD (i / 8) 0).toNat).testBit (7 - i % 8)
    let indexes : Json := .arr (set.map fun i => .int i)
    let names : Json := .arr ((set.filterMap fun i => mapping.lookup i).map .str)
    match output with
    | some "indexes" => .ok indexes
    | some "both" => .ok (.obj [("indexes", indexes), ("names", names)])
    | some "names" | some "" | none => .ok (if mapping = [] then indexes else names)
    | some _ => .error "hex_decode: bit_flags output must be names, indexes, or both"

def decodeValue (rawHex : String) (data : List UInt8) (o : HexOverride) (bitLength : Option Int) :
    Except String Json :=
  match o.decodeAs, o.format with
  | "text", none | "text", some "" | "text", some "utf8" => (py.decode "utf-8" data).map .str
  | "text", some "latin1" => (py.decode "latin-1" data).map .str
  | "text", some format => .error ("hex_decode: unsupported text format " ++ py.repr (.str format))
  | "digits", some "tbcd" => .ok (.str (decodeTbcd data))
  | "timestamp", some "bcd_semi_octet" => .ok (.str (decodeBcdTimestamp data))
  | "timezone", some "tbcd_quarter_hour" => (decodeTbcdTimezone data).map .str
  | "ip", some "packed" => (decodePackedIp py data).map .str
  | "bit_flags", _ => decodeBitFlags data bitLength o.mapping o.output
  | "hex", _ => .ok (.str rawHex)
  | decodeAs, format => .error ("hex_decode: unsupported decode pair decode_as=" ++
      py.repr (.str decodeAs) ++ ", format=" ++ py.repr (format.elim .null .str))

def resolveBitLength (root : Record) : Option Path → Except String (Option Int)
  | none => .ok none
  | some field =>
    match root.getPath field with
    | none => .error ("hex_decode: bit_length_field '" ++ field.text ++ "' not found")
    | some (.int n) => .ok (some n)
    | some (.bool b) => .ok (some (if b then 1 else 0))
    | some _ => .error ("hex_decode: bit_length_field '" ++ field.text ++ "' must be an int")

/-- The last override of the path itself, or the first whose pattern it matches. -/
def HexDecode.overrideOf (cfg : HexDecode) (path : String) : Option HexOverride :=
  ((cfg.overrides.reverse.filter fun o => !hasPathPattern o.1).lookup path).or
    ((cfg.overrides.find? fun o => hasPathPattern o.1 && pathMatchesPattern path o.1).map (·.2))

/-- `_maybe_decode`: `none` where the value stays as it is. -/
def maybeDecode (cfg : HexDecode) (root : Record) (path : String) : Json → Except String (Option Json)
  | .str value =>
    match (if value.length % 2 = 0 ∧ value ≠ "" then py.fromHex value else none), cfg.overrideOf path with
    | none, _ => .ok none
    | some data, some o =>
      (resolveBitLength root o.bitLengthField).bind fun bits => (decodeValue py value data o bits).map some
    | some data, none => .ok ((decodeText py data cfg.mode).map .str)
  | _ => .ok none

mutual

def transformMapping (cfg : HexDecode) (root : Record) (outer : String) :
    Record → Record → Except String Record
  | made, [] => .ok made
  | made, (key, value) :: rest =>
    let path := if outer = "" then key else outer ++ "." ++ key
    let written : Except String Record := match value with
      | .obj fields => (transformMapping cfg root path [] fields).map fun v => made.put key (.obj v)
      | .arr items => (transformList cfg root path items).map fun v => made.put key (.arr v)
      | v => (maybeDecode py cfg root path v).map fun decoded =>
        match decoded with
        | none => made.put key v
        | some decoded =>
          let made := made.put key decoded
          if cfg.preserveOriginal then made.put (key ++ cfg.originalSuffix) v else made
    written.bind fun made => transformMapping cfg root outer made rest

def transformList (cfg : HexDecode) (root : Record) (path : String) : List Json → Except String (List Json)
  | [] => .ok []
  | value :: rest =>
    let made : Except String Json := match value with
      | .obj fields => (transformMapping cfg root path [] fields).map .obj
      | .arr items => (transformList cfg root path items).map .arr
      | v => (maybeDecode py cfg root path v).map (·.getD v)
    made.bind fun v => (transformList cfg root path rest).map (v :: ·)

end

def hexDecode (cfg : HexDecode) : RowFunction := fun _ record =>
  (transformMapping py cfg record "" [] record).map ([·])

/-! ## All of them -/

inductive RowTransform where
  | addField (fields : List (String × String)) (pipeline : Json)
  | cast (fields : List (Path × CastType))
  | coalesceFields (fields : List (String × CoalesceRule))
  | drop (fields : List Path) (conditionalFields : List (Path × List Json))
  | enrich (cfg : Enrich)
  | explode (field : Path) (indexField : Option String) (dropSource : Bool)
  | filter (condition : String)
  | flatten (separator : String) (maxDepth : Int) (keyPrefix : String)
  | hexDecode (cfg : HexDecode)
  | injectMeta (cfg : InjectMeta)
  | jmespath (fields : List (String × String))
  | jsonFlatten (cfg : JsonFlatten)
  | mask (fields : List String) (mode : MaskMode) (placeholder : String)
  | melt (cfg : Melt)
  | project (fields : List (String × ProjectRule))
  | regexExtract (field pattern : String) (destination : Option String) (onNoMatch : OnNoMatch)
  | rename (fields : List (Path × Path))
  | selectFromList (field : Path) (select : List Selection) (raises : Bool)
  | template (fields : List (String × String))
  | timestampNormalize (fields : List String) (inputFormat sourceTz : Option String)
      (outputFormat : OutputFormat) (onError : OnError)
  | unnest (field : Path) (keyPrefix : String) (dropSource : Bool) (onNonDict : OnNonDict)
  | validate (rules : List (String × ValidateRule)) (raises : Bool)
  | valueMap (field : Path) (mapping : List (String × Json)) (fallback : Option Json)

def loop (row : RowFunction) : List Pass := [⟨none, row⟩]

def passes : RowTransform → List Pass
  | .addField fields pipeline => loop (addField py fields pipeline)
  | .cast fields => loop (cast py fields)
  | .coalesceFields fields => loop (coalesceFields fields)
  | .drop fields conditionalFields => loop (drop fields conditionalFields)
  | .enrich cfg => loop (enrich py cfg)
  | .explode field indexField dropSource => loop (explode field indexField dropSource)
  | .filter condition =>
    [⟨(py.parseError condition).map (filterError py condition), filterRow py condition⟩]
  | .flatten separator maxDepth keyPrefix => loop (flatten separator maxDepth keyPrefix)
  | .hexDecode cfg => loop (hexDecode py cfg)
  | .injectMeta cfg => loop (injectMeta cfg)
  | .jmespath fields =>
    [⟨fields.findSome? fun e => (py.jmespathError e.2).map fun exc =>
      "jmespath: failed to compile expression '" ++ e.2 ++ "': " ++ exc, jmespathRow py fields⟩]
  | .jsonFlatten cfg => jsonFlatten py cfg
  | .mask fields mode placeholder => loop (mask py fields mode placeholder)
  | .melt cfg => loop (melt cfg)
  | .project fields => loop (project fields)
  | .regexExtract field pattern destination onNoMatch =>
    loop (regexExtract py field pattern destination onNoMatch)
  | .rename fields => loop (rename fields)
  | .selectFromList field select raises => loop (selectFromList py field select raises)
  | .template fields => loop (template py fields)
  | .timestampNormalize fields inputFormat sourceTz outputFormat onError =>
    loop (timestampNormalize py fields inputFormat sourceTz outputFormat onError)
  | .unnest field keyPrefix dropSource onNonDict => loop (unnest py field keyPrefix dropSource onNonDict)
  | .validate rules raises => loop (validate py rules raises)
  | .valueMap field mapping fallback => loop (valueMap py field mapping fallback)

end Stateless
end Tram
