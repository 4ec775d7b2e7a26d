import Mathlib.Data.Bool.AllAny
import Tram.Lib.Grouping
import Tram.Lib.Weave
import Tram.FileSink.Paths
import Tram.FileSink.Provenance

/-! # Partitions by field values

A template may name fields of the records. The records of a chunk are then partitioned by the values
of these fields, and the writer keeps the parts of each partition under a key of their own. The path
of a part is a text, though, in which the values stand one after the other: two partitions have files
of their own only as long as the text tells their values. -/

namespace Tram.FileSink

open List Weave

def TemplatePart.fieldPath (piece : TemplatePart) : Option String :=
  match piece.replacement with
  | some ⟨.field path, _, _⟩ => some path
  | _ => none

def extractFieldPaths (template : Template) : List String :=
  template.foldl (fun paths piece =>
    match piece.fieldPath with
    | some path => if path ∈ paths then paths else paths ++ [path]
    | none => paths) []

/-- `_resolve_field_path` of the values of a partition, which are texts: a path that is not one of
theirs has no segment to go on with. -/
def resolveFieldPath (values : List (String × String)) (path : String) : String :=
  match values.lookup path with
  | some value => if value = "" then "unknown" else value
  | none => "unknown"

section

variable {ρ : Type}

/-- `_partition_records_for_template`, with the values of the fields of each partition. -/
def partitionRecordsForTemplate (lookup : ρ → String → String) (template : Template) (records : List ρ) :
    List (List (String × String) × List ρ) :=
  if extractFieldPaths template = [] then [([], records)]
  else Grouping.groups (fun r => (extractFieldPaths template).map fun path => (path, lookup r path)) records

/-- A chunk as the writer is given it: the values its meta resolves to are those of its records. -/
structure Chunk (ρ : Type) (lookup : ρ → String → String) (template : Template) where
  records : List ρ
  data : Bytes
  info : Meta
  now : Time
  resolved : ∀ r ∈ records, ∀ path ∈ extractFieldPaths template, info.fieldValue path = lookup r path

theorem resolveFieldPath_map {lookup : String → String} {paths : List String} {path : String}
    (hpath : path ∈ paths) (hvalue : lookup path ≠ "") :
    resolveFieldPath (paths.map fun path => (path, lookup path)) path = lookup path := by
  have hlookup : (paths.map fun path => (path, lookup path)).lookup path = some (lookup path) := by
    rw [Dict.lookup_graph, if_pos hpath]
  rw [resolveFieldPath, hlookup]
  exact if_neg hvalue

def Chunk.ofPartition {lookup : ρ → String → String} {template : Template}
    (hlookup : ∀ r path, lookup r path ≠ "") {records : List ρ}
    (partition : { g // g ∈ partitionRecordsForTemplate lookup template records }) (m : Meta)
    (serialize : List ρ → Bytes) (now : Time) : Chunk ρ lookup template where
  records := partition.1.2
  data := serialize partition.1.2
  info := { m with
    fieldValue := resolveFieldPath partition.1.1
    outputRecordCount := partition.1.2.length }
  now := now
  resolved := by
    obtain ⟨g, hg⟩ := partition
    intro r hr path hpath
    unfold partitionRecordsForTemplate at hg
    split_ifs at hg with hnil
    · rw [hnil] at hpath
      cases hpath
    · rw [← Grouping.key_of_mem_groups _ records g hg r hr]
      exact resolveFieldPath_map hpath (hlookup r path)

end

variable {piece : TemplatePart}

section

variable {py : Platform} {template : Template} {m m' : Meta} {path : String}

theorem fieldPath_eq_some (h : piece.fieldPath = some path) :
    ∃ r, piece.replacement = some r ∧ r.token = .field path := by
  unfold TemplatePart.fieldPath at h
  split at h
  · next hr => exact ⟨_, hr, congrArg _ (Option.some.inj h)⟩
  · cases h

theorem mem_extractFieldPaths :
    path ∈ extractFieldPaths template ↔ ∃ piece ∈ template, piece.fieldPath = some path := by
  unfold extractFieldPaths
  suffices h : ∀ paths : List String, path ∈ template.foldl (fun paths piece =>
      match piece.fieldPath with
      | some path => if path ∈ paths then paths else paths ++ [path]
      | none => paths) paths ↔ path ∈ paths ∨ ∃ piece ∈ template, piece.fieldPath = some path by
    simpa using h []
  induction template with
  | nil => simp
  | cons piece template ih =>
    intro paths
    have hpiece : (∃ p ∈ piece :: template, p.fieldPath = some path) ↔
        piece.fieldPath = some path ∨ ∃ p ∈ template, p.fieldPath = some path := by simp
    rw [foldl_cons, ih, hpiece, ← or_assoc]
    refine or_congr_left ?_
    cases hfield : piece.fieldPath with
    | none => simp
    | some first =>
      dsimp only
      split_ifs with hmem
      · exact ⟨.inl, fun h => h.elim id fun h => Option.some.inj h ▸ hmem⟩
      · simp [eq_comm]

theorem field_mem_fileStateKey (hpath : path ∈ extractFieldPaths template) :
    (Token.field path, m.fieldValue path) ∈ fileStateKey py template m := by
  obtain ⟨piece, hpiece, hfield⟩ := mem_extractFieldPaths.mp hpath
  obtain ⟨r, hr, htoken⟩ := fieldPath_eq_some hfield
  refine mem_filterMap.mpr ⟨piece, hpiece, ?_⟩
  simp [hr, htoken, Token.rolling, tokenValue, Value.text]

theorem fieldValue_of_mem_fileStateKey {value : String}
    (h : (Token.field path, value) ∈ fileStateKey py template m) : value = m.fieldValue path := by
  obtain ⟨piece, -, h⟩ := mem_filterMap.mp h
  obtain ⟨r, -, h⟩ := Option.bind_eq_some_iff.mp h
  split_ifs at h
  obtain ⟨v, hv, h⟩ := Option.bind_eq_some_iff.mp h
  obtain ⟨htoken, rfl⟩ := Prod.mk.inj (Option.some.inj h)
  rw [htoken] at hv
  simp only [tokenValue, Option.some.injEq] at hv
  rw [← hv, Value.text]

theorem fieldValue_eq_of_key (h : fileStateKey py template m = fileStateKey py template m')
    (hpath : path ∈ extractFieldPaths template) : m.fieldValue path = m'.fieldValue path :=
  fieldValue_of_mem_fileStateKey (h ▸ field_mem_fileStateKey hpath)

end

/-! ## Names -/

section

variable (py : Platform) (openedAt : Time) (partIndex maxIndex : Nat) (m : Meta)

def pieceText (piece : TemplatePart) : String :=
  match piece.replacement with
  | none => ""
  | some r =>
    match tokenValue py openedAt partIndex maxIndex m r.token with
    | none => ""
    | some value =>
      if r.conversion = none ∧ r.formatSpec = "" then value.text
      else py.format value r.conversion r.formatSpec

/-- The literal texts of a template, and what is filled in after each. -/
def pieces (template : Template) : List (List Char × List Char) :=
  template.map fun piece =>
    (piece.literalText.toList, (pieceText py openedAt partIndex maxIndex m piece).toList)

/-- Two values never meet: after the first piece each has a separator in its literal text, but for a
literal text at the end. -/
def Spaced (sep : Char → Bool) : Template → Prop
  | _ :: piece :: rest =>
    (piece.replacement = none ∧ rest = [] ∨ piece.literalText.toList.any sep = true) ∧
      Spaced sep (piece :: rest)
  | _ => True

variable {py openedAt partIndex maxIndex m} {template : Template}

theorem renderPart_eq_some {text : String}
    (h : renderPart py openedAt partIndex maxIndex m piece = some text) :
    text = piece.literalText ++ pieceText py openedAt partIndex maxIndex m piece := by
  unfold renderPart at h
  unfold pieceText
  cases hr : piece.replacement with
  | none => simpa [hr, eq_comm] using h
  | some r =>
    rw [hr] at h
    obtain ⟨value, hvalue, h⟩ := Option.bind_eq_some_iff.mp h
    dsimp only
    rw [hvalue]
    split_ifs at h ⊢ <;> exact (Option.some.inj h).symm

theorem toList_renderFilename {name : String}
    (h : renderFilename py template openedAt partIndex maxIndex m = some name) :
    name.toList = weave (pieces py openedAt partIndex maxIndex m template) := by
  obtain ⟨texts, htexts, hname⟩ := Option.bind_eq_some_iff.mp h
  obtain rfl := Option.some.inj hname
  clear h hname
  rw [String.toList_join]
  induction template generalizing texts with
  | nil =>
    obtain rfl : [] = texts := by simpa using htexts
    rfl
  | cons piece template ih =>
    rw [mapM_cons] at htexts
    obtain ⟨text, htext, htexts⟩ := Option.bind_eq_some_iff.mp htexts
    obtain ⟨rest, hrest, htexts⟩ := Option.bind_eq_some_iff.mp htexts
    obtain rfl : text :: rest = texts := Option.some.inj htexts
    rw [pieces, map_cons, weave_cons, flatMap_cons, renderPart_eq_some htext]
    simp only [String.toList_append, append_assoc]
    rw [ih rest hrest]
    rfl

theorem alternates_pieces {sep : Char → Bool} (hspaced : Spaced sep template) {openedAt' : Time}
    {partIndex' : Nat} {m' : Meta} (h : ∀ piece ∈ template,
      Free sep (pieceText py openedAt partIndex maxIndex m piece).toList)
    (h' : ∀ piece ∈ template,
      Free sep (pieceText py openedAt' partIndex' maxIndex m' piece).toList) :
    Alternates sep (pieces py openedAt partIndex maxIndex m template)
      (pieces py openedAt' partIndex' maxIndex m' template) := by
  induction template with
  | nil => exact .nil
  | cons piece template ih =>
    cases template with
    | nil => exact .last _ _ _
    | cons next rest =>
      obtain ⟨hnext, hrest⟩ := hspaced
      rcases hnext with ⟨hnone, rfl⟩ | hsep
      · have hempty : ∀ (openedAt : Time) (partIndex : Nat) (m : Meta),
            pieceText py openedAt partIndex maxIndex m next = "" := fun _ _ _ => by
          rw [pieceText, hnone]
        simp only [pieces, map_cons, map_nil, hempty]
        exact .close _ _ _ _
      · exact .cons (h piece mem_cons_self) (h' piece mem_cons_self)
          (by simpa using hsep)
          (ih hrest (fun p hp => h p (mem_cons_of_mem _ hp)) fun p hp => h' p (mem_cons_of_mem _ hp))

end

def firstChar (py : Platform) (openedAt : Time) (partIndex maxIndex : Nat) (m : Meta) (template : Template) :
    Option Char :=
  template.head?.bind fun piece =>
    (piece.literalText.toList ++ (pieceText py openedAt partIndex maxIndex m piece).toList).head?

/-- The template and the values of some chunks, such that a path tells the values: fields are filled in
as they are, no value has a slash or one of the separators that stand between values, no name is
hidden, and no run has a dot in its name. -/
structure Tells (cfg : Config) (py : Platform) (sep : Char → Bool) (chunks : List (Meta × Time)) : Prop where
  spaced : Spaced sep cfg.filenameTemplate
  literals : ∀ piece ∈ cfg.filenameTemplate, '/' ∉ piece.literalText.toList
  plain : ∀ piece ∈ cfg.filenameTemplate, ∀ r ∈ piece.replacement, piece.fieldPath.isSome = true →
    r.conversion = none ∧ r.formatSpec = ""
  values : ∀ c ∈ chunks, ∀ k ≤ cfg.maxIndex, ∀ piece ∈ cfg.filenameTemplate,
    ∀ char ∈ (pieceText py c.2 k cfg.maxIndex c.1 piece).toList, sep char = false ∧ char ≠ '/'
  visible : ∀ c ∈ chunks, ∀ k ≤ cfg.maxIndex,
    (firstChar py c.2 k cfg.maxIndex c.1 cfg.filenameTemplate).any (· ≠ '.') = true
  runs : ∀ c ∈ chunks, '.' ∉ (stagingRun c.1).toList

namespace Tells

variable {cfg : Config} {py : Platform} {sep : Char → Bool} {chunks : List (Meta × Time)} {c c' : Meta × Time}
  {k k' : Nat} {name name' : String}

section

variable (h : Tells cfg py sep chunks) (hc : c ∈ chunks) (hk : k ≤ cfg.maxIndex)
  (hname : renderFilename py cfg.filenameTemplate c.2 k cfg.maxIndex c.1 = some name)
include h hc hk hname

theorem head_name : ∃ char, name.toList.head? = some char ∧ char ≠ '.' := by
  have hvisible := h.visible c hc k hk
  rw [toList_renderFilename hname]
  unfold firstChar at hvisible
  cases htemplate : cfg.filenameTemplate with
  | nil => simp [htemplate] at hvisible
  | cons piece rest =>
    rw [htemplate, head?_cons, Option.bind_some] at hvisible
    cases hfirst : piece.literalText.toList ++ (pieceText py c.2 k cfg.maxIndex c.1 piece).toList with
    | nil => rw [hfirst] at hvisible; cases hvisible
    | cons char chars =>
      rw [hfirst] at hvisible
      refine ⟨char, ?_, by simpa using hvisible⟩
      rw [pieces, map_cons, weave_cons, ← append_assoc, hfirst]
      rfl

theorem isEntry : IsEntry name := by
  obtain ⟨char, hchar, hdot⟩ := h.head_name hc hk hname
  refine ⟨?_, ?_, ?_, fun hslash => ?_⟩
  · rintro rfl; cases hchar
  · rintro rfl; exact hdot (Option.some.inj hchar).symm
  · rintro rfl; exact hdot (Option.some.inj hchar).symm
  · rw [toList_renderFilename hname] at hslash
    obtain ⟨part, hpart, hslash⟩ := mem_flatMap.mp hslash
    obtain ⟨piece, hpiece, rfl⟩ := mem_map.mp hpart
    rcases mem_append.mp hslash with hslash | hslash
    · exact h.literals piece hpiece hslash
    · exact (h.values c hc k hk piece hpiece _ hslash).2 rfl

end

section

variable (h : Tells cfg py sep chunks) (hc : c ∈ chunks) (hc' : c' ∈ chunks)
  (hk : k ≤ cfg.maxIndex) (hk' : k' ≤ cfg.maxIndex)
  (hname : renderFilename py cfg.filenameTemplate c.2 k cfg.maxIndex c.1 = some name)
  (hname' : renderFilename py cfg.filenameTemplate c'.2 k' cfg.maxIndex c'.1 = some name)
include h hc hc' hk hk' hname hname'

theorem pieceText_eq {piece : TemplatePart} (hpiece : piece ∈ cfg.filenameTemplate) :
    pieceText py c.2 k cfg.maxIndex c.1 piece = pieceText py c'.2 k' cfg.maxIndex c'.1 piece := by
  have hpieces := (alternates_pieces h.spaced
    (fun piece hpiece char hchar => (h.values c hc k hk piece hpiece char hchar).1)
    fun piece hpiece char hchar => (h.values c' hc' k' hk' piece hpiece char hchar).1).weave_inj
      ((toList_renderFilename hname).symm.trans (toList_renderFilename hname'))
  exact String.toList_inj.mp (Prod.mk.inj (map_inj_left.mp hpieces piece hpiece)).2

theorem fieldValue_eq {path : String} (hpath : path ∈ extractFieldPaths cfg.filenameTemplate) :
    c.1.fieldValue path = c'.1.fieldValue path := by
  obtain ⟨piece, hpiece, hfield⟩ := mem_extractFieldPaths.mp hpath
  obtain ⟨r, hr, htoken⟩ := fieldPath_eq_some hfield
  have hplain := h.plain piece hpiece r hr (by simp [hfield])
  have htext : ∀ c : Meta × Time, ∀ k, pieceText py c.2 k cfg.maxIndex c.1 piece = c.1.fieldValue path :=
    fun c k => by simp [pieceText, hr, htoken, tokenValue, hplain, Value.text]
  rw [← htext c k, h.pieceText_eq hc hc' hk hk' hname hname' hpiece, htext c' k']

end

end Tells

theorem tempPath_name_inj {p p' : FilePath} {runId runId' : String} (hrun : '.' ∉ runId.toList)
    (hrun' : '.' ∉ runId'.toList) (h : (tempPath p runId).name = (tempPath p' runId').name) :
    p.name = p'.name := by
  have hall : (p.name.toList ++ '.' :: ("tram-".toList ++ runId.toList)) ++ ".tmp".toList =
      (p'.name.toList ++ '.' :: ("tram-".toList ++ runId'.toList)) ++ ".tmp".toList := by
    simpa [tempPath] using congrArg String.toList h
  have hchars := append_cancel_right hall
  have hfree : ∀ runId : String, '.' ∉ runId.toList →
      Free (· = '.') ("tram-".toList ++ runId.toList).reverse := fun runId hrun char hchar => by
    have hmem := mem_append.mp (mem_reverse.mp hchar)
    refine decide_eq_false fun hdot => ?_
    subst hdot
    exact hmem.elim (by decide) hrun
  -- after the last dot but one there is only the run
  have hruns := free_inj (hfree runId hrun) (hfree runId' hrun') (a := '.') (b := '.') (by simp)
    (by simp) (by simpa using congrArg reverse hchars)
  rw [reverse_inj.mp hruns] at hchars
  exact String.toList_inj.mp (append_cancel_right hchars)

section

variable {cfg : Config} {py : Platform} {sep : Char → Bool} {chunks : List (Meta × Time)} {c c' : Meta × Time}
  {final final' dest dest' : FilePath}

section

variable (h : Tells cfg py sep chunks) (hjoin : py.KeepsNames) (hc : c ∈ chunks)
include h hjoin hc

theorem Tells.part (hpart : PartOf cfg py c.1 c.2 final dest) :
    (∃ k ≤ cfg.maxIndex, renderFilename py cfg.filenameTemplate c.2 k cfg.maxIndex c.1 = some final.name) ∧
      (dest = final ∨ dest = tempPath final (stagingRun c.1)) := by
  obtain ⟨k, -, hk, hfinal, hdest⟩ := hpart
  obtain ⟨name, hname, rfl⟩ := Option.map_eq_some_iff.mp hfinal
  refine ⟨⟨k, hk, by rw [hjoin name (h.isEntry hc hk hname), hname]⟩, ?_⟩
  unfold destFor at hdest
  split_ifs at hdest
  · exact .inr (Option.some.inj hdest).symm
  · exact .inl (Option.some.inj hdest).symm

theorem Tells.apart_of_names (hc' : c' ∈ chunks) (hpart : PartOf cfg py c.1 c.2 final dest)
    (hpart' : PartOf cfg py c'.1 c'.2 final' dest') (hnames : final.name ≠ final'.name) :
    final ≠ final' ∧ final ≠ dest' ∧ dest ≠ final' ∧ dest ≠ dest' := by
  obtain ⟨⟨k, hk, hname⟩, hdest⟩ := h.part hjoin hc hpart
  obtain ⟨⟨k', hk', hname'⟩, hdest'⟩ := h.part hjoin hc' hpart'
  have hfinals : final ≠ final' := fun heq => hnames (congrArg FilePath.name heq)
  have hidden : ∀ {c k} {p q : FilePath} {runId : String}, c ∈ chunks → k ≤ cfg.maxIndex →
      renderFilename py cfg.filenameTemplate c.2 k cfg.maxIndex c.1 = some p.name → p ≠ tempPath q runId := by
    rintro c k p q runId hc hk hname rfl
    obtain ⟨char, hchar, hdot⟩ := h.head_name hc hk hname
    exact hdot (by simpa [tempPath, eq_comm] using hchar)
  rcases hdest with rfl | rfl <;> rcases hdest' with rfl | rfl
  · exact ⟨hfinals, hfinals, hfinals, hfinals⟩
  · exact ⟨hfinals, hidden hc hk hname, hfinals, hidden hc hk hname⟩
  · exact ⟨hfinals, hfinals, (hidden hc' hk' hname').symm, (hidden hc' hk' hname').symm⟩
  · exact ⟨hfinals, hidden hc hk hname, (hidden hc' hk' hname').symm, fun heq =>
      hnames (tempPath_name_inj (h.runs c hc) (h.runs c' hc') (congrArg FilePath.name heq))⟩

theorem Tells.apart (hc' : c' ∈ chunks) (hpart : PartOf cfg py c.1 c.2 final dest)
    (hpart' : PartOf cfg py c'.1 c'.2 final' dest') {path : String}
    (hpath : path ∈ extractFieldPaths cfg.filenameTemplate)
    (hne : c.1.fieldValue path ≠ c'.1.fieldValue path) :
    final ≠ final' ∧ final ≠ dest' ∧ dest ≠ final' ∧ dest ≠ dest' := by
  obtain ⟨⟨k, hk, hname⟩, -⟩ := h.part hjoin hc hpart
  obtain ⟨⟨k', hk', hname'⟩, -⟩ := h.part hjoin hc' hpart'
  exact h.apart_of_names hjoin hc hc' hpart hpart' fun heq =>
    hne (h.fieldValue_eq hc hc' hk hk' hname (heq ▸ hname') hpath)

end

end

/-! ## Runs -/

section

variable {ρ : Type} {lookup : ρ → String → String}

inductive PartitionCall (ρ : Type) (lookup : ρ → String → String) (template : Template) where
  | write (chunk : Chunk ρ lookup template)
  | finalizeSource (sourceKey : SourceKey) (success : Bool)
  | publishAll (order : List SourceKey)

def chunksOf {template : Template} (calls : List (PartitionCall ρ lookup template)) : List (Meta × Time) :=
  calls.filterMap fun call =>
    match call with
    | .write chunk => some (chunk.info, chunk.now)
    | _ => none

structure Written (ρ : Type) where
  records : List ρ
  finalPath : FilePath
  deriving DecidableEq

/-- What is written to a path is for the targets that are staged there, or else for the path itself. -/
def RollingWriter.finalPaths (writer : RollingWriter) (dest : FilePath) : List FilePath :=
  let targets := (writer.manifests.entries.flatMap fun entry => entry.2.targets).filter (·.tempPath = dest)
  if targets = [] then [dest] else targets.map (·.finalPath)

structure PartitionSession (ρ : Type) where
  world : World
  written : List (Written ρ)

section

variable (cfg : Config) (py : Platform) (b : Backend)

def PartitionSession.step (s : PartitionSession ρ) :
    PartitionCall ρ lookup cfg.filenameTemplate → PartitionSession ρ
  | .write chunk =>
    match write cfg py b chunk.data chunk.info chunk.now s.world with
    | (.ok (some dest), w) => ⟨w, s.written ++ (w.writer.finalPaths dest).map (⟨chunk.records, ·⟩)⟩
    | (_, w) => ⟨w, s.written⟩
  | .finalizeSource sourceKey success =>
    ⟨s.world.called cfg py b (.finalizeSource sourceKey success), s.written⟩
  | .publishAll order => ⟨s.world.called cfg py b (.publishAll order), s.written⟩

def fieldTuple (lookup : ρ → String → String) (template : Template) (r : ρ) : List String :=
  (extractFieldPaths template).map (lookup r)

def StateKey.Has (key : StateKey) (lookup : ρ → String → String) (template : Template) (r : ρ) : Prop :=
  ∀ path ∈ extractFieldPaths template, (Token.field path, lookup r path) ∈ key

/-- No two partitions share a file: what is written for one goes to no file of another, and what is
staged for one will replace no file of another. -/
structure PartitionSession.Apart (lookup : ρ → String → String) (template : Template)
    (s : PartitionSession ρ) : Prop where
  written : ∀ x ∈ s.written, ∀ x' ∈ s.written, ∀ r ∈ x.records, ∀ r' ∈ x'.records,
    fieldTuple lookup template r ≠ fieldTuple lookup template r' → x.finalPath ≠ x'.finalPath
  published : ∀ sourceKey manifest, s.world.writer.manifests.lookup sourceKey = some manifest →
    ∀ t ∈ manifest.targets, ∀ r, t.stateKey.Has lookup template r → ∀ x ∈ s.written, ∀ r' ∈ x.records,
      fieldTuple lookup template r ≠ fieldTuple lookup template r' → t.finalPath ≠ x.finalPath
  staged : ∀ sourceKey manifest, s.world.writer.manifests.lookup sourceKey = some manifest →
    ∀ sourceKey' manifest', s.world.writer.manifests.lookup sourceKey' = some manifest' →
    ∀ t ∈ manifest.targets, ∀ t' ∈ manifest'.targets, ∀ r, t.stateKey.Has lookup template r →
      ∀ r', t'.stateKey.Has lookup template r' →
        fieldTuple lookup template r ≠ fieldTuple lookup template r' → t.finalPath ≠ t'.finalPath

def Origin (chunks : List (Meta × Time)) (key : StateKey) (final dest : FilePath) : Prop :=
  ∃ c ∈ chunks, fileStateKey py cfg.filenameTemplate c.1 = key ∧ PartOf cfg py c.1 c.2 final dest

def PathOf (chunks : List (Meta × Time)) (value : String → String) (path : FilePath) : Prop :=
  ∃ c ∈ chunks, (∀ field ∈ extractFieldPaths cfg.filenameTemplate, c.1.fieldValue field = value field) ∧
    ∃ final dest, PartOf cfg py c.1 c.2 final dest ∧ (path = final ∨ path = dest)

/-- Every path in the session comes from a chunk: what the writer remembers, and what was written. -/
structure Traced (lookup : ρ → String → String) (chunks : List (Meta × Time))
    (s : PartitionSession ρ) : Prop where
  named : Named (Origin cfg py chunks) s.world.writer
  written : ∀ x ∈ s.written, ∀ r ∈ x.records, PathOf cfg py chunks (lookup r) x.finalPath

end

section

variable {cfg : Config} {py : Platform} {b : Backend} {sep : Char → Bool} {chunks : List (Meta × Time)}
  {value value' : String → String} {s : PartitionSession ρ}

theorem PathOf.ne (h : Tells cfg py sep chunks) (hjoin : py.KeepsNames) {p p' : FilePath}
    (hp : PathOf cfg py chunks value p) (hp' : PathOf cfg py chunks value' p')
    (hne : (extractFieldPaths cfg.filenameTemplate).map value ≠
      (extractFieldPaths cfg.filenameTemplate).map value') : p ≠ p' := by
  obtain ⟨c, hc, hvalue, final, dest, hpart, hpath⟩ := hp
  obtain ⟨c', hc', hvalue', final', dest', hpart', hpath'⟩ := hp'
  rw [Ne, map_inj_left, not_forall] at hne
  obtain ⟨field, hne⟩ := hne
  obtain ⟨hfield, hne⟩ := Classical.not_imp.mp hne
  rw [← hvalue field hfield, ← hvalue' field hfield] at hne
  obtain ⟨h₁, h₂, h₃, h₄⟩ := h.apart hjoin hc hc' hpart hpart' hfield hne
  rcases hpath with rfl | rfl <;> rcases hpath' with rfl | rfl <;> assumption

theorem Traced.target (h : Traced cfg py lookup chunks s) {sourceKey : SourceKey}
    {manifest : PublicationManifest} (hm : s.world.writer.manifests.lookup sourceKey = some manifest)
    {t : StagedFileTarget} (ht : t ∈ manifest.targets) {r : ρ}
    (hr : t.stateKey.Has lookup cfg.filenameTemplate r) : PathOf cfg py chunks (lookup r) t.finalPath := by
  obtain ⟨c, hc, hkey, hpart⟩ := h.named.staged sourceKey manifest hm t ht
  refine ⟨c, hc, fun field hfield => ?_, t.finalPath, t.tempPath, hpart, .inl rfl⟩
  have hmem := hr field hfield
  rw [← hkey] at hmem
  exact (fieldValue_of_mem_fileStateKey hmem).symm

theorem Traced.apart (h : Traced cfg py lookup chunks s) (htells : Tells cfg py sep chunks)
    (hjoin : py.KeepsNames) : s.Apart lookup cfg.filenameTemplate where
  written x hx x' hx' r hr r' hr' hne := (h.written x hx r hr).ne htells hjoin (h.written x' hx' r' hr') hne
  published _ _ hm _ ht _ hr x hx r' hr' hne :=
    (h.target hm ht hr).ne htells hjoin (h.written x hx r' hr') hne
  staged _ _ hm _ _ hm' _ ht _ ht' _ hr _ hr' hne :=
    (h.target hm ht hr).ne htells hjoin (h.target hm' ht' hr') hne

theorem pathOf_finalPaths (htells : Tells cfg py sep chunks) (hjoin : py.KeepsNames)
    {writer : RollingWriter} (hnamed : Named (Origin cfg py chunks) writer) {m : Meta}
    {final dest p : FilePath}
    (horigin : Origin cfg py chunks (fileStateKey py cfg.filenameTemplate m) final dest)
    (hp : p ∈ writer.finalPaths dest) : PathOf cfg py chunks m.fieldValue p := by
  obtain ⟨c, hc, hkey, hpart⟩ := horigin
  have hsame : ∀ field ∈ extractFieldPaths cfg.filenameTemplate, c.1.fieldValue field = m.fieldValue field :=
    fun field hfield => fieldValue_eq_of_key hkey hfield
  unfold RollingWriter.finalPaths at hp
  dsimp only at hp
  split_ifs at hp
  · obtain rfl := mem_singleton.mp hp
    exact ⟨c, hc, hsame, final, p, hpart, .inr rfl⟩
  · obtain ⟨t, ht, rfl⟩ := mem_map.mp hp
    obtain ⟨ht, htemp⟩ := mem_filter.mp ht
    obtain ⟨entry, hentry, ht⟩ := mem_flatMap.mp ht
    obtain ⟨c', hc', -, hpart'⟩ := hnamed.staged entry.1 entry.2 (Dict.mem_entries.mp hentry) t ht
    -- one temporary path, hence one partition
    refine ⟨c', hc', fun field hfield => ?_, t.finalPath, t.tempPath, hpart', .inl rfl⟩
    rw [← hsame field hfield]
    by_contra hne
    exact (htells.apart hjoin hc' hc hpart' hpart hfield hne).2.2.2 (of_decide_eq_true htemp)

theorem Traced.step (htells : Tells cfg py sep chunks) (hjoin : py.KeepsNames) (b : Backend)
    (h : Traced cfg py lookup chunks s) (call : PartitionCall ρ lookup cfg.filenameTemplate)
    (hcall : ∀ c ∈ chunksOf [call], c ∈ chunks) : Traced cfg py lookup chunks (s.step cfg py b call) := by
  cases call with
  | finalizeSource sourceKey success =>
    exact ⟨h.named.called cfg py b (.finalizeSource sourceKey success) True.intro, h.written⟩
  | publishAll order => exact ⟨h.named.called cfg py b (.publishAll order) True.intro, h.written⟩
  | write chunk =>
    have hchunk : (chunk.info, chunk.now) ∈ chunks := hcall _ (by simp [chunksOf])
    have hnames : (Call.write chunk.data chunk.info chunk.now).Names cfg py (Origin cfg py chunks) :=
      fun final dest hpart => ⟨_, hchunk, rfl, hpart⟩
    have hnamed := h.named.called cfg py b _ hnames
    unfold World.called at hnamed
    unfold PartitionSession.step
    dsimp only at hnamed ⊢
    split
    · next dest w hrun =>
      rw [hrun] at hnamed
      refine ⟨hnamed, fun x hx r hr => ?_⟩
      rcases mem_append.mp hx with hx | hx
      · exact h.written x hx r hr
      · obtain ⟨p, hp, rfl⟩ := mem_map.mp hx
        obtain ⟨final, horigin⟩ := h.named.written hnames hrun
        obtain ⟨c, hc, hvalue, hpart⟩ := pathOf_finalPaths htells hjoin hnamed horigin hp
        exact ⟨c, hc, fun field hfield =>
          (hvalue field hfield).trans (chunk.resolved r hr field hfield), hpart⟩
    · next r w _ hrun =>
      rw [hrun] at hnamed
      exact ⟨hnamed, h.written⟩

end

/-- Different partitions never share an output file, in append mode or single mode and whatever the
backend does, in a run whose template and values tell the partitions apart. -/
theorem partitions_never_share (cfg : Config) (py : Platform) (b : Backend) (hjoin : py.KeepsNames)
    (sep : Char → Bool) (calls : List (PartitionCall ρ lookup cfg.filenameTemplate))
    (htells : Tells cfg py sep (chunksOf calls)) (files : Files) (clock : Nat) :
    (Run.exec (PartitionSession.step cfg py b) ⟨⟨.new, files, clock⟩, []⟩ calls).Apart lookup
      cfg.filenameTemplate := by
  suffices h : Traced cfg py lookup (chunksOf calls) _ from h.apart htells hjoin
  refine Run.exec_invariant_mem (fun s call hcall h => h.step htells hjoin b call fun c hc => ?_)
    ⟨Named.new, fun x hx => absurd hx not_mem_nil⟩
  obtain ⟨call', hcall', hchunk⟩ := mem_filterMap.mp hc
  obtain rfl := mem_singleton.mp hcall'
  exact mem_filterMap.mpr ⟨call', hcall, hchunk⟩

end

def twoFields (r : String × String) (path : String) : String :=
  if (if path = "a" then r.1 else r.2) = "" then "unknown" else if path = "a" then r.1 else r.2

theorem twoFields_ne (r : String × String) (path : String) : twoFields r path ≠ "" := by
  unfold twoFields
  split_ifs with h h' h' <;> simp_all

def byFields : Config := { numberedParts with
  filenameTemplate := [⟨"", some ⟨.field "a", none, ""⟩⟩, ⟨"_", some ⟨.field "b", none, ""⟩⟩,
    ⟨"_", some ⟨.part, none, ""⟩⟩, ⟨".csv", none⟩] }

def writesOf (records : List (String × String)) :
    List (PartitionCall (String × String) twoFields byFields.filenameTemplate) :=
  (partitionRecordsForTemplate twoFields byFields.filenameTemplate records).attach.map fun partition =>
    .write (.ofPartition twoFields_ne partition (oneRecord "in" true (.csv false)) (fun _ => [120]) 0)

theorem plain_values : ∀ c ∈ chunksOf (writesOf [("x", "y"), ("x", "z")]), ∀ k ≤ byFields.maxIndex,
    ∀ piece ∈ byFields.filenameTemplate,
      ∀ char ∈ (pieceText plainPlatform c.2 k byFields.maxIndex c.1 piece).toList,
        (decide (char = '_') : Bool) = false ∧ char ≠ '/' := by
  intro c hc k hk piece hpiece
  rw [← all_iff_forall_prop]
  revert c k piece
  decide +kernel

theorem partitions_never_share_plain :
    (Run.exec (PartitionSession.step byFields plainPlatform ⟨true, fun _ _ => false⟩) ⟨⟨.new, ∅, 0⟩, []⟩
      (writesOf [("x", "y"), ("x", "z")])).Apart twoFields byFields.filenameTemplate :=
  partitions_never_share byFields plainPlatform ⟨true, fun _ _ => false⟩ (fun _ _ => rfl) (· = '_') _
    { spaced := ⟨.inr (by decide), .inr (by decide), .inl ⟨rfl, rfl⟩, True.intro⟩
      literals := by decide
      plain := by decide
      values := plain_values
      visible := by decide +kernel
      runs := by decide +kernel } ∅ 0

/-- Two partitions whose values come to one text: the writer appends both to one file. -/
theorem partitions_share_file :
    ¬ (Run.exec (PartitionSession.step byFields plainPlatform ⟨true, fun _ _ => false⟩) ⟨⟨.new, ∅, 0⟩, []⟩
      (writesOf [("x_y", "z"), ("x", "y_z")])).Apart twoFields byFields.filenameTemplate := by
  have hwritten : (Run.exec (PartitionSession.step byFields plainPlatform ⟨true, fun _ _ => false⟩)
      ⟨⟨.new, ∅, 0⟩, []⟩ (writesOf [("x_y", "z"), ("x", "y_z")])).written =
      [⟨[("x_y", "z")], ⟨"d", "x_y_z_1.csv"⟩⟩, ⟨[("x", "y_z")], ⟨"d", "x_y_z_1.csv"⟩⟩] := by
    decide +kernel
  intro h
  have hne := h.written ⟨[("x_y", "z")], ⟨"d", "x_y_z_1.csv"⟩⟩ (by simp [hwritten])
    ⟨[("x", "y_z")], ⟨"d", "x_y_z_1.csv"⟩⟩ (by simp [hwritten]) ("x_y", "z") mem_cons_self
    ("x", "y_z") mem_cons_self (by decide)
  exact hne rfl

end Tram.FileSink
