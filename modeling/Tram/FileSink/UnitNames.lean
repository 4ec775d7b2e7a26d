import Tram.Lib.Numeral
import Tram.FileSink.Partitions

/-! # Names that tell source units apart

The parts of a unit are numbered from 1 under a key that the writer forgets when the unit is
published. Where the template has the number of the part, and the tokens of the key tell the units
apart, a part that is opened under a key in use has a name of its own. -/

namespace Tram.FileSink

open List

theorem toList_formatPartIndex (k maxIndex : Nat) :
    ∃ zeros, (formatPartIndex k maxIndex).toList = replicate zeros '0' ++ Nat.toDigits 10 k := by
  have hzeros : ∀ n, ("".pushn '0' n).toList = replicate n '0' := by
    intro n
    induction n with
    | zero => rfl
    | succ n ih => rw [replicate_succ', ← ih, ← String.toList_push]; rfl
  refine ⟨max 1 (toString maxIndex).length - (toString k).length, ?_⟩
  rw [formatPartIndex, String.toList_append, hzeros]
  simp

theorem formatPartIndex_inj {k k' maxIndex : Nat}
    (h : formatPartIndex k maxIndex = formatPartIndex k' maxIndex) : k = k' := by
  obtain ⟨zeros, hchars⟩ := toList_formatPartIndex k maxIndex
  obtain ⟨zeros', hchars'⟩ := toList_formatPartIndex k' maxIndex
  rw [h] at hchars
  exact Numeral.replicate_append_toDigits_inj (hchars.symm.trans hchars')

section

variable {py : Platform} {openedAt openedAt' : Time} {k k' maxIndex : Nat} {m m' : Meta} {r : Replacement}

theorem pieceText_plain {piece : TemplatePart} (hr : piece.replacement = some r)
    (h : r.conversion = none ∧ r.formatSpec = "") : pieceText py openedAt k maxIndex m piece =
      ((tokenValue py openedAt k maxIndex m r.token).map Value.text).getD "" := by
  rw [pieceText, hr]
  cases hvalue : tokenValue py openedAt k maxIndex m r.token <;> simp [hvalue, h]

theorem keyEntry_eq {token : Token}
    (h : ((tokenValue py openedAt k maxIndex m token).map Value.text).getD "" =
      ((tokenValue py openedAt' k' maxIndex m' token).map Value.text).getD "") :
    (if token.rolling then none else
      (tokenValue py 0 1 1 m token).bind fun value => some (token, value.text)) =
    if token.rolling then none else
      (tokenValue py 0 1 1 m' token).bind fun value => some (token, value.text) := by
  cases token <;> simp_all [tokenValue, Token.rolling, Value.text]

end

/-- The pattern of the temporary files beside a final one, in whose name no character has a meaning
of its own, matches only what starts like them. -/
def Platform.GlobsNames (py : Platform) : Prop :=
  ∀ name other : String, (∀ char ∈ name.toList, char ∉ ['*', '?', '[']) →
    py.globMatch ("." ++ name ++ ".tram-*.tmp") other = true →
      ('.' :: name.toList ++ ".tram-".toList) <+: other.toList

/-- A path tells the values, the values tell the unit, and the number of the part is one of them.
No name has the mark of a temporary file, or a character with a meaning in patterns. -/
structure TellsUnits (cfg : Config) (py : Platform) (sep : Char → Bool) (chunks : List (Meta × Time)) : Prop
    extends Tells cfg py sep chunks where
  asIs : ∀ piece ∈ cfg.filenameTemplate, ∀ r ∈ piece.replacement, r.conversion = none ∧ r.formatSpec = ""
  counted : ∃ piece ∈ cfg.filenameTemplate, ∃ r ∈ piece.replacement, r.token = .part ∨ r.token = .index
  told : ∀ c ∈ chunks, ∀ c' ∈ chunks,
    fileStateKey py cfg.filenameTemplate c.1 = fileStateKey py cfg.filenameTemplate c'.1 →
      sourceUnitKey py c.1 = sourceUnitKey py c'.1
  unmarked : ∀ c ∈ chunks, ∀ k ≤ cfg.maxIndex,
    ∀ name ∈ renderFilename py cfg.filenameTemplate c.2 k cfg.maxIndex c.1,
      ¬ ".tram-".toList <:+: name.toList ∧ ∀ char ∈ name.toList, char ∉ ['*', '?', '[']

/-- The part with the number k of a chunk's key, as a target. -/
structure PartAt (cfg : Config) (py : Platform) (c : Meta × Time) (k : Nat) (t : StagedFileTarget) :
    Prop where
  key : t.stateKey = fileStateKey py cfg.filenameTemplate c.1
  pos : 1 ≤ k
  le : k ≤ cfg.maxIndex
  final : (renderFilename py cfg.filenameTemplate c.2 k cfg.maxIndex c.1).map py.joinRoot = some t.finalPath
  dest : destFor py c.1 t.finalPath = some t.tempPath
  temp : t.tempPath = tempPath t.finalPath (stagingRun c.1)

namespace TellsUnits

variable {cfg : Config} {py : Platform} {sep : Char → Bool} {chunks : List (Meta × Time)} {c c' : Meta × Time}
  {k k' : Nat} {t t' : StagedFileTarget}

theorem name_eq (h : TellsUnits cfg py sep chunks) (hjoin : py.KeepsNames) (hc : c ∈ chunks)
    (ht : PartAt cfg py c k t) :
    renderFilename py cfg.filenameTemplate c.2 k cfg.maxIndex c.1 = some t.finalPath.name := by
  obtain ⟨name, hname, hfinal⟩ := Option.map_eq_some_iff.mp ht.final
  rw [hname, ← hfinal, hjoin name (h.isEntry hc ht.le hname)]

variable (h : TellsUnits cfg py sep chunks) (hjoin : py.KeepsNames) (hc : c ∈ chunks) (hc' : c' ∈ chunks)
  (ht : PartAt cfg py c k t) (ht' : PartAt cfg py c' k' t')
include h hjoin hc hc' ht ht'

theorem same (hname : t.finalPath.name = t'.finalPath.name) : t.stateKey = t'.stateKey ∧ k = k' := by
  have htext : ∀ piece ∈ cfg.filenameTemplate, pieceText py c.2 k cfg.maxIndex c.1 piece =
      pieceText py c'.2 k' cfg.maxIndex c'.1 piece := fun piece hpiece =>
    h.pieceText_eq hc hc' ht.le ht'.le (h.name_eq hjoin hc ht) (hname ▸ h.name_eq hjoin hc' ht') hpiece
  constructor
  · rw [ht.key, ht'.key]
    refine filterMap_congr fun piece hpiece => ?_
    have hpieces := htext piece hpiece
    cases hr : piece.replacement with
    | none => rfl
    | some r =>
      rw [pieceText_plain hr (h.asIs piece hpiece r hr),
        pieceText_plain hr (h.asIs piece hpiece r hr)] at hpieces
      exact keyEntry_eq hpieces
  · obtain ⟨piece, hpiece, r, hr, htoken⟩ := h.counted
    have hpieces := htext piece hpiece
    rw [pieceText_plain hr (h.asIs piece hpiece r hr),
      pieceText_plain hr (h.asIs piece hpiece r hr)] at hpieces
    have hindex : formatPartIndex k cfg.maxIndex = formatPartIndex k' cfg.maxIndex := by
      rcases htoken with htoken | htoken <;> rw [htoken] at hpieces <;> exact hpieces
    exact formatPartIndex_inj hindex

/-- Parts that are not the same have no path in common, and neither counts as left over by an
earlier run of the other. -/
theorem apart (hglob : py.GlobsNames) (hne : t.stateKey = t'.stateKey → k ≠ k') :
    Apart t t' ∧ ∀ path ∈ [t.finalPath, t.tempPath],
      Backend.isStaleTemp py t'.finalPath t'.tempPath path = false := by
  have hnames : t.finalPath.name ≠ t'.finalPath.name := fun heq =>
    hne (h.same hjoin hc hc' ht ht' heq).1 (h.same hjoin hc hc' ht ht' heq).2
  obtain ⟨hfinals, hfinal, htemp, htemps⟩ := h.apart_of_names hjoin hc hc'
    ⟨k, ht.pos, ht.le, ht.final, ht.dest⟩ ⟨k', ht'.pos, ht'.le, ht'.final, ht'.dest⟩ hnames
  refine ⟨⟨hfinals, htemps, hfinal, htemp⟩, ?_⟩
  obtain ⟨hmark, -⟩ := h.unmarked c hc k ht.le _ (h.name_eq hjoin hc ht)
  obtain ⟨hmark', hplain⟩ := h.unmarked c' hc' k' ht'.le _ (h.name_eq hjoin hc' ht')
  have hstale : ∀ path : FilePath,
      ¬ ('.' :: t'.finalPath.name.toList ++ ".tram-".toList) <+: path.name.toList →
      Backend.isStaleTemp py t'.finalPath t'.tempPath path = false := fun path hpath =>
    decide_eq_false fun hs => hpath (hglob _ _ hplain hs.2.1)
  simp only [forall_mem_cons, not_mem_nil, false_implies, implies_true, and_true]
  constructor
  · obtain ⟨char, hchar, hdot⟩ := h.head_name hc ht.le (h.name_eq hjoin hc ht)
    refine hstale _ fun ⟨rest, hrest⟩ => hdot ?_
    rw [← hrest, cons_append, cons_append, head?_cons] at hchar
    exact (Option.some.inj hchar).symm
  · refine hstale _ fun ⟨rest, hrest⟩ => hnames ?_
    -- both names end where the mark of a temporary file begins
    rw [ht.temp] at hrest
    have hall : t.finalPath.name.toList ++ (".tram-".toList ++ ((stagingRun c.1).toList ++ ".tmp".toList)) =
        t'.finalPath.name.toList ++ (".tram-".toList ++ rest) := by
      simpa [tempPath, eq_comm] using hrest
    exact String.toList_inj.mp (Weave.marker_inj (by decide) hmark hmark' hall)

end TellsUnits

end Tram.FileSink
