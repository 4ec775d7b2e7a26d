import Tram.Lib.Traverse
import Tram.Transforms.CounterDelta

/-! # One record through the fields

What a field's turn in the loop of `apply` leaves alone, and what it writes. Where the paths that
the transform writes lie apart from those it reads, every field reads the record as it came. -/

namespace Tram.CounterDelta

open List Record

/-- The record was flagged as a reset. -/
def flagPath : Path := ["_counter_reset"]

/-- What a field's turn writes or deletes, the flag apart. -/
def written (cfg : Config) (field : Path) : List Path :=
  (if cfg.output = .delta ∨ cfg.output = .both then [deltaPath field] else []) ++
  (if cfg.output = .rate ∨ cfg.output = .both then [ratePath field] else []) ++
  (if cfg.keepRaw then [] else [field])

/-- No path the transform writes for a field lies on a key field, on a later field, on the delta of
another field or on the flag. -/
structure Independent (cfg : Config) : Prop where
  keys : ∀ field ∈ cfg.fields, ∀ key ∈ cfg.keyFields, ∀ p ∈ flagPath :: written cfg field, p.Apart key
  flag : ∀ field ∈ cfg.fields, ∀ p ∈ written cfg field, p.Apart flagPath
  fields : cfg.fields.Pairwise fun f g =>
    (∀ p ∈ flagPath :: written cfg f, p.Apart g) ∧
    ∀ p ∈ flagPath :: written cfg g, p.Apart (deltaPath f)

variable {py : Python} {cfg : Config}

def Frame (paths : List Path) (r r' : Record) : Prop :=
  ∀ q, (∀ p ∈ paths, p.Apart q) → r'.getPath q = r.getPath q

variable {r r' r₀ : Record} {paths fields : List Path} {rate delta value : Json} {field : Path} {tNow : ℚ}
    {prev : Sample} {v : Int} {host message : String} {c c' : Cursor}

theorem Frame.refl (paths : List Path) (r : Record) : Frame paths r r := fun _ _ => rfl

theorem Frame.trans {r₁ : Record} (h : Frame paths r r₁) (h' : Frame paths r₁ r') :
    Frame paths r r' :=
  fun q hq => (h' q hq).trans (h q hq)

theorem Frame.mono {paths' : List Path} (h : Frame paths r r') (hsub : ∀ p ∈ paths, p ∈ paths') :
    Frame paths' r r' :=
  fun q hq => h q fun p hp => hq p (hsub p hp)

theorem frame_of_edits {p : Path} (h : Edits p r r') (hp : p ∈ paths) : Frame paths r r' :=
  fun _ hq => h.getPath (hq p hp)

/-! ## The outputs of a field -/

theorem write_ok {p : Path} : write r p value = .ok r' ↔ r.putAt p value = .ok r' := by
  unfold write setPath
  cases r.putAt p value with
  | error | ok => simp [Except.mapError]

theorem setOutputs_ok (h : setOutputs cfg r field delta rate = .ok r') :
    ∃ r₁, (if cfg.output = .delta ∨ cfg.output = .both
        then r.putAt (deltaPath field) delta = .ok r₁ else r₁ = r) ∧
      if cfg.output = .rate ∨ cfg.output = .both
        then r₁.putAt (ratePath field) rate = .ok r' else r' = r₁ := by
  unfold setOutputs at h
  obtain ⟨r₁, hdelta, hrate⟩ := Traverse.bind_eq_ok.mp h
  refine ⟨r₁, ?_, ?_⟩
  · split_ifs at hdelta ⊢ with hd
    · exact write_ok.mp hdelta
    · exact (Except.ok.inj hdelta).symm
  · split_ifs at hrate ⊢ with hr
    · exact write_ok.mp hrate
    · exact (Except.ok.inj hrate).symm

theorem setOutputs_frame (h : setOutputs cfg r field delta rate = .ok r') :
    Frame (written cfg field) r r' := by
  obtain ⟨r₁, hdelta, hrate⟩ := setOutputs_ok h
  have hfirst : Frame (written cfg field) r r₁ := by
    split_ifs at hdelta with hd
    · exact frame_of_edits (edits_putAt (Path.extend_ne_nil _ _) hdelta)
        (by simp [written, hd, deltaPath])
    · rw [hdelta]
      exact Frame.refl _ r
  have hsecond : Frame (written cfg field) r₁ r' := by
    split_ifs at hrate with hr
    · exact frame_of_edits (edits_putAt (Path.extend_ne_nil _ _) hrate)
        (by simp [written, hr, ratePath])
    · rw [hrate]
      exact Frame.refl _ r₁
  exact hfirst.trans hsecond

theorem delta_of_ne_rate (h : cfg.output ≠ .rate) : cfg.output = .delta ∨ cfg.output = .both := by
  cases ho : cfg.output with
  | delta => exact .inl rfl
  | rate => exact absurd ho h
  | both => exact .inr rfl

theorem setOutputs_delta (hfield : field ≠ []) (hout : cfg.output ≠ .rate)
    (h : setOutputs cfg r field delta rate = .ok r') :
    r'.getPath (deltaPath field) = some delta := by
  obtain ⟨r₁, hdelta, hrate⟩ := setOutputs_ok h
  rw [if_pos (delta_of_ne_rate hout)] at hdelta
  have hput := getPath_putAt (Path.extend_ne_nil _ _) hdelta
  split_ifs at hrate with hr
  · have hapart := Path.extend_apart (a := "_rate") (b := "_delta") (by decide) field hfield
    exact ((edits_putAt (Path.extend_ne_nil _ _) hrate).getPath hapart).trans hput
  · exact hrate ▸ hput

/-- The gap since the previous sample is longer than configured. -/
def outage (cfg : Config) (elapsed : ℚ) : Bool :=
  match cfg.maxGapSeconds with
  | some gap => elapsed > gap
  | none => false

theorem compare_ok (h : compare cfg r field prev v tNow = .ok r') :
    ∃ (result : Int × Bool) (rate : Json) (r₁ : Record),
      (∃ width, resolveWidth cfg r field prev.v v = some width ∧
        result = if outage cfg (tNow - prev.t) then (v, true) else deltaFor cfg prev.v v width) ∧
      setOutputs cfg (if result.2 then r.put "_counter_reset" (.bool true) else r) field
        (.int result.1) rate = .ok r₁ ∧
      r' = if cfg.keepRaw then r₁ else r₁.deletePath field := by
  unfold compare at h
  dsimp only at h
  split at h
  · cases h
  · next width hw =>
    obtain ⟨r₁, hset, hend⟩ := Traverse.bind_eq_ok.mp h
    refine ⟨_, _, r₁, ⟨width, hw, ?_⟩, hset, (Except.ok.inj hend).symm⟩
    unfold outage
    cases cfg.maxGapSeconds with
    | none => rfl
    | some gap => simp

theorem put_frame (r : Record) (field : Path) (flag : Bool) :
    Frame (flagPath :: written cfg field) r
      (if flag then r.put "_counter_reset" (.bool true) else r) := by
  cases flag with
  | false => exact Frame.refl _ r
  | true =>
    exact frame_of_edits (edits_putAt (p := flagPath) (cons_ne_nil _ _) rfl)
      mem_cons_self

theorem delete_frame (r : Record) (hfield : field ≠ []) :
    Frame (written cfg field) r (if cfg.keepRaw then r else r.deletePath field) := by
  split_ifs with hraw
  · exact Frame.refl _ r
  · exact frame_of_edits (edits_deletePath r hfield) (by simp [written, hraw])

theorem compare_frame (hfield : field ≠ []) (h : compare cfg r field prev v tNow = .ok r') :
    Frame (flagPath :: written cfg field) r r' := by
  obtain ⟨result, rate, r₁, -, hset, rfl⟩ := compare_ok h
  have hsub : ∀ p ∈ written cfg field, p ∈ flagPath :: written cfg field :=
    fun p hp => mem_cons_of_mem _ hp
  exact ((put_frame r field result.2).trans ((setOutputs_frame hset).mono hsub)).trans
    ((delete_frame r₁ hfield).mono hsub)

/-- The explicit width decides where the record carries none. -/
def Width.modulus : Width → Int
  | .bits64 => 2 ^ 64
  | _ => 2 ^ 32

/-- The wrap-corrected delta of two samples, and whether it is a reset. -/
def wrapped (cfg : Config) (prev now : Int) : Int × Bool :=
  deltaFor cfg prev now (if cfg.width = .bits64 then 64 else 32)

theorem resolveWidth_explicit {prev now : Int} (hwidth : cfg.width ≠ .auto)
    (hr : r.lookup "_snmp_widths" = none) :
    resolveWidth cfg r field prev now = some (if cfg.width = .bits64 then 64 else 32) := by
  unfold resolveWidth
  rw [hr]
  cases hw : cfg.width with
  | auto => exact absurd hw hwidth
  | bits32 | bits64 => rfl

theorem compare_writes (hne : field ≠ []) (h : compare cfg r field prev v tNow = .ok r') :
    ∃ width result, resolveWidth cfg r field prev.v v = some width ∧
      result = (if outage cfg (tNow - prev.t) then (v, true) else deltaFor cfg prev.v v width) ∧
      (cfg.output ≠ .rate → r'.getPath (deltaPath field) = some (.int result.1)) ∧
      ((∀ p ∈ written cfg field, p.Apart flagPath) →
        r'.getPath flagPath = if result.2 then some (.bool true) else r.getPath flagPath) := by
  obtain ⟨result, rate, r₁, ⟨width, hw, hres⟩, hset, rfl⟩ := compare_ok h
  refine ⟨width, result, hw, hres, fun hout => ?_, fun hapart => ?_⟩
  · have hdelete : (if cfg.keepRaw then r₁ else r₁.deletePath field).getPath (deltaPath field) =
        r₁.getPath (deltaPath field) := by
      split_ifs
      · rfl
      · refine (edits_deletePath r₁ hne).getPath ?_
        have hapart := Path.extend_apart (a := "") (b := "_delta") (by decide) field hne
        rwa [Path.extend_empty field hne] at hapart
    rw [hdelete, setOutputs_delta hne hout hset]
  · rw [((setOutputs_frame hset).trans (delete_frame r₁ hne)) flagPath hapart]
    split_ifs
    · exact (lookup_put r _ _ _).trans (if_pos rfl)
    · rfl

theorem compare_delta (hwidth : cfg.width ≠ .auto) (hgap : cfg.maxGapSeconds = none)
    (hout : cfg.output ≠ .rate) (hind : Independent cfg) (hfield : field ∈ cfg.fields)
    (hr : r.lookup "_snmp_widths" = none) (h : compare cfg r field prev v tNow = .ok r') :
    r'.getPath (deltaPath field) = some (.int (wrapped cfg prev.v v).1) ∧
      ((wrapped cfg prev.v v).2 = true → r'.getPath flagPath = some (.bool true)) := by
  obtain ⟨width, result, hw, hres, hdelta, hflag⟩ := compare_writes (cfg.fields_split field hfield) h
  have hresult : result = wrapped cfg prev.v v := by
    rw [resolveWidth_explicit hwidth hr, Option.some.injEq] at hw
    rw [hres, outage, hgap, ← hw]
    rfl
  rw [hresult] at hdelta hflag
  exact ⟨hdelta hout, fun hreset => (hflag (hind.flag field hfield)).trans (if_pos hreset)⟩

/-! ## A field's turn -/

theorem readField_ok {id : String} :
    readField py cfg host r field = .ok (v, id) ↔
      counter? r field = some v ∧ identity py cfg host r field = some id := by
  unfold readField
  cases counter? r field with
  | none => simp
  | some v' =>
    cases identity py cfg host r field with
    | none | some => simp

theorem visit_next (h : visit py cfg host tNow c field = .next c') :
    ∃ v id, counter? c.record field = some v ∧ identity py cfg host c.record field = some id ∧
      c'.table = c.table.insert id ⟨v, tNow⟩ ∧
      ((c.table.lookup id = none ∧ c'.firstSight = true ∧
          setOutputs cfg c.record field .null .null = .ok c'.record) ∨
        ∃ prev, c.table.lookup id = some prev ∧ c'.firstSight = c.firstSight ∧
          compare cfg c.record field prev v tNow = .ok c'.record) := by
  unfold visit at h
  split at h
  · cases h
  · next v id hread =>
    obtain ⟨hv, hid⟩ := readField_ok.mp hread
    refine ⟨v, id, hv, hid, ?_⟩
    split at h
    · next hnone =>
      dsimp only at h
      split at h
      · next r hset =>
        cases h
        exact ⟨rfl, .inl ⟨hnone, rfl, hset⟩⟩
      · cases h
    · next prev hprev =>
      split at h
      · next r hset =>
        cases h
        exact ⟨rfl, .inr ⟨prev, hprev, rfl, hset⟩⟩
      · cases h

theorem visit_bad (h : visit py cfg host tNow c field = .bad message) :
    counter? c.record field = none ∨ keyTexts py cfg c.record = none := by
  unfold visit at h
  cases hread : readField py cfg host c.record field with
  | error message' =>
    unfold readField identity at hread
    cases hcounter : counter? c.record field with
    | none => exact .inl rfl
    | some v =>
      cases hkeys : keyTexts py cfg c.record with
      | none => exact .inr rfl
      | some keys => simp [hcounter, hkeys] at hread
  | ok read =>
    rw [hread] at h
    dsimp only at h
    split at h <;> split at h <;> cases h

def Visit.table (before : Table) : Visit → Table
  | .next c => c.table
  | .bad _ => before
  | .raised _ table => table

theorem visit_table (py : Python) (cfg : Config) (host : String) (tNow : ℚ) (c : Cursor)
    (field : Path) :
    (visit py cfg host tNow c field).table c.table = c.table ∨
      ∃ v id, (visit py cfg host tNow c field).table c.table = c.table.insert id ⟨v, tNow⟩ := by
  unfold visit
  split
  · exact .inl rfl
  · next v id _ =>
    split
    · refine .inr ⟨v, id, ?_⟩
      split <;> rfl
    · split
      · exact .inr ⟨v, id, rfl⟩
      · exact .inl rfl

variable (py cfg host tNow field) in
theorem visit_kept {id : String} (hid : (c.table.lookup id).isSome) :
    (((visit py cfg host tNow c field).table c.table).lookup id).isSome := by
  obtain hsame | ⟨v, id', hstored⟩ := visit_table py cfg host tNow c field
  · rw [hsame]
    exact hid
  · rw [hstored, Dict.lookup_insert_ite]
    split_ifs
    · rfl
    · exact hid

theorem visit_next_kept {id : String} (h : visit py cfg host tNow c field = .next c')
    (hid : (c.table.lookup id).isSome) : (c'.table.lookup id).isSome := by
  have hkept := visit_kept py cfg field tNow host hid
  rwa [h] at hkept

theorem visit_frame (hfield : field ≠ []) (h : visit py cfg host tNow c field = .next c') :
    Frame (flagPath :: written cfg field) c.record c'.record := by
  obtain ⟨v, id, -, -, -, ⟨-, -, hset⟩ | ⟨prev, -, -, hcmp⟩⟩ := visit_next h
  · exact (setOutputs_frame hset).mono fun p hp => mem_cons_of_mem _ hp
  · exact compare_frame hfield hcmp

theorem visit_flag (hind : Independent cfg) (hfield : field ∈ cfg.fields)
    (h : visit py cfg host tNow c field = .next c')
    (hflag : c.record.getPath flagPath = some (.bool true)) :
    c'.record.getPath flagPath = some (.bool true) := by
  have hne := cfg.fields_split field hfield
  have hwritten := hind.flag field hfield
  obtain ⟨v, id, -, -, -, ⟨-, -, hset⟩ | ⟨prev, -, -, hcmp⟩⟩ := visit_next h
  · exact (setOutputs_frame hset flagPath hwritten).trans hflag
  · obtain ⟨width, result, -, -, -, hkept⟩ := compare_writes hne hcmp
    rw [hkept hwritten, hflag, ite_self]

/-! ## The loop

`r₀` is the record as it came, and the loop is at a suffix of the fields. -/

/-- What the fields still to come will read is as it came. -/
structure Intact (cfg : Config) (r₀ : Record) (fields : List Path) (r : Record) : Prop where
  keys : ∀ key ∈ cfg.keyFields, r.getPath key = r₀.getPath key
  fields : ∀ field ∈ fields, r.getPath field = r₀.getPath field
  widths : r.lookup "_snmp_widths" = none

theorem Intact.refl (h : r₀.lookup "_snmp_widths" = none) (fields : List Path) :
    Intact cfg r₀ fields r₀ :=
  ⟨fun _ _ => rfl, fun _ _ => rfl, h⟩

section

variable (h : Intact cfg r₀ fields r)
include h

theorem Intact.counter (hf : field ∈ fields) : counter? r field = counter? r₀ field := by
  unfold counter?
  rw [h.fields field hf]

theorem Intact.keyTexts : keyTexts py cfg r = keyTexts py cfg r₀ := by
  have hkeys := h.keys
  unfold CounterDelta.keyTexts
  generalize cfg.keyFields = keys at hkeys ⊢
  induction keys with
  | nil => rfl
  | cons key keys ih =>
    rw [mapM_cons, mapM_cons, hkeys key mem_cons_self,
      ih fun k hk => hkeys k (mem_cons_of_mem key hk)]

theorem Intact.identity (host : String) (field : Path) :
    identity py cfg host r field = identity py cfg host r₀ field := by
  unfold CounterDelta.identity
  rw [h.keyTexts]

end

theorem written_apart_widths (hv : counter? r field = some v)
    (hr : r.lookup "_snmp_widths" = none) :
    ∀ p ∈ flagPath :: written cfg field, p.Apart ["_snmp_widths"] := by
  obtain ⟨found, hfound⟩ : ∃ found, r.getPath field = some found := by
    unfold counter? at hv
    cases hg : r.getPath field with
    | none => rw [hg] at hv; cases hv
    | some found => exact ⟨found, rfl⟩
  have hne : field ≠ [] := by
    intro heq
    rw [heq] at hfound
    cases hfound
  -- no continuation of a token is the key: the last letters differ
  have hends : ∀ tail ∈ ["_delta", "_rate"], ∀ token : String, token ++ tail ≠ "_snmp_widths" := by
    intro tail htail token heq
    have hlast := congrArg (fun s => s.toList.getLast?) heq
    rcases mem_pair.mp htail with rfl | rfl <;> simp at hlast
  intro p hp
  rcases mem_cons.mp hp with rfl | hp
  · decide
  · simp only [written, mem_append, mem_ite_nil_right, mem_ite_nil_left,
      mem_singleton] at hp
    obtain (⟨-, rfl⟩ | ⟨-, rfl⟩) | ⟨-, rfl⟩ := hp
    · exact extend_apart_of_found hfound hr (.inr (hends _ (by simp)))
    · exact extend_apart_of_found hfound hr (.inr (hends _ (by simp)))
    · rw [← Path.extend_empty p hne]
      exact extend_apart_of_found hfound hr (.inl rfl)

section Loop

variable {done rest : List Path} {Q : Record → Prop} {out : Record}

theorem Intact.visit {c' : Cursor} {field : Path} (hind : Independent cfg)
    (hfs : field :: fields <:+ cfg.fields) (h : Intact cfg r₀ (field :: fields) c.record)
    (hv : visit py cfg host tNow c field = .next c') : Intact cfg r₀ fields c'.record := by
  have hmem : field ∈ cfg.fields := hfs.subset mem_cons_self
  have hframe := visit_frame (cfg.fields_split field hmem) hv
  have hpair := pairwise_cons.mp (hind.fields.sublist hfs.sublist)
  obtain ⟨v, id, hcounter, -⟩ := visit_next hv
  refine ⟨fun key hkey => ?_, fun g hg => ?_, ?_⟩
  · exact (hframe key (hind.keys field hmem key hkey)).trans (h.keys key hkey)
  · exact (hframe g (hpair.1 g hg).1).trans (h.fields g (mem_cons_of_mem field hg))
  · exact (hframe ["_snmp_widths"] (written_apart_widths hcounter h.widths)).trans h.widths

theorem Intact.not_bad {field : Path} (h : Intact cfg r₀ (field :: fields) c.record)
    (hkeys : (CounterDelta.keyTexts py cfg r₀).isSome) (hgood : (counter? r₀ field).isSome) :
    CounterDelta.visit py cfg host tNow c field ≠ .bad message := by
  intro hv
  rw [← h.counter mem_cons_self] at hgood
  rw [← h.keyTexts] at hkeys
  obtain hnone | hnone := visit_bad hv
  · simp [hnone] at hgood
  · simp [hnone] at hkeys

def Verdict.returns : Verdict → Bool
  | .raised _ => false
  | _ => true

/-- If the loop raises nothing, the next field has its turn, or it is bad and the last one. -/
theorem visitFields_cons {field : Path}
    (hok : (visitFields py cfg host tNow r₀ (field :: fields) c).1.returns = true) :
    (∃ c', visit py cfg host tNow c field = .next c' ∧
      visitFields py cfg host tNow r₀ (field :: fields) c =
        visitFields py cfg host tNow r₀ fields c') ∨
    ∃ message, visit py cfg host tNow c field = .bad message ∧
      visitFields py cfg host tNow r₀ (field :: fields) c =
        (handleBadRecord cfg c.record (field :: fields) message r₀, c.table) := by
  rw [visitFields] at hok ⊢
  cases hv : visit py cfg host tNow c field with
  | next c' => exact .inl ⟨c', rfl, rfl⟩
  | bad message => exact .inr ⟨message, rfl, rfl⟩
  | raised fault table => rw [hv] at hok; cases hok

theorem visitFields_other {id : String} (hind : Independent cfg) (hfs : fields <:+ cfg.fields)
    (h : Intact cfg r₀ fields c.record)
    (hid : ∀ field ∈ fields, identity py cfg host r₀ field = some id → counter? r₀ field = none)
    (hok : (visitFields py cfg host tNow r₀ fields c).1.returns = true) :
    (visitFields py cfg host tNow r₀ fields c).2.lookup id = c.table.lookup id := by
  induction fields generalizing c with
  | nil => rfl
  | cons field fields ih =>
    rcases visitFields_cons hok with ⟨c', hv, heq⟩ | ⟨message, -, heq⟩
    · rw [heq] at hok ⊢
      obtain ⟨v, id', hval, hid', htable, -⟩ := visit_next hv
      have hne : id ≠ id' := by
        intro heq
        rw [h.identity, ← heq] at hid'
        rw [h.counter mem_cons_self, hid field mem_cons_self hid'] at hval
        cases hval
      have hrest := ih ((suffix_cons field fields).trans hfs) (h.visit hind hfs hv)
        (fun g hg => hid g (mem_cons_of_mem field hg)) hok
      exact hrest.trans (by rw [htable, Dict.lookup_insert_ite, if_neg hne])
    · rw [heq]

theorem visitFields_dropped (h : (visitFields py cfg host tNow r₀ fields c).1 = .dropped) :
    cfg.firstSample = .drop := by
  induction fields generalizing c with
  | nil =>
    unfold visitFields at h
    dsimp only at h
    split_ifs at h with hdrop
    exact hdrop.1
  | cons field fields ih =>
    rcases visitFields_cons (by rw [h]; rfl) with ⟨c', -, heq⟩ | ⟨message, -, heq⟩
    · exact ih (heq ▸ h)
    · rw [heq] at h
      unfold handleBadRecord at h
      split at h
      · cases h
      · split at h <;> cases h
      · cases h

theorem visitFields_kept {id : String} (hid : (c.table.lookup id).isSome) :
    ((visitFields py cfg host tNow r₀ fields c).2.lookup id).isSome := by
  induction fields generalizing c with
  | nil => exact hid
  | cons field fields ih =>
    have hturn := visit_kept py cfg field tNow host hid
    unfold visitFields
    cases hv : visit py cfg host tNow c field with
    | next c' =>
      rw [hv] at hturn
      exact ih hturn
    | bad message => exact hid
    | raised fault table =>
      rw [hv] at hturn
      exact hturn

/-- The cursor `c'` after the fields `done` of a record have had their turn from `c`. -/
structure Reached (py : Python) (cfg : Config) (host : String) (r₀ : Record) (done : List Path)
    (c c' : Cursor) : Prop where
  other : ∀ id, (∀ field ∈ done, identity py cfg host r₀ field ≠ some id) →
    c'.table.lookup id = c.table.lookup id
  kept : ∀ id, (c.table.lookup id).isSome → (c'.table.lookup id).isSome
  seen : ∀ field ∈ done, ∀ id, identity py cfg host r₀ field = some id → (c'.table.lookup id).isSome
  firstSight : (∀ field ∈ done, ∀ id, identity py cfg host r₀ field = some id →
    (c.table.lookup id).isSome) → c'.firstSight = c.firstSight

theorem Reached.refl : Reached py cfg host r₀ [] c c :=
  ⟨fun _ _ => rfl, fun _ h => h, fun _ h => (nomatch h), fun _ => rfl⟩

theorem Reached.cons {c₁ c' : Cursor} {field : Path} (h : Intact cfg r₀ (field :: fields) c.record)
    (hv : visit py cfg host tNow c field = .next c₁) (hr : Reached py cfg host r₀ done c₁ c') :
    Reached py cfg host r₀ (field :: done) c c' := by
  obtain ⟨v, id, -, hid, htable, hfirst⟩ := visit_next hv
  rw [h.identity] at hid
  refine ⟨fun id' hother => ?_, fun id' hsome => hr.kept id' (visit_next_kept hv hsome),
    forall_mem_cons.mpr ⟨fun id' hid' => hr.kept id' ?_, hr.seen⟩, fun hall => ?_⟩
  · have hne : id' ≠ id := fun heq => hother field mem_cons_self (heq ▸ hid)
    rw [hr.other id' fun g hg => hother g (mem_cons_of_mem field hg), htable,
      Dict.lookup_insert_ite, if_neg hne]
  · rw [htable, Option.mem_unique hid' hid, Dict.lookup_insert_ite, if_pos rfl]
    rfl
  · have hrest := hr.firstSight fun g hg id' hid' =>
      visit_next_kept hv (hall g (mem_cons_of_mem field hg) id' hid')
    obtain ⟨hnone, -⟩ | ⟨prev, -, hsame, -⟩ := hfirst
    · have hsome := hall field mem_cons_self id hid
      simp [hnone] at hsome
    · exact hrest.trans hsame

variable (hind : Independent cfg)
include hind

theorem visitFields_append (hfs : done ++ rest <:+ cfg.fields)
    (h : Intact cfg r₀ (done ++ rest) c.record) (hkeys : (keyTexts py cfg r₀).isSome)
    (hgood : ∀ field ∈ done, (counter? r₀ field).isSome)
    (hok : (visitFields py cfg host tNow r₀ (done ++ rest) c).1.returns = true) :
    ∃ c', visitFields py cfg host tNow r₀ (done ++ rest) c =
        visitFields py cfg host tNow r₀ rest c' ∧
      Intact cfg r₀ rest c'.record ∧ Reached py cfg host r₀ done c c' := by
  induction done generalizing c with
  | nil => exact ⟨c, rfl, h, .refl⟩
  | cons field done ih =>
    rw [cons_append] at hok hfs h ⊢
    rcases visitFields_cons hok with ⟨c₁, hv, hstep⟩ | ⟨message, hv, -⟩
    · rw [hstep] at hok ⊢
      obtain ⟨c', heq, hin, hreach⟩ := ih ((suffix_cons field _).trans hfs) (h.visit hind hfs hv)
        (fun g hg => hgood g (mem_cons_of_mem field hg)) hok
      exact ⟨c', heq, hin, hreach.cons h hv⟩
    · exact absurd hv (h.not_bad hkeys (hgood field mem_cons_self))

omit hind in
theorem foldlM_setOutputs {r' : Record}
    (hset : ∀ field ∈ fields, ∀ r r', setOutputs cfg r field .null .null = .ok r' → Q r → Q r')
    (h : fields.foldlM (fun r field => setOutputs cfg r field .null .null) r = .ok r') (hq : Q r) :
    Q r' := by
  induction fields generalizing r with
  | nil => exact Except.ok.inj h ▸ hq
  | cons field fields ih =>
    rw [foldlM_cons] at h
    obtain ⟨r₁, hfirst, hrest⟩ := Traverse.bind_eq_ok.mp h
    exact ih (fun g hg => hset g (mem_cons_of_mem field hg)) hrest
      (hset field mem_cons_self r r₁ hfirst hq)

/-- What the turns and the nulled outputs of the fields keep is true of the record emitted, unless
that is the snapshot. -/
theorem visitFields_emitted (hfs : fields <:+ cfg.fields) (h : Intact cfg r₀ fields c.record)
    (hkeys : (keyTexts py cfg r₀).isSome)
    (hkeep : cfg.onError = .keep → ∀ field ∈ fields, (counter? r₀ field).isSome)
    (hvisit : ∀ field ∈ fields, ∀ c c', visit py cfg host tNow c field = .next c' → Q c.record → Q
      c'.record)
    (hset : ∀ field ∈ fields, ∀ r r', setOutputs cfg r field .null .null = .ok r' → Q r → Q r')
    (hq : Q c.record) (hout : (visitFields py cfg host tNow r₀ fields c).1 = .emitted out) :
    Q out := by
  induction fields generalizing c with
  | nil =>
    unfold visitFields at hout
    dsimp only at hout
    split_ifs at hout
    cases hout
    exact hq
  | cons field fields ih =>
    rcases visitFields_cons (by rw [hout]; rfl) with ⟨c', hv, heq⟩ | ⟨message, hv, heq⟩
    · rw [heq] at hout
      exact ih ((suffix_cons field fields).trans hfs) (h.visit hind hfs hv)
        (fun hk g hg => hkeep hk g (mem_cons_of_mem field hg))
        (fun g hg => hvisit g (mem_cons_of_mem field hg))
        (fun g hg => hset g (mem_cons_of_mem field hg))
        (hvisit field mem_cons_self c c' hv hq) hout
    · rw [heq] at hout
      unfold handleBadRecord at hout
      split at hout
      · cases hout
      · split at hout
        · next r hfold =>
          cases hout
          exact foldlM_setOutputs hset hfold hq
        · cases hout
      · next herr => exact absurd hv (h.not_bad hkeys (hkeep herr field mem_cons_self))

omit hind in
/-- The fields that have to read well for a sample of `field` to be taken and its delta emitted. -/
def needed (cfg : Config) (field : Path) : List Path :=
  if cfg.onError = .null ∧ cfg.firstSample = .pass then cfg.fields.takeWhile (· ≠ field)
  else cfg.fields

theorem visitFields_rest {field : Path} (hfs : field :: rest <:+ cfg.fields)
    (h : Intact cfg r₀ rest c.record) (hkeys : (keyTexts py cfg r₀).isSome)
    (hkeep : cfg.onError = .keep → ∀ g ∈ rest, (counter? r₀ g).isSome)
    (hout : (visitFields py cfg host tNow r₀ rest c).1 = .emitted out)
    (hdelta : c.record.getPath (deltaPath field) = some value) :
    out.getPath (deltaPath field) = some value ∧
      (c.record.getPath flagPath = some (.bool true) → out.getPath flagPath = some (.bool true)) := by
  have hrest : rest <:+ cfg.fields := (suffix_cons field rest).trans hfs
  have hpair := pairwise_cons.mp (hind.fields.sublist hfs.sublist)
  have hmem : ∀ g ∈ rest, g ∈ cfg.fields := fun g hg => hrest.subset hg
  constructor
  · refine visitFields_emitted (Q := fun r => r.getPath (deltaPath field) = some value) hind hrest h
      hkeys hkeep (fun g hg c c' hv hq => ?_) (fun g hg r r' hset hq => ?_) hdelta hout
    · exact (visit_frame (cfg.fields_split g (hmem g hg)) hv _ (hpair.1 g hg).2).trans hq
    · exact (setOutputs_frame hset _ fun p hp =>
        (hpair.1 g hg).2 p (mem_cons_of_mem _ hp)).trans hq
  · intro hflag
    refine visitFields_emitted (Q := fun r => r.getPath flagPath = some (.bool true)) hind hrest h
      hkeys hkeep (fun g hg c c' hv hq => ?_) (fun g hg r r' hset hq => ?_) hflag hout
    · exact visit_flag hind (hmem g hg) hv hq
    · exact (setOutputs_frame hset _ (hind.flag g (hmem g hg))).trans hq

omit hind in
theorem needed_of_not {field : Path} (h : ¬ (cfg.onError = .null ∧ cfg.firstSample = .pass)) :
    needed cfg field = cfg.fields := if_neg h

omit hind in
theorem mem_needed {field g : Path} (h : cfg.fields = done ++ field :: rest) (hnot : field ∉ done)
    (hg : g ∈ done) : g ∈ needed cfg field := by
  unfold needed
  rw [h]
  split_ifs
  · rw [takeWhile_append_of_pos]
    · exact mem_append_left _ hg
    · intro f hf
      exact decide_eq_true fun heq => hnot (heq ▸ hf)
  · exact mem_append_left _ hg

theorem Independent.not_mem_rest {field : Path} (hout : cfg.output ≠ .rate)
    (hfs : field :: rest <:+ cfg.fields) : field ∉ rest := by
  intro hmem
  have hpair := pairwise_cons.mp (hind.fields.sublist hfs.sublist)
  have hwritten : deltaPath field ∈ flagPath :: written cfg field := by
    rw [written, if_pos (delta_of_ne_rate hout)]
    simp
  exact ((hpair.1 field hmem).2 _ hwritten).1 (prefix_refl _)

variable {id : String} {table : Table}

/-- A sample that is taken: it becomes the previous one, and a record that is emitted has null for
its delta at first sight, and afterwards the delta to the previous sample and the flag on a reset. -/
theorem visitFields_taken (hwidth : cfg.width ≠ .auto)
    (hgap : cfg.maxGapSeconds = none) (hout : cfg.output ≠ .rate) (hfield : field ∈ cfg.fields)
    (hwidths : r₀.lookup "_snmp_widths" = none) (hv : counter? r₀ field = some v)
    (hid : identity py cfg host r₀ field = some id)
    (honly : ∀ g ∈ cfg.fields, identity py cfg host r₀ g = some id → g = field)
    (hneeded : ∀ g ∈ needed cfg field, (counter? r₀ g).isSome)
    (hok : (visitFields py cfg host tNow r₀ cfg.fields ⟨r₀, false, table⟩).1.returns = true) :
    (visitFields py cfg host tNow r₀ cfg.fields ⟨r₀, false, table⟩).2.lookup id = some ⟨v, tNow⟩ ∧
    ∀ out, (visitFields py cfg host tNow r₀ cfg.fields ⟨r₀, false, table⟩).1 = .emitted out →
      match table.lookup id with
      | none => out.getPath (deltaPath field) = some .null
      | some prev => out.getPath (deltaPath field) = some (.int (wrapped cfg prev.v v).1) ∧
        ((wrapped cfg prev.v v).2 = true → out.getPath flagPath = some (.bool true)) := by
  have hkeys : (keyTexts py cfg r₀).isSome := by
    unfold identity at hid
    exact Option.isSome_map.symm.trans (Option.isSome_iff_exists.mpr ⟨id, hid⟩)
  -- the fields before this one read well
  obtain ⟨done, rest, hsplit, hnot⟩ := eq_append_cons_of_mem hfield
  have hfs : field :: rest <:+ cfg.fields := ⟨done, hsplit.symm⟩
  have hin : Intact cfg r₀ (done ++ field :: rest) r₀ := .refl hwidths _
  rw [hsplit] at hok ⊢
  obtain ⟨c, heq, hc, hreach⟩ := visitFields_append (c := ⟨r₀, false, table⟩) hind
    (hsplit ▸ suffix_refl _) hin hkeys
    (fun g hg => hneeded g (mem_needed hsplit hnot hg)) hok
  rw [heq] at hok ⊢
  have hprev : c.table.lookup id = table.lookup id := by
    refine hreach.other id fun g hg hgid => ?_
    have hg' : g ∈ cfg.fields := hsplit ▸ mem_append_left _ hg
    exact hnot (honly g hg' hgid ▸ hg)
  rcases visitFields_cons hok with ⟨c', hvisit, hstep⟩ | ⟨message, hvisit, -⟩
  · rw [hstep] at hok ⊢
    obtain ⟨v', id', hv', hid', htable, hwrote⟩ := visit_next hvisit
    rw [hc.counter mem_cons_self, hv] at hv'
    rw [hc.identity, hid] at hid'
    cases hv'
    cases hid'
    have hc' := hc.visit hind hfs hvisit
    have hrest : rest <:+ cfg.fields := (suffix_cons field rest).trans hfs
    constructor
    · rw [visitFields_other hind hrest hc' ?_ hok, htable, Dict.lookup_insert_ite, if_pos rfl]
      intro g hg hgid
      exact absurd (honly g (hrest.subset hg) hgid ▸ hg) (hind.not_mem_rest hout hfs)
    · intro out hemit
      have hkeep : cfg.onError = .keep → ∀ g ∈ rest, (counter? r₀ g).isSome := by
        intro hk g hg
        refine hneeded g ?_
        rw [needed_of_not (by simp [hk])]
        exact hrest.subset hg
      obtain ⟨hnone, -, hset⟩ | ⟨prev, hsome, -, hcmp⟩ := hwrote
      · rw [← hprev, hnone]
        exact (visitFields_rest hind hfs hc' hkeys hkeep hemit
          (setOutputs_delta (cfg.fields_split field hfield) hout hset)).1
      · rw [← hprev, hsome]
        obtain ⟨hdelta, hflag⟩ := compare_delta hwidth hgap hout hind hfield hc.widths hcmp
        obtain ⟨hdelta', hflag'⟩ := visitFields_rest hind hfs hc' hkeys hkeep hemit hdelta
        exact ⟨hdelta', fun hreset => hflag' (hflag hreset)⟩
  · exact absurd hvisit (hc.not_bad hkeys (by rw [hv]; rfl))

theorem visitFields_whole (hwidths : r₀.lookup "_snmp_widths" = none)
    (hkeys : (keyTexts py cfg r₀).isSome) (hgood : ∀ g ∈ cfg.fields, (counter? r₀ g).isSome)
    (hok : (visitFields py cfg host tNow r₀ cfg.fields ⟨r₀, false, table⟩).1.returns = true) :
    (∀ g ∈ cfg.fields, ∀ id, identity py cfg host r₀ g = some id →
      ((visitFields py cfg host tNow r₀ cfg.fields ⟨r₀, false, table⟩).2.lookup id).isSome) ∧
    ((∀ g ∈ cfg.fields, ∀ id, identity py cfg host r₀ g = some id → (table.lookup id).isSome) →
      ∃ out, (visitFields py cfg host tNow r₀ cfg.fields ⟨r₀, false, table⟩).1 = .emitted out) := by
  have happ := append_nil cfg.fields
  rw [← happ] at hok
  obtain ⟨c, heq, -, hreach⟩ := visitFields_append hind (happ.symm ▸ suffix_refl _)
    (.refl hwidths _) hkeys hgood hok
  rw [happ] at heq
  rw [heq]
  refine ⟨hreach.seen, fun hall => ⟨c.record, ?_⟩⟩
  have hfirst : c.firstSight = false := hreach.firstSight hall
  simp [visitFields, hfirst]

end Loop

end Tram.CounterDelta
