import Mathlib.Data.List.AList

/-! # Dictionaries

A dictionary is Mathlib's association list with distinct keys, at a value type that does not
depend on the key. The lookup lemmas are stated with `if`, the form in which frame arguments
("every other key is unchanged") are closed by a case split. -/

abbrev Dict (α β : Type*) := AList fun _ : α => β

namespace Dict

open List

variable {α β : Type*} [DecidableEq α] {d : Dict α β} {v : β} {k : α} {P : α → β → Prop}

theorem lookup_insert_ite (d : Dict α β) (k k' : α) (v : β) :
    (d.insert k v).lookup k' = if k' = k then some v else d.lookup k' := by
  split_ifs with h
  · subst h; exact AList.lookup_insert d
  · exact AList.lookup_insert_ne h

theorem forall_insert (hnew : P k v) (hold : ∀ k' v', d.lookup k' = some v' → P k' v') :
    ∀ k' v', (d.insert k v).lookup k' = some v' → P k' v' := by
  intro k' v' hv
  rw [lookup_insert_ite] at hv
  split_ifs at hv with hk
  · cases hv
    exact hk ▸ hnew
  · exact hold k' v' hv

theorem ne_of_lookup {k' : α} (hk : d.lookup k = none) (hv : d.lookup k' = some v) : k' ≠ k := by
  rintro rfl
  cases hk.symm.trans hv

theorem lookup_erase_ite (d : Dict α β) (k k' : α) :
    (d.erase k).lookup k' = if k' = k then none else d.lookup k' := by
  split_ifs with h
  · subst h; exact AList.lookup_erase _ d
  · exact AList.lookup_erase_ne h

theorem lookup_of_erase {k' : α} (h : (d.erase k).lookup k' = some v) : d.lookup k' = some v := by
  rw [lookup_erase_ite] at h
  split_ifs at h
  exact h

/-- `d.setdefault(k, v)`: keep the entry of `k` if there is one. -/
def setdefault (d : Dict α β) (k : α) (v : β) : Dict α β :=
  match d.lookup k with
  | some _ => d
  | none => d.insert k v

theorem lookup_setdefault (d : Dict α β) (k k' : α) (v : β) :
    (setdefault d k v).lookup k' =
      if k' = k then some ((d.lookup k).getD v) else d.lookup k' := by
  unfold setdefault
  cases h : d.lookup k with
  | some w =>
    split_ifs with hk
    · subst hk; simpa using h
    · rfl
  | none => simp [lookup_insert_ite]

theorem dlookup_mapKeyed {γ : Type*} (f : α → β → γ) (l : List (Σ _ : α, β)) (k : α) :
    (l.map fun e => (⟨e.1, f e.1 e.2⟩ : Σ _ : α, γ)).dlookup k = (l.dlookup k).map (f k) := by
  induction l with
  | nil => rfl
  | cons e es ih =>
    obtain ⟨a, b⟩ := e
    by_cases h : k = a
    · subst h
      simp
    · rw [map_cons, dlookup_cons_ne es ⟨a, b⟩ h]
      exact (dlookup_cons_ne _ ⟨a, f a b⟩ h).trans ih

def mapVal (d : Dict α β) (f : α → β → β) : Dict α β :=
  ⟨d.entries.map (Sigma.map id f), d.nodupKeys.map₂ f⟩

theorem lookup_mapVal (d : Dict α β) (f : α → β → β) (k : α) :
    (mapVal d f).lookup k = (d.lookup k).map (f k) :=
  dlookup_mapKeyed f d.entries k

section MapTo

variable {γ : Type*} (f : β → γ)

def mapEntry (e : Σ _ : α, β) : Σ _ : α, γ := ⟨e.1, f e.2⟩

omit [DecidableEq α] in
theorem keys_map (l : List (Σ _ : α, β)) : (l.map (mapEntry f)).keys = l.keys := by
  simp only [keys, map_map]
  rfl

def mapTo (d : Dict α β) : Dict α γ :=
  ⟨d.entries.map (mapEntry f), by
    have h := d.nodupKeys
    rw [NodupKeys] at h ⊢
    rwa [keys_map]⟩

theorem dlookup_map (l : List (Σ _ : α, β)) (k : α) :
    (l.map (mapEntry f)).dlookup k = (l.dlookup k).map f :=
  dlookup_mapKeyed (fun _ => f) l k

theorem lookup_mapTo (d : Dict α β) (k : α) : (mapTo f d).lookup k = (d.lookup k).map f :=
  dlookup_map f d.entries k

theorem dedupKeys_map (l : List (Σ _ : α, β)) :
    (l.map (mapEntry f)).dedupKeys = l.dedupKeys.map (mapEntry f) := by
  induction l with
  | nil => rfl
  | cons e es ih =>
    change kinsert e.1 (f e.2) (es.map (mapEntry f)).dedupKeys =
      (kinsert e.1 e.2 es.dedupKeys).map (mapEntry f)
    rw [ih, kinsert, kinsert, kerase, eraseP_map]
    rfl

theorem toAList_map (l : List (Σ _ : α, β)) : (l.map (mapEntry f)).toAList = mapTo f l.toAList :=
  AList.ext (dedupKeys_map f l)

end MapTo

/-- Change the entry of `k`, if there is one, in its place. -/
def modify (d : Dict α β) (k : α) (f : β → β) : Dict α β :=
  mapVal d fun k' v => if k' = k then f v else v

theorem lookup_modify (d : Dict α β) (k k' : α) (f : β → β) :
    (modify d k f).lookup k' = if k' = k then (d.lookup k).map f else d.lookup k' := by
  rw [modify, lookup_mapVal]
  split_ifs with h
  · subst h; rfl
  · simp

theorem forall_modify {f : β → β} (hnew : ∀ v, d.lookup k = some v → P k (f v))
    (hold : ∀ k' v, d.lookup k' = some v → P k' v) :
    ∀ k' v, (modify d k f).lookup k' = some v → P k' v := by
  intro k' v' hv'
  rw [lookup_modify] at hv'
  split_ifs at hv' with hk
  · obtain ⟨v, hv, rfl⟩ := Option.map_eq_some_iff.mp hv'
    exact hk ▸ hnew v hv
  · exact hold k' v' hv'

/-- Keep only the entries `p` holds of. -/
def retain (d : Dict α β) (p : α → β → Bool) : Dict α β :=
  ⟨d.entries.filter fun e => p e.1 e.2, d.nodupKeys.sublist filter_sublist⟩

theorem lookup_retain_eq_some {p : α → β → Bool} :
    (retain d p).lookup k = some v ↔ d.lookup k = some v ∧ p k v = true := by
  rw [← Option.mem_def, AList.mem_lookup_iff, ← Option.mem_def, AList.mem_lookup_iff]
  simp [retain, mem_filter]

theorem mem_entries : (⟨k, v⟩ : Σ _ : α, β) ∈ d.entries ↔ d.lookup k = some v := by
  rw [← Option.mem_def, AList.mem_lookup_iff]

theorem lookup_graph (f : α → β) (keys : List α) (key : α) :
    (keys.map fun k => (k, f k)).lookup key = if key ∈ keys then some (f key) else none := by
  induction keys with
  | nil => rfl
  | cons first keys ih =>
    rw [map_cons, lookup_cons]
    by_cases hfirst : key = first
    · simp [hfirst]
    · simp [hfirst, beq_eq_false_iff_ne.mpr hfirst, ih]

theorem lookup_foldl_insert {cells : List (α × β)} (h : (cells.map (·.1)).Nodup) (d : Dict α β) (key : α) :
    (cells.foldl (fun d cell => d.insert cell.1 cell.2) d).lookup key =
      (cells.lookup key).or (d.lookup key) := by
  induction cells generalizing d with
  | nil => rfl
  | cons cell cells ih =>
    obtain ⟨hcell, hcells⟩ := nodup_cons.mp h
    rw [foldl_cons, ih hcells, lookup_insert_ite, lookup_cons]
    by_cases hkey : key = cell.1
    · subst hkey
      have hnone : cells.lookup cell.1 = none := lookup_eq_none_iff.mpr fun p hp =>
        bne_iff_ne.mpr fun heq => hcell (mem_map.mpr ⟨p, hp, heq.symm⟩)
      simp [hnone]
    · simp [hkey, beq_eq_false_iff_ne.mpr hkey]

end Dict
