import Tram.Transforms.WindowConservation

/-! # Groups by the texts of their values

A window is kept under the texts of its group-by values, joined by the unit separator: `str` of a
value, and the empty text for a missing one. The values themselves are those of the record that
opened the window. -/

namespace Tram.WindowAggregate

open List History

def groupText (py : Python) (v : Json) : String := if v.isNull then "" else py.str v

variable {py : Python} {cfg : Config}

theorem count_intercalate {t : String} {texts : List String} :
    ("\x1f".intercalate (t :: texts)).toList.count '\x1f' =
      ((t :: texts).map fun t => t.toList.count '\x1f').sum + texts.length := by
  induction texts generalizing t with
  | nil => simp
  | cons t' texts ih =>
    have hrest := @ih t'
    have hsep : "\x1f".toList.count '\x1f' = 1 := by decide
    rw [String.toList_intercalate, map_cons] at hrest ⊢
    rw [map_cons, intercalate_cons_cons, count_append, count_append, hrest, hsep]
    simp only [map_cons, sum_cons, length_cons]
    omega

/-- Texts that make the same key are the same as soon as those on one side have no separator: as many
separators as there are between them leave none for the others. -/
theorem intercalate_inj {texts texts' : List String} (hlen : texts.length = texts'.length)
    (h : ∀ t ∈ texts, '\x1f' ∉ t.toList)
    (heq : "\x1f".intercalate texts = "\x1f".intercalate texts') : texts = texts' := by
  match texts, texts' with
  | [], [] => rfl
  | t :: texts, t' :: texts' =>
    have hplain : ∀ l : List String, (∀ t ∈ l, '\x1f' ∉ t.toList) ↔
        (l.map fun t => t.toList.count '\x1f').sum = 0 := by
      simp [sum_eq_zero_iff, count_eq_zero]
    have h' : ∀ t ∈ t' :: texts', '\x1f' ∉ t.toList := by
      have hcount := congrArg (fun s : String => s.toList.count '\x1f') heq
      rw [hplain] at h ⊢
      simp only [count_intercalate, length_cons] at hcount hlen
      omega
    have hsplit : ∀ l : List String, l ≠ [] → (∀ t ∈ l, '\x1f' ∉ t.toList) →
        ("\x1f".intercalate l).toList.splitOn '\x1f' = l.map String.toList := by
      intro l hne hl
      rw [String.toList_intercalate]
      refine splitOn_intercalate '\x1f' (fun chars hchars => ?_) (by simpa using hne)
      obtain ⟨t, ht, rfl⟩ := mem_map.mp hchars
      exact hl t ht
    have hmap := (hsplit _ (cons_ne_nil _ _) h).symm.trans
      ((congrArg (·.toList.splitOn '\x1f') heq).trans (hsplit _ (cons_ne_nil _ _) h'))
    exact map_injective_iff.mpr (fun _ _ h => String.toList_injective h) hmap

theorem texts_eq {r r' : Record} (hplain : ∀ v ∈ (groupKey py cfg r).2, '\x1f' ∉ (groupText py v).toList)
    (hkey : (groupKey py cfg r).1 = (groupKey py cfg r').1) :
    (groupKey py cfg r).2.map (groupText py) = (groupKey py cfg r').2.map (groupText py) :=
  intercalate_inj (by simp [groupKey]) (by simpa using hplain) hkey

/-- A record is folded only into the window kept under its own key, and where its texts have no unit
separator, records under its key have the same texts. In any sequence of batches, flushes and
restarts an emitted window is made by records under its key, and its group fields have the texts of
each of them that has no separator. -/
theorem windows_group_by_text (py : Python) (cfg : Config) :
    (∀ s r stop key stop', Nested.look (State.add py cfg s r stop).windows key stop' ≠
      Nested.look s.windows key stop' → key = (groupKey py cfg r).1 ∧ stop' = stop) ∧
    (∀ r r', (∀ v ∈ (groupKey py cfg r).2, '\x1f' ∉ (groupText py v).toList) →
      (groupKey py cfg r).1 = (groupKey py cfg r').1 →
      (groupKey py cfg r).2.map (groupText py) = (groupKey py cfg r').2.map (groupText py)) ∧
    ∀ calls, ∀ em ∈ (Run.exec (step py cfg) init calls).emitted,
      (∃ first rest, (∀ r ∈ first :: rest, Belongs py cfg em.groupKey em.windowEnd r) ∧
        emitWindow cfg em.windowComplete em.groupKey (entryOf py cfg em.windowEnd first rest) =
          some em) ∧
      ∀ r, (∀ v ∈ (groupKey py cfg r).2, '\x1f' ∉ (groupText py v).toList) →
        em.groupKey = (groupKey py cfg r).1 →
        (em.groupFields.map (·.2)).map (groupText py) = (groupKey py cfg r).2.map (groupText py) := by
  refine ⟨fun s r stop key stop' hne => ?_, fun r r' => texts_eq, fun calls em hem => ?_⟩
  · by_contra hother
    rw [State.look_add, if_neg hother] at hne
    exact hne rfl
  · obtain ⟨stop, entry, complete, ⟨first, rest, hall, rfl⟩, hemit⟩ :=
      (counted_exec calls).2 em hem
    obtain ⟨-, hend, -, rfl⟩ := emitWindow_spec hemit
    obtain ⟨hstop, hvalues⟩ := @foldl_fold cfg (first :: rest)
      (newEntry cfg stop (groupKey py cfg first).2)
    obtain rfl : em.windowEnd = stop := hend.trans hstop
    refine ⟨⟨first, rest, hall, hemit⟩, fun r hplain hkey => ?_⟩
    have hfields : em.groupFields.map (·.2) = (groupKey py cfg first).2 := by
      rw [emitWindow_groupFields hemit, entryOf, hvalues]
      exact map_snd_zip (length_map _).le
    rw [hfields, ← texts_eq hplain (hkey.symm.trans (hall first mem_cons_self).1.symm)]

theorem windows_group_by_text_host :
    let calls := [Call.apply [sampleAt "a" 1, sampleAt "a" 2], .close true]
    let h := Run.exec (step plainPython tenSeconds) init calls
    h.emitted.map (·.groupKey) = ["a"] ∧
    ∀ em ∈ h.emitted, em.groupKey = "a" →
      (em.groupFields.map (·.2)).map (groupText plainPython) = ["a"] := by
  intro calls h
  refine ⟨by decide +kernel, fun em hem hkey => ?_⟩
  exact ((windows_group_by_text plainPython tenSeconds).2.2 calls em hem).2 (sampleAt "a" 1)
    (by decide +kernel) hkey

/-- A record without the group-by field and one that has it empty share a window. -/
theorem missing_groups_with_empty :
    let calls := [Call.apply [[("t", .int 1)], sampleAt "" 2], .close true]
    let h := Run.exec (step plainPython tenSeconds) init calls
    h.emitted.map (·.sampleCount) = [2] ∧
      h.emitted.map (fun em => em.groupFields.map (·.2.isNull)) = [[true]] ∧
      (groupKey plainPython tenSeconds (sampleAt "" 2)).2.map Json.isNull = [false] := by
  decide +kernel

end Tram.WindowAggregate
