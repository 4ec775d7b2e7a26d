import Mathlib.Data.List.Basic

/-! # Paths as texts

A path is read off its text: an anchor, and the components between the slashes but for the empty ones
and the dots. Nothing is looked up in a file system, so where a path leads is told by what is left of
it once each `..` has taken back the component before it. -/

structure PosixPath where
  anchor : String
  parts : List String
  deriving DecidableEq, Repr

namespace PosixPath

open List

/-- Two slashes in front are an anchor of their own, three are one. -/
def anchorOf : List Char → String
  | '/' :: '/' :: '/' :: _ => "/"
  | '/' :: '/' :: _ => "//"
  | '/' :: _ => "/"
  | _ => ""

def parse (text : String) : PosixPath where
  anchor := anchorOf text.toList
  parts := ((text.toList.splitOn '/').filter fun part => part ≠ [] ∧ part ≠ ['.']).map String.ofList

def str (p : PosixPath) : String :=
  if p.parts = [] then if p.anchor = "" then "." else p.anchor
  else p.anchor ++ "/".intercalate p.parts

/-- `p / text`: a text with an anchor stands for itself. -/
def join (p : PosixPath) (text : String) : PosixPath :=
  let q := parse text
  if q.anchor = "" then ⟨p.anchor, p.parts ++ q.parts⟩ else q

def parent (p : PosixPath) : PosixPath := ⟨p.anchor, p.parts.dropLast⟩

def name (p : PosixPath) : String := p.parts.getLast?.getD ""

/-! ## Texts of paths -/

structure Clean (p : PosixPath) : Prop where
  anchor : p.anchor = "" ∨ p.anchor = "/" ∨ p.anchor = "//"
  parts : ∀ part ∈ p.parts, part ≠ "" ∧ part ≠ "." ∧ '/' ∉ part.toList

theorem not_mem_of_mem_splitOn {c : Char} {text part : List Char} (h : part ∈ text.splitOn c) :
    c ∉ part := by
  induction text generalizing part with
  | nil =>
    obtain rfl : part = [] := by simpa [splitOn_eq_splitOnP] using h
    exact not_mem_nil
  | cons a text ih =>
    rw [splitOn_cons_eq_if_modifyHead] at h
    split_ifs at h with ha
    · rcases mem_cons.mp h with rfl | h
      · exact not_mem_nil
      · exact ih h
    · cases hparts : text.splitOn c with
      | nil => exact absurd hparts (splitOn_ne_nil c text)
      | cons first parts =>
        rw [hparts, modifyHead_cons] at h
        rcases mem_cons.mp h with rfl | h
        · intro hmem
          rcases mem_cons.mp hmem with rfl | hmem
          · exact ha (beq_self_eq_true c)
          · exact ih (hparts ▸ mem_cons_self) hmem
        · exact ih (hparts ▸ mem_cons_of_mem _ h)

theorem clean_parse (text : String) : (parse text).Clean := by
  refine ⟨?_, fun part hpart => ?_⟩
  · unfold parse anchorOf
    split <;> simp
  · obtain ⟨chars, hchars, rfl⟩ := mem_map.mp hpart
    obtain ⟨hmem, hkept⟩ := mem_filter.mp hchars
    obtain ⟨hnil, hdot⟩ := of_decide_eq_true hkept
    refine ⟨fun h => hnil ?_, fun h => hdot ?_, ?_⟩
    · simpa using congrArg String.toList h
    · simpa using congrArg String.toList h
    · simpa using not_mem_of_mem_splitOn hmem

section

variable {parts : List String} (hne : parts ≠ [])
  (h : ∀ part ∈ parts, part ≠ "" ∧ part ≠ "." ∧ '/' ∉ part.toList)
include hne h

theorem filter_splitOn_intercalate :
    ((("/".intercalate parts).toList.splitOn '/').filter fun part => part ≠ [] ∧ part ≠ ['.']).map
      String.ofList = parts := by
  have hsplit : ("/".intercalate parts).toList.splitOn '/' = parts.map String.toList := by
    rw [String.toList_intercalate]
    refine splitOn_intercalate '/' (fun chars hchars => ?_) (by simpa using hne)
    obtain ⟨part, hpart, rfl⟩ := mem_map.mp hchars
    exact (h part hpart).2.2
  have hkept : (parts.map String.toList).filter (fun part => part ≠ [] ∧ part ≠ ['.']) =
      parts.map String.toList := by
    refine filter_eq_self.mpr fun chars hchars => ?_
    obtain ⟨part, hpart, rfl⟩ := mem_map.mp hchars
    obtain ⟨hnil, hdot, -⟩ := h part hpart
    refine decide_eq_true ⟨fun h => hnil ?_, fun h => hdot ?_⟩
    · exact String.toList_inj.mp h
    · exact String.toList_inj.mp h
  rw [hsplit, hkept, map_map]
  exact map_id'' (fun part => String.ofList_toList) parts

theorem intercalate_eq_cons : ∃ c rest, ("/".intercalate parts).toList = c :: rest ∧ c ≠ '/' := by
  obtain ⟨part, parts, rfl⟩ := exists_cons_of_ne_nil hne
  obtain ⟨hnil, -, hslash⟩ := h part mem_cons_self
  obtain ⟨c, chars, hchars⟩ := exists_cons_of_ne_nil fun h : part.toList = [] =>
    hnil (String.toList_inj.mp h)
  have hc : c ≠ '/' := by
    rintro rfl
    exact hslash (hchars ▸ mem_cons_self)
  rw [String.toList_intercalate, map_cons, hchars]
  cases parts with
  | nil => exact ⟨c, chars, by simp [intercalate], hc⟩
  | cons part' parts => exact ⟨c, _, by simp [intercalate]; rfl, hc⟩

end

theorem anchorOf_of_ne {c : Char} (hc : c ≠ '/') (rest : List Char) :
    anchorOf (c :: rest) = "" ∧ anchorOf ('/' :: c :: rest) = "/" ∧
      anchorOf ('/' :: '/' :: c :: rest) = "//" := by
  refine ⟨?_, ?_, ?_⟩ <;> simp [anchorOf, hc]

theorem parse_str {p : PosixPath} (h : p.Clean) : parse p.str = p := by
  obtain ⟨anchor, parts⟩ := p
  obtain ⟨hanchor, hparts⟩ := h
  dsimp only at hanchor hparts
  by_cases hne : parts = []
  · subst hne
    rcases hanchor with rfl | rfl | rfl <;> decide
  · obtain ⟨c, rest, hc, hslash⟩ := intercalate_eq_cons hne hparts
    have hfilter := filter_splitOn_intercalate hne hparts
    obtain ⟨hnone, hone, htwo⟩ := anchorOf_of_ne hslash rest
    have hskip : ∀ text : List Char, ('/' :: text).splitOn '/' = [] :: text.splitOn '/' := fun text => by
      simp [splitOn_cons_eq_if_modifyHead]
    unfold str parse
    rw [if_neg hne]
    rw [hc] at hfilter
    rcases hanchor with rfl | rfl | rfl <;> simp only [String.toList_append, hc]
    · exact congrArg₂ PosixPath.mk hnone hfilter
    · exact congrArg₂ PosixPath.mk hone (by simpa [hskip] using hfilter)
    · exact congrArg₂ PosixPath.mk htwo (by simpa [hskip] using hfilter)

/-- One more component, on the components so far with the last one first. -/
def push (anchored : Bool) (stack : List String) (part : String) : List String :=
  if part = ".." then
    match stack with
    | [] => if anchored then [] else [".."]
    | top :: rest => if top = ".." then ".." :: stack else rest
  else part :: stack

def normal (p : PosixPath) : List String := (p.parts.foldl (push (p.anchor ≠ "")) []).reverse

/-- The path leads to something below the root. -/
def Inside (root p : PosixPath) : Prop :=
  p.anchor = root.anchor ∧ root.normal <+: p.normal ∧ p.normal.drop root.normal.length ≠ [] ∧
    ".." ∉ p.normal.drop root.normal.length

instance (root p : PosixPath) : Decidable (Inside root p) :=
  inferInstanceAs (Decidable (p.anchor = root.anchor ∧ root.normal <+: p.normal ∧
    p.normal.drop root.normal.length ≠ [] ∧ ".." ∉ p.normal.drop root.normal.length))

theorem inside_child (root : PosixPath) {part : String} (h : part ≠ "..") :
    Inside root ⟨root.anchor, root.parts ++ [part]⟩ := by
  have hnormal : normal ⟨root.anchor, root.parts ++ [part]⟩ = root.normal ++ [part] := by
    simp [normal, push, h]
  refine ⟨rfl, ?_, ?_, ?_⟩ <;> simp [hnormal, h.symm]

end PosixPath
