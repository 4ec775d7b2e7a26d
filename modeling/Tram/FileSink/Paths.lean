import Mathlib.Tactic.MkIffOfInductiveProp
import Tram.Lib.PosixPath
import Tram.FileSink.Template

/-! # Paths under a root

How the two backends join a rendered name to their root: the local one as a path, the other one as a
text. -/

namespace Tram.FileSink

open List PosixPath

def FilePath.ofPath (p : PosixPath) : FilePath := ⟨p.parent.str, p.name⟩

def FilePath.path (p : FilePath) : PosixPath :=
  let directory := parse p.parent
  ⟨directory.anchor, directory.parts ++ if p.name = "" then [] else [p.name]⟩

def localJoinRoot (root rendered : String) : FilePath :=
  .ofPath ((parse root).join rendered)

/-- `SftpRollingBackend.join_root`; what follows the last slash is the name. -/
def sftpJoinRoot (remotePath rendered : String) : FilePath :=
  let backwards := (remotePath ++ "/" ++ rendered).toList.reverse
  ⟨String.ofList (backwards.dropWhile (· ≠ '/')).tail.reverse,
    String.ofList (backwards.takeWhile (· ≠ '/')).reverse⟩

@[mk_iff]
structure IsEntry (name : String) : Prop where
  nonempty : name ≠ ""
  not_dot : name ≠ "."
  not_dots : name ≠ ".."
  flat : '/' ∉ name.toList

/-- A name of an entry is still the name of the file once it is joined to the root. -/
def Platform.KeepsNames (py : Platform) : Prop := ∀ name, IsEntry name → (py.joinRoot name).name = name

namespace IsEntry

variable {name : String}

theorem parse_eq (h : IsEntry name) : parse name = ⟨"", [name]⟩ := by
  have hne : name.toList ≠ [] := fun hnil => h.nonempty (String.toList_inj.mp hnil)
  have hdot : name.toList ≠ ['.'] := fun hdot => h.not_dot (String.toList_inj.mp hdot)
  obtain ⟨c, rest, hchars⟩ := exists_cons_of_ne_nil hne
  have hc : c ≠ '/' := by
    rintro rfl
    exact h.flat (hchars ▸ mem_cons_self)
  unfold parse
  rw [splitOn_eq_singleton h.flat, filter_singleton, decide_eq_true ⟨hne, hdot⟩]
  rw [hchars, (anchorOf_of_ne hc rest).1, ← hchars]
  simp

theorem localJoinRoot_eq (h : IsEntry name) (root : String) :
    localJoinRoot root name = ⟨(PosixPath.parse root).str, name⟩ := by
  simp [localJoinRoot, PosixPath.join, h.parse_eq, FilePath.ofPath, PosixPath.parent, PosixPath.name]

theorem name_sftpJoinRoot (h : IsEntry name) (remotePath : String) :
    (sftpJoinRoot remotePath name).name = name := by
  have hflat : ∀ c ∈ name.toList.reverse, (decide (c ≠ '/')) = true := fun c hc =>
    decide_eq_true fun hslash => h.flat (hslash ▸ mem_reverse.mp hc)
  have htake : ((remotePath ++ "/" ++ name).toList.reverse.takeWhile (· ≠ '/')) = name.toList.reverse := by
    rw [String.toList_append, String.toList_append, reverse_append, reverse_append,
      takeWhile_append_of_pos hflat]
    simp
  unfold sftpJoinRoot
  dsimp only
  rw [htake, reverse_reverse, String.ofList_toList]

theorem inside (h : IsEntry name) (root : String) :
    (parse root).Inside (FilePath.mk (parse root).str name).path := by
  simp only [FilePath.path, parse_str (clean_parse root), if_neg h.nonempty]
  exact inside_child _ h.not_dots

end IsEntry

variable {py : Platform}

theorem keepsNames_local {root : String} (h : py.joinRoot = localJoinRoot root) : py.KeepsNames :=
  fun name hname => by rw [h, hname.localJoinRoot_eq]

theorem keepsNames_sftp {remotePath : String} (h : py.joinRoot = sftpJoinRoot remotePath) :
    py.KeepsNames := fun name hname => by rw [h, hname.name_sftpJoinRoot]

end Tram.FileSink
