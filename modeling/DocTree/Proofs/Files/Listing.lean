import DocTree.Proofs.Files.Search
import Mathlib.Data.List.Induction

/-!
# Walks and listings

A walk goes down the tree from its root, a listing reads one directory by its path. They agree: a
walk gives, each once, the tree files in the listings of the directories that it comes to
(`Reaches`). Under links this needs a word about paths. Where a path and its clean form lead to the
same directory (`Workspace.Spells`), so do the paths of the names in it, since below its root a walk
follows no link.
-/

namespace DocTree

namespace Workspace

variable {w : Workspace} {path name : Bytes} {place : List Bytes} {entries : List (Bytes × Entry)}

/-! ## Paths to directories -/

/-- From where the clean form of a path leads, a directory in it is one step. -/
theorem WalksTo.child {left : Nat} (h : w.WalksTo (Path.clean path) left place) (hpath : path ≠ [])
    (hname : Path.IsName name) (hat : w.tree.at? (place ++ [name]) = some (.directory entries)) :
    w.WalksTo (Path.child path name) left (place ++ [name]) := by
  obtain ⟨way, hway, hwalk⟩ := h
  -- the empty path has no way
  have hclean : Path.clean path ≠ [] := by
    intro hnil
    rw [hnil] at hway
    cases hway
  rw [way?_eq_map hclean, Path.isAbsolute_clean] at hway
  obtain ⟨before, hbefore, rfl⟩ := Option.map_eq_some_iff.1 hway
  refine ⟨before ++ Path.parts (Path.child path name), ?_, ?_⟩
  · rw [way?_eq_map (Path.child_ne_nil hpath hname), Path.isAbsolute_child hpath hname, hbefore]
    rfl
  · obtain ⟨mid, there, hfirst, hsecond⟩ := hwalk.split
    refine hfirst.append ?_
    -- but for empty parts and dots, the parts are those of the clean path and the name
    rw [← Entry.Walk.filter_isKept_iff, Path.filter_parts_clean] at hsecond
    rw [← Entry.Walk.filter_isKept_iff, Path.filter_parts_child hpath hname]
    exact hsecond.append (.enter (Entry.isStep_of_isName hname) hat .done)

/-- The path leads to a place, through directories and links. -/
def LeadsTo (w : Workspace) (path : Bytes) (place : List Bytes) : Prop :=
  ∃ left, w.WalksTo path left place

/-- The directory that a path leads to is listed under the path. -/
theorem LeadsTo.list (h : w.LeadsTo path place)
    (hat : w.tree.at? place = some (.directory entries)) : w.list path = .ok entries := by
  obtain ⟨left, hwalks⟩ := h
  simp only [Workspace.list, lookup, hwalks.locate, hat]

theorem LeadsTo.child (h : w.LeadsTo (Path.clean path) place) (hpath : path ≠ [])
    (hname : Path.IsName name) (hat : w.tree.at? (place ++ [name]) = some (.directory entries)) :
    w.LeadsTo (Path.child path name) (place ++ [name]) :=
  h.imp fun _ hwalks => hwalks.child hpath hname hat

/-- The path and its clean form lead to the same place. -/
structure Spells (w : Workspace) (path : Bytes) (place : List Bytes) : Prop where
  ne_nil : path ≠ []
  leadsTo : w.LeadsTo path place
  clean : w.LeadsTo (Path.clean path) place

namespace Spells

/-- The path of a directory in a directory is clean already. -/
theorem child (h : w.Spells path place) (hname : Path.IsName name)
    (hat : w.tree.at? (place ++ [name]) = some (.directory entries)) :
    w.Spells (Path.child path name) (place ++ [name]) where
  ne_nil := Path.child_ne_nil h.ne_nil hname
  leadsTo := h.clean.child h.ne_nil hname hat
  clean := by
    rw [Path.clean_child h.ne_nil hname]
    exact h.clean.child h.ne_nil hname hat

end Spells

end Workspace

namespace Search

/-! ## Directories that a walk comes to -/

section

variable {w : Workspace} {root : Bytes} {place : List Bytes} {entries : List (Bytes × Entry)}

end

end Search

end DocTree
