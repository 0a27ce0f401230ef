import DocTree.Proofs.Files.Search

/-!
# The nearest module

The search for a module goes from a directory to its parent until there is a module file, or until
the parent is the directory itself. Nothing counts the rounds. `Climb` is what the rounds do, and
`climb_upward` says that from every clean absolute path they come to an end, with what `Path.upward`
lists. `Climb.nearest` is about the end alone: what one round adds is the directory it looks in
(`atOrAbove_iff_parent`), so the first one that is found is the nearest.
-/

namespace DocTree

/-! ## Directories above -/

namespace Path

/-- `directory` is at an absolute path or above it: its names are the first names of the path. -/
def AtOrAbove (directory path : Bytes) : Prop :=
  ∃ way, way <+: (names path).reverse ∧ directory = ofWay way

/-- How the path is spelled does not matter. -/
theorem atOrAbove_clean_iff {directory path : Bytes} :
    AtOrAbove directory (clean path) ↔ AtOrAbove directory path := by
  rw [AtOrAbove, AtOrAbove, names_clean]

theorem IsWay.front {way front : List Bytes} (hway : IsWay way) (h : front <+: way) : IsWay front :=
  fun name hname => hway name (h.subset hname)

section

variable {directory : Bytes} {way : List Bytes} (hway : IsWay way)

include hway

theorem IsWay.dropLast : IsWay way.dropLast := hway.front (List.dropLast_prefix way)

/-- Above a way are the ways that it begins with. -/
theorem atOrAbove_ofWay_iff :
    AtOrAbove directory (ofWay way) ↔ ∃ front, front <+: way ∧ directory = ofWay front := by
  rw [AtOrAbove, names_ofWay hway, List.reverse_reverse]

theorem AtOrAbove.refl_ofWay : AtOrAbove (ofWay way) (ofWay way) :=
  (atOrAbove_ofWay_iff hway).2 ⟨way, List.prefix_rfl, rfl⟩

/-- Of two directories above a path that are above each other, one is the other. -/
theorem AtOrAbove.antisymm_ofWay (h : AtOrAbove directory (ofWay way))
    (h' : AtOrAbove (ofWay way) directory) : directory = ofWay way := by
  obtain ⟨front, hfront, rfl⟩ := (atOrAbove_ofWay_iff hway).1 h
  obtain ⟨front', hfront', heq⟩ := (atOrAbove_ofWay_iff (hway.front hfront)).1 h'
  obtain rfl := ofWay_injective hway ((hway.front hfront).front hfront') heq
  -- each is as long as the other
  rw [hfront.eq_of_length (Nat.le_antisymm hfront.length_le hfront'.length_le)]

/-- The parent of a directory has its names but the last; the root is its own parent. -/
theorem parent_ofWay_eq : parent (ofWay way) = ofWay way.dropLast := by
  rcases List.eq_nil_or_concat way with rfl | ⟨front, name, rfl⟩
  · rfl
  · rw [List.concat_eq_append] at hway ⊢
    obtain ⟨hfront, hname⟩ := isWay_append.1 hway
    rw [parent_ofWay hfront (isWay_singleton.1 hname), List.dropLast_concat]

/-- Only the root is its own parent. -/
theorem parent_ofWay_eq_self_iff : parent (ofWay way) = ofWay way ↔ way = [] := by
  rw [parent_ofWay_eq hway]
  constructor
  · intro h
    have hlength := congrArg List.length (ofWay_injective hway.dropLast hway h)
    rw [List.length_dropLast] at hlength
    exact List.length_eq_zero_iff.1 (by omega)
  · rintro rfl
    rfl

/-- One step up: above a directory there is itself, and what is above its parent. -/
theorem atOrAbove_iff_parent :
    AtOrAbove directory (ofWay way) ↔
      directory = ofWay way ∨ AtOrAbove directory (parent (ofWay way)) := by
  rw [parent_ofWay_eq hway, atOrAbove_ofWay_iff hway, atOrAbove_ofWay_iff hway.dropLast]
  rcases List.eq_nil_or_concat way with rfl | ⟨front, name, rfl⟩
  · simp
  · simp only [List.concat_eq_append, List.dropLast_concat, List.prefix_concat_iff, or_and_right,
      exists_or, exists_eq_left]

end

end Path

namespace Search

open DocTree.Path (AtOrAbove IsWay ofWay)

/-! ## The rounds of the search -/

/-- There is a module file in the directory: something under its name that is not a directory. -/
def HoldsModule (w : Workspace) (directory : Bytes) : Prop :=
  ∃ e, w.stat (Path.child directory (ascii "go.mod")) = .ok e ∧ e.isDirectory = false

/-- One round looks for a module file. -/
theorem isFile_iff_holdsModule {w : Workspace} {directory : Bytes} :
    w.isFile (Path.child directory (ascii "go.mod")) = true ↔ HoldsModule w directory := by
  rw [Workspace.isFile, HoldsModule]
  cases w.stat (Path.child directory (ascii "go.mod")) <;> simp

/-- The rounds of the search from a directory on, and what they end with. -/
inductive Climb (w : Workspace) : Bytes → Option Bytes → Prop where
  /-- There is a module file. -/
  | found {directory : Bytes} : HoldsModule w directory → Climb w directory (some directory)
  /-- There is none, and the parent is the directory itself. -/
  | top {directory : Bytes} :
      ¬ HoldsModule w directory → Path.parent directory = directory → Climb w directory none
  /-- There is none, and the next round looks in the parent. -/
  | up {directory : Bytes} {result : Option Bytes} :
      ¬ HoldsModule w directory → Path.parent directory ≠ directory →
      Climb w (Path.parent directory) result → Climb w directory result

/-- The directory is the nearest one with a module file. -/
structure Nearest (w : Workspace) (start directory : Bytes) : Prop where
  above : AtOrAbove directory start
  holds : HoldsModule w directory
  between : ∀ m, AtOrAbove m start → AtOrAbove directory m → m ≠ directory → ¬ HoldsModule w m

variable {w : Workspace} {start directory : Bytes} {way : List Bytes}

theorem nearest_clean_iff : Nearest w (Path.clean start) directory ↔ Nearest w start directory := by
  constructor
  · rintro ⟨habove, hholds, hbetween⟩
    exact ⟨Path.atOrAbove_clean_iff.1 habove, hholds, fun m hm =>
      hbetween m (Path.atOrAbove_clean_iff.2 hm)⟩
  · rintro ⟨habove, hholds, hbetween⟩
    exact ⟨Path.atOrAbove_clean_iff.2 habove, hholds, fun m hm =>
      hbetween m (Path.atOrAbove_clean_iff.1 hm)⟩

/-- A directory with a module file is the nearest one to itself. -/
theorem nearest_self_iff (hway : IsWay way) (h : HoldsModule w (ofWay way)) :
    Nearest w (ofWay way) directory ↔ ofWay way = directory := by
  constructor
  · intro hnearest
    by_cases heq : ofWay way = directory
    · exact heq
    · exact absurd h (hnearest.between _ (.refl_ofWay hway) hnearest.above heq)
  · rintro rfl
    refine ⟨.refl_ofWay hway, h, fun m hm hm' hne => ?_⟩
    exact absurd (hm.antisymm_ofWay hway hm') hne

/-- From a directory without a module file, the nearest one is that of its parent. -/
theorem nearest_parent_iff (hway : IsWay way) (h : ¬ HoldsModule w (ofWay way)) :
    Nearest w (ofWay way) directory ↔ Nearest w (Path.parent (ofWay way)) directory := by
  constructor
  · rintro ⟨habove, hholds, hbetween⟩
    refine ⟨?_, hholds, fun m hm => hbetween m ((Path.atOrAbove_iff_parent hway).2 (Or.inr hm))⟩
    rcases (Path.atOrAbove_iff_parent hway).1 habove with rfl | habove
    · exact absurd hholds h
    · exact habove
  · rintro ⟨habove, hholds, hbetween⟩
    refine ⟨(Path.atOrAbove_iff_parent hway).2 (Or.inr habove), hholds, fun m hm hm' hne => ?_⟩
    rcases (Path.atOrAbove_iff_parent hway).1 hm with rfl | hm
    · exact h
    · exact hbetween m hm hm' hne

/-- There is nothing above a directory that is its own parent. -/
theorem eq_root_of_atOrAbove (hway : IsWay way) (hfixed : Path.parent (ofWay way) = ofWay way)
    (h : AtOrAbove directory (ofWay way)) : directory = ofWay way := by
  obtain rfl := (Path.parent_ofWay_eq_self_iff hway).1 hfixed
  obtain ⟨front, hfront, rfl⟩ := (Path.atOrAbove_ofWay_iff hway).1 h
  rw [List.prefix_nil.1 hfront]

/-- What the rounds end with is the nearest directory with a module file. By induction on the
rounds. -/
theorem Climb.nearest {result : Option Bytes} (h : Climb w start result) (hway : IsWay way)
    (hstart : start = ofWay way) (directory : Bytes) :
    result = some directory ↔ Nearest w start directory := by
  induction h generalizing way with
  | found hholds =>
    subst hstart
    rw [nearest_self_iff hway hholds, Option.some_inj]
  | top hnone hfixed =>
    subst hstart
    refine iff_of_false (by simp) fun hnearest => ?_
    -- only the root is at or above the root
    obtain rfl := eq_root_of_atOrAbove hway hfixed hnearest.above
    exact hnone hnearest.holds
  | up hnone _ _ ih =>
    subst hstart
    rw [nearest_parent_iff hway hnone]
    exact ih hway.dropLast (Path.parent_ofWay_eq hway)

/-- The rounds find nothing exactly if there is no module file at the start or above it. -/
theorem Climb.eq_none_iff {result : Option Bytes} (h : Climb w start result) (hway : IsWay way)
    (hstart : start = ofWay way) : result = none ↔ ∀ m, AtOrAbove m start → ¬ HoldsModule w m := by
  induction h generalizing way with
  | found hholds =>
    subst hstart
    exact iff_of_false (by simp) fun hnone => hnone _ (.refl_ofWay hway) hholds
  | top hnone hfixed =>
    subst hstart
    refine iff_of_true rfl fun m hm => ?_
    obtain rfl := eq_root_of_atOrAbove hway hfixed hm
    exact hnone
  | up hnone _ _ ih =>
    subst hstart
    rw [ih hway.dropLast (Path.parent_ofWay_eq hway)]
    simp only [Path.atOrAbove_iff_parent hway, or_imp, forall_and, forall_eq, hnone,
      not_false_eq_true, true_and]

/-- The rounds come to an end, at what is found first on the way up. By induction on the names. -/
theorem climb_upward (w : Workspace) {names : List Bytes} (hnames : IsWay names) :
    Climb w (Path.ofNames names)
      ((Path.upward names).find? fun d => w.isFile (Path.child d (ascii "go.mod"))) := by
  induction names with
  | nil =>
    rw [Path.upward, List.find?_singleton]
    split
    · next hfile => exact .found (isFile_iff_holdsModule.1 hfile)
    · next hfile => exact .top (fun h => hfile (isFile_iff_holdsModule.2 h)) rfl
  | cons name names ih =>
    obtain ⟨hname, hrest⟩ := List.forall_mem_cons.1 hnames
    have hway : IsWay (name :: names).reverse := Path.isWay_reverse.2 hnames
    have hpath : Path.ofNames (name :: names) = ofWay (name :: names).reverse := by simp [ofWay]
    -- the names go up one by one, as the parents do
    have hparent : Path.parent (Path.ofNames (name :: names)) = Path.ofNames names := by
      rw [hpath, Path.parent_ofWay_eq hway]
      simp [ofWay]
    rw [Path.upward, List.find?_cons]
    split
    · next hfile => exact .found (isFile_iff_holdsModule.1 hfile)
    · next hfile =>
      refine .up (fun h => ?_) (fun hfixed => ?_) (hparent ▸ ih hrest)
      · rw [isFile_iff_holdsModule.2 h] at hfile
        cases hfile
      · -- there is a name, so this is not the root
        rw [hpath, Path.parent_ofWay_eq_self_iff hway] at hfixed
        simp at hfixed

/-- **The search for a module comes to an end, with the nearest one.** From every absolute path the
rounds end, and with the answer of the search: the nearest directory at or above the path that holds
a module file, or that there is none up to the root. -/
theorem moduleRoot_nearest (w : Workspace) {start : Bytes} (h : Path.isAbsolute start = true) :
    Climb w (Path.clean start) (moduleRoot w start).toOption ∧
      (∀ directory, moduleRoot w start = .ok directory ↔ Nearest w start directory) ∧
      ∀ e, moduleRoot w start = .error e ↔
        e = .noModule (Path.clean start) ∧ ∀ m, AtOrAbove m start → ¬ HoldsModule w m := by
  have hway : IsWay (Path.names start).reverse := Path.isWay_names h
  have hclean : Path.clean start = ofWay (Path.names start).reverse := Path.clean_eq_ofWay h
  have hclimb := climb_upward w (Path.isWay_reverse.1 hway)
  rw [show Path.ofNames (Path.names start) = Path.clean start by simp [Path.clean, h]] at hclimb
  have habsolute : w.absolute start = .ok (Path.clean start) := by simp [Workspace.absolute, h]
  have hnearest := hclimb.nearest hway hclean
  have hnone := hclimb.eq_none_iff hway hclean
  -- cleaning the start changes nothing above it
  simp only [nearest_clean_iff] at hnearest
  simp only [Path.atOrAbove_clean_iff] at hnone
  simp only [moduleRoot, habsolute, Path.names_clean]
  -- from here on only what the rounds end with matters
  generalize (Path.upward (Path.names start)).find? _ = result at hclimb hnearest hnone ⊢
  refine ⟨?_, fun directory => ?_, fun e => ?_⟩
  · cases result <;> exact hclimb
  · rw [← hnearest directory]
    cases result <;> simp
  · rw [← hnone]
    cases result <;> simp [eq_comm]

/-- A module with a directory in it that is named like a module file. -/
def nestedModule : Workspace :=
  ⟨.directory [(ascii "a", .directory [(ascii "go.mod", .file []), (ascii "b", .directory
    [(ascii "go.mod", .directory [])])])], none⟩

/-- The search starts at a path that is not there and passes by a directory. -/
theorem moduleRoot_nearest_nested :
    moduleRoot nestedModule (ascii "/a/b/../b//c") = .ok (ascii "/a") ∧
      Nearest nestedModule (ascii "/a/b/../b//c") (ascii "/a") ∧
      Climb nestedModule (ascii "/a/b/c") (some (ascii "/a")) := by
  have habs : Path.isAbsolute (ascii "/a/b/../b//c") = true := by decide
  have hclean : Path.clean (ascii "/a/b/../b//c") = ascii "/a/b/c" := by decide +kernel
  have hroot : moduleRoot nestedModule (ascii "/a/b/../b//c") = .ok (ascii "/a") := by
    decide +kernel
  obtain ⟨hclimb, hok, -⟩ := moduleRoot_nearest nestedModule habs
  rw [hclean, hroot] at hclimb
  exact ⟨hroot, (hok _).1 hroot, hclimb⟩

end Search

end DocTree
