import DocTree.Proofs.Files.Search

/-!
# The result of a search is a set of files

A search with patterns succeeds exactly if each of them selects something or nothing, and gives the
tree files that one of them selects, each once and in order (`files_eq_ok_iff`). Only the members of
the list of patterns occur on the right, so neither their order nor their number matters. Whatever
is selected, by a walk, in a directory or by name, is the clean path of a tree file
(`Pattern.cleanTreePath`).
-/

namespace DocTree

/-! ## Clean paths of tree files -/

namespace Search

theorem ne_nil_of_isTreeName {name : Bytes} (h : isTreeName name = true) : name ≠ [] := by
  rintro rfl
  exact absurd h (by decide)

/-- The last part of the path of a tree file is the name of one. -/
theorem exists_parts_of_isTreeName {path : Bytes} (h : isTreeName path = true) :
    ∃ front name, Path.parts path = front ++ [name] ∧ Path.IsName name ∧
      isTreeName name = true := by
  obtain ⟨front, name, hparts⟩ := Path.exists_parts_eq_concat path
  -- the path with a slash in front is made of its parts again
  have hpath : Path.ofWay (front ++ [name]) = [] ++ Path.slash :: path := by
    rw [← hparts, Path.ofWay_eq, Bytes.join, Path.parts, List.intercalate_splitOn, List.nil_append]
  have hname : isTreeName name = true := by
    rw [← isTreeName_ofWay front, hpath, isTreeName_append_slash]
    exact h
  refine ⟨front, name, hparts, ⟨ne_nil_of_isTreeName hname, ?_, ?_, ?_⟩, hname⟩
  · have hmem : name ∈ Path.parts path := by simp [hparts]
    exact Path.slash_notMem_of_mem_parts hmem
  · -- dots alone do not end like a tree file
    rintro rfl
    exact absurd hname (by decide)
  · rintro rfl
    exact absurd hname (by decide)

/-- The clean absolute path of a tree file. -/
structure CleanTreePath (path : Bytes) : Prop where
  /-- The path begins at the root. -/
  absolute : Path.isAbsolute path = true
  /-- Cleaning changes nothing. -/
  clean : Path.clean path = path
  /-- The path ends as the names of tree files do. -/
  ending : isTreeName path = true

theorem cleanTreePath_ofWay {way : List Bytes} (hway : Path.IsWay way)
    (h : isTreeName (Path.ofWay way) = true) : CleanTreePath (Path.ofWay way) :=
  ⟨Path.isAbsolute_ofWay way, Path.clean_ofWay hway, h⟩

/-- Cleaning keeps the ending: the last part stays. -/
theorem cleanTreePath_clean {path : Bytes} (habs : Path.isAbsolute path = true)
    (h : isTreeName path = true) : CleanTreePath (Path.clean path) := by
  obtain ⟨front, name, hparts, hname, htree⟩ := exists_parts_of_isTreeName h
  have hnames : Path.names path = name :: front.foldl (Path.push true) [] := by
    rw [Path.names, habs, hparts, List.foldl_append, List.foldl_cons, List.foldl_nil,
      Path.push_of_isName hname]
  have hway := Path.isWay_names habs
  rw [Path.clean_eq_ofWay habs]
  refine cleanTreePath_ofWay hway ?_
  rw [hnames, List.reverse_cons, isTreeName_ofWay]
  exact htree

/-- The path of a tree file in a directory is clean. -/
theorem cleanTreePath_child {directory name : Bytes} (habs : Path.isAbsolute directory = true)
    (h : isTreeName name = true) : CleanTreePath (Path.child directory name) := by
  rw [Path.child_eq_clean (Path.ne_nil_of_isAbsolute habs) (ne_nil_of_isTreeName h)]
  refine cleanTreePath_clean (Path.isAbsolute_append habs _) ?_
  rw [isTreeName_append_slash]
  exact h

/-- A walk from a clean path gives clean paths, whatever the names on the way are. -/
theorem cleanTreePath_of_mem_below {e : Entry} {path name q : Bytes}
    (habs : Path.isAbsolute path = true) (hpath : isTreeName name = true → CleanTreePath path)
    (hq : q ∈ below path name e) : CleanTreePath q := by
  induction e using Entry.inductionOn generalizing path name with
  | file _ | link _ =>
    rw [below] at hq
    split at hq
    · next hname => exact List.mem_singleton.1 hq ▸ hpath hname
    · cases hq
  | directory entries ih =>
    obtain ⟨x, hx, -, hq⟩ := mem_below_directory.1 hq
    obtain ⟨p, hp, hchild⟩ := Path.exists_child_eq_clean habs x.1
    -- the path stays absolute on the way down
    have habs' : Path.isAbsolute (Path.child path x.1) = true := by
      rw [hchild, Path.isAbsolute_clean, hp]
    exact ih x hx habs' (cleanTreePath_child habs) hq

section

variable {w : Workspace} {directory : Bytes} {found : List Bytes}

theorem cleanTreePath_of_mem_walk {way : List Bytes} (hway : Path.IsWay way)
    (h : walk w (Path.ofWay way) = .ok found) {q : Bytes} (hq : q ∈ found) : CleanTreePath q := by
  obtain ⟨e, -, rfl⟩ := map_eq_ok_iff.1 h
  refine cleanTreePath_of_mem_below (Path.isAbsolute_ofWay way) (fun hname => ?_) hq
  rcases List.eq_nil_or_concat way with rfl | ⟨dir, name, rfl⟩
  · -- the name of the root is a slash
    exact absurd hname (by decide)
  · rw [List.concat_eq_append] at hway hname ⊢
    rw [Path.base_ofWay (Path.isWay_singleton.1 (Path.isWay_append.1 hway).2)] at hname
    exact cleanTreePath_ofWay hway (by rw [isTreeName_ofWay]; exact hname)

theorem cleanTreePath_of_mem_inDirectory {path : Bytes} (habs : Path.isAbsolute path = true)
    (h : inDirectory w path = .ok found) {q : Bytes} (hq : q ∈ found) : CleanTreePath q := by
  obtain ⟨entries, -, rfl⟩ := lookup_of_inDirectory h
  rw [Bytes.mem_sort] at hq
  obtain ⟨name, hname, rfl⟩ := List.mem_map.1 hq
  exact cleanTreePath_child habs (mem_treeNames_iff.1 hname).1

/-- Each kind of pattern selects clean paths of tree files. -/
theorem Pattern.cleanTreePath (hdirectory : Path.isAbsolute directory = true) {pattern : Pattern}
    (h : pattern.files w directory = .ok found) {q : Bytes} (hq : q ∈ found) : CleanTreePath q := by
  cases pattern with
  | blank =>
    obtain rfl := Except.ok.inj h
    cases hq
  | recursive path =>
    obtain ⟨way, hway, habs⟩ := absoluteFrom_eq hdirectory path
    rw [files, mapError_eq_ok_iff, habs] at h
    exact cleanTreePath_of_mem_walk hway h hq
  | single path =>
    obtain ⟨way, hway, habs⟩ := absoluteFrom_eq hdirectory path
    simp only [files, habs] at h
    -- an error, a directory, or anything else that is there
    split at h
    · cases h
    · exact cleanTreePath_of_mem_inDirectory (Path.isAbsolute_ofWay way) (mapError_eq_ok_iff.1 h) hq
    · split at h
      · next hname =>
        obtain rfl := Except.ok.inj h
        obtain rfl := List.mem_singleton.1 hq
        exact cleanTreePath_ofWay hway hname
      · cases h

/-! ## Patterns as a set -/

/-- **What a search gives, by what each pattern selects.** -/
theorem files_eq_ok_iff {patterns : List Bytes} (hne : patterns ≠ []) :
    files w directory patterns = .ok found ↔
      Bytes.Increasing found ∧
        (∀ pattern ∈ patterns, ∃ selected,
          (Pattern.parse pattern).files w directory = .ok selected) ∧
        ∀ path, path ∈ found ↔ ∃ pattern ∈ patterns, ∃ selected,
          (Pattern.parse pattern).files w directory = .ok selected ∧ path ∈ selected := by
  have hforce : patternsInForce patterns = patterns.map Pattern.parse := by
    simp [patternsInForce, hne]
  have hall : (∃ lists, (patternsInForce patterns).mapM (Pattern.files w directory) = .ok lists) ↔
      ∀ pattern ∈ patterns, ∃ selected, (Pattern.parse pattern).files w directory =
        .ok selected := by
    rw [exists_mapM_eq_ok_iff, hforce, List.forall_mem_map]
  -- what is sorted and made unique has the members that the patterns selected
  have hmem : ∀ {lists}, (patternsInForce patterns).mapM (Pattern.files w directory) = .ok lists →
      ∀ path, path ∈ Bytes.sort lists.flatten.eraseDups ↔ ∃ pattern ∈ patterns, ∃ selected,
        (Pattern.parse pattern).files w directory = .ok selected ∧ path ∈ selected := by
    intro lists hlists path
    rw [Bytes.mem_sort, List.mem_eraseDups, List.mem_flatten]
    simp only [mem_of_mapM_eq_ok hlists, hforce, List.mem_map]
    constructor
    · rintro ⟨selected, ⟨_, ⟨pattern, hpattern, rfl⟩, hselected⟩, hpath⟩
      exact ⟨pattern, hpattern, selected, hselected, hpath⟩
    · rintro ⟨pattern, hpattern, selected, hselected, hpath⟩
      exact ⟨selected, ⟨_, ⟨pattern, hpattern, rfl⟩, hselected⟩, hpath⟩
  constructor
  · intro h
    obtain ⟨lists, hlists, hfound⟩ := map_eq_ok_iff.1 h
    refine ⟨increasing_files h, hall.1 ⟨lists, hlists⟩, ?_⟩
    rw [← hfound]
    exact hmem hlists
  · rintro ⟨hincreasing, hselected, hfound⟩
    obtain ⟨lists, hlists⟩ := hall.2 hselected
    refine map_eq_ok_iff.2 ⟨lists, hlists, ?_⟩
    -- two increasing lists with the same members
    refine (Bytes.increasing_sort (Bytes.nodup_eraseDups _)).ext hincreasing fun path => ?_
    rw [hmem hlists, hfound]

theorem files_singleton (pattern : Bytes) :
    files w directory [pattern] =
      ((Pattern.parse pattern).files w directory).map fun selected =>
        Bytes.sort selected.eraseDups := by
  have hmap : patternsInForce [pattern] = [Pattern.parse pattern] := rfl
  rw [files, hmap]
  cases h : (Pattern.parse pattern).files w directory <;>
    simp [h, Except.map, bind, Except.bind, pure, Except.pure]

/-- A pattern yields by itself what it selects, and nothing when it is blank. -/
theorem mem_files_singleton_iff {pattern path : Bytes} :
    (Bytes.trim pattern ≠ [] ∧ ∃ alone, files w directory [pattern] = .ok alone ∧ path ∈ alone) ↔
      ∃ selected, (Pattern.parse pattern).files w directory = .ok selected ∧ path ∈ selected := by
  rw [files_singleton]
  constructor
  · rintro ⟨-, alone, halone, hpath⟩
    obtain ⟨selected, hselected, rfl⟩ := map_eq_ok_iff.1 halone
    exact ⟨selected, hselected, List.mem_eraseDups.1 (Bytes.mem_sort.1 hpath)⟩
  · rintro ⟨selected, hselected, hpath⟩
    refine ⟨fun hblank => ?_, _, map_eq_ok_iff.2 ⟨selected, hselected, rfl⟩,
      Bytes.mem_sort.2 (List.mem_eraseDups.2 hpath)⟩
    -- a blank pattern selects nothing
    have hparse : Pattern.parse pattern = .blank := by simp [Pattern.parse, hblank]
    rw [hparse] at hselected
    obtain rfl := Except.ok.inj hselected
    cases hpath

/-- **The result of a search is a set of files.** It is strictly increasing, its members are clean
absolute paths of tree files, they are what the patterns that are not blank yield one by one, and
every list of the same patterns, in any order and with any repetition, gives the same result. -/
theorem files_selects_set (hdirectory : Path.isAbsolute directory = true) {patterns : List Bytes}
    (hne : patterns ≠ []) (h : files w directory patterns = .ok found) :
    Bytes.Increasing found ∧ (∀ path ∈ found, CleanTreePath path) ∧
      (∀ path, path ∈ found ↔ ∃ pattern ∈ patterns, Bytes.trim pattern ≠ [] ∧
        ∃ alone, files w directory [pattern] = .ok alone ∧ path ∈ alone) ∧
      ∀ patterns', (∀ pattern, pattern ∈ patterns' ↔ pattern ∈ patterns) →
        files w directory patterns' = .ok found := by
  obtain ⟨hincreasing, hselected, hmem⟩ := (files_eq_ok_iff hne).1 h
  refine ⟨hincreasing, fun path hpath => ?_, fun path => ?_, fun patterns' hsame => ?_⟩
  · obtain ⟨pattern, -, selected, hselected, hpath⟩ := (hmem path).1 hpath
    exact Pattern.cleanTreePath hdirectory hselected hpath
  · simp only [hmem, mem_files_singleton_iff]
  · have hne' : patterns' ≠ [] := by
      rintro rfl
      exact hne
        (List.eq_nil_iff_forall_not_mem.2 fun pattern hpattern => by
          simpa using (hsame pattern).2 hpattern)
    -- the conditions speak of the members alone
    rw [files_eq_ok_iff hne']
    simp only [hsame]
    exact ⟨hincreasing, hselected, hmem⟩

end

/-- The entries of a directory with a page, a link to another page, a directory of pages and a
vendor directory. -/
def siteEntries : List (Bytes × Entry) :=
  [(ascii "index.hast.json", .file []),
   (ascii "latest.hast.json", .link (ascii "pages/about.hast.json")),
   (ascii "pages", .directory [(ascii "about.hast.json", .file []), (ascii "notes.txt", .file [])]),
   (ascii "vendor", .directory [(ascii "lib.hast.json", .file [])])]

def linkedSite : Workspace := ⟨.directory [(ascii "site", .directory siteEntries)], none⟩

/-- A recursive pattern, blanks, directories with a slash and without, and a page in another
spelling. -/
def sitePatterns : List Bytes :=
  [ascii "./...", ascii " ", ascii "pages/", ascii "vendor",
    ascii "/site/../site//./pages/about.hast.json"]

def sitePaths : List Bytes :=
  [ascii "/site/index.hast.json", ascii "/site/latest.hast.json",
    ascii "/site/pages/about.hast.json", ascii "/site/vendor/lib.hast.json"]

/-- The link is given, the vendor directory is passed over. -/
theorem walk_linkedSite : walk linkedSite (ascii "/site") =
    .ok
      [ascii "/site/index.hast.json", ascii "/site/latest.hast.json",
        ascii "/site/pages/about.hast.json"] := by
  have hsite : linkedSite.lstat (ascii "/site") = .ok (.directory siteEntries) := rfl
  rw [walk, hsite]
  simp only [Except.map, siteEntries, below, belowEach, inNameOrder, Entry.isDirectory]
  -- the entries stand in the order of their names
  rw [List.mergeSort_of_pairwise (by decide +kernel),
    List.mergeSort_of_pairwise (by decide +kernel)]
  decide +kernel

theorem files_linkedSite : files linkedSite (ascii "/site") sitePatterns = .ok sitePaths := by
  have hpages : inDirectory linkedSite (ascii "/site/pages") =
      .ok [ascii "/site/pages/about.hast.json"] :=
    congrArg Except.ok (List.mergeSort_singleton _)
  have hvendor : inDirectory linkedSite (ascii "/site/vendor") =
      .ok [ascii "/site/vendor/lib.hast.json"] :=
    congrArg Except.ok (List.mergeSort_singleton _)
  have hfound : (patternsInForce sitePatterns).mapM (Pattern.files linkedSite (ascii "/site")) =
      .ok
        [[ascii "/site/index.hast.json", ascii "/site/latest.hast.json",
          ascii "/site/pages/about.hast.json"], [],
        [ascii "/site/pages/about.hast.json"], [ascii "/site/vendor/lib.hast.json"],
        [ascii "/site/pages/about.hast.json"]] := by
    refine mapM_cons_eq_ok_iff.2
      ⟨_, _, congrArg (Except.mapError SearchError.file) walk_linkedSite, ?_, rfl⟩
    refine mapM_cons_eq_ok_iff.2 ⟨_, _, rfl, ?_, rfl⟩
    refine mapM_cons_eq_ok_iff.2 ⟨_, _, congrArg (Except.mapError SearchError.file) hpages, ?_, rfl⟩
    refine mapM_cons_eq_ok_iff.2
      ⟨_, _, congrArg (Except.mapError SearchError.file) hvendor, ?_, rfl⟩
    decide +kernel
  rw [files, map_eq_ok_iff]
  exact ⟨_, hfound, Bytes.sort_eq_of_perm (by decide +kernel) (by decide +kernel)⟩

/-- The patterns backwards and then forwards again; the file of a vendor directory that is named
itself. -/
theorem files_selects_set_linked :
    files linkedSite (ascii "/site") sitePatterns = .ok sitePaths ∧ Bytes.Increasing sitePaths ∧
      (∀ path ∈ sitePaths, CleanTreePath path) ∧
      (∃ pattern ∈ sitePatterns, Bytes.trim pattern ≠ [] ∧ ∃ alone,
        files linkedSite (ascii "/site") [pattern] = .ok alone ∧
          ascii "/site/vendor/lib.hast.json" ∈ alone) ∧
      files linkedSite (ascii "/site") (sitePatterns.reverse ++ sitePatterns) = .ok sitePaths := by
  obtain ⟨hincreasing, hclean, hmem, hset⟩ :=
    files_selects_set (by decide) (by decide) files_linkedSite
  exact ⟨files_linkedSite, hincreasing, hclean, (hmem _).1 (by decide), hset _ (by simp)⟩

end Search

end DocTree
