import DocTree.Proofs.Files.Selection
import Mathlib.Tactic.Choose

/-!
# Patterns that begin at the root

A pattern that begins at the root selects the same files wherever it is used from
(`Pattern.files_eq_of_isAbsolute`), with one exception: of `/...` nothing is left when its ending is
cut off, and nothing stands for the directory that the pattern is used from.

That it is the only one takes a workspace in which the other patterns do not matter. `gridSite` has
every directory that they lead to and no files, so that they select nothing, and `/...` fails where
the directory that it is used from is missing.
-/

namespace DocTree

theorem Bytes.eq_append_of_before? {s ending front : Bytes}
    (h : Bytes.before? s ending = some front) : s = front ++ ending := by
  unfold Bytes.before? at h
  split at h
  · next hends =>
    obtain ⟨stem, rfl⟩ := List.isSuffixOf_iff_suffix.1 hends
    have hstem : stem = front := by simpa using h
    rw [hstem]
  · cases h

namespace Search

/-! ## Patterns named from the root -/

namespace Pattern

/-- What the pattern selects is named from the root. -/
def IsAbsolute : Pattern → Prop
  | .blank => True
  | .recursive path => Path.isAbsolute path = true
  | .single path => Path.isAbsolute path = true

/-- Such a pattern selects the same files wherever it is used from. -/
theorem files_eq_of_isAbsolute {pattern : Pattern} (h : pattern.IsAbsolute) (w : Workspace)
    (c c' : Bytes) : pattern.files w c = pattern.files w c' := by
  have hfrom : ∀ path, Path.isAbsolute path = true →
      absoluteFrom w c path = absoluteFrom w c' path := by
    intro path hpath
    rw [absoluteFrom, absoluteFrom, if_pos hpath, if_pos hpath]
  cases pattern with
  | blank => rfl
  | recursive path => rw [files, files, hfrom path h]
  | single path => rw [files, files, hfrom path h]

/-- The text of a pattern that begins at the root means one that is named from there, but for
`/...`. -/
theorem isAbsolute_parse {text : Bytes} (habs : Path.isAbsolute (Bytes.trim text) = true)
    (hne : Bytes.trim text ≠ ascii "/...") : (parse text).IsAbsolute := by
  have hnil : ¬ (Bytes.trim text).isEmpty = true := by simpa using Path.ne_nil_of_isAbsolute habs
  have hdots : ¬ (Bytes.trim text == ascii "...") = true := by
    intro heq
    rw [eq_of_beq heq] at habs
    exact absurd habs (by decide)
  unfold parse
  simp only [if_neg hnil, if_neg hdots]
  split
  · next base hbase =>
    have htext := Bytes.eq_append_of_before? hbase
    -- the base is empty for `/...` alone
    have hsome : base ≠ [] := by
      rintro rfl
      exact hne htext
    rw [htext, Path.isAbsolute_append_of_ne_nil hsome] at habs
    rw [if_neg (by simpa using hsome)]
    exact habs
  · exact habs

/-- Of `/...` nothing is left, as of `...`. -/
theorem parse_eq_recursive_dot {text : Bytes} (h : Bytes.trim text = ascii "/...") :
    parse text = .recursive Path.dot := by
  unfold parse
  simp only [h]
  rfl

end Pattern

/-! ## Directories without files -/

/-- Directories with the same names in each of them, to a depth. -/
def gridEntries (names : List Bytes) : Nat → List (Bytes × Entry)
  | 0 => []
  | n + 1 => names.map fun name => (name, .directory (gridEntries names n))

/-- The grid as a workspace. -/
def gridSite (names : List Bytes) (n : Nat) : Workspace := ⟨.directory (gridEntries names n), none⟩

section

variable {names way : List Bytes} {n : Nat}

theorem lookup_map_const (e : Entry) (name : Bytes) :
    (names.map fun m => (m, e)).lookup name = if name ∈ names then some e else none := by
  induction names with
  | nil => rfl
  | cons m names ih =>
    rw [List.map_cons, List.lookup_cons, ih]
    by_cases hm : name = m
    · simp [hm]
    · simp [hm, beq_eq_false_iff_ne.2 hm]

/-- Every way through the names leads to a directory. -/
theorem at?_grid (hway : ∀ name ∈ way, name ∈ names) (hlength : way.length ≤ n) :
    (Entry.directory (gridEntries names n)).at? way =
      some (.directory (gridEntries names (n - way.length))) := by
  induction way generalizing n with
  | nil => rfl
  | cons name way ih =>
    obtain ⟨hname, hway⟩ := List.forall_mem_cons.1 hway
    cases n with
    | zero => simp at hlength
    | succ n =>
      rw [List.length_cons] at hlength
      rw [Entry.at?, gridEntries, lookup_map_const, if_pos hname, Option.bind_some,
        ih hway (by omega), List.length_cons, Nat.add_sub_add_right]

/-- Deeper than the grid there is nothing. -/
theorem at?_grid_of_lt (hlength : n < way.length) :
    (Entry.directory (gridEntries names n)).at? way = none := by
  induction way generalizing n with
  | nil => simp at hlength
  | cons name way ih =>
    cases n with
    | zero => rfl
    | succ n =>
      rw [List.length_cons] at hlength
      rw [Entry.at?, gridEntries, lookup_map_const]
      split
      · exact ih (by omega)
      · rfl

theorem plain_grid (hnodup : names.Nodup) (hnames : Path.IsWay names) (n : Nat) :
    (Entry.directory (gridEntries names n)).Plain := by
  induction n with
  | zero => exact .directory .nil (by simp [gridEntries]) (by simp [gridEntries])
  | succ n ih =>
    refine .directory ?_ ?_ ?_
    · simpa [gridEntries, Function.comp_def] using hnodup
    · simpa [gridEntries, Path.IsWay] using hnames
    · simp [gridEntries, ih]

theorem plain_gridSite (hnodup : names.Nodup) (hnames : Path.IsWay names) (n : Nat) :
    (gridSite names n).Plain where
  root := ⟨_, rfl⟩
  tree := plain_grid hnodup hnames n
  cwd := by simp [gridSite]

/-- A walk through directories alone gives nothing. -/
theorem below_grid (path name : Bytes) (names : List Bytes) (n : Nat) :
    below path name (.directory (gridEntries names n)) = [] := by
  refine List.eq_nil_iff_forall_not_mem.2 fun q hq => ?_
  induction n generalizing path name with
  | zero =>
    obtain ⟨x, hx, -⟩ := mem_below_directory.1 hq
    simp [gridEntries] at hx
  | succ n ih =>
    obtain ⟨x, hx, -, hq⟩ := mem_below_directory.1 hq
    obtain ⟨m, -, rfl⟩ := List.mem_map.1 hx
    exact ih _ _ hq

theorem treeNames_grid (names : List Bytes) (n : Nat) : treeNames (gridEntries names n) = [] := by
  cases n with
  | zero => rfl
  | succ n => simp [treeNames, gridEntries, Entry.isDirectory, List.filter_map, Function.comp_def]

/-- A pattern leads to some way of names, and selects nothing where there are only directories. -/
theorem Pattern.exists_way {directory : Bytes} (hdirectory : Path.isAbsolute directory = true)
    (pattern : Pattern) : ∃ way, Path.IsWay way ∧ ∀ w : Workspace, w.Plain → ∀ names n,
      w.tree.at? way = some (.directory (gridEntries names n)) →
        pattern.files w directory = .ok [] := by
  cases pattern with
  | blank => exact ⟨[], .nil, fun _ _ _ _ _ => rfl⟩
  | recursive path =>
    obtain ⟨way, hway, habs⟩ := absoluteFrom_eq hdirectory path
    refine ⟨way, hway, fun w hw names n hat => ?_⟩
    -- a walk through directories gives nothing
    have hwalk : walk w (Path.ofWay way) = .ok [] := by
      rw [walk, Workspace.lstat, Workspace.lookup_eq_ok_iff.2 ⟨_, hw.locate_of_at? hat false⟩]
      exact congrArg Except.ok (below_grid _ _ names n)
    rw [files, habs]
    exact congrArg (Except.mapError SearchError.file) hwalk
  | single path =>
    obtain ⟨way, hway, habs⟩ := absoluteFrom_eq hdirectory path
    refine ⟨way, hway, fun w hw names n hat => ?_⟩
    have hlookup := Workspace.lookup_eq_ok_iff.2 ⟨_, hw.locate_of_at? hat true⟩
    have hstat : w.stat (Path.ofWay way) = .ok (.directory (gridEntries names n)) := by
      rw [Workspace.stat, hlookup]
      rfl
    -- no entry of the directory is a file
    have hlisted : inDirectory w (Path.ofWay way) = .ok [] := by
      simp only [inDirectory, Workspace.list, hlookup, Except.map, treeNames_grid, List.map_nil]
      exact congrArg Except.ok List.mergeSort_nil
    simp only [files, habs, hstat, hlisted]
    rfl

end

/-! ## Searches -/

/-- A recursive pattern without a base looks where the search is made from. -/
theorem names_absoluteFrom_dot {w : Workspace} {directory : Bytes}
    (h : Path.isAbsolute directory = true) : ∃ path, absoluteFrom w directory Path.dot = .ok path ∧
      Path.isAbsolute path = true ∧ Path.names path = Path.names directory := by
  have hne := Path.ne_nil_of_isAbsolute h
  have habs : Path.isAbsolute (directory ++ Path.slash :: Path.dot) = true :=
    Path.isAbsolute_append h _
  have hchild : Path.child directory Path.dot = Path.clean (directory ++ Path.slash :: Path.dot) :=
    Path.child_eq_clean hne (by decide)
  refine ⟨Path.clean (directory ++ Path.slash :: Path.dot), ?_, ?_, ?_⟩
  · rw [absoluteFrom, if_neg (by decide), hchild, Workspace.absolute, Path.isAbsolute_clean,
      if_pos habs, Path.clean_clean]
  · rw [Path.isAbsolute_clean, habs]
  · rw [Path.names_clean, Path.names, habs, Path.parts_append_slash, List.foldl_append,
      Path.names, h]
    rfl

/-- For all patterns there are directories without files in which they select nothing. -/
theorem exists_files_grid {patterns : List Bytes} (hne : patterns ≠ []) {directory : Bytes}
    (hdirectory : Path.isAbsolute directory = true) : ∃ names n, (gridSite names n).Plain ∧
      files (gridSite names n) directory patterns = .ok [] := by
  choose way hway hnothing using fun text => Pattern.exists_way hdirectory (Pattern.parse text)
  -- the names that any of them leads through, in directories as deep as there are names
  let names := patterns.flatMap way
  have hplain : (gridSite names.eraseDups names.length).Plain := by
    refine plain_gridSite (Bytes.nodup_eraseDups names) (fun name hname => ?_) _
    obtain ⟨text, -, hname⟩ := List.mem_flatMap.1 (List.mem_eraseDups.1 hname)
    exact hway text name hname
  have hselected : ∀ text ∈ patterns,
      (Pattern.parse text).files (gridSite names.eraseDups names.length) directory = .ok [] := by
    intro text htext
    have hnames : ∀ name ∈ way text, name ∈ names.eraseDups :=
      fun name hname => List.mem_eraseDups.2 (List.mem_flatMap.2 ⟨text, htext, hname⟩)
    have hlength : (way text).length ≤ names.length :=
      (List.sublist_flatten_of_mem (List.mem_map_of_mem htext)).length_le
    exact hnothing text _ hplain _ _ (at?_grid hnames hlength)
  refine ⟨names.eraseDups, names.length, hplain, ?_⟩
  refine (files_eq_ok_iff hne).2
    ⟨.nil, fun text htext => ⟨[], hselected text htext⟩, fun path => ?_⟩
  refine iff_of_false (by simp) ?_
  rintro ⟨text, htext, selected, hfiles, hpath⟩
  obtain rfl := Except.ok.inj ((hselected text htext).symm.trans hfiles)
  cases hpath

/-- With `/...` among the patterns a search fails that is made from a directory that is not
there. -/
theorem files_ne_ok {w : Workspace} {way : List Bytes} (hw : w.Plain) (hway : Path.IsWay way)
    (hnone : w.tree.at? way = none) {patterns : List Bytes} {pattern : Bytes}
    (hmem : pattern ∈ patterns) (hroot : Bytes.trim pattern = ascii "/...") (found : List Bytes) :
    files w (Path.ofWay way) patterns ≠ .ok found := by
  intro hok
  obtain ⟨-, hselected, -⟩ := (files_eq_ok_iff (List.ne_nil_of_mem hmem)).1 hok
  obtain ⟨selected, hfiles⟩ := hselected pattern hmem
  -- the pattern looks in the directory of the search, which is missing
  obtain ⟨path, hpath, habs, hnames⟩ := names_absoluteFrom_dot (Path.isAbsolute_ofWay way)
  rw [Pattern.parse_eq_recursive_dot hroot, Pattern.files, mapError_eq_ok_iff, hpath] at hfiles
  obtain ⟨e, hlookup⟩ := lookup_of_walk hfiles
  have hat := hw.at?_of_lookup habs hlookup
  rw [hnames, Path.names_ofWay hway, List.reverse_reverse, hnone] at hat
  cases hat

/-- With `/...` among the patterns there are a workspace and two directories from which the search
ends differently. -/
theorem exists_files_ne {patterns : List Bytes} {pattern : Bytes} (hmem : pattern ∈ patterns)
    (hroot : Bytes.trim pattern = ascii "/...") : ∃ (w : Workspace) (c c' : Bytes),
      Path.isAbsolute c = true ∧ Path.isAbsolute c' = true ∧
        files w c patterns ≠ files w c' patterns := by
  have hslash : Path.isAbsolute (ascii "/") = true := by decide
  obtain ⟨names, n, hplain, hok⟩ := exists_files_grid (List.ne_nil_of_mem hmem) hslash
  -- one level further down there is nothing
  have hdeep : Path.IsWay (List.replicate (n + 1) (ascii "x")) := by
    intro name hname
    rw [List.eq_of_mem_replicate hname]
    decide
  have hnone : (gridSite names n).tree.at? (List.replicate (n + 1) (ascii "x")) = none :=
    at?_grid_of_lt (by simp)
  refine ⟨gridSite names n, Path.ofWay (List.replicate (n + 1) (ascii "x")), ascii "/",
    Path.isAbsolute_ofWay _, hslash, ?_⟩
  rw [hok]
  exact files_ne_ok hplain hdeep hnone hmem hroot []

/-- **Patterns that begin at the root give the same everywhere, if none of them is `/...`**, and
only then: with it, the result depends on the directory that the search is made from. -/
theorem files_everywhere_iff {patterns : List Bytes} (hne : patterns ≠ [])
    (habs : ∀ pattern ∈ patterns, Path.isAbsolute (Bytes.trim pattern) = true) :
    (∀ (w : Workspace) (c c' : Bytes), Path.isAbsolute c = true → Path.isAbsolute c' = true →
      files w c patterns = files w c' patterns) ↔
        ∀ pattern ∈ patterns, Bytes.trim pattern ≠ ascii "/..." := by
  constructor
  · intro h pattern hmem hroot
    obtain ⟨w, c, c', hc, hc', hdiffer⟩ := exists_files_ne hmem hroot
    exact hdiffer (h w c c' hc hc')
  · intro h w c c' _ _
    -- each pattern is named from the root
    have hforce : patternsInForce patterns = patterns.map Pattern.parse := by
      simp [patternsInForce, hne]
    have hsame : ∀ pattern ∈ patternsInForce patterns, pattern.files w c = pattern.files w c' := by
      intro pattern hmem
      rw [hforce] at hmem
      obtain ⟨text, htext, rfl⟩ := List.mem_map.1 hmem
      exact Pattern.files_eq_of_isAbsolute
        (Pattern.isAbsolute_parse (habs text htext) (h text htext)) w c c'
    rw [files, files, mapM_congr hsame]

/-- `//...`, of which a slash is left when its ending is cut off, is no exception. -/
theorem files_everywhere_iff_spellings :
    (∀ pattern ∈ [ascii "//...", ascii " /a/... ", ascii "/b/../a"],
      Path.isAbsolute (Bytes.trim pattern) = true) ∧
    ∀ (w : Workspace) (c c' : Bytes), Path.isAbsolute c = true → Path.isAbsolute c' = true →
      files w c [ascii "//...", ascii " /a/... ", ascii "/b/../a"] =
        files w c' [ascii "//...", ascii " /a/... ", ascii "/b/../a"] :=
  ⟨by decide, (files_everywhere_iff (by decide) (by decide)).2 (by decide)⟩

/-- A directory with one tree file, and one without any. -/
def twoSites : Workspace :=
  ⟨.directory
    [(ascii "a", .directory [(ascii "x.hast.json", .file [])]), (ascii "b", .directory [])], none⟩

/-- What `/...` selects from the one is not what it selects from the other. -/
theorem files_root_recursive_differ : Path.isAbsolute (Bytes.trim (ascii "/...")) = true ∧
    files twoSites (ascii "/a") [ascii "/..."] = .ok [ascii "/a/x.hast.json"] ∧
    files twoSites (ascii "/b") [ascii "/..."] = .ok [] := by
  have hfiles : ∀ c found, absoluteFrom twoSites c Path.dot = .ok c → walk twoSites c = .ok found →
      files twoSites c [ascii "/..."] = .ok (Bytes.sort found.eraseDups) := by
    intro c found hc hwalk
    have hfound : Pattern.files twoSites c (.recursive Path.dot) = .ok found := by
      rw [Pattern.files, hc]
      exact mapError_eq_ok_iff.2 hwalk
    have hmapM : (patternsInForce [ascii "/..."]).mapM (Pattern.files twoSites c) = .ok [found] :=
      mapM_cons_eq_ok_iff.2 ⟨found, [], hfound, rfl, rfl⟩
    simp [files, hmapM, Except.map]
  have ha : walk twoSites (ascii "/a") = .ok [ascii "/a/x.hast.json"] := by
    have hstat : twoSites.lstat (ascii "/a") = .ok (.directory [(ascii "x.hast.json", .file [])]) :=
      rfl
    rw [walk, hstat]
    simp only [Except.map, below, belowEach, inNameOrder, Entry.isDirectory,
      List.mergeSort_singleton]
    decide +kernel
  have hb : walk twoSites (ascii "/b") = .ok [] := by
    have hstat : twoSites.lstat (ascii "/b") = .ok (.directory []) := rfl
    rw [walk, hstat]
    simp only [Except.map, below, belowEach, inNameOrder, List.mergeSort_nil, List.flatMap_nil]
  refine ⟨by decide, ?_, ?_⟩
  · rw [hfiles _ _ (by decide +kernel) ha]
    exact congrArg Except.ok (Bytes.sort_eq_of_perm (by decide +kernel) (by decide +kernel))
  · rw [hfiles _ _ (by decide +kernel) hb]
    exact congrArg Except.ok (Bytes.sort_eq_of_perm (by decide +kernel) (by decide +kernel))

end Search

end DocTree
