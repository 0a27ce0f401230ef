import DocTree.Files.Search
import DocTree.Proofs.Files.Workspace
import DocTree.Proofs.Result
import DocTree.Proofs.Text.Order

/-!
# What a search finds

A pattern covers certain places, whatever stands there, and a search for it gives the tree files
among them (`Lists`). Writing a file under another name than that of a tree file leaves a workspace
in which the same tree files are found (`Alike`, `Finds`): module files have such names.
-/

namespace DocTree

/-! ## Names of module files -/

theorem Bytes.before?_append (s ending : Bytes) : Bytes.before? (s ++ ending) ending = some s := by
  have hends : Bytes.endsWith (s ++ ending) ending = true := by
    rw [Bytes.endsWith, List.isSuffixOf_iff_suffix]
    exact List.suffix_append s ending
  simp [Bytes.before?, hends]

namespace Search

theorem isTreeName_iff {name : Bytes} : isTreeName name = true ↔ ∃ stem, name = stem ++ suffix := by
  rw [isTreeName, Bytes.endsWith, List.isSuffixOf_iff_suffix]
  exact ⟨fun ⟨stem, h⟩ => ⟨stem, h.symm⟩, fun ⟨stem, h⟩ => ⟨stem, h.symm⟩⟩

/-- What stands behind a slash decides: the ending holds none. -/
theorem isTreeName_append_slash (front name : Bytes) :
    isTreeName (front ++ Path.slash :: name) = isTreeName name := by
  have hslash : Path.slash ∉ suffix := by decide
  rw [Bool.eq_iff_iff, isTreeName, isTreeName, Bytes.endsWith, Bytes.endsWith,
    List.isSuffixOf_iff_suffix, List.isSuffixOf_iff_suffix]
  constructor
  · intro h
    -- the ending is an ending of the name, or the name with its slash is one of the ending
    rcases List.suffix_or_suffix_of_suffix h (List.suffix_append _ (Path.slash :: name)) with h | h
    · rcases List.suffix_cons_iff.1 h with heq | h
      · rw [heq] at hslash
        exact absurd List.mem_cons_self hslash
      · exact h
    · exact absurd (h.subset List.mem_cons_self) hslash
  · intro h
    exact (h.trans (List.suffix_cons _ _)).trans (List.suffix_append _ _)

/-- The last name of a way decides. -/
theorem isTreeName_ofWay (dir : List Bytes) (name : Bytes) :
    isTreeName (Path.ofWay (dir ++ [name])) = isTreeName name := by
  rw [Path.ofWay_concat, isTreeName_append_slash]

end Search

namespace Output

open Search (isTreeName isTreeName_iff suffix)

variable {name : Bytes}

/-- A module file has the name of the tree file with another ending. -/
theorem path_append_suffix (stem : Bytes) : path (stem ++ suffix) = stem ++ ascii ".jsx" := by
  rw [path, suffix, Bytes.before?_append]
  rfl

/-- The module file stands beside the tree file. -/
theorem path_ofWay (h : isTreeName name = true) (dir : List Bytes) :
    path (Path.ofWay (dir ++ [name])) = Path.ofWay (dir ++ [path name]) := by
  obtain ⟨stem, rfl⟩ := isTreeName_iff.1 h
  rw [path_append_suffix, Path.ofWay_concat, Path.ofWay_concat, ← List.cons_append,
    ← List.append_assoc, path_append_suffix, List.append_assoc, List.cons_append]

theorem isName_path (h : isTreeName name = true) (hname : Path.IsName name) :
    Path.IsName (path name) := by
  obtain ⟨stem, rfl⟩ := isTreeName_iff.1 h
  rw [path_append_suffix]
  -- neither empty nor made of dots: the ending alone is longer
  have hlength : 2 < (stem ++ ascii ".jsx").length := by
    rw [List.length_append, show (ascii ".jsx").length = 4 from rfl]
    omega
  refine ⟨fun heq => ?_, fun hmem => ?_, fun heq => ?_, fun heq => ?_⟩
  · rw [heq] at hlength
    exact absurd hlength (by decide)
  · rcases List.mem_append.1 hmem with hstem | hend
    · exact hname.slash_notMem (List.mem_append_left _ hstem)
    · exact absurd hend (by decide)
  · rw [heq] at hlength
    exact absurd hlength (by decide)
  · rw [heq] at hlength
    exact absurd hlength (by decide)

/-- A module file is no tree file. -/
theorem isTreeName_path (h : isTreeName name = true) : isTreeName (path name) = false := by
  obtain ⟨stem, rfl⟩ := isTreeName_iff.1 h
  rw [path_append_suffix, Bool.eq_false_iff]
  intro htree
  obtain ⟨other, heq⟩ := isTreeName_iff.1 htree
  -- the last bytes differ
  have hlast := congrArg List.getLast? heq
  rw [List.getLast?_append_of_ne_nil _ (by decide),
    List.getLast?_append_of_ne_nil _ (by decide)] at hlast
  exact absurd hlast (by decide)

/-- Different tree files have different module files. -/
theorem path_injective {name' : Bytes} (h : isTreeName name = true) (h' : isTreeName name' = true)
    (heq : path name = path name') : name = name' := by
  obtain ⟨stem, rfl⟩ := isTreeName_iff.1 h
  obtain ⟨stem', rfl⟩ := isTreeName_iff.1 h'
  rw [path_append_suffix, path_append_suffix] at heq
  rw [List.append_cancel_right heq]

end Output

namespace Search

/-! ## Workspaces with the same tree files -/

/-- The second workspace is the first one with some files written that are not tree files. -/
structure Alike (w w' : Workspace) : Prop where
  plain : w.Plain
  plain' : w'.Plain
  cwd : w'.cwd = w.cwd
  view : ∀ dir name, w'.view (dir ++ [name]) = w.view (dir ++ [name]) ∨
    isTreeName name = false ∧ w.view (dir ++ [name]) ≠ .directory ∧
      ∃ content, w'.view (dir ++ [name]) = .file content

namespace Alike

variable {w w' w'' : Workspace}

theorem refl (h : w.Plain) : Alike w w := ⟨h, h, rfl, fun _ _ => Or.inl rfl⟩

theorem trans (h : Alike w w') (h' : Alike w' w'') : Alike w w'' where
  plain := h.plain
  plain' := h'.plain'
  cwd := h'.cwd.trans h.cwd
  view dir name := by
    -- what the second step writes covers what the first one did
    rcases h'.view dir name with heq' | ⟨hname, hdir', hfile'⟩
    · rw [heq']
      exact h.view dir name
    · rcases h.view dir name with heq | ⟨-, hdir, -⟩
      · exact Or.inr ⟨hname, heq ▸ hdir', hfile'⟩
      · exact Or.inr ⟨hname, hdir, hfile'⟩

/-- One file is written that is not a tree file. -/
theorem withFile (hw : w.Plain) {dir : List Bytes} {entries : List (Bytes × Entry)}
    (hdir : w.tree.at? dir = some (.directory entries)) {name : Bytes} (hname : Path.IsName name)
    (htree : isTreeName name = false) (hview : w.view (dir ++ [name]) ≠ .directory)
    (content : Bytes) : Alike w (w.withFile (dir ++ [name]) content) where
  plain := hw
  plain' := hw.withFile hdir hname
  cwd := rfl
  view dir' name' := by
    -- only the file that is written is seen to change
    by_cases heq : dir' ++ [name'] = dir ++ [name]
    · obtain ⟨rfl, hnames⟩ := List.append_inj' heq rfl
      obtain rfl := List.singleton_inj.1 hnames
      exact Or.inr ⟨htree, hview, content, Workspace.view_withFile_self hdir⟩
    · exact Or.inl (Workspace.view_withFile_of_ne hdir hview heq)

/-- Tree files are as they were. -/
theorem view_of_isTreeName (h : Alike w w') {name : Bytes} (hname : isTreeName name = true)
    (dir : List Bytes) : w'.view (dir ++ [name]) = w.view (dir ++ [name]) := by
  rcases h.view dir name with heq | ⟨hother, -⟩
  · exact heq
  · rw [hname] at hother
    cases hother

theorem view_eq_directory (h : Alike w w') {way : List Bytes} (hway : w.view way = .directory) :
    w'.view way = .directory := by
  rcases List.eq_nil_or_concat way with rfl | ⟨dir, name, rfl⟩
  · exact Entry.view_eq_directory_iff.2 h.plain'.at?_nil
  · rw [List.concat_eq_append] at hway ⊢
    rcases h.view dir name with heq | ⟨-, hdir, -⟩
    · rw [heq, hway]
    · exact absurd hway hdir

/-- What was there is there. -/
theorem view_ne_absent (h : Alike w w') {way : List Bytes} (hway : w.view way ≠ .absent) :
    w'.view way ≠ .absent := by
  rcases List.eq_nil_or_concat way with rfl | ⟨dir, name, rfl⟩
  · obtain ⟨entries, hroot⟩ := h.plain'.at?_nil
    simp [Workspace.view, hroot, Entry.view]
  · rw [List.concat_eq_append] at hway ⊢
    rcases h.view dir name with heq | ⟨-, -, content, hfile⟩
    · rwa [heq]
    · simp [hfile]

/-- What a path leads to, it still leads to. -/
theorem lookup (h : Alike w w') {path : Bytes} (habs : Path.isAbsolute path = true)
    {followLast : Bool} {e : Entry} (hlookup : w.lookup followLast path = .ok e) :
    ∃ e', w'.lookup followLast path = .ok e' := by
  have hat := h.plain.at?_of_lookup habs hlookup
  have hway : ∀ w : Workspace, w.way? path = some (Path.parts path) := by
    intro w
    simp [Workspace.way?, habs, Path.ne_nil_of_isAbsolute habs]
  simp only [Workspace.lookup, Workspace.locate, hway] at hlookup ⊢
  rcases hresolve : w.tree.resolve followLast Entry.maxLinks [] (Path.parts path)
    with reason | ⟨place, x⟩
  · rw [hresolve] at hlookup
    cases hlookup
  · rw [hresolve] at hlookup
    obtain ⟨hplace, rfl⟩ := Entry.place_of_resolve h.plain.tree .nil
      (fun part => Path.slash_notMem_of_mem_parts) hresolve
    rw [List.reverse_nil] at hplace
    rw [Entry.resolve_of_directories h.plain.tree h.plain'.tree
      (fun way => h.view_eq_directory) hresolve]
    -- something stood there, so something stands there
    have hpresent : w'.view place ≠ .absent := by
      apply h.view_ne_absent
      rw [Path.names, habs, ← hplace] at hat
      rw [Workspace.view, hat]
      cases e <;> simp [Entry.view]
    cases hat' : w'.tree.at? place with
    | none => exact absurd (by rw [Workspace.view, hat']; rfl) hpresent
    | some e' => exact ⟨e', rfl⟩

end Alike

/-! ## Lists of tree files -/

/-- There is a tree file with a name in a directory. -/
def IsTreeFile (w : Workspace) (dir : List Bytes) (name : Bytes) : Prop :=
  isTreeName name = true ∧ ∃ content, w.view (dir ++ [name]) = .file content

/-- The list holds the tree files at the places that are covered. -/
def Lists (w : Workspace) (covers : List Bytes → Bytes → Prop) (found : List Bytes) : Prop :=
  ∀ path, path ∈ found ↔
    ∃ dir name, path = Path.ofWay (dir ++ [name]) ∧ IsTreeFile w dir name ∧ covers dir name

/-- A search succeeds in a workspace and in all that are alike, and covers the same places there. -/
def Finds {ε : Type} (w : Workspace) (search : Workspace → Except ε (List Bytes)) : Prop :=
  ∃ covers, ∀ w', Alike w w' → ∃ found, search w' = .ok found ∧ Lists w' covers found

/-- Alike workspaces have the same tree files. -/
theorem Alike.isTreeFile_iff {w w' : Workspace} (h : Alike w w') {dir : List Bytes} {name : Bytes} :
    IsTreeFile w' dir name ↔ IsTreeFile w dir name := by
  refine and_congr_right fun hname => ?_
  rw [h.view_of_isTreeName hname]

/-- The same paths are found in alike workspaces. -/
theorem Finds.mem_iff {ε : Type} {w w' : Workspace} {search : Workspace → Except ε (List Bytes)}
    (h : Finds w search) (hw : Alike w w') {found : List Bytes} (hfound : search w = .ok found) :
    ∃ found', search w' = .ok found' ∧ ∀ path, path ∈ found' ↔ path ∈ found := by
  obtain ⟨covers, h⟩ := h
  obtain ⟨found', hfound', hlist'⟩ := h w' hw
  obtain ⟨found₀, hfound₀, hlist⟩ := h w (.refl hw.plain)
  obtain rfl := Except.ok.inj (hfound₀.symm.trans hfound)
  refine ⟨found', hfound', fun path => ?_⟩
  rw [hlist' path, hlist path]
  simp only [hw.isTreeFile_iff]

theorem Finds.isTreeFile {ε : Type} {w : Workspace} {search : Workspace → Except ε (List Bytes)}
    (h : Finds w search) (hw : w.Plain) {found : List Bytes} (hfound : search w = .ok found)
    {path : Bytes} (hpath : path ∈ found) :
    ∃ dir name, path = Path.ofWay (dir ++ [name]) ∧ IsTreeFile w dir name := by
  obtain ⟨covers, h⟩ := h
  obtain ⟨found₀, hfound₀, hlist⟩ := h w (.refl hw)
  obtain rfl := Except.ok.inj (hfound₀.symm.trans hfound)
  obtain ⟨dir, name, hpath, hfile, -⟩ := (hlist path).1 hpath
  exact ⟨dir, name, hpath, hfile⟩

/-! ## Walks -/

/-- Putting what was found in order neither adds nor loses anything. -/
theorem mem_inNameOrder {path : Bytes} {found : List (Bytes × List Bytes)} :
    path ∈ inNameOrder found ↔ ∃ x ∈ found, path ∈ x.2 := by
  simp only [inNameOrder, List.mem_flatMap, (List.mergeSort_perm found _).mem_iff]

/-- A directory is walked entry by entry. -/
theorem belowEach_eq_map (path : Bytes) (entries : List (Bytes × Entry)) :
    belowEach path entries = entries.map fun x =>
      (x.1,
        if x.2.isDirectory && isSkipped x.1 then [] else below (Path.child path x.1) x.1 x.2) := by
  induction entries with
  | nil => rfl
  | cons x entries ih =>
    obtain ⟨name, e⟩ := x
    rw [belowEach, ih, List.map_cons]

/-- What is found in a directory is found in one of its entries that is not passed over. -/
theorem mem_below_directory {path name q : Bytes} {entries : List (Bytes × Entry)} :
    q ∈ below path name (.directory entries) ↔
      ∃ x ∈ entries, (x.2.isDirectory && isSkipped x.1) = false ∧
        q ∈ below (Path.child path x.1) x.1 x.2 := by
  rw [below, mem_inNameOrder, belowEach_eq_map]
  constructor
  · rintro ⟨y, hy, hq⟩
    obtain ⟨x, hx, rfl⟩ := List.mem_map.1 hy
    simp only at hq
    split at hq
    · cases hq
    · next hskip => exact ⟨x, hx, by simpa using hskip, hq⟩
  · rintro ⟨x, hx, hskip, hq⟩
    refine ⟨_, List.mem_map.2 ⟨x, hx, rfl⟩, ?_⟩
    rw [hskip]
    exact hq

/-- A walk comes to the tree files on ways without a directory that is passed over. By induction on
the tree; the ways in a directory begin with one of its names. -/
theorem mem_below_iff {e : Entry} (he : e.Plain) {here : List Bytes} (hhere : Path.IsWay here)
    {name q : Bytes} :
    q ∈ below (Path.ofWay here) name e ↔
      ∃ way content, e.at? way = some (.file content) ∧ isTreeName (way.getLast?.getD name) = true ∧
        (∀ n ∈ way.dropLast, isSkipped n = false) ∧ q = Path.ofWay (here ++ way) := by
  induction he generalizing here name with
  | link _ hlinks => cases hlinks
  | file content =>
    constructor
    · intro hq
      rw [below] at hq
      split at hq
      · next hname =>
        obtain rfl := List.mem_singleton.1 hq
        exact ⟨[], content, rfl, hname, by simp, by simp⟩
      · cases hq
    · rintro ⟨way, content', hat, hname, -, rfl⟩
      -- a file is at the end of the empty way alone
      cases way with
      | nil =>
        rw [below, if_pos (by simpa using hname)]
        simp
      | cons n way => cases hat
  | @directory entries hnodup hnames hplain ih =>
    rw [mem_below_directory]
    constructor
    · rintro ⟨⟨n, x⟩, hx, hskip, hq⟩
      have hn : Path.IsName n := hnames _ hx
      rw [Path.child_ofWay hhere hn,
        ih _ hx (Path.isWay_append.2 ⟨hhere, Path.isWay_singleton.2 hn⟩)] at hq
      obtain ⟨way, content, hat, hname, hdirs, rfl⟩ := hq
      refine ⟨n :: way, content, ?_, ?_, ?_, by simp⟩
      · rw [Entry.at?, Entry.lookup_of_mem hnodup hx]
        exact hat
      · simpa [List.getLast?_cons] using hname
      · cases way with
        | nil => simp
        | cons m way =>
          -- there is more below, so the entry is a directory and not passed over
          obtain ⟨es, -, rfl, -⟩ := Entry.at?_cons_directory hat
          rw [List.dropLast_cons_cons, List.forall_mem_cons]
          exact ⟨by simpa [Entry.isDirectory] using hskip, hdirs⟩
    · rintro ⟨way, content, hat, hname, hdirs, rfl⟩
      cases way with
      | nil => cases hat
      | cons n way =>
        -- the way begins with a name of the directory
        obtain ⟨es, x, hes, hlookup, hat⟩ := Entry.at?_cons_directory hat
        obtain rfl := Entry.directory.inj hes
        have hx := Entry.mem_of_lookup hlookup
        have hn : Path.IsName n := hnames _ hx
        refine ⟨(n, x), hx, ?_, ?_⟩
        · cases way with
          | nil =>
            obtain rfl := Option.some.inj hat
            rfl
          | cons m way =>
            rw [List.dropLast_cons_cons, List.forall_mem_cons] at hdirs
            simp [hdirs.1]
        · rw [Path.child_ofWay hhere hn,
            ih _ hx (Path.isWay_append.2 ⟨hhere, Path.isWay_singleton.2 hn⟩)]
          refine ⟨way, content, hat, ?_, fun m hm => hdirs m ?_, by simp⟩
          · simpa [List.getLast?_cons] using hname
          · cases way with
            | nil => cases hm
            | cons k way => exact List.mem_cons_of_mem _ hm

section

variable {w : Workspace} {found : List Bytes}

/-- A walk that succeeds starts from something that is there. -/
theorem lookup_of_walk {path : Bytes} (h : walk w path = .ok found) :
    ∃ e, w.lookup false path = .ok e := by
  obtain ⟨e, he, -⟩ := map_eq_ok_iff.1 h
  exact ⟨e, mapError_eq_ok_iff.1 he⟩

/-- The name that decides for the end of a walked way is its last one. -/
theorem getLast?_getD_base {way rest dir : List Bytes} {name : Bytes} (hname : Path.IsName name)
    (h : way ++ rest = dir ++ [name]) : rest.getLast?.getD (Path.base (Path.ofWay way)) = name := by
  rcases List.eq_nil_or_concat rest with rfl | ⟨front, last, rfl⟩
  · rw [List.append_nil] at h
    rw [h, Path.base_ofWay hname]
    rfl
  · rw [List.concat_eq_append, ← List.append_assoc] at h
    have hlast := (List.append_inj' h rfl).2
    rw [List.concat_eq_append, List.getLast?_concat, List.singleton_inj.1 hlast]
    rfl

/-- A walk finds tree files by their places. -/
theorem finds_walk {way : List Bytes} (hway : Path.IsWay way)
    (h : walk w (Path.ofWay way) = .ok found) : Finds w (walk · (Path.ofWay way)) := by
  obtain ⟨e, he⟩ := lookup_of_walk h
  -- covered are the ways that go on from here without a directory that is passed over
  refine ⟨fun dir name => ∃ rest, way ++ rest = dir ++ [name] ∧
    ∀ n ∈ rest.dropLast, isSkipped n = false, fun w' hw' => ?_⟩
  obtain ⟨e', he'⟩ := hw'.lookup (Path.isAbsolute_ofWay way) he
  have hat := hw'.plain'.at?_of_lookup (Path.isAbsolute_ofWay way) he'
  rw [Path.names_ofWay hway, List.reverse_reverse] at hat
  have hplain := hw'.plain'.tree
  refine ⟨below (Path.ofWay way) (Path.base (Path.ofWay way)) e',
    by simp [walk, Workspace.lstat, he']; rfl, fun path => ?_⟩
  rw [mem_below_iff (hplain.at? hat).2 hway]
  -- the tree below the place is the one that is walked
  have happend : ∀ rest, w'.tree.at? (way ++ rest) = e'.at? rest := by
    intro rest
    rw [Entry.at?_append, hat]
    rfl
  constructor
  · rintro ⟨rest, content, hfile, hname, hdirs, rfl⟩
    rw [← happend] at hfile
    rcases List.eq_nil_or_concat (way ++ rest) with hnil | ⟨dir, name, heq⟩
    · -- the root is no file
      obtain ⟨entries, hroot⟩ := hw'.plain'.at?_nil
      rw [hnil, hroot] at hfile
      cases hfile
    · rw [List.concat_eq_append] at heq
      have hnames := Path.isWay_append.1 (heq ▸ (hplain.at? hfile).1)
      rw [getLast?_getD_base (Path.isWay_singleton.1 hnames.2) heq] at hname
      rw [heq] at hfile ⊢
      exact ⟨dir, name, rfl, ⟨hname, content, Entry.view_eq_file_iff.2 hfile⟩, rest, heq, hdirs⟩
  · rintro ⟨dir, name, rfl, ⟨hname, content, hview⟩, rest, heq, hdirs⟩
    have hfile := Entry.view_eq_file_iff.1 hview
    have hnames := Path.isWay_append.1 (hplain.at? hfile).1
    refine ⟨rest, content, ?_, ?_, hdirs, by rw [heq]⟩
    · rw [← happend, heq]
      exact hfile
    · rw [getLast?_getD_base (Path.isWay_singleton.1 hnames.2) heq]
      exact hname

/-! ## Directories -/

/-- The tree files of a directory are its entries with such names that are no directories. -/
theorem mem_treeNames_iff {entries : List (Bytes × Entry)} {name : Bytes} :
    name ∈ treeNames entries ↔
      isTreeName name = true ∧ ∃ e, (name, e) ∈ entries ∧ e.isDirectory = false := by
  simp only [treeNames, List.mem_map, List.mem_filter, Bool.and_eq_true, Bool.not_eq_true']
  constructor
  · rintro ⟨⟨n, e⟩, ⟨hmem, hfile, hname⟩, rfl⟩
    exact ⟨hname, e, hmem, hfile⟩
  · rintro ⟨hname, e, hmem, hfile⟩
    exact ⟨(name, e), ⟨hmem, hfile, hname⟩, rfl⟩

/-- Without links, they are its files with such names. -/
theorem mem_treeNames {entries : List (Bytes × Entry)} (h : Entry.Plain (.directory entries))
    {name : Bytes} :
    name ∈ treeNames entries ↔
      isTreeName name = true ∧ ∃ content, entries.lookup name = some (.file content) := by
  cases h with
  | directory hnodup hnames hplain =>
    rw [mem_treeNames_iff]
    refine and_congr_right fun _ => ⟨?_, ?_⟩
    · rintro ⟨e, hmem, hfile⟩
      cases hplain _ hmem with
      | file content => exact ⟨content, Entry.lookup_of_mem hnodup hmem⟩
      | link _ hlinks => cases hlinks
      | directory => cases hfile
    · rintro ⟨content, hlookup⟩
      exact ⟨.file content, Entry.mem_of_lookup hlookup, rfl⟩

/-- What is found in a directory are the tree files among its entries. -/
theorem lookup_of_inDirectory {path : Bytes} (h : inDirectory w path = .ok found) :
    ∃ entries, w.lookup true path = .ok (.directory entries) ∧
      found = Bytes.sort ((treeNames entries).map (Path.child path)) := by
  obtain ⟨entries, hlist, hfound⟩ := map_eq_ok_iff.1 h
  refine ⟨entries, ?_, hfound.symm⟩
  rw [Workspace.list] at hlist
  split at hlist
  · next es hlookup => rw [hlookup, Except.ok.inj hlist]
  · cases hlist
  · cases hlist

/-- A directory is searched by its place. -/
theorem finds_inDirectory (hw : w.Plain) {path : Bytes} (habs : Path.isAbsolute path = true)
    (h : inDirectory w path = .ok found) : Finds w (inDirectory · path) := by
  obtain ⟨entries, hlookup, -⟩ := lookup_of_inDirectory h
  -- covered are the places in this directory
  refine ⟨fun dir _ => dir = (Path.names path).reverse, fun w' hw' => ?_⟩
  obtain ⟨e', he'⟩ := hw'.lookup habs hlookup
  have hat := hw'.plain'.at?_of_lookup habs he'
  -- it was a directory, so it is one
  obtain ⟨entries', hentries'⟩ := Entry.view_eq_directory_iff.1
    (hw'.view_eq_directory (Entry.view_eq_directory_iff.2 ⟨entries, hw.at?_of_lookup habs hlookup⟩))
  obtain rfl := Option.some.inj (hat.symm.trans hentries')
  have hplain := (hw'.plain'.tree.at? hat).2
  refine ⟨Bytes.sort ((treeNames entries').map (Path.child path)),
    by simp [inDirectory, Workspace.list, he']; rfl, fun p => ?_⟩
  have hview : ∀ name, w'.tree.at? ((Path.names path).reverse ++ [name]) =
      entries'.lookup name := by
    intro name
    rw [Entry.at?_concat, hat]
  rw [Bytes.mem_sort, List.mem_map]
  constructor
  · rintro ⟨name, hmem, rfl⟩
    obtain ⟨hname, content, hlookup⟩ := (mem_treeNames hplain).1 hmem
    refine ⟨_, name, Path.child_of_isAbsolute habs (hplain.lookup hlookup).1,
      ⟨hname, content, ?_⟩, rfl⟩
    rw [Workspace.view, hview, hlookup]
    rfl
  · rintro ⟨dir, name, rfl, ⟨hname, content, hfile⟩, rfl⟩
    have hlookup : entries'.lookup name = some (.file content) := by
      rw [← hview]
      exact Entry.view_eq_file_iff.1 hfile
    exact ⟨name, (mem_treeNames hplain).2 ⟨hname, content, hlookup⟩,
      Path.child_of_isAbsolute habs (hplain.lookup hlookup).1⟩

/-- The tree files of a directory are given in order, and each once. -/
theorem increasing_inDirectory (hw : w.Plain) {path : Bytes} (habs : Path.isAbsolute path = true)
    (h : inDirectory w path = .ok found) : Bytes.Increasing found := by
  obtain ⟨entries, hlookup, rfl⟩ := lookup_of_inDirectory h
  have hplain := (hw.tree.at? (hw.at?_of_lookup habs hlookup)).2
  have hisName : ∀ name ∈ treeNames entries, Path.IsName name := by
    intro name hname
    obtain ⟨-, content, hlookup⟩ := (mem_treeNames hplain).1 hname
    exact (hplain.lookup hlookup).1
  apply Bytes.increasing_sort
  refine List.Nodup.map_on (fun a ha b hb heq => ?_) ?_
  · -- different names make different paths
    rw [Path.child_of_isAbsolute habs (hisName a ha),
      Path.child_of_isAbsolute habs (hisName b hb)] at heq
    have hways := Path.ofWay_injective
      (Path.isWay_append.2 ⟨Path.isWay_names habs, Path.isWay_singleton.2 (hisName a ha)⟩)
      (Path.isWay_append.2 ⟨Path.isWay_names habs, Path.isWay_singleton.2 (hisName b hb)⟩) heq
    exact List.singleton_inj.1 (List.append_cancel_left hways)
  · cases hplain with
    | directory hnodup _ _ => exact hnodup.sublist (List.filter_sublist.map _)

/-! ## Patterns -/

/-- How errors are told does not matter to what is found. -/
theorem Finds.mapError {ε ε' : Type} {search : Workspace → Except ε (List Bytes)}
    (h : Finds w search) (f : ε → ε') : Finds w fun w => (search w).mapError f := by
  obtain ⟨covers, h⟩ := h
  refine ⟨covers, fun w' hw' => ?_⟩
  obtain ⟨found, hfound, hlist⟩ := h w' hw'
  exact ⟨found, by simp only [hfound]; rfl, hlist⟩

/-- Searches that agree on alike workspaces find the same. -/
theorem Finds.congr {ε : Type} {search search' : Workspace → Except ε (List Bytes)}
    (h : Finds w search) (heq : ∀ w', Alike w w' → search' w' = search w') : Finds w search' := by
  obtain ⟨covers, h⟩ := h
  refine ⟨covers, fun w' hw' => ?_⟩
  rw [heq w' hw']
  exact h w' hw'

/-- A path, taken from an absolute directory, is that of a way, the same in all workspaces. -/
theorem absoluteFrom_eq {directory : Bytes} (h : Path.isAbsolute directory = true) (path : Bytes) :
    ∃ way, Path.IsWay way ∧ ∀ w, absoluteFrom w directory path = .ok (Path.ofWay way) := by
  by_cases hpath : Path.isAbsolute path = true
  · refine ⟨_, Path.isWay_names hpath, fun w => ?_⟩
    rw [absoluteFrom, if_pos hpath, Workspace.absolute, if_pos hpath, Path.clean_eq_ofWay hpath]
  · obtain ⟨p, hp, hchild⟩ := Path.exists_child_eq_clean h path
    refine ⟨_, Path.isWay_names hp, fun w => ?_⟩
    rw [absoluteFrom, if_neg hpath, hchild, Path.clean_eq_ofWay hp, Workspace.absolute,
      if_pos (Path.isAbsolute_ofWay _), Path.clean_ofWay (Path.isWay_names hp)]

/-- A pattern that names a file covers its place alone. -/
theorem Pattern.finds_file (hw : w.Plain) {directory path : Bytes} {way : List Bytes}
    (hway : Path.IsWay way) (habs : ∀ w, absoluteFrom w directory path = .ok (Path.ofWay way))
    {content : Bytes} (hlookup : w.lookup true (Path.ofWay way) = .ok (.file content))
    (hname : isTreeName (Path.ofWay way) = true) : Finds w (files · directory (.single path)) := by
  have hat := hw.at?_of_lookup (Path.isAbsolute_ofWay way) hlookup
  rw [Path.names_ofWay hway, List.reverse_reverse] at hat
  -- the root is no file, so the way has a last name
  obtain ⟨dir, name, rfl⟩ : ∃ dir name, way = dir ++ [name] := by
    rcases List.eq_nil_or_concat way with rfl | ⟨dir, name, rfl⟩
    · obtain ⟨entries, hroot⟩ := hw.at?_nil
      rw [hroot] at hat
      cases hat
    · exact ⟨dir, name, List.concat_eq_append⟩
  rw [isTreeName_ofWay] at hname
  refine ⟨fun dir' name' => dir' ++ [name'] = dir ++ [name], fun w' hw' => ?_⟩
  have hview : w'.view (dir ++ [name]) = .file content := by
    rw [hw'.view_of_isTreeName hname]
    exact Entry.view_eq_file_iff.2 hat
  obtain ⟨e', he'⟩ := hw'.lookup (Path.isAbsolute_ofWay _) hlookup
  have hat' := hw'.plain'.at?_of_lookup (Path.isAbsolute_ofWay _) he'
  rw [Path.names_ofWay hway, List.reverse_reverse] at hat'
  obtain rfl := Option.some.inj (hat'.symm.trans (Entry.view_eq_file_iff.1 hview))
  refine ⟨[Path.ofWay (dir ++ [name])], ?_, fun p => ?_⟩
  · simp [files, habs, Workspace.stat, he', Except.mapError, isTreeName_ofWay, hname]
  · rw [List.mem_singleton]
    constructor
    · rintro rfl
      exact ⟨dir, name, rfl, ⟨hname, content, hview⟩, rfl⟩
    · rintro ⟨dir', name', rfl, -, heq⟩
      rw [heq]

/-- Each kind of pattern finds tree files by their places. -/
theorem Pattern.finds (hw : w.Plain) {directory : Bytes}
    (hdirectory : Path.isAbsolute directory = true) {pattern : Pattern}
    (h : files w directory pattern = .ok found) : Finds w (files · directory pattern) := by
  cases pattern with
  | blank => exact ⟨fun _ _ => False, fun w' _ => ⟨[], rfl, fun p => by simp⟩⟩
  | recursive path =>
    obtain ⟨way, hway, habs⟩ := absoluteFrom_eq hdirectory path
    have hfiles : ∀ w, files w directory (.recursive path) =
        (walk w (Path.ofWay way)).mapError .file := by
      intro w
      rw [files, habs]
      rfl
    -- the walk starts at a clean path, so its paths are clean
    rw [hfiles, mapError_eq_ok_iff] at h
    exact ((finds_walk hway h).mapError SearchError.file).congr fun w' _ => hfiles w'
  | single path =>
    obtain ⟨way, hway, habs⟩ := absoluteFrom_eq hdirectory path
    have hstat : ∀ {w : Workspace} {e}, w.stat (Path.ofWay way) = .ok e ↔
        w.lookup true (Path.ofWay way) = .ok e := mapError_eq_ok_iff
    simp only [files, habs] at h
    split at h
    · cases h
    · next entries hdir =>
      -- the directory is one everywhere
      rw [mapError_eq_ok_iff] at h
      have hfinds := finds_inDirectory hw (Path.isAbsolute_ofWay way) h
      obtain ⟨covers, hcovers⟩ := hfinds
      refine ⟨covers, fun w' hw' => ?_⟩
      obtain ⟨found', hfound', hlist⟩ := hcovers w' hw'
      obtain ⟨entries', hlookup', -⟩ := lookup_of_inDirectory hfound'
      refine ⟨found', ?_, hlist⟩
      simp only [files, habs, hstat.2 hlookup', hfound']
      rfl
    · next e hnot hstatus =>
      -- what is not a directory has to be a tree file
      have hlookup := hstat.1 hstatus
      cases e with
      | file content =>
        split at h
        · next hname => exact finds_file hw hway habs hlookup hname
        · cases h
      | link target =>
        exact absurd (hw.at?_of_lookup (Path.isAbsolute_ofWay way) hlookup) (hw.tree.not_link _ _)
      | directory entries => exact absurd rfl (hnot entries)

/-- Several patterns find what one of them finds. By induction on the patterns. -/
theorem finds_mapM (hw : w.Plain) {directory : Bytes}
    (hdirectory : Path.isAbsolute directory = true) {patterns : List Pattern}
    {lists : List (List Bytes)} (h : patterns.mapM (Pattern.files w directory) = .ok lists) :
    Finds w fun w => (patterns.mapM (Pattern.files w directory)).map List.flatten := by
  induction patterns generalizing lists with
  | nil => exact ⟨fun _ _ => False, fun w' _ => ⟨[], rfl, fun p => by simp⟩⟩
  | cons pattern patterns ih =>
    obtain ⟨first, rest, hfirst, hrest, -⟩ := mapM_cons_eq_ok_iff.1 h
    obtain ⟨covers, hcovers⟩ := Pattern.finds hw hdirectory hfirst
    obtain ⟨covers', hcovers'⟩ := ih hrest
    -- a list of patterns covers what one of them covers
    refine ⟨fun dir name => covers dir name ∨ covers' dir name, fun w' hw' => ?_⟩
    obtain ⟨first', hfirst', hlist⟩ := hcovers w' hw'
    obtain ⟨flat, hflat, hlist'⟩ := hcovers' w' hw'
    obtain ⟨rest', hrest', rfl⟩ := map_eq_ok_iff.1 hflat
    refine ⟨first' ++ rest'.flatten, ?_, fun p => ?_⟩
    · exact map_eq_ok_iff.2 ⟨_, mapM_cons_eq_ok_iff.2 ⟨_, _, hfirst', hrest', rfl⟩, rfl⟩
    · rw [List.mem_append, hlist p, hlist' p]
      constructor
      · rintro (⟨dir, name, hp, hfile, hcover⟩ | ⟨dir, name, hp, hfile, hcover⟩)
        · exact ⟨dir, name, hp, hfile, Or.inl hcover⟩
        · exact ⟨dir, name, hp, hfile, Or.inr hcover⟩
      · rintro ⟨dir, name, hp, hfile, hcover | hcover⟩
        · exact Or.inl ⟨dir, name, hp, hfile, hcover⟩
        · exact Or.inr ⟨dir, name, hp, hfile, hcover⟩

/-- A search finds tree files by their places. -/
theorem finds_files (hw : w.Plain) {directory : Bytes}
    (hdirectory : Path.isAbsolute directory = true) {patterns : List Bytes}
    (h : files w directory patterns = .ok found) : Finds w (files · directory patterns) := by
  obtain ⟨lists, hlists, -⟩ := map_eq_ok_iff.1 h
  obtain ⟨covers, hcovers⟩ := finds_mapM hw hdirectory hlists
  refine ⟨covers, fun w' hw' => ?_⟩
  obtain ⟨flat, hflat, hlist⟩ := hcovers w' hw'
  obtain ⟨lists', hlists', rfl⟩ := map_eq_ok_iff.1 hflat
  refine ⟨Bytes.sort lists'.flatten.eraseDups, map_eq_ok_iff.2 ⟨lists', hlists', rfl⟩, fun p => ?_⟩
  rw [Bytes.mem_sort, List.mem_eraseDups]
  exact hlist p

/-- A search gives its files in order, and each once. -/
theorem increasing_files {directory : Bytes} {patterns : List Bytes}
    (h : files w directory patterns = .ok found) : Bytes.Increasing found := by
  obtain ⟨lists, -, rfl⟩ := map_eq_ok_iff.1 h
  exact Bytes.increasing_sort (Bytes.nodup_eraseDups _)

end

end Search

end DocTree
