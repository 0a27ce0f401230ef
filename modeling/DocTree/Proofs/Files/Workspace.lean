import DocTree.Files.Workspace
import DocTree.Proofs.Files.Links
import DocTree.Proofs.Number.Decimal
import Mathlib.Data.List.Nodup
import Mathlib.Data.List.Perm.Subperm

/-!
# Reading and replacing files

In a plain workspace a clean absolute path names the place that its way leads to, and the operations
on paths are operations on ways. Replacing a file goes through a temporary file with a free name,
and nothing of it is left (`replace_eq`): the tree is the old one, or the old one with the new file
in its place. This is so in any workspace, with links on the way or without; and what was written is
read back under the same path (`Output.read_of_write`), if the path did not lead through its own
end.
-/

namespace DocTree

/-- A file system of files and directories, without links. -/
structure Workspace.Plain (w : Workspace) : Prop where
  /-- The root is a directory. -/
  root : ∃ entries, w.tree = .directory entries
  /-- There are no links, and names are proper. -/
  tree : w.tree.Plain
  /-- The working directory is given from the root. -/
  cwd : ∀ path ∈ w.cwd, Path.isAbsolute path = true

namespace Workspace

/-- What is seen at the end of a way. -/
def view (w : Workspace) (way : List Bytes) : Entry.View := Entry.view (w.tree.at? way)

/-- The workspace with a file written at the end of a way. -/
def withFile (w : Workspace) (way : List Bytes) (content : Bytes) : Workspace :=
  { w with tree := w.tree.put way (.file content) }

section

variable {w : Workspace} {way dir : List Bytes} {name content : Bytes}
  {entries : List (Bytes × Entry)}

/-! ## Finding -/

theorem Plain.at?_nil (hw : w.Plain) : ∃ entries, w.tree.at? [] = some (.directory entries) := by
  obtain ⟨entries, hroot⟩ := hw.root
  exact ⟨entries, by rw [hroot]; rfl⟩

/-- The path of a way is looked for from the root, name by name. -/
theorem locate_eq_resolve (hway : Path.IsWay way) (followLast : Bool) :
    w.locate followLast (Path.ofWay way) = w.tree.resolve followLast Entry.maxLinks [] way := by
  have hparts : w.way? (Path.ofWay way) = some (Path.parts (Path.ofWay way)) := by
    simp [way?, Path.ofWay_ne_nil]
  rw [locate, hparts]
  by_cases hne : way = []
  · -- the root has two empty parts
    subst hne
    rfl
  · rw [Path.parts_ofWay hway hne]
    exact Entry.resolve_stay rfl

/-- The parts in front of those of a path. -/
def partsBefore? (w : Workspace) (absolute : Bool) : Option (List Bytes) :=
  if absolute then some [] else w.cwd.map Path.parts

/-- A path goes from the root or from the working directory. -/
theorem way?_eq_map {path : Bytes} (h : path ≠ []) :
    w.way? path = (w.partsBefore? (Path.isAbsolute path)).map (· ++ Path.parts path) := by
  unfold way? partsBefore?
  rw [if_neg (by simpa using h)]
  split
  · rfl
  · rw [Option.map_map]
    rfl

/-- The path leads to a place, through directories and links, with so many links left to be
followed. -/
def WalksTo (w : Workspace) (path : Bytes) (left : Nat) (place : List Bytes) : Prop :=
  ∃ way, w.way? path = some way ∧ w.tree.Walk Entry.maxLinks [] way left place

/-- A path that is found to be a directory leads to it. -/
theorem exists_walksTo_of_locate {path : Bytes} {followLast : Bool}
    (h : w.locate followLast path = .ok (dir, some (.directory entries))) :
    ∃ left, w.WalksTo path left dir ∧ w.tree.at? dir = some (.directory entries) := by
  rw [locate] at h
  split at h
  · cases h
  · next way hway =>
    obtain ⟨left, hwalk, hdir⟩ := Entry.exists_walk_of_resolve h
    exact ⟨left, ⟨way, hway, hwalk⟩, hdir⟩

namespace WalksTo

variable {path : Bytes} {left : Nat}

/-- What a path leads to is found there. -/
theorem locate (h : w.WalksTo path left dir) : w.locate true path = .ok (dir, w.tree.at? dir) := by
  obtain ⟨way, hway, hwalk⟩ := h
  rw [Workspace.locate, hway]
  exact hwalk.resolve

/-- The way to a path is the way to its directory, empty parts and dots apart, and its name behind
it. -/
theorem iff_of_named (hpath : Path.Named path name) :
    w.WalksTo (Path.parent path) left dir ↔
      ∃ front, w.way? path = some (front ++ [name]) ∧
        w.tree.Walk Entry.maxLinks [] front left dir := by
  obtain ⟨front, hparts, hkept, habs⟩ := hpath.exists_parts
  have hne : path ≠ [] := by
    rw [← hpath.clean]
    exact Path.clean_ne_nil path
  have hparent : Path.parent path ≠ [] := Path.clean_ne_nil _
  -- the two ways to the directory differ in parts that stay
  have hsame : ∀ before : List Bytes,
      w.tree.Walk Entry.maxLinks [] (before ++ Path.parts (Path.parent path)) left dir ↔
        w.tree.Walk Entry.maxLinks [] (before ++ front) left dir := by
    intro before
    rw [← Entry.Walk.filter_isKept_iff, List.filter_append, ← hkept, ← List.filter_append,
      Entry.Walk.filter_isKept_iff]
  rw [WalksTo, way?_eq_map hne, way?_eq_map hparent, habs, hparts]
  -- both ways begin with the same parts, none or those of the working directory
  cases w.partsBefore? (Path.isAbsolute path) with
  | none => simp
  | some before => simp [← List.append_assoc, hsame]

/-- The last name of a path is found where its directory is, a link in its place not followed. -/
theorem locate_false (h : w.WalksTo (Path.parent path) left dir) (hpath : Path.Named path name) :
    w.locate false path = .ok (dir ++ [name], w.tree.at? (dir ++ [name])) := by
  obtain ⟨front, hway, hwalk⟩ := (iff_of_named hpath).1 h
  rw [Workspace.locate, hway]
  exact (hwalk.resolve_append (Or.inl (by simp))).trans
    (Entry.resolve_last (Entry.isStep_of_isName hpath.isName) (by simp))

/-- The last name of a path is looked for from its directory, with the links that are left. -/
theorem locate_true (h : w.WalksTo (Path.parent path) left dir) (hpath : Path.Named path name) :
    w.locate true path = w.tree.resolve true left dir [name] := by
  obtain ⟨front, hway, hwalk⟩ := (iff_of_named hpath).1 h
  rw [Workspace.locate, hway]
  exact hwalk.resolve_append (Or.inr rfl)

end WalksTo

/-- In a plain workspace the path of a way is found at the end of the way. -/
theorem Plain.locate_ofWay (hw : w.Plain) (hway : Path.IsWay way)
    (hdir : way ≠ [] → ∃ entries, w.tree.at? way.dropLast = some (.directory entries))
    (followLast : Bool) :
    w.locate followLast (Path.ofWay way) = .ok (way, w.tree.at? way) := by
  rw [locate_eq_resolve hway]
  exact Entry.resolve_of_isWay hw.tree hway hdir

/-- What stands at the end of a way is found under its path. -/
theorem Plain.locate_of_at? (hw : w.Plain) {e : Entry} (h : w.tree.at? way = some e)
    (followLast : Bool) : w.locate followLast (Path.ofWay way) = .ok (way, some e) := by
  rw [← h]
  refine hw.locate_ofWay (hw.tree.at? h).1 (fun hne => ?_) followLast
  obtain ⟨front, last, rfl⟩ := (List.eq_nil_or_concat way).resolve_left hne
  rw [List.concat_eq_append] at h ⊢
  simpa using Entry.exists_directory_of_at? h

/-- A name in a directory is found where it is, or found missing. -/
theorem Plain.locate_concat (hw : w.Plain) (hdir : w.tree.at? dir = some (.directory entries))
    (hname : Path.IsName name) (followLast : Bool) :
    w.locate followLast (Path.ofWay (dir ++ [name])) =
      .ok (dir ++ [name], w.tree.at? (dir ++ [name])) := by
  have hway : Path.IsWay (dir ++ [name]) :=
    Path.isWay_append.2 ⟨(hw.tree.at? hdir).1, Path.isWay_singleton.2 hname⟩
  exact hw.locate_ofWay hway (fun _ => ⟨entries, by simpa using hdir⟩) followLast

/-- What is found is what stands in the place. -/
theorem lookup_eq_ok_iff {path : Bytes} {followLast : Bool} {e : Entry} :
    w.lookup followLast path = .ok e ↔ ∃ place, w.locate followLast path = .ok (place, some e) := by
  rw [lookup]
  rcases w.locate followLast path with reason | ⟨place, _ | x⟩ <;> simp

/-- What is found at an absolute path is what stands at the end of its cleaned way. -/
theorem Plain.at?_of_lookup (hw : w.Plain) {path : Bytes} (habs : Path.isAbsolute path = true)
    {followLast : Bool} {e : Entry} (h : w.lookup followLast path = .ok e) :
    w.tree.at? (Path.names path).reverse = some e := by
  have hway : w.way? path = some (Path.parts path) := by
    -- an absolute path is not empty
    cases path with
    | nil => cases habs
    | cons b rest => simp [way?, habs]
  obtain ⟨place, hlocate⟩ := lookup_eq_ok_iff.1 h
  rw [locate, hway] at hlocate
  obtain ⟨hplace, hx⟩ := Entry.place_of_resolve hw.tree .nil
    (fun part => Path.slash_notMem_of_mem_parts) hlocate
  rw [List.reverse_nil] at hplace
  rw [Path.names, habs, ← hplace, ← hx]

/-! ## Reading -/

theorem Plain.read_of_at? (hw : w.Plain) (h : w.tree.at? way = some (.file content)) :
    w.read (Path.ofWay way) = .ok content := by
  rw [read, lookup, hw.locate_of_at? h]

/-- A file in a directory is read as it is seen. -/
theorem Plain.read_concat_iff (hw : w.Plain) (hdir : w.tree.at? dir = some (.directory entries))
    (hname : Path.IsName name) :
    w.read (Path.ofWay (dir ++ [name])) = .ok content ↔ w.view (dir ++ [name]) = .file content := by
  rw [read, lookup, hw.locate_concat hdir hname, view]
  rcases w.tree.at? (dir ++ [name]) with _ | ⟨_ | _ | _⟩ <;> simp [Entry.view]

/-! ## Writing -/

/-- A workspace stays plain when a file is written in a directory. -/
theorem Plain.withFile (hw : w.Plain) (hdir : w.tree.at? dir = some (.directory entries))
    (hname : Path.IsName name) : (w.withFile (dir ++ [name]) content).Plain where
  root := by
    obtain ⟨es, hroot⟩ := hw.root
    cases dir with
    | nil => exact ⟨_, by rw [Workspace.withFile, hroot, List.nil_append, Entry.put]⟩
    | cons m dir => exact ⟨_, by rw [Workspace.withFile, hroot, List.cons_append, Entry.put]⟩
  tree := hw.tree.put hdir hname
  cwd := hw.cwd

/-- The file that was written is seen. -/
theorem view_withFile_self (hdir : w.tree.at? dir = some (.directory entries)) :
    (w.withFile (dir ++ [name]) content).view (dir ++ [name]) = .file content := by
  rw [view, withFile, Entry.at?_put hdir]
  rfl

/-- Nothing else is seen to change when a file is written. -/
theorem view_withFile_of_ne (hdir : w.tree.at? dir = some (.directory entries))
    (hfile : w.view (dir ++ [name]) ≠ .directory) (hne : way ≠ dir ++ [name]) :
    (w.withFile (dir ++ [name]) content).view way = w.view way :=
  Entry.view_put hdir hfile hne

/-! ## Temporary files -/

/-- Different numbers are written in different ways. -/
theorem ofNat_injective {m n : Nat} (h : Bytes.ofNat m = Bytes.ofNat n) : m = n := by
  rw [← Bytes.ofDigits_ofNat m, h, Bytes.ofDigits_ofNat]

/-- One of the numbered names is free: there are more of them than entries. -/
theorem exists_freeName (stem : Bytes) (entries : List (Bytes × Entry)) :
    ∃ n, freeName stem entries = stem ++ Bytes.ofNat n ∧
      entries.lookup (freeName stem entries) = none := by
  unfold freeName
  generalize hnumbered :
    (List.range (entries.length + 1)).map (fun n => stem ++ Bytes.ofNat n) = numbered
  simp only
  cases hfind : numbered.find? (fun name => (entries.lookup name).isNone) with
  | some name =>
    have hmem : name ∈ numbered := List.mem_of_find?_eq_some hfind
    rw [← hnumbered] at hmem
    obtain ⟨n, -, hn⟩ := List.mem_map.1 hmem
    exact ⟨n, hn.symm, by simpa using List.find?_some hfind⟩
  | none =>
    -- otherwise all of them would be among the entries
    exfalso
    have hsubset : numbered ⊆ entries.map (·.1) := by
      intro name hname
      have hused := List.find?_eq_none.1 hfind name hname
      by_cases hmem : name ∈ entries.map (·.1)
      · exact hmem
      · exact absurd (by simp [Entry.lookup_eq_none_iff_notMem.2 hmem]) hused
    -- different numbers make different names, one more than there are entries
    have hnodup : numbered.Nodup := by
      rw [← hnumbered]
      refine List.Nodup.map (fun m n h => ?_) List.nodup_range
      exact ofNat_injective (List.append_cancel_left h)
    have hlength := (List.subperm_of_subset hnodup hsubset).length_le
    rw [← hnumbered, List.length_map, List.length_map, List.length_range] at hlength
    omega

/-- What is told about the temporary file of a file when it cannot take its place. -/
def blocked (path : Bytes) : FileError :=
  .onRename (Path.child (Path.parent path) (octet '.' :: (Path.base path ++ ascii ".TMP")))
    path .alreadyThere

/-- The directory has the file that was written in it. -/
theorem at?_withFile (hdir : w.tree.at? dir = some (.directory entries)) :
    (w.withFile (dir ++ [name]) content).tree.at? dir =
      some (.directory (Entry.setEntry name (.file content) entries)) := by
  rw [withFile, Entry.put_eq_alter hdir, Entry.at?_alter hdir]

/-- Behind a temporary file that has been written, everything else is as it was. -/
theorem at?_withFile_of_ne (hdir : w.tree.at? dir = some (.directory entries)) {other : Bytes}
    (hne : name ≠ other) :
    (w.withFile (dir ++ [other]) content).tree.at? (dir ++ [name]) =
      w.tree.at? (dir ++ [name]) := by
  rw [Entry.at?_concat, at?_withFile hdir, Entry.at?_concat, hdir]
  simp only [Entry.lookup_setEntry, if_neg hne]

/-- A path leads to the directory that it led to before a file was written in it, unless it goes
through a link in the file's place. -/
theorem WalksTo.withFile {path : Bytes} {left : Nat} (h : w.WalksTo path left dir)
    (hdir : w.tree.at? dir = some (.directory entries))
    (hfile : w.view (dir ++ [name]) ≠ .directory)
    (hlink : ∀ links rest target, w.tree.at? (dir ++ [name]) = some (.link target) →
      ¬ w.tree.Walk links (Entry.linkBase target dir) (Path.parts target ++ rest) left dir) :
    (w.withFile (dir ++ [name]) content).WalksTo path left dir := by
  obtain ⟨way, hway, hwalk⟩ := h
  have hview : ∀ way, way ≠ dir ++ [name] →
      Entry.view ((w.withFile (dir ++ [name]) content).tree.at? way) =
        Entry.view (w.tree.at? way) :=
    fun way hne => view_withFile_of_ne hdir hfile hne
  -- directories stay where they are, since the file does not take the place of one
  have hdirectories : ∀ way es, w.tree.at? way = some (.directory es) →
      ∃ es', (w.withFile (dir ++ [name]) content).tree.at? way = some (.directory es') := by
    intro way es hat
    have hdirectory : Entry.view (w.tree.at? way) = .directory :=
      Entry.view_eq_directory_iff.2 ⟨es, hat⟩
    have hne : way ≠ dir ++ [name] := by
      intro heq
      exact hfile (heq ▸ hdirectory)
    exact Entry.view_eq_directory_iff.1 ((hview way hne).trans hdirectory)
  have hlinks : ∀ way target, way ≠ dir ++ [name] → w.tree.at? way = some (.link target) →
      (w.withFile (dir ++ [name]) content).tree.at? way = some (.link target) := by
    intro way target hne hat
    exact Entry.view_eq_link_iff.1 ((hview way hne).trans (Entry.view_eq_link_iff.2 hat))
  refine ⟨way, hway, hwalk.transfer hdirectories hlinks ?_⟩
  rw [List.dropLast_concat]
  exact hlink

section Temporary

variable {temp path : Bytes} (hdir : w.tree.at? dir = some (.directory entries))
  (hlookup : entries.lookup temp = none)

include hdir hlookup

/-- A temporary file that is taken away again leaves the tree as it was. -/
theorem remove_put_temporary :
    (w.tree.put (dir ++ [temp]) (.file content)).remove (dir ++ [temp]) = w.tree := by
  rw [Entry.put_eq_alter hdir, Entry.remove_eq_alter (Entry.at?_alter hdir _),
    Entry.alter_alter hdir]
  exact Entry.alter_eq_self hdir (Entry.filter_setEntry hlookup)

/-- A temporary file that is moved to its place leaves the tree as if it had been written there. -/
theorem remove_put_moved (hne : name ≠ temp) :
    ((w.withFile (dir ++ [temp]) content).tree.put (dir ++ [name]) (.file content)).remove
        (dir ++ [temp]) =
      w.tree.put (dir ++ [name]) (.file content) := by
  have hdir' : (w.withFile (dir ++ [temp]) content).tree.at? dir = _ := at?_withFile hdir
  rw [Entry.put_eq_alter hdir', Entry.remove_eq_alter (Entry.at?_alter hdir' _),
    Entry.alter_alter hdir', Workspace.withFile, Entry.put_eq_alter hdir, Entry.alter_alter hdir,
    Entry.put_eq_alter hdir]
  exact Entry.alter_congr hdir (Entry.filter_setEntry_setEntry hne hlookup)

/-- A temporary file is moved to its place unless a directory is there. -/
theorem rename_temporary (hne : name ≠ temp)
    (hlocate : (w.withFile (dir ++ [temp]) content).locate false path =
      .ok (dir ++ [name], w.tree.at? (dir ++ [name]))) :
    (w.withFile (dir ++ [temp]) content).rename (dir ++ [temp]) path =
      if w.view (dir ++ [name]) = .directory then .error .alreadyThere
      else .ok (w.withFile (dir ++ [name]) content) := by
  have htemp : (w.withFile (dir ++ [temp]) content).tree.at? (dir ++ [temp]) =
      some (.file content) :=
    Entry.at?_put hdir
  rw [view]
  -- only a directory is in the way
  rcases hat : w.tree.at? (dir ++ [name]) with _ | ⟨_ | _ | es⟩
  · simp only [rename, hlocate, htemp, hat, remove_put_moved hdir hlookup hne]
    rfl
  · simp only [rename, hlocate, htemp, hat, remove_put_moved hdir hlookup hne]
    rfl
  · simp only [rename, hlocate, htemp, hat, remove_put_moved hdir hlookup hne]
    rfl
  · simp only [rename, hlocate, htemp, hat]
    rfl

end Temporary

/-- No temporary name is refused when it is made of a proper one. -/
theorem contains_slash_stem (hname : Path.IsName name) :
    (octet '.' :: (name ++ ascii ".")).contains Path.slash = false := by
  have hdot : Path.slash ∉ ascii "." := by decide
  simpa [hname.slash_notMem, hdot] using show Path.slash ≠ octet '.' by decide

/-- Replacing a file: in the directory that its path leads to, through whatever links, the file is
new and everything else is as it was, unless a directory is in its place. -/
theorem replace_eq {path : Bytes} (h : Path.Named path name)
    (hlocate : w.locate true (Path.parent path) = .ok (dir, some (.directory entries))) :
    w.replace path content =
      if w.view (dir ++ [name]) = .directory then
        (.error
          (.onRename (Path.beneath (Path.parent path) (octet '.' :: (name ++ ascii ".TMP"))) path
          .alreadyThere), w)
      else (.ok (), w.withFile (dir ++ [name]) content) := by
  obtain ⟨left, hwalks, hdir⟩ := exists_walksTo_of_locate hlocate
  obtain ⟨n, hfree, hlookup⟩ := exists_freeName (octet '.' :: (name ++ ascii ".")) entries
  generalize htemp : freeName (octet '.' :: (name ++ ascii ".")) entries = temp at hfree hlookup
  -- the temporary name is longer
  have hne : name ≠ temp := by
    intro heq
    have hlength := congrArg List.length (heq.trans hfree)
    simp at hlength
    omega
  -- the temporary file is new, so the path leads to where it led before
  have habsent : w.tree.at? (dir ++ [temp]) = none := by
    rw [Entry.at?_concat, hdir]
    exact hlookup
  have hwritten : (w.withFile (dir ++ [temp]) content).WalksTo (Path.parent path) left dir :=
    hwalks.withFile hdir (by simp [view, habsent, Entry.view]) (by simp [habsent])
  have hlast := hwritten.locate_false h
  rw [at?_withFile_of_ne hdir hne] at hlast
  have htold : octet '.' :: (name ++ ascii ".") ++ ascii "TMP" =
      octet '.' :: (name ++ ascii ".TMP") := by
    simp [ascii]
  unfold replace
  simp only [h.base, contains_slash_stem h.isName, Bool.false_eq_true, if_false, hlocate, htemp,
    htold]
  rw [show ({ w with tree := w.tree.put (dir ++ [temp]) (.file content) } : Workspace) =
    w.withFile (dir ++ [temp]) content from rfl, rename_temporary hdir hlookup hne hlast]
  -- a directory in the place stays, and the temporary file is taken away
  by_cases hview : w.view (dir ++ [name]) = .directory
  · rw [if_pos hview, if_pos hview]
    simp only [remove_put_temporary hdir hlookup]
  · rw [if_neg hview, if_neg hview]

/-- In a plain workspace a file is replaced under the path of its way (`Workspace.replace_eq`). -/
theorem Plain.replace_eq (hw : w.Plain) (hdir : w.tree.at? dir = some (.directory entries))
    (hname : Path.IsName name) :
    w.replace (Path.ofWay (dir ++ [name])) content =
      if w.view (dir ++ [name]) = .directory then (.error (blocked (Path.ofWay (dir ++ [name]))), w)
      else (.ok (), w.withFile (dir ++ [name]) content) := by
  have hway : Path.IsWay dir := (hw.tree.at? hdir).1
  -- the temporary name can be one, so its path is written as it is found
  have htemp : Path.IsName (octet '.' :: (name ++ ascii ".TMP")) := by
    refine ⟨by simp, ?_, fun h => ?_, fun h => ?_⟩
    · have hdot : Path.slash ∉ ascii ".TMP" := by decide
      simpa [hname.slash_notMem, hdot] using show Path.slash ≠ octet '.' by decide
    all_goals
      have hlength := congrArg List.length h
      simp [ascii, Path.dot, Path.dotDot] at hlength
  have hlocate : w.locate true (Path.parent (Path.ofWay (dir ++ [name]))) =
      .ok (dir, some (.directory entries)) := by
    rw [Path.parent_ofWay hway hname]
    exact hw.locate_of_at? hdir true
  rw [Workspace.replace_eq (Path.named_ofWay hway hname) hlocate, blocked, Path.base_ofWay hname,
    Path.parent_ofWay hway hname, Path.beneath_ofWay hway htemp]

/-! ## Reading back -/

/-- The path leads to a file or to nothing: neither to a directory nor through too many links. -/
structure EndsInFile (w : Workspace) (path : Bytes) : Prop where
  not_directory : w.read path ≠ .error (.onPath (ascii "read") path .isDirectory)
  not_endless : w.read path ≠ .error (.onPath (ascii "open") path .tooManyLinks)

theorem endsInFile_of_read {path : Bytes} (h : w.read path = .ok content) : w.EndsInFile path :=
  ⟨by simp [h], by simp [h]⟩

/-- A path that ends in a file does not go through its own end. -/
theorem EndsInFile.not_walk {path : Bytes} {left : Nat} (h : w.EndsInFile path)
    (hwalks : w.WalksTo (Path.parent path) left dir) (hpath : Path.Named path name)
    (hdir : w.tree.at? dir = some (.directory entries)) {links : Nat} {rest : List Bytes}
    {target : Bytes} (hat : w.tree.at? (dir ++ [name]) = some (.link target)) :
    ¬ w.tree.Walk links (Entry.linkBase target dir) (Path.parts target ++ rest) left dir := by
  intro hthrough
  -- reading the path would tell of a directory or of too many links
  rcases hthrough.through ⟨entries, hdir⟩ (Entry.isStep_of_isName hpath.isName) hat with
    hlinks | ⟨there, es, hdirectory⟩
  · apply h.not_endless
    rw [read, lookup, hwalks.locate_true hpath, hlinks]
  · apply h.not_directory
    rw [read, lookup, hwalks.locate_true hpath, hdirectory]

/-- A file that was written is read under the path that it was written to. -/
theorem read_withFile {path : Bytes} (hend : w.EndsInFile path) (h : Path.Named path name)
    (hlocate : w.locate true (Path.parent path) = .ok (dir, some (.directory entries)))
    (hfile : w.view (dir ++ [name]) ≠ .directory) :
    (w.withFile (dir ++ [name]) content).read path = .ok content := by
  obtain ⟨left, hwalks, hdir⟩ := exists_walksTo_of_locate hlocate
  -- the directory of the file is still found
  have hwritten : (w.withFile (dir ++ [name]) content).WalksTo (Path.parent path) left dir :=
    hwalks.withFile hdir hfile fun _ _ _ hat => hend.not_walk hwalks h hdir hat
  have hat : (w.withFile (dir ++ [name]) content).tree.at? (dir ++ [name]) = some (.file content) :=
    Entry.at?_put hdir
  rw [read, lookup, hwritten.locate_true h,
    Entry.resolve_last (Entry.isStep_of_isName h.isName) (by simp [hat]), hat]

/-- A file is replaced only in a directory that its path leads to. -/
theorem exists_locate_of_replace {path : Bytes} (h : (w.replace path content).1 = .ok ()) :
    ∃ dir entries, w.locate true (Path.parent path) = .ok (dir, some (.directory entries)) := by
  unfold replace at h
  simp only at h
  split at h
  · cases h
  · split at h
    · cases h
    · cases h
    · next dir entries hlocate => exact ⟨dir, entries, hlocate⟩
    · cases h

end

end Workspace

/-! ## Generated files -/

/-- A generated file is left alone if it is there already, and replaced otherwise. -/
theorem Workspace.Plain.write_eq {w : Workspace} (hw : w.Plain) {dir : List Bytes}
    {name content : Bytes} {entries : List (Bytes × Entry)}
    (hdir : w.tree.at? dir = some (.directory entries)) (hname : Path.IsName name) :
    Output.write w (Path.ofWay (dir ++ [name])) content =
      if w.view (dir ++ [name]) = .file content then (.ok false, w)
      else if w.view (dir ++ [name]) = .directory then
        (.error ⟨Path.ofWay (dir ++ [name]), blocked (Path.ofWay (dir ++ [name]))⟩, w)
      else (.ok true, w.withFile (dir ++ [name]) content) := by
  have hread : (w.read (Path.ofWay (dir ++ [name]))).toOption = some content ↔
      w.view (dir ++ [name]) = .file content := by
    rw [← hw.read_concat_iff hdir hname]
    cases w.read (Path.ofWay (dir ++ [name])) <;> simp [Except.toOption]
  unfold Output.write
  simp only [hread, hw.replace_eq hdir hname]
  by_cases hfile : w.view (dir ++ [name]) = .file content
  · rw [if_pos hfile, if_pos hfile]
  · rw [if_neg hfile, if_neg hfile]
    by_cases hdirectory : w.view (dir ++ [name]) = .directory
    · rw [if_pos hdirectory, if_pos hdirectory]
    · rw [if_neg hdirectory, if_neg hdirectory]

/-- **What was written is read back**, through whatever links the path leads, as long as it leads to
a file or to nothing before. -/
theorem Output.read_of_write {w : Workspace} {way : List Bytes} {name content : Bytes}
    (hway : Path.IsWay way) (hname : Path.IsName name)
    (hend : w.EndsInFile (Path.ofWay (way ++ [name]))) {written : Bool} {w' : Workspace}
    (h : Output.write w (Path.ofWay (way ++ [name])) content = (.ok written, w')) :
    w'.read (Path.ofWay (way ++ [name])) = .ok content := by
  unfold Output.write at h
  split at h
  · next hread =>
    obtain ⟨-, rfl⟩ := Prod.mk.inj h
    -- nothing is written where the content is there already
    cases hw : w.read (Path.ofWay (way ++ [name])) with
    | error e =>
      rw [hw] at hread
      cases hread
    | ok old =>
      rw [hw] at hread
      obtain rfl := Option.some.inj hread
      rfl
  · split at h
    · next w₁ hreplace =>
      obtain ⟨-, rfl⟩ := Prod.mk.inj h
      obtain ⟨dir, entries, hlocate⟩ :=
        Workspace.exists_locate_of_replace (congrArg Prod.fst hreplace)
      rw [Workspace.replace_eq (Path.named_ofWay hway hname) hlocate] at hreplace
      split at hreplace
      · cases hreplace
      · next hfile =>
        obtain ⟨-, rfl⟩ := Prod.mk.inj hreplace
        exact Workspace.read_withFile hend (Path.named_ofWay hway hname) hlocate hfile
    · cases h

end DocTree
