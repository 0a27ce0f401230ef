import DocTree.Proofs.Files.Search

/-!
# Generated files are written whole or not at all

A generated file goes to disk under a temporary name first. Whatever stops it there, the temporary
file is taken away again and the tree is what it was (`replace_error`). Only a path that ends in a
name can be replaced at all (`exists_named_of_replace`), and then the entry under that name is all
that changes.

One thing can still go wrong. A path may lead to its directory through the link that stands at its
own end, as `l/l` does when `l` is a link to the directory it is in. The new file then takes the
place of the link, and the path leads nowhere. `lstat_withFile_iff` says when: if and only if the
directory is not found without that entry.
-/

namespace DocTree

namespace Workspace

variable {w w' : Workspace} {path name content : Bytes} {place dir : List Bytes}
  {entries : List (Bytes × Entry)}

/-! ## Failing -/

/-- A replacement that fails leaves everything as it was. -/
theorem replace_error {e : FileError} (h : w.replace path content = (.error e, w')) : w' = w := by
  unfold replace at h
  simp only at h
  split at h
  · exact (Prod.mk.inj h).2.symm
  · split at h
    · exact (Prod.mk.inj h).2.symm
    · exact (Prod.mk.inj h).2.symm
    · next dir entries hlocate =>
      -- the temporary file was written under a free name, and is removed again
      obtain ⟨-, -, hdir⟩ := exists_walksTo_of_locate hlocate
      obtain ⟨-, -, hlookup⟩ := exists_freeName (octet '.' :: (Path.base path ++ ascii ".")) entries
      split at h
      · cases h
      · obtain ⟨-, rfl⟩ := Prod.mk.inj h
        simp only [remove_put_temporary hdir hlookup]
    · exact (Prod.mk.inj h).2.symm

/-! ## Paths that can be replaced -/

/-- Nothing is moved to a path that ends in dots or in a slash: there is a directory, if
anything. -/
theorem rename_ne_ok {front : List Bytes} {last : Bytes}
    (hparts : Path.parts path = front ++ [last]) (hlast : ¬ Entry.IsStep last)
    (hdir : w.tree.at? dir = some (.directory entries)) (old : List Bytes) (w' : Workspace) :
    w.rename old path ≠ .ok w' := by
  -- what is found behind such a part is a directory
  have hdirectory : ∀ place x, w.locate false path = .ok (place, x) →
      ∃ es, x = some (.directory es) := by
    intro place x hlocate
    rw [locate] at hlocate
    split at hlocate
    · cases hlocate
    · next way hway =>
      have hne : path ≠ [] := by
        rintro rfl
        cases hway
      rw [way?_eq_map hne] at hway
      obtain ⟨before, -, rfl⟩ := Option.map_eq_some_iff.1 hway
      rw [hparts, ← List.append_assoc] at hlocate
      exact Entry.Walk.directory_of_resolve_concat (Entry.exists_directory_nil hdir) hlast hlocate
  intro hrename
  cases hlocate : w.locate false path with
  | error reason => simp [rename, hlocate] at hrename
  | ok found =>
    obtain ⟨place, x⟩ := found
    obtain ⟨es, rfl⟩ := hdirectory place x hlocate
    cases hat : w.tree.at? old <;> simp [rename, hlocate, hat] at hrename

/-- A path that is replaced ends in a name, if it is clean. -/
theorem exists_named_of_replace (hclean : Path.clean path = path)
    (h : (w.replace path content).1 = .ok ()) : ∃ name, Path.Named path name := by
  obtain ⟨front, last, hparts⟩ := Path.exists_parts_eq_concat path
  by_cases hlast : Entry.IsStep last
  · have hmem : last ∈ Path.parts path := by simp [hparts]
    have hname : Path.IsName last :=
      Path.isName_of_not_skipped (Path.slash_notMem_of_mem_parts hmem) hlast.not_stay hlast.not_up
    refine ⟨last, hclean, hname, front.foldl (Path.push (Path.isAbsolute path)) [], ?_⟩
    rw [Path.names, hparts, List.foldl_append, List.foldl_cons, List.foldl_nil,
      Path.push_of_isName hname]
  · -- otherwise the temporary file could not be moved
    obtain ⟨dir, entries, hlocate⟩ := exists_locate_of_replace h
    obtain ⟨-, -, hdir⟩ := exists_walksTo_of_locate hlocate
    unfold replace at h
    simp only [hlocate] at h
    split at h
    · cases h
    · split at h
      · next hrename => exact absurd hrename (rename_ne_ok hparts hlast (at?_withFile hdir) _ _)
      · cases h

/-- A clean path that is replaced: its last name, the directory that it leads to, and the one
change. -/
theorem exists_withFile_of_replace (hclean : Path.clean path = path)
    (h : w.replace path content = (.ok (), w')) :
    ∃ name left dir entries, Path.Named path name ∧ w.WalksTo (Path.parent path) left dir ∧
      w.tree.at? dir = some (.directory entries) ∧ w.view (dir ++ [name]) ≠ .directory ∧
      w' = w.withFile (dir ++ [name]) content := by
  obtain ⟨name, hpath⟩ := exists_named_of_replace hclean (congrArg Prod.fst h)
  obtain ⟨dir, entries, hlocate⟩ := exists_locate_of_replace (congrArg Prod.fst h)
  obtain ⟨left, hwalks, hdir⟩ := exists_walksTo_of_locate hlocate
  rw [replace_eq hpath hlocate] at h
  split at h
  · cases h
  · next hfile =>
    exact ⟨name, left, dir, entries, hpath, hwalks, hdir, hfile, (Prod.mk.inj h).2.symm⟩

/-! ## Paths that lead through their own end -/

/-- The workspace without what stands at the end of a way. -/
def without (w : Workspace) (way : List Bytes) : Workspace := { w with tree := w.tree.remove way }

/-- A path that leads to a directory does not go through a place where there is neither a directory
nor a link, so it leads there whatever stands in that place. -/
theorem WalksTo.of_view_eq {left : Nat} (h : w.WalksTo path left dir) (hcwd : w'.cwd = w.cwd)
    (hplace : w.view place ≠ .directory) (hlink : ∀ target, w.view place ≠ .link target)
    (hsame : ∀ way, way ≠ place → w'.view way = w.view way) : w'.WalksTo path left dir := by
  obtain ⟨way, hway, hwalk⟩ := h
  have hway' : w'.way? path = some way := by
    rw [← hway, way?, way?, hcwd]
  refine ⟨way, hway', hwalk.transfer (fun way es hat => ?_) (fun way target hne hat => ?_)
    fun _ _ target hat => absurd (Entry.view_eq_link_iff.2 hat) (hlink target)⟩
  · -- directories are elsewhere, so they are seen in both
    have hview : w.view way = .directory := Entry.view_eq_directory_iff.2 ⟨es, hat⟩
    have hne : way ≠ place := by
      rintro rfl
      exact hplace hview
    exact Entry.view_eq_directory_iff.1 ((hsame way hne).trans hview)
  · exact Entry.view_eq_link_iff.1 ((hsame way hne).trans (Entry.view_eq_link_iff.2 hat))

/-- A file that has been written is found under its path if and only if the directory of the path is
found without the entry that the file has taken. -/
theorem lstat_withFile_iff {left : Nat} (hpath : Path.Named path name)
    (hwalks : w.WalksTo (Path.parent path) left dir)
    (hdir : w.tree.at? dir = some (.directory entries))
    (hfile : w.view (dir ++ [name]) ≠ .directory) :
    (w.withFile (dir ++ [name]) content).lstat path = .ok (.file content) ↔
      ∃ es, (w.without (dir ++ [name])).locate true (Path.parent path) =
        .ok (dir, some (.directory es)) := by
  have hwritten : (w.withFile (dir ++ [name]) content).view (dir ++ [name]) = .file content :=
    view_withFile_self hdir
  have habsent : (w.without (dir ++ [name])).view (dir ++ [name]) = .absent := by
    rw [view, without, Entry.at?_remove hdir]
    rfl
  -- what is seen elsewhere is the same in all three workspaces
  have hsame : ∀ way, way ≠ dir ++ [name] →
      (w.withFile (dir ++ [name]) content).view way = w.view way :=
    fun way hne => view_withFile_of_ne hdir hfile hne
  have hsame' : ∀ way, way ≠ dir ++ [name] → (w.without (dir ++ [name])).view way = w.view way :=
    fun way hne => Entry.view_remove hdir hfile hne
  constructor
  · intro hlstat
    obtain ⟨place, hlocate⟩ := lookup_eq_ok_iff.1 (mapError_eq_ok_iff.1 hlstat)
    obtain ⟨front, hway, -⟩ := (WalksTo.iff_of_named hpath).1 hwalks
    have hfound : (w.withFile (dir ++ [name]) content).way? path = some (front ++ [name]) := hway
    rw [locate, hfound] at hlocate
    obtain ⟨left', there, hwalk⟩ := Entry.exists_walk_of_resolve_append (by simp) _ _ _ hlocate
    have hafter : (w.withFile (dir ++ [name]) content).WalksTo (Path.parent path) left' there :=
      (WalksTo.iff_of_named hpath).2 ⟨front, hfound, hwalk⟩
    -- it is the directory from before, and the path leads there without the entry
    have hbefore : w.WalksTo (Path.parent path) left' there :=
      hafter.of_view_eq rfl (by simp [hwritten]) (by simp [hwritten]) fun way hne =>
        (hsame way hne).symm
    obtain rfl : there = dir :=
      (Prod.mk.inj (Except.ok.inj (hbefore.locate.symm.trans hwalks.locate))).1
    have hwithout : (w.without (there ++ [name])).WalksTo (Path.parent path) left' there :=
      hafter.of_view_eq rfl (by simp [hwritten]) (by simp [hwritten])
        fun way hne => (hsame' way hne).trans (hsame way hne).symm
    refine ⟨entries.filter (·.1 != name), ?_⟩
    rw [hwithout.locate, without, Entry.remove_eq_alter hdir, Entry.at?_alter hdir]
  · rintro ⟨es, hlocate⟩
    obtain ⟨left', hwalks', -⟩ := exists_walksTo_of_locate hlocate
    have hthere : (w.withFile (dir ++ [name]) content).WalksTo (Path.parent path) left' dir :=
      hwalks'.of_view_eq rfl (by simp [habsent]) (by simp [habsent])
        fun way hne => (hsame way hne).trans (hsame' way hne).symm
    rw [lstat, lookup, hthere.locate_false hpath, Entry.view_eq_file_iff.1 hwritten]
    rfl

end Workspace

/-! ## Writing -/

namespace Output

/-- **A generated file is written whole or not at all.** If it fails nothing has changed, and
nothing has changed if the file was there already. Otherwise the entry that the path names is the
new file, in the place of a link as well, and every other entry is what it was, so that no temporary
file is left either. The path leads to the new file if and only if its directory is found without
that entry. -/
theorem write_allOrNothing {w w' : Workspace} {path content : Bytes}
    {outcome : Except OutputError Bool} (hclean : Path.clean path = path)
    (h : write w path content = (outcome, w')) :
    match outcome with
    | .error _ => w' = w
    | .ok false => w' = w ∧ w.read path = .ok content
    | .ok true =>
      w.read path ≠ .ok content ∧ ∃ place x, w.locate false path = .ok (place, x) ∧
        w'.view place = .file content ∧ (∀ way, way ≠ place → w'.view way = w.view way) ∧
        (w'.lstat path = .ok (.file content) ↔ ∃ entries,
          (w.without place).locate true (Path.parent path) =
            .ok (place.dropLast, some (.directory entries))) := by
  have hread : (w.read path).toOption = some content ↔ w.read path = .ok content := by
    cases w.read path <;> simp [Except.toOption]
  unfold write at h
  split at h
  · -- nothing to do: the file is there
    next hsame =>
    obtain ⟨rfl, rfl⟩ := Prod.mk.inj h
    exact ⟨rfl, hread.1 hsame⟩
  · next hother =>
    split at h
    · next hreplace =>
      obtain ⟨rfl, rfl⟩ := Prod.mk.inj h
      obtain ⟨name, left, dir, entries, hpath, hwalks, hdir, hfile, rfl⟩ :=
        Workspace.exists_withFile_of_replace hclean hreplace
      refine ⟨fun hsame => hother (hread.2 hsame), dir ++ [name], _, hwalks.locate_false hpath,
        Workspace.view_withFile_self hdir, fun way hne =>
          Workspace.view_withFile_of_ne hdir hfile hne, ?_⟩
      rw [List.dropLast_concat]
      exact Workspace.lstat_withFile_iff hpath hwalks hdir hfile
    · next hreplace =>
      obtain ⟨rfl, rfl⟩ := Prod.mk.inj h
      exact Workspace.replace_error hreplace

/-- A page that is a link to an older one. -/
def renewedSite : Workspace :=
  ⟨.directory [(ascii "page.jsx", .link (ascii "old.jsx")), (ascii "old.jsx", .file (ascii "a"))],
    some (ascii "/")⟩

/-- The link is replaced, and the page that it led to stays. -/
theorem write_allOrNothing_link :
    ∃ w', write renewedSite (ascii "page.jsx") (ascii "b") = (.ok true, w') ∧
    w'.lstat (ascii "page.jsx") = .ok (.file (ascii "b")) ∧
      w'.view [ascii "old.jsx"] = .file (ascii "a") ∧
    ∀ way, way ≠ [ascii "page.jsx"] → w'.view way = renewedSite.view way := by
  have hclean : Path.clean (ascii "page.jsx") = ascii "page.jsx" := by decide
  obtain ⟨w', hwrite⟩ : ∃ w', write renewedSite (ascii "page.jsx") (ascii "b") = (.ok true, w') :=
    ⟨_, rfl⟩
  obtain ⟨-, place, x, hplace, -, hsame, hleads⟩ := write_allOrNothing hclean hwrite
  obtain rfl : [ascii "page.jsx"] = place := (Prod.mk.inj (Except.ok.inj hplace)).1
  exact ⟨w', hwrite, hleads.2 ⟨_, rfl⟩, hsame _ (by decide), hsame⟩

/-- A directory with a link to itself in it. -/
def loopSite : Workspace := ⟨.directory [(ascii "l", .link (ascii "."))], none⟩

/-- A file is written, and the path does not lead to it: the link that it went through is gone. -/
theorem write_through_own_link : Path.clean (ascii "/l/l") = ascii "/l/l" ∧
    ∃ w', write loopSite (ascii "/l/l") (ascii "x") = (.ok true, w') ∧
      w'.lstat (ascii "/l/l") = .error (.onPath (ascii "lstat") (ascii "/l/l") .notDirectory) ∧
      w'.view [ascii "l"] = .file (ascii "x") :=
  ⟨by decide, _, rfl, rfl, rfl⟩

end Output

end DocTree
