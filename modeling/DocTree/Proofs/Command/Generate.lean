import DocTree.Command.Run
import DocTree.Proofs.Files.Search

/-!
# What a run leaves on the disk

The tree files that a run compiles are compiled one after the other in one workspace. A module file
is never a tree file and belongs to one tree file only, so that what comes of a tree file does not
depend on the others (`moduleAt_of_alike`). One step is described once (`compileFile_eq`), what it
keeps is `Progress`, and a run over its own result finds all module files as they should be.
-/

namespace DocTree

open Search (Alike Finds IsTreeFile isTreeName)

/-! ## What is to come of a tree file -/

/-- Is there a directory at a path? -/
def Workspace.isDirectory (w : Workspace) (path : Bytes) : Bool :=
  match w.stat path with
  | .ok e => e.isDirectory
  | .error _ => false

/-- The module that the text of a tree file gives, or why it gives none. -/
def moduleOf (o : CompileOptions) (path source : Bytes) : Except TreeFileError Bytes :=
  match Document.decode source with
  | .error e => .error (.undecodable path e)
  | .ok d => (d.compile o).mapError (.uncompilable path)

namespace Workspace

/-- The module for the module file of a tree file, or why there is none: a directory in the place of
the module file stands in its way. -/
def moduleAt (w : Workspace) (o : CompileOptions) (path : Bytes) : Except TreeFileError Bytes :=
  match w.read path with
  | .error e => .error (.unreadable e)
  | .ok source =>
    match moduleOf o path source with
    | .error e => .error e
    | .ok module =>
      if w.isDirectory (Output.path path) then
        .error (.unwritable ⟨Output.path path, blocked (Output.path path)⟩)
      else .ok module

/-- Why a tree file fails. -/
def fault? (w : Workspace) (o : CompileOptions) (path : Bytes) : Option TreeFileError :=
  match w.moduleAt o path with
  | .error e => some e
  | .ok _ => none

/-- The path is the clean path of a tree file. -/
def IsTreePath (w : Workspace) (path : Bytes) : Prop :=
  ∃ dir name, path = Path.ofWay (dir ++ [name]) ∧ IsTreeFile w dir name

section

variable {w w' : Workspace} {o : CompileOptions} {dir : List Bytes} {name path : Bytes}
  {entries : List (Bytes × Entry)}

/-- A directory in a directory is found to be one. -/
theorem Plain.isDirectory_iff (hw : w.Plain) (hdir : w.tree.at? dir = some (.directory entries))
    (hname : Path.IsName name) :
    w.isDirectory (Path.ofWay (dir ++ [name])) = true ↔ w.view (dir ++ [name]) = .directory := by
  rw [isDirectory, stat, lookup, hw.locate_concat hdir hname, view]
  rcases w.tree.at? (dir ++ [name]) with _ | ⟨_ | _ | _⟩ <;>
    simp [Entry.view, Except.mapError, Entry.isDirectory]

/-- A tree file stands in a directory, and can be read. -/
theorem Plain.exists_of_isTreeFile (hw : w.Plain) (h : IsTreeFile w dir name) :
    ∃ entries source, w.tree.at? dir = some (.directory entries) ∧ Path.IsWay dir ∧
      Path.IsName name ∧ w.read (Path.ofWay (dir ++ [name])) = .ok source := by
  obtain ⟨-, source, hview⟩ := h
  have hat := Entry.view_eq_file_iff.1 hview
  obtain ⟨entries, hentries⟩ := Entry.exists_directory_of_at? hat
  have hway := Path.isWay_append.1 (hw.tree.at? hat).1
  exact ⟨entries, source, hentries, hway.1, Path.isWay_singleton.1 hway.2, hw.read_of_at? hat⟩

theorem Plain.isWay_output (hw : w.Plain) (h : IsTreeFile w dir name) :
    Path.IsWay (dir ++ [Output.path name]) := by
  obtain ⟨-, -, -, hdir, hname, -⟩ := hw.exists_of_isTreeFile h
  exact Path.isWay_append.2 ⟨hdir, Path.isWay_singleton.2 (Output.isName_path h.1 hname)⟩

/-- Different tree files have different module files. -/
theorem Plain.eq_of_output_eq (hw : w.Plain) {path' : Bytes} (h : w.IsTreePath path)
    (h' : w.IsTreePath path') (heq : Output.path path = Output.path path') : path = path' := by
  obtain ⟨dir, name, rfl, hfile⟩ := h
  obtain ⟨dir', name', rfl, hfile'⟩ := h'
  rw [Output.path_ofWay hfile.1, Output.path_ofWay hfile'.1] at heq
  have hways := Path.ofWay_injective (hw.isWay_output hfile) (hw.isWay_output hfile') heq
  obtain ⟨rfl, hnames⟩ := List.append_inj' hways rfl
  rw [Output.path_injective hfile.1 hfile'.1 (List.singleton_inj.1 hnames)]

/-- The modules of other tree files do not matter. -/
theorem moduleAt_of_alike (h : Alike w w') (hpath : w.IsTreePath path) :
    w'.moduleAt o path = w.moduleAt o path := by
  obtain ⟨dir, name, rfl, hfile⟩ := hpath
  have hfile' : IsTreeFile w' dir name := h.isTreeFile_iff.2 hfile
  obtain ⟨entries, source, hentries, -, hname, hread⟩ := h.plain.exists_of_isTreeFile hfile
  obtain ⟨entries', source', hentries', -, -, hread'⟩ := h.plain'.exists_of_isTreeFile hfile'
  -- the text of a tree file is the same in both
  have hsource : source' = source := by
    have hview := (h.plain.read_concat_iff hentries hname).1 hread
    have hview' := (h.plain'.read_concat_iff hentries' hname).1 hread'
    rw [h.view_of_isTreeName hfile.1, hview] at hview'
    exact (Entry.View.file.inj hview').symm
  have hdirectory : w'.isDirectory (Output.path (Path.ofWay (dir ++ [name]))) =
      w.isDirectory (Output.path (Path.ofWay (dir ++ [name]))) := by
    have hout := Output.isName_path hfile.1 hname
    rw [Output.path_ofWay hfile.1, Bool.eq_iff_iff, h.plain'.isDirectory_iff hentries' hout,
      h.plain.isDirectory_iff hentries hout]
    -- no directory comes, since all that is written are files
    refine ⟨fun hview => ?_, h.view_eq_directory⟩
    rcases h.view dir (Output.path name) with heq | ⟨-, -, content, hcontent⟩
    · rw [← heq, hview]
    · rw [hcontent] at hview
      cases hview
  rw [moduleAt, moduleAt, hread, hread', hsource, hdirectory]

/-- Nor do they matter to whether it fails. -/
theorem fault?_of_alike (h : Alike w w') (hpath : w.IsTreePath path) :
    w'.fault? o path = w.fault? o path := by
  rw [fault?, fault?, moduleAt_of_alike h hpath]

end

end Workspace

/-! ## One tree file -/

namespace Generated

variable {o : GenerateOptions} {g : Generated} {dir : List Bytes} {name : Bytes}

/-- Notes go to the log, the last one in front. -/
theorem foldl_note (notes : List Bytes) (g : Generated) :
    notes.foldl (fun g n => g.note .debug n) g =
      { g with log := (notes.map (LogEntry.mk .debug)).reverse ++ g.log } := by
  induction notes generalizing g with
  | nil => rfl
  | cons n notes ih =>
    rw [List.foldl_cons, ih]
    simp [note]

/-- What becomes of a module: it is kept back by a directory, there already, or written. -/
theorem put_eq (hprint : o.print = false) (hg : g.workspace.Plain)
    (hfile : IsTreeFile g.workspace dir name) (module : Bytes) :
    g.put o (Path.ofWay (dir ++ [name])) module =
      let file := Output.path (Path.ofWay (dir ++ [name]))
      if g.workspace.isDirectory file then g.fail (.unwritable ⟨file, Workspace.blocked file⟩)
      else if g.workspace.view (dir ++ [Output.path name]) = .file module then
        g.note .debug (file ++ ascii " is up to date")
      else
        ({ g with workspace := g.workspace.withFile (dir ++ [Output.path name]) module } :
          Generated).note .info (ascii "Wrote " ++ file) := by
  obtain ⟨entries, -, hentries, -, hname, -⟩ := hg.exists_of_isTreeFile hfile
  have hout := Output.isName_path hfile.1 hname
  simp only [put, hprint, Bool.false_eq_true, if_false, Output.path_ofWay hfile.1,
    hg.write_eq hentries hout, hg.isDirectory_iff hentries hout]
  -- a directory is no file, so the two tests come in either order
  by_cases hdirectory : g.workspace.view (dir ++ [Output.path name]) = .directory
  · have hne : Entry.View.directory ≠ .file module := by simp
    rw [hdirectory, if_neg hne, if_pos rfl, if_pos rfl]
  · rw [if_neg hdirectory, if_neg hdirectory]
    by_cases hsame : g.workspace.view (dir ++ [Output.path name]) = .file module
    · rw [if_pos hsame, if_pos hsame]
    · rw [if_neg hsame, if_neg hsame]

/-- Everything that compiling a tree file does. -/
theorem compileFile_eq (hprint : o.print = false) (hg : g.workspace.Plain)
    (hfile : IsTreeFile g.workspace dir name) :
    ∃ notes : List LogEntry, (∀ e ∈ notes, e.level = .debug) ∧
      g.compileFile o (Path.ofWay (dir ++ [name])) =
        match g.workspace.moduleAt o.compile (Path.ofWay (dir ++ [name])) with
        | .error e => { g with log := notes ++ g.log, failures := e :: g.failures }
        | .ok module =>
          if g.workspace.view (dir ++ [Output.path name]) = .file module then
            { g with log := notes ++ g.log }
          else
            { g with
              workspace := g.workspace.withFile (dir ++ [Output.path name]) module
              log := ⟨.info, ascii "Wrote " ++ Output.path (Path.ofWay (dir ++ [name]))⟩ ::
                (notes ++ g.log) } := by
  obtain ⟨-, source, -, -, -, hread⟩ := hg.exists_of_isTreeFile hfile
  unfold compileFile Workspace.moduleAt moduleOf
  simp only [hread]
  cases hdecode : Document.decode source with
  | error e => exact ⟨[], by simp, rfl⟩
  | ok d =>
    -- the notes about the document come before anything else, whatever becomes of it
    simp only [foldl_note]
    have hnotes : ∀ e ∈ (d.compileNotes.map (LogEntry.mk .debug)).reverse, e.level = .debug := by
      intro e he
      obtain ⟨n, -, rfl⟩ := List.mem_map.1 (List.mem_reverse.1 he)
      rfl
    generalize (d.compileNotes.map (LogEntry.mk .debug)).reverse = notes at hnotes ⊢
    cases hcompile : d.compile o.compile with
    | error e => exact ⟨notes, hnotes, rfl⟩
    | ok module =>
      -- a directory in the way, a module that is there already, and a module that is written
      have hput := put_eq (g := { g with log := notes ++ g.log }) hprint hg hfile module
      simp only [Except.mapError, hput]
      by_cases hdirectory :
          g.workspace.isDirectory (Output.path (Path.ofWay (dir ++ [name]))) = true
      · simp only [hdirectory, if_true]
        exact ⟨notes, hnotes, rfl⟩
      · simp only [hdirectory, Bool.false_eq_true, if_false]
        by_cases hsame : g.workspace.view (dir ++ [Output.path name]) = .file module
        · simp only [hsame, if_true]
          refine ⟨⟨.debug, Output.path (Path.ofWay (dir ++ [name])) ++ ascii " is up to date"⟩ ::
            notes, ?_, rfl⟩
          exact List.forall_mem_cons.2 ⟨rfl, hnotes⟩
        · simp only [hsame, if_false]
          exact ⟨notes, hnotes, rfl⟩

/-! ## All tree files -/

/-- What holds after some tree files of a workspace have been compiled. -/
structure Progress (o : CompileOptions) (w : Workspace) (done : List Bytes) (g : Generated) :
    Prop where
  /-- The tree files and the directories are those of the start. -/
  alike : Alike w g.workspace
  trees : ∀ path ∈ done, w.IsTreePath path
  failures : g.failures = (done.filterMap (w.fault? o)).reverse
  written : ∀ path ∈ done, ∀ module, w.moduleAt o path = .ok module →
    ∀ way, Path.IsWay way → Path.ofWay way = Output.path path → g.workspace.view way = .file module
  /-- Where no module has been written, nothing has changed. -/
  unchanged : ∀ way, (∀ path ∈ done, w.fault? o path = none → Path.ofWay way ≠ Output.path path) →
    g.workspace.view way = w.view way

theorem Progress.start {o : CompileOptions} {w : Workspace} (hw : w.Plain) :
    Progress o w [] { workspace := w } where
  alike := .refl hw
  trees := by simp
  failures := rfl
  written := by simp
  unchanged _ _ := rfl

theorem Progress.trees_concat {o : CompileOptions} {w : Workspace} {done : List Bytes}
    (h : Progress o w done g) {path : Bytes} (hpath : w.IsTreePath path) :
    ∀ p ∈ done ++ [path], w.IsTreePath p :=
  List.forall_mem_append.2 ⟨h.trees, List.forall_mem_singleton.2 hpath⟩

/-- A tree file that fails adds its failure, and nothing else. -/
theorem Progress.fail {o : CompileOptions} {w : Workspace} {done : List Bytes}
    (h : Progress o w done g) {path : Bytes} (hpath : w.IsTreePath path) {e : TreeFileError}
    (he : w.moduleAt o path = .error e) (log : List LogEntry) :
    Progress o w (done ++ [path]) { g with log := log, failures := e :: g.failures } where
  alike := h.alike
  trees := h.trees_concat hpath
  failures := by
    simp [h.failures, Workspace.fault?, he]
  written := by
    intro p hp module hmodule
    rcases List.mem_append.1 hp with hp | hp
    · exact h.written p hp module hmodule
    · rw [List.mem_singleton.1 hp, he] at hmodule
      cases hmodule
  unchanged way hway := h.unchanged way fun p hp => hway p (List.mem_append_left _ hp)

/-- A tree file with a module has it written: it is in its place, and all other places are as
before. -/
theorem Progress.write {o : CompileOptions} {w v : Workspace} {done : List Bytes}
    (h : Progress o w done g) (hfile : IsTreeFile w dir name) {module : Bytes}
    (hmodule : w.moduleAt o (Path.ofWay (dir ++ [name])) = .ok module) (hv : Alike g.workspace v)
    (hself : v.view (dir ++ [Output.path name]) = .file module)
    (hother : ∀ way, way ≠ dir ++ [Output.path name] → v.view way = g.workspace.view way)
    (log : List LogEntry) :
    Progress o w (done ++ [Path.ofWay (dir ++ [name])]) { g with workspace := v, log := log } where
  alike := h.alike.trans hv
  trees := h.trees_concat ⟨dir, name, rfl, hfile⟩
  failures := by
    simp [h.failures, Workspace.fault?, hmodule]
  written := by
    intro p hp module' hmodule' way hway heq
    have hout : Output.path (Path.ofWay (dir ++ [name])) = Path.ofWay (dir ++ [Output.path name]) :=
      Output.path_ofWay hfile.1 dir
    have hw : w.Plain := h.alike.plain
    by_cases hsame : way = dir ++ [Output.path name]
    · -- only this tree file has this module file
      have hpath : p = Path.ofWay (dir ++ [name]) := by
        apply hw.eq_of_output_eq (h.trees_concat ⟨dir, name, rfl, hfile⟩ p hp)
          ⟨dir, name, rfl, hfile⟩
        rw [← heq, hsame, hout]
      rw [hpath, hmodule] at hmodule'
      rw [hsame, ← Except.ok.inj hmodule']
      exact hself
    · show v.view way = _
      rw [hother way hsame]
      rcases List.mem_append.1 hp with hp | hp
      · exact h.written p hp module' hmodule' way hway heq
      · rw [List.mem_singleton.1 hp, hout] at heq
        exact absurd (Path.ofWay_injective hway (hw.isWay_output hfile) heq) hsame
  unchanged := by
    intro way hway
    -- this module is written, so its place is not among those that stay
    have hne : way ≠ dir ++ [Output.path name] := by
      rintro rfl
      apply hway _ (List.mem_append_right _ (List.mem_singleton_self _))
      · simp [Workspace.fault?, hmodule]
      · rw [Output.path_ofWay hfile.1]
    show v.view way = _
    rw [hother way hne]
    exact h.unchanged way fun p hp => hway p (List.mem_append_left _ hp)

/-- There is no directory in the way of a module. -/
theorem view_ne_directory_of_moduleAt {w : Workspace} (hw : w.Plain) {o : CompileOptions}
    (hfile : IsTreeFile w dir name) {module : Bytes}
    (h : w.moduleAt o (Path.ofWay (dir ++ [name])) = .ok module) :
    w.view (dir ++ [Output.path name]) ≠ .directory := by
  obtain ⟨entries, source, hentries, -, hname, hread⟩ := hw.exists_of_isTreeFile hfile
  intro hview
  rw [← hw.isDirectory_iff hentries (Output.isName_path hfile.1 hname)] at hview
  simp only [Workspace.moduleAt, hread, Output.path_ofWay hfile.1, hview, if_true] at h
  cases hmodule : moduleOf o (Path.ofWay (dir ++ [name])) source <;> simp [hmodule] at h

/-- One tree file keeps the invariant, whether it fails, has its module already or gets it. -/
theorem Progress.step {w : Workspace} (hprint : o.print = false) {done : List Bytes}
    (h : Progress o.compile w done g) {path : Bytes} (hpath : w.IsTreePath path) :
    Progress o.compile w (done ++ [path]) (g.compileFile o path) := by
  obtain ⟨dir, name, rfl, hfile⟩ := hpath
  have hg : g.workspace.Plain := h.alike.plain'
  have hfile' : IsTreeFile g.workspace dir name := h.alike.isTreeFile_iff.2 hfile
  have hsame : g.workspace.moduleAt o.compile (Path.ofWay (dir ++ [name])) =
      w.moduleAt o.compile (Path.ofWay (dir ++ [name])) :=
    Workspace.moduleAt_of_alike h.alike ⟨dir, name, rfl, hfile⟩
  obtain ⟨notes, -, hstep⟩ := compileFile_eq hprint hg hfile'
  rw [hstep]
  cases hmodule : g.workspace.moduleAt o.compile (Path.ofWay (dir ++ [name])) with
  | error e => exact h.fail ⟨dir, name, rfl, hfile⟩ (hsame ▸ hmodule) _
  | ok module =>
    simp only
    split
    · -- the module is there already
      next hview => exact h.write hfile (hsame ▸ hmodule) (.refl hg) hview (fun _ _ => rfl) _
    · -- the module is written where there is none, or another one
      obtain ⟨entries, -, hentries, -, hname, -⟩ := hg.exists_of_isTreeFile hfile'
      have hfree := view_ne_directory_of_moduleAt hg hfile' hmodule
      apply h.write hfile (hsame ▸ hmodule)
      · exact .withFile hg hentries (Output.isName_path hfile.1 hname)
          (Output.isTreeName_path hfile.1) hfree module
      · exact Workspace.view_withFile_self hentries
      · exact fun way hway => Workspace.view_withFile_of_ne hentries hfree hway

/-- All tree files, one after the other. By induction on those to come. -/
theorem Progress.run {w : Workspace} (hprint : o.print = false) {done paths : List Bytes}
    (h : Progress o.compile w done g) (hpaths : ∀ path ∈ paths, w.IsTreePath path) :
    Progress o.compile w (done ++ paths) (paths.foldl (compileFile o) g) := by
  -- the tree files that are done grow by one in each step
  induction paths generalizing done g with
  | nil => simpa using h
  | cons path paths ih =>
    obtain ⟨hpath, hpaths⟩ := List.forall_mem_cons.1 hpaths
    have hrun := ih (h.step hprint hpath) hpaths
    rwa [List.append_assoc] at hrun

theorem Progress.generate {w : Workspace} (hw : w.Plain) (o : GenerateOptions)
    (hprint : o.print = false) {paths : List Bytes} (hpaths : ∀ path ∈ paths, w.IsTreePath path) :
    Progress o.compile w paths (generate o w paths) :=
  Progress.run hprint (.start hw) hpaths

/-! ## A second run -/

/-- The module file of a tree file is as it should be. -/
def Settled (o : CompileOptions) (w : Workspace) (path : Bytes) : Prop :=
  ∀ module, w.moduleAt o path = .ok module →
    ∀ way, Path.IsWay way → Path.ofWay way = Output.path path → w.view way = .file module

/-- After a run, the module files of its tree files are as they should be. -/
theorem Progress.settled {o : CompileOptions} {w : Workspace} {done : List Bytes}
    (h : Progress o w done g) {path : Bytes} (hpath : path ∈ done) :
    Settled o g.workspace path := by
  intro module hmodule
  rw [Workspace.moduleAt_of_alike h.alike (h.trees path hpath)] at hmodule
  exact h.written path hpath module hmodule

/-- Where everything is as it should be, nothing is written. -/
theorem compileFile_of_settled (hprint : o.print = false) (hg : g.workspace.Plain) {path : Bytes}
    (hpath : g.workspace.IsTreePath path) (hsettled : Settled o.compile g.workspace path) :
    (g.compileFile o path).workspace = g.workspace ∧
      ∀ e ∈ (g.compileFile o path).log, e ∈ g.log ∨ e.level = .debug := by
  obtain ⟨dir, name, rfl, hfile⟩ := hpath
  obtain ⟨notes, hnotes, hstep⟩ := compileFile_eq hprint hg hfile
  have hlog : ∀ e ∈ notes ++ g.log, e ∈ g.log ∨ e.level = .debug := by
    intro e he
    rcases List.mem_append.1 he with he | he
    · exact Or.inr (hnotes e he)
    · exact Or.inl he
  rw [hstep]
  cases hmodule : g.workspace.moduleAt o.compile (Path.ofWay (dir ++ [name])) with
  | error e => exact ⟨rfl, hlog⟩
  | ok module =>
    -- the module is in its place, so it is up to date
    have hview : g.workspace.view (dir ++ [Output.path name]) = .file module := by
      apply hsettled module hmodule
      · exact hg.isWay_output hfile
      · rw [Output.path_ofWay hfile.1]
    simp only [hview, if_true, true_and]
    exact hlog

/-- So it is with all tree files one after the other. -/
theorem foldl_compileFile_of_settled (hprint : o.print = false) (hg : g.workspace.Plain)
    {paths : List Bytes}
    (hpaths : ∀ path ∈ paths, g.workspace.IsTreePath path ∧ Settled o.compile g.workspace path) :
    (paths.foldl (compileFile o) g).workspace = g.workspace ∧
      ∀ e ∈ (paths.foldl (compileFile o) g).log, e ∈ g.log ∨ e.level = .debug := by
  -- no step changes the workspace, so all module files stay as they should be
  induction paths generalizing g with
  | nil => exact ⟨rfl, fun e he => Or.inl he⟩
  | cons path paths ih =>
    obtain ⟨⟨hpath, hsettled⟩, hpaths⟩ := List.forall_mem_cons.1 hpaths
    obtain ⟨hworkspace, hlog⟩ := compileFile_of_settled hprint hg hpath hsettled
    obtain ⟨hworkspace', hlog'⟩ :=
      ih (g := g.compileFile o path) (hworkspace ▸ hg) (by rwa [hworkspace])
    refine ⟨hworkspace'.trans hworkspace, fun e he => ?_⟩
    rcases hlog' e he with he | he
    · exact hlog e he
    · exact Or.inr he

end Generated

/-! ## Runs -/

namespace Command

section

variable {w w' : Workspace} {fs : Flags} {arguments paths : List Bytes}

/-- The searches of a run from its working directory. -/
theorem treeFiles_eq {cwd : Bytes} (h : w.cwd = some cwd) :
    treeFiles w fs arguments =
      if (Bytes.trim fs.dir).isEmpty then (Search.files w cwd arguments).mapError .search
      else if !arguments.isEmpty then .error .dirAndPaths
      else (Search.inDirectory w
        (if Path.isAbsolute fs.dir then fs.dir else Path.child cwd fs.dir)).mapError .file := by
  simp only [treeFiles, Workspace.workingDirectory, h]
  congr 1
  · cases Search.files w cwd arguments <;> rfl
  · congr 1
    cases Search.inDirectory w (if Path.isAbsolute fs.dir then fs.dir else Path.child cwd fs.dir)
      <;> rfl

/-- A run that finds its tree files has a working directory. -/
theorem exists_cwd_of_treeFiles (hw : w.Plain) (h : treeFiles w fs arguments = .ok paths) :
    ∃ cwd, w.cwd = some cwd ∧ Path.isAbsolute cwd = true := by
  cases hcwd : w.cwd with
  | none =>
    simp only [treeFiles, Workspace.workingDirectory, hcwd] at h
    cases h
  | some cwd => exact ⟨cwd, rfl, hw.cwd cwd hcwd⟩

/-- The directory that a run is told to search is given from the root. -/
theorem isAbsolute_directory {cwd : Bytes} (h : Path.isAbsolute cwd = true) (dir : Bytes) :
    Path.isAbsolute (if Path.isAbsolute dir then dir else Path.child cwd dir) = true := by
  split
  · next hdir => exact hdir
  · obtain ⟨p, hp, hchild⟩ := Path.exists_child_eq_clean h dir
    rw [hchild, Path.clean_eq_ofWay hp]
    exact Path.isAbsolute_ofWay _

/-- A run finds its tree files by their places, and in order. -/
theorem finds_treeFiles (hw : w.Plain) (h : treeFiles w fs arguments = .ok paths) :
    Finds w (treeFiles · fs arguments) ∧ Bytes.Increasing paths := by
  obtain ⟨cwd, hcwd, habs⟩ := exists_cwd_of_treeFiles hw h
  -- the arguments are searched for, or else the one directory
  rw [treeFiles_eq hcwd] at h
  split at h
  · next hdir =>
    rw [mapError_eq_ok_iff] at h
    refine ⟨((Search.finds_files hw habs h).mapError RunError.search).congr fun w' hw' => ?_,
      Search.increasing_files h⟩
    rw [treeFiles_eq (hw'.cwd.trans hcwd), if_pos hdir]
  · next hdir =>
    split at h
    · cases h
    · next hnone =>
      rw [mapError_eq_ok_iff] at h
      have hflag := isAbsolute_directory habs fs.dir
      refine ⟨((Search.finds_inDirectory hw hflag h).mapError RunError.file).congr fun w' hw' => ?_,
        Search.increasing_inDirectory hw hflag h⟩
      rw [treeFiles_eq (hw'.cwd.trans hcwd), if_neg hdir, if_neg hnone]

/-- The same tree files are found, and they come in the same order. -/
theorem treeFiles_of_alike (hw : Alike w w') (h : treeFiles w fs arguments = .ok paths) :
    treeFiles w' fs arguments = .ok paths := by
  obtain ⟨hfinds, hpaths⟩ := finds_treeFiles hw.plain h
  obtain ⟨found, hfound, hmem⟩ := hfinds.mem_iff hw h
  -- both lists increase and have the same members
  rw [hfound, (finds_treeFiles hw.plain' hfound).2.ext hpaths hmem]

/-- What a run over tree files leaves of a workspace. -/
structure Leaves (o : CompileOptions) (w : Workspace) (paths : List Bytes) (left : Workspace) :
    Prop where
  /-- The tree files can be read, before and after. -/
  sources : ∀ path ∈ paths, ∃ source, w.read path = .ok source ∧ left.read path = .ok source
  /-- A module file holds the module of its tree file, where there is one and no directory is in its
  way. -/
  written : ∀ path ∈ paths, ∀ source module, w.read path = .ok source →
    moduleOf o path source = .ok module → w.isDirectory (Output.path path) = false →
    left.read (Output.path path) = .ok module
  /-- The place of the module file of a tree file that fails is as it was. -/
  failed : ∀ path ∈ paths, w.fault? o path ≠ none →
    ∀ way, Path.ofWay way = Output.path path → left.view way = w.view way
  /-- No tree file changes, whether it is compiled or not. -/
  treeFiles : ∀ dir name, isTreeName name = true →
    left.view (dir ++ [name]) = w.view (dir ++ [name])
  /-- All places but those of the modules show what they showed. -/
  unchanged : ∀ way, (∀ path ∈ paths, w.fault? o path = none → Path.ofWay way ≠ Output.path path) →
    left.view way = w.view way

/-- What holds after all tree files have been compiled is what a run leaves. -/
theorem leaves_of_progress {o : CompileOptions} {g : Generated}
    (h : Generated.Progress o w paths g) : Leaves o w paths g.workspace where
  sources := by
    intro path hpath
    obtain ⟨dir, name, rfl, hfile⟩ := h.trees path hpath
    obtain ⟨entries, source, hentries, -, hname, hread⟩ := h.alike.plain.exists_of_isTreeFile hfile
    refine ⟨source, hread, ?_⟩
    -- a tree file shows what it showed, so it reads the same
    have hview := (h.alike.plain.read_concat_iff hentries hname).1 hread
    rw [← h.alike.view_of_isTreeName hfile.1] at hview
    exact h.alike.plain'.read_of_at? (Entry.view_eq_file_iff.1 hview)
  written := by
    intro path hpath source module hread hmodule hfree
    obtain ⟨dir, name, rfl, hfile⟩ := h.trees path hpath
    have hat : w.moduleAt o (Path.ofWay (dir ++ [name])) = .ok module := by
      simp [Workspace.moduleAt, hread, hmodule, hfree]
    rw [Output.path_ofWay hfile.1]
    apply h.alike.plain'.read_of_at?
    apply Entry.view_eq_file_iff.1
    apply h.written _ hpath module hat
    · exact h.alike.plain.isWay_output hfile
    · rw [Output.path_ofWay hfile.1]
  failed := by
    intro path hpath hfault way hway
    apply h.unchanged
    -- a module in this place would be that of the tree file that fails
    intro path' hpath' hnone heq
    have hsame := h.alike.plain.eq_of_output_eq (h.trees path hpath) (h.trees path' hpath')
      (hway.symm.trans heq)
    exact hfault (hsame ▸ hnone)
  treeFiles dir name hname := h.alike.view_of_isTreeName hname dir
  unchanged := h.unchanged

theorem isTreePath_of_treeFiles (hw : w.Plain) (h : treeFiles w fs arguments = .ok paths) :
    ∀ path ∈ paths, w.IsTreePath path :=
  fun _ hpath => (finds_treeFiles hw h).1.isTreeFile hw h hpath

/-- The error of a run is made of the failures of its tree files. -/
def report (faults : List TreeFileError) : Option RunError :=
  if faults.isEmpty then none else some (.treeFiles faults)

/-- A run reports nothing if no tree file fails. -/
theorem report_eq_none_iff {o : CompileOptions} :
    report (paths.filterMap (w.fault? o)) = none ↔ ∀ path ∈ paths, w.fault? o path = none := by
  rw [← List.filterMap_eq_nil_iff, report]
  cases paths.filterMap (w.fault? o) <;> simp

/-- The failures are gathered with the last one first. -/
theorem report_failures {o : CompileOptions} {g : Generated} (h : Generated.Progress o w paths g) :
    (if g.failures.isEmpty then none else some (RunError.treeFiles g.failures.reverse)) =
      report (paths.filterMap (w.fault? o)) := by
  rw [h.failures, report, List.reverse_reverse, List.isEmpty_reverse]

/-- How the documents of a run are compiled. -/
def compileOptions (c : Config) : CompileOptions := ⟨c.skipExport, c.preserveNewlines, c.maxDepth⟩

/-- A run compiles the tree files that it finds, and reports those that fail. -/
theorem progress_runGenerate (hw : w.Plain) (hprint : fs.stdout = false) (c : Config)
    (level : Level) (hfound : treeFiles w fs arguments = .ok paths) :
    ∃ g, Generated.Progress (compileOptions c) w paths g ∧
      (runGenerate w fs c level arguments).workspace = g.workspace ∧
      (runGenerate w fs c level arguments).error =
        report (paths.filterMap (w.fault? (compileOptions c))) := by
  have hprogress : Generated.Progress (compileOptions c) w paths
      (generate ⟨compileOptions c, fs.stdout⟩ w paths) :=
    .generate hw ⟨compileOptions c, fs.stdout⟩ hprint (isTreePath_of_treeFiles hw hfound)
  refine ⟨_, hprogress, ?_, ?_⟩
  · rw [runGenerate, hfound]
    rfl
  · rw [← report_failures hprogress, runGenerate, hfound]
    rfl

/-- Where all modules are in place, a run changes nothing and tells of no file that it has
written. -/
theorem runGenerate_of_settled (hw : w.Plain) (hprint : fs.stdout = false) (c : Config)
    (level : Level) (hfound : treeFiles w fs arguments = .ok paths)
    (hsettled : ∀ path ∈ paths, Generated.Settled (compileOptions c) w path) :
    (runGenerate w fs c level arguments).workspace = w ∧
      ∀ e ∈ (runGenerate w fs c level arguments).log, e.level = .debug := by
  have hpaths := isTreePath_of_treeFiles hw hfound
  obtain ⟨hsame, hlog⟩ :=
    Generated.foldl_compileFile_of_settled (o := ⟨compileOptions c, fs.stdout⟩)
    (g := { workspace := w }) hprint hw fun path hpath => ⟨hpaths path hpath, hsettled path hpath⟩
  simp only [runGenerate, hfound]
  refine ⟨hsame, fun e he => ?_⟩
  -- the log begins with a note of the run itself
  rcases List.mem_cons.1 (List.mem_filter.1 he).1 with rfl | he
  · rfl
  · rcases hlog e (List.mem_reverse.1 he) with he | he
    · cases he
    · exact he

end

/-- **What a run does to the disk.** In a workspace without links, a run that writes modules leaves
each module in the place of its module file and everything else as it was (`Leaves`). It fails when
a tree file fails, with the failures of those that do, in the order of their paths. A second run
finds the same tree files, fails in the same way, changes nothing and tells of no file that it has
written. -/
theorem runGenerate_leaves {w : Workspace} (hw : w.Plain) {fs : Flags} (hprint : fs.stdout = false)
    (c : Config) (level : Level) {arguments paths : List Bytes}
    (hfound : treeFiles w fs arguments = .ok paths) :
    let o := compileOptions c
    let first := runGenerate w fs c level arguments
    let second := runGenerate first.workspace fs c level arguments
    Bytes.Increasing paths ∧ Leaves o w paths first.workspace ∧
      (first.error = none ↔ ∀ path ∈ paths, w.fault? o path = none) ∧
      first.error = report (paths.filterMap (w.fault? o)) ∧
      second.workspace = first.workspace ∧ second.error = first.error ∧
        ∀ e ∈ second.log, e.level = .debug := by
  intro o first second
  obtain ⟨g, hprogress, hworkspace, herror⟩ := progress_runGenerate hw hprint c level hfound
  -- the second run starts from a workspace with the same tree files, and all modules are in place
  have halike : Alike w first.workspace := hworkspace ▸ hprogress.alike
  have hfound' : treeFiles first.workspace fs arguments = .ok paths :=
    treeFiles_of_alike halike hfound
  have hsettled : ∀ path ∈ paths, Generated.Settled o first.workspace path := by
    intro path hpath
    rw [hworkspace]
    exact hprogress.settled hpath
  obtain ⟨hsame, hlog⟩ := runGenerate_of_settled halike.plain' hprint c level hfound' hsettled
  obtain ⟨-, -, -, herror'⟩ := progress_runGenerate halike.plain' hprint c level hfound'
  have hfaults : paths.filterMap (first.workspace.fault? o) = paths.filterMap (w.fault? o) :=
    List.filterMap_congr fun path hpath =>
      Workspace.fault?_of_alike halike (isTreePath_of_treeFiles hw hfound path hpath)
  refine ⟨(finds_treeFiles hw hfound).2, ?_, ?_, herror, hsame, ?_, hlog⟩
  · rw [hworkspace]
    exact leaves_of_progress hprogress
  · rw [herror, report_eq_none_iff]
  · rw [herror', hfaults, herror]

/-- A directory with a tree file that has a module, one that holds no document, and one with a
directory in the place of its module file. The first name for a temporary file is taken. -/
def mixedWorkspace : Workspace where
  tree := .directory [(ascii "site", .directory
    [(ascii "stuck.hast.json", .file (ascii "\x7b\"type\":\"root\",\"children\":[]\x7d")),
     (ascii "good.hast.json", .file (ascii "\x7b\"type\":\"root\",\"children\":[]\x7d")),
     (ascii "bad.hast.json", .file (ascii "[]")),
     (ascii "stuck.jsx", .directory []),
     (ascii ".good.jsx.0", .file (ascii "draft"))])]
  cwd := some (ascii "/site")

/-- The tree files out of order, and one of them twice. -/
def mixedArguments : List Bytes :=
  [ascii "stuck.hast.json", ascii "./good.hast.json", ascii "/site/bad.hast.json",
    ascii "good.hast.json"]

/-- What the arguments select. -/
def mixedPaths : List Bytes :=
  [ascii "/site/bad.hast.json", ascii "/site/good.hast.json", ascii "/site/stuck.hast.json"]

theorem mixedWorkspace_plain : mixedWorkspace.Plain where
  root := ⟨_, rfl⟩
  tree := by
    refine .directory (by decide) (by decide) (List.forall_mem_singleton.2 ?_)
    refine .directory (by decide) (by decide) ?_
    simp only [List.forall_mem_cons]
    exact ⟨.file _, .file _, .file _, .directory (by simp) (by simp) (by simp), .file _, by simp⟩
  cwd := by
    intro path hpath
    obtain rfl := Option.some.inj hpath
    rfl

/-- The tree files are found in order and each once. -/
theorem treeFiles_mixedWorkspace : treeFiles mixedWorkspace {} mixedArguments = .ok mixedPaths := by
  have hfound : (Search.patternsInForce mixedArguments).mapM
      (Search.Pattern.files mixedWorkspace (ascii "/site")) =
        .ok [[ascii "/site/stuck.hast.json"], [ascii "/site/good.hast.json"],
          [ascii "/site/bad.hast.json"], [ascii "/site/good.hast.json"]] := by
    decide +kernel
  have hcwd : mixedWorkspace.cwd = some (ascii "/site") := rfl
  rw [treeFiles_eq hcwd, if_pos (by decide), mapError_eq_ok_iff, Search.files, map_eq_ok_iff]
  exact ⟨_, hfound, Bytes.sort_eq_of_perm (by decide +kernel) (by decide +kernel)⟩

theorem runGenerate_leaves_mixed :
    let first := runGenerate mixedWorkspace {} Config.initial .info mixedArguments
    mixedWorkspace.Plain ∧ treeFiles mixedWorkspace {} mixedArguments = .ok mixedPaths ∧
      Leaves (compileOptions Config.initial) mixedWorkspace mixedPaths first.workspace ∧
      (∃ module, first.workspace.read (ascii "/site/good.jsx") = .ok module) ∧
      first.workspace.view [ascii "site", ascii "stuck.jsx"] = .directory ∧
      first.workspace.view [ascii "site", ascii "bad.jsx"] = .absent ∧
      first.workspace.view [ascii "site", ascii ".good.jsx.0"] = .file (ascii "draft") ∧
      first.workspace.view [ascii "site", ascii ".good.jsx.1"] = .absent ∧
      first.error ≠ none ∧
      (runGenerate first.workspace {} Config.initial .info mixedArguments).workspace =
        first.workspace := by
  intro first
  obtain ⟨-, hleaves, herror, -, hsecond, -⟩ :=
    runGenerate_leaves mixedWorkspace_plain rfl Config.initial .info treeFiles_mixedWorkspace
  have hbad :
      mixedWorkspace.fault? (compileOptions Config.initial) (ascii "/site/bad.hast.json") ≠ none :=
    Option.isSome_iff_ne_none.1 (by decide +kernel)
  have hstuck :
      mixedWorkspace.fault? (compileOptions Config.initial) (ascii "/site/stuck.hast.json") ≠
        none :=
    Option.isSome_iff_ne_none.1 (by decide +kernel)
  -- no module goes to the names of temporary files
  have hother : ∀ name ∈ [ascii ".good.jsx.0", ascii ".good.jsx.1"],
      first.workspace.view [ascii "site", name] = mixedWorkspace.view [ascii "site", name] := by
    intro name hname
    refine hleaves.unchanged _ fun path hpath _ => ?_
    revert path name
    decide +kernel
  refine ⟨mixedWorkspace_plain, treeFiles_mixedWorkspace, hleaves, ?_, ?_, ?_, ?_, ?_, ?_, hsecond⟩
  · have hok : (moduleOf (compileOptions Config.initial) (ascii "/site/good.hast.json")
        (ascii "\x7b\"type\":\"root\",\"children\":[]\x7d")).isOk = true := by
      decide +kernel
    cases hmodule : moduleOf (compileOptions Config.initial) (ascii "/site/good.hast.json")
        (ascii "\x7b\"type\":\"root\",\"children\":[]\x7d") with
    | error e =>
      rw [hmodule] at hok
      cases hok
    | ok module =>
      exact ⟨module, hleaves.written (ascii "/site/good.hast.json") (by decide) _ module
        (by decide +kernel) hmodule (by decide +kernel)⟩
  · exact (hleaves.failed _ (by decide) hstuck _ (by decide +kernel)).trans (by decide +kernel)
  · exact (hleaves.failed _ (by decide) hbad _ (by decide +kernel)).trans (by decide +kernel)
  · exact (hother _ (by decide)).trans (by decide +kernel)
  · exact (hother _ (by decide)).trans (by decide +kernel)
  · exact fun hnone => hbad (herror.1 hnone _ (by decide))

end Command

end DocTree
