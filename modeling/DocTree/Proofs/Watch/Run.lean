import DocTree.Proofs.Command.Generate
import DocTree.Watch

/-!
# What the watcher does in the long run

A run of the watcher is a list of changes that are made to the files, with a look at the tree file
behind each. What it does is told by what the looks find alone (`readings`): the module file holds
the module of the last content that gives one (`lastModule`), and a look is heard of when it fails
or finds another content than the last one that did not (`entryFor`). The watcher itself knows the
digest of that content and nothing else, so two contents with one digest are taken for the same.

One look keeps the state in line with what was found so far (`Consistent.poll`), and so do all of
them (`Consistent.pollAll`).
-/

namespace DocTree.Watch

variable {o : Options} {path : Bytes}

/-! ## What a run is to do -/

/-- What a look at the tree file finds. -/
abbrev Reading := Except FileError Bytes

/-- The module of a content of the tree file, or why there is none. -/
def moduleFor (o : Options) (path source : Bytes) : Except TreeFileError Bytes :=
  moduleOf { preserveNewlines := o.preserveNewlines } path source

/-- The contents that were found, in their order. -/
def contents (found : List Reading) : List Bytes := found.filterMap Except.toOption

/-- The module of what a look finds, if there is one. -/
def moduleFound (o : Options) (path : Bytes) (r : Reading) : Option Bytes :=
  r.toOption.bind fun source => (moduleFor o path source).toOption

/-- The module of the last content that has one. -/
def lastModule (o : Options) (path : Bytes) (found : List Reading) : Option Bytes :=
  (found.filterMap (moduleFound o path)).getLast?

/-- What is told of a look, from what was found before it and what it finds: a warning when it
fails; what came of compiling when it finds another content than the last that was found; nothing
else. -/
def entryFor (o : Options) (path : Bytes) (before : List Reading) : Reading → Option LogEntry
  | .error e => some ⟨.warning, label (ascii "read error: " ++ e.message)⟩
  | .ok source =>
    if (contents before).getLast? = some source then none
    else
      match moduleFor o path source with
      | .ok _ => some ⟨.info, label (ascii "compiled " ++ Output.path path)⟩
      | .error e => some ⟨.error, label e.message⟩

/-- What is told of all looks. -/
def logOf (o : Options) (path : Bytes) (found : List Reading) : List LogEntry :=
  (List.range found.length).filterMap fun n => found[n]?.bind (entryFor o path (found.take n))

/-- No two contents that were found have one digest. -/
def ToldApart (found : List Reading) : Prop :=
  ∀ a ∈ contents found, ∀ b ∈ contents found, Digest.sha256 a = Digest.sha256 b → a = b
  deriving Decidable

/-- What was found up to some look is told apart if all of it is. -/
theorem ToldApart.of_append {found more : List Reading} (h : ToldApart (found ++ more)) :
    ToldApart found := by
  have hmem : ∀ source ∈ contents found, source ∈ contents (found ++ more) := by
    intro source hsource
    rw [contents, List.filterMap_append]
    exact List.mem_append_left _ hsource
  exact fun a ha b hb => h a (hmem a ha) b (hmem b hb)

theorem contents_concat (found : List Reading) (r : Reading) :
    contents (found ++ [r]) = contents found ++ r.toOption.toList := by
  cases r <;> simp [contents, Except.toOption]

/-- One look more adds what is told of it. -/
theorem logOf_concat (found : List Reading) (r : Reading) :
    logOf o path (found ++ [r]) = logOf o path found ++ (entryFor o path found r).toList := by
  -- the looks in front have the same looks in front of them
  have hfront : ∀ n ∈ List.range found.length,
      ((found ++ [r])[n]?.bind (entryFor o path ((found ++ [r]).take n))) =
        found[n]?.bind (entryFor o path (found.take n)) := by
    intro n hn
    have hlt : n < found.length := List.mem_range.1 hn
    rw [List.getElem?_append_left hlt, List.take_append_of_le_length hlt.le]
  have hlast : (found ++ [r])[found.length]?.bind
      (entryFor o path ((found ++ [r]).take found.length)) = entryFor o path found r := by
    simp
  rw [logOf, List.length_append, List.length_singleton, List.range_succ, List.filterMap_append,
    List.filterMap_congr hfront, List.filterMap_cons, hlast]
  cases entryFor o path found r <;> rfl

/-! ## Runs -/

/-- What the looks of a run find. -/
def readings (o : Options) (path : Bytes) : List (Workspace → Workspace) → State → List Reading
  | [], _ => []
  | change :: rest, s =>
    let s := { s with workspace := change s.workspace }
    s.workspace.read path :: readings o path rest (poll o path s).2

/-- The changes of a run leave the module file alone, and the watcher can write it whenever it has a
module for it. -/
def Undisturbed (o : Options) (path : Bytes) : List (Workspace → Workspace) → State → Prop
  | [], _ => True
  | change :: rest, s =>
    let w := change s.workspace
    w.read (Output.path path) = s.workspace.read (Output.path path) ∧
      (∀ module ∈ moduleFound o path (w.read path),
        (Output.write w (Output.path path) module).1.isOk) ∧
      Undisturbed o path rest (poll o path { s with workspace := w }).2

instance Undisturbed.decidable (o : Options) (path : Bytes) :
    ∀ changes s, Decidable (Undisturbed o path changes s)
  | [], _ => instDecidableTrue
  | _ :: rest, _ =>
    have := Undisturbed.decidable o path rest
    inferInstanceAs (Decidable (_ ∧ _ ∧ _))

/-- The first looks do not go by the later changes. -/
theorem readings_take (changes : List (Workspace → Workspace)) (s : State) (n : Nat) :
    readings o path (changes.take n) s = (readings o path changes s).take n := by
  induction changes generalizing s n with
  | nil => simp [readings]
  | cons change rest ih =>
    cases n with
    | zero => rfl
    | succ n =>
      rw [List.take_succ_cons, readings, readings, List.take_succ_cons]
      rw [ih]

/-- If the changes of a run do not disturb, the first ones of them do not. -/
theorem Undisturbed.take {changes : List (Workspace → Workspace)} {s : State}
    (h : Undisturbed o path changes s) (n : Nat) : Undisturbed o path (changes.take n) s := by
  induction changes generalizing s n with
  | nil => simpa using h
  | cons change rest ih =>
    cases n with
    | zero => exact trivial
    | succ n => exact ⟨h.1, h.2.1, ih h.2.2 n⟩

/-- What compiling does is decided by the module, if there is one, and by writing it. -/
theorem compile_eq (o : Options) (w : Workspace) (path source : Bytes) :
    compile o w path source =
      match moduleFor o path source with
      | .error e => (⟨.error, label e.message⟩, w)
      | .ok module =>
        match Output.write w (Output.path path) module with
        | (.error e, w) => (⟨.error, label (TreeFileError.unwritable e).message⟩, w)
        | (.ok _, w) => (⟨.info, label (ascii "compiled " ++ Output.path path)⟩, w) := by
  rw [compile, moduleFor, moduleOf]
  cases Document.decode source with
  | error e => rfl
  | ok d =>
    simp only
    cases d.compile { preserveNewlines := o.preserveNewlines } <;> rfl

/-! ## Looks -/

/-- The state of the watcher is in line with what was found since the beginning, when the files were
`w`: it remembers the digest of the last content, and the module file holds the module that it is to
hold. -/
structure Consistent (o : Options) (path : Bytes) (w : Workspace) (found : List Reading)
    (s : State) : Prop where
  seen : s.seen = (contents found).getLast?.map Digest.sha256
  page : s.workspace.read (Output.path path) =
    ((lastModule o path found).map .ok).getD (w.read (Output.path path))
  ends : s.workspace.EndsInFile (Output.path path)

/-- The module of the last look counts if it has one. -/
theorem lastModule_concat (found : List Reading) (r : Reading) :
    lastModule o path (found ++ [r]) = (moduleFound o path r).or (lastModule o path found) := by
  cases h : moduleFound o path r <;> simp [lastModule, h]

/-- The content that was found last is found again: there is no new module. -/
theorem lastModule_concat_same {found : List Reading} {source : Bytes}
    (h : (contents found).getLast? = some source) :
    lastModule o path (found ++ [.ok source]) = lastModule o path found := by
  obtain ⟨front, hfront⟩ := List.getLast?_eq_some_iff.1 h
  have hlast : lastModule o path found =
      ((contents found).filterMap fun source => (moduleFor o path source).toOption).getLast? := by
    rw [contents, List.filterMap_filterMap]
    rfl
  rw [lastModule_concat, hlast, hfront, moduleFound]
  cases hmodule : moduleFor o path source <;> simp [hmodule, Except.toOption]

namespace Consistent

variable {w : Workspace} {found : List Reading} {s : State}

theorem start (hend : w.EndsInFile (Output.path path)) :
    Consistent o path w [] { workspace := w } :=
  ⟨rfl, rfl, hend⟩

/-- A change that leaves the module file alone leaves the state in line. -/
theorem change (h : Consistent o path w found s) {w' : Workspace}
    (hsame : w'.read (Output.path path) = s.workspace.read (Output.path path)) :
    Consistent o path w found { s with workspace := w' } where
  seen := h.seen
  page := hsame.trans h.page
  ends := ⟨hsame ▸ h.ends.not_directory, hsame ▸ h.ends.not_endless⟩

/-- Where contents are told apart, the digest is the last one exactly when the content is. -/
theorem seen_iff (h : Consistent o path w found s) {source : Bytes}
    (hdigest : ToldApart (found ++ [.ok source])) :
    s.seen = some (Digest.sha256 source) ↔ (contents found).getLast? = some source := by
  rw [h.seen, Option.map_eq_some_iff]
  constructor
  · intro ⟨last, hlast, heq⟩
    rw [ToldApart, contents_concat] at hdigest
    rw [hlast, hdigest last ?_ source ?_ heq]
    · exact List.mem_append_left _ (List.mem_of_getLast? hlast)
    · exact List.mem_append_right _ (List.mem_singleton_self source)
  · exact fun hlast => ⟨source, hlast, rfl⟩

section

variable {way : List Bytes} {name : Bytes} (hway : Path.IsWay way) (hname : Path.IsName name)
  (hpath : Output.path path = Path.ofWay (way ++ [name]))

include hway hname hpath

/-- A content that was not found last is compiled, and there is an entry about it. Without a module
the module file stays as it is. -/
theorem compile (h : Consistent o path w found s) {source : Bytes}
    (hnew : (contents found).getLast? ≠ some source)
    (hwrite : ∀ module ∈ moduleFound o path (.ok source),
      (Output.write s.workspace (Output.path path) module).1.isOk) :
    some (Watch.compile o s.workspace path source).1 = entryFor o path found (.ok source) ∧
      Consistent o path w (found ++ [.ok source])
        ⟨(Watch.compile o s.workspace path source).2, some (Digest.sha256 source)⟩ := by
  have hseen : some (Digest.sha256 source) =
      (contents (found ++ [.ok source])).getLast?.map Digest.sha256 := by
    simp [contents_concat, Except.toOption]
  have hfound : moduleFound o path (.ok source) = (moduleFor o path source).toOption := rfl
  rw [compile_eq, entryFor, if_neg hnew]
  cases hmodule : moduleFor o path source with
  -- without a module nothing is written
  | error e =>
    refine ⟨rfl, hseen, ?_, h.ends⟩
    rw [lastModule_concat, hfound, hmodule]
    exact h.page
  | ok module =>
    have hok := hwrite module (by rw [hfound, hmodule]; rfl)
    simp only
    generalize hwritten : Output.write s.workspace (Output.path path) module = result at hok ⊢
    obtain ⟨_ | written, w'⟩ := result
    · cases hok
    -- what was written is read back
    have hpage : w'.read (Output.path path) = .ok module := by
      rw [hpath] at hwritten ⊢
      exact Output.read_of_write hway hname (hpath ▸ h.ends) hwritten
    refine ⟨rfl, hseen, ?_, Workspace.endsInFile_of_read hpage⟩
    rw [lastModule_concat, hfound, hmodule]
    exact hpage

/-- **One look** tells what it is to tell and leaves the state in line. -/
theorem poll (h : Consistent o path w found s)
    (hwrite : ∀ module ∈ moduleFound o path (s.workspace.read path),
      (Output.write s.workspace (Output.path path) module).1.isOk)
    (hdigest : ToldApart (found ++ [s.workspace.read path])) :
    (Watch.poll o path s).1 = entryFor o path found (s.workspace.read path) ∧
      Consistent o path w (found ++ [s.workspace.read path]) (Watch.poll o path s).2 := by
  unfold Watch.poll
  cases hread : s.workspace.read path with
  | error e =>
    -- what was seen last is kept in mind while the tree file is away
    refine ⟨rfl, ?_, ?_, h.ends⟩
    · simpa [contents_concat, Except.toOption] using h.seen
    · rw [lastModule_concat]
      exact h.page
  | ok source =>
    rw [hread] at hwrite hdigest
    simp only
    -- the content is the last one, or a new one
    by_cases hsame : (contents found).getLast? = some source
    · have hseen := (h.seen_iff hdigest).2 hsame
      rw [if_pos hseen]
      refine ⟨by simp [entryFor, hsame], ?_, ?_, h.ends⟩
      · rw [hseen]
        simp [contents_concat, Except.toOption]
      · rw [lastModule_concat_same hsame]
        exact h.page
    · rw [if_neg fun heq => hsame ((h.seen_iff hdigest).1 heq)]
      exact h.compile hway hname hpath hsame hwrite

/-- **All looks** together tell what they are to tell, and leave the state in line. By induction on
the changes, with what was told before in `told`. -/
theorem pollAll {changes : List (Workspace → Workspace)} {told : List (LogEntry × Workspace)}
    (h : Consistent o path w found s) (hchanges : Undisturbed o path changes s)
    (hdigest : ToldApart (found ++ readings o path changes s))
    (htold : told.reverse.map Prod.fst = logOf o path found) :
    (Watch.pollAll o path changes s told).1.map Prod.fst =
        logOf o path (found ++ readings o path changes s) ∧
      Consistent o path w (found ++ readings o path changes s)
        (Watch.pollAll o path changes s told).2 := by
  induction changes generalizing found s told with
  | nil =>
    rw [readings, List.append_nil]
    exact ⟨htold, h⟩
  | cons change rest ih =>
    obtain ⟨hsame, hwrite, hrest⟩ := hchanges
    have hlooked := h.change hsame
    generalize hs : ({ s with workspace := change s.workspace } : State) = looked at hlooked hrest
    -- what the first look finds belongs to what was found before the others
    have hfound : found ++ readings o path (change :: rest) s =
        (found ++ [looked.workspace.read path]) ++
          readings o path rest (Watch.poll o path looked).2 := by
      rw [readings, hs, List.append_assoc, List.singleton_append]
    rw [hfound] at hdigest ⊢
    obtain ⟨hentry, hnext⟩ :=
      hlooked.poll hway hname hpath (by rw [← hs]; exact hwrite) hdigest.of_append
    rw [Watch.pollAll, hs]
    generalize Watch.poll o path looked = now at hentry hnext hrest hdigest ⊢
    obtain ⟨entry, next⟩ := now
    -- an entry is put in front of those that were told before
    cases entry with
    | none =>
      apply ih hnext hrest hdigest
      rw [logOf_concat, ← hentry, htold, Option.toList_none, List.append_nil]
    | some entry =>
      apply ih hnext hrest hdigest
      rw [logOf_concat, ← hentry, List.reverse_cons, List.map_append, htold]
      rfl

end

end Consistent

/-! ## The tree file of a module -/

section

variable {root : Bytes}

/-- The directory of the watched tree file. -/
def targetWay (root : Bytes) : List Bytes := (Path.names root).reverse ++ [ascii "playground"]

theorem isWay_targetWay (hroot : Path.isAbsolute root = true) : Path.IsWay (targetWay root) :=
  Path.isWay_append.2 ⟨Path.isWay_names hroot, Path.isWay_singleton.2 (by decide)⟩

theorem target_eq (hroot : Path.isAbsolute root = true) :
    target root = Path.ofWay (targetWay root ++ [ascii "page.hast.json"]) := by
  rw [target, Path.join_of_isAbsolute hroot (by decide), targetWay, List.append_assoc]
  rfl

theorem path_target (hroot : Path.isAbsolute root = true) :
    Output.path (target root) = Path.ofWay (targetWay root ++ [ascii "page.jsx"]) := by
  rw [target_eq hroot, Output.path_ofWay (by decide)]
  rfl

/-- **The watcher keeps the module file up to date.** As long as nothing else touches the module
file, the writes succeed and the contents are told apart, this holds after each look: the module
file holds the module of the last content that has one, or what it held in the beginning; and the
looks are heard of when they fail or find another content than the last. -/
theorem pollAll_module_and_log (hroot : Path.isAbsolute root = true) {w : Workspace}
    (hpage : w.EndsInFile (Output.path (target root))) {changes : List (Workspace → Workspace)}
    (hchanges : Undisturbed o (target root) changes { workspace := w })
    (hdigest : ToldApart (readings o (target root) changes { workspace := w })) (looks : Nat) :
    let found := (readings o (target root) changes { workspace := w }).take looks
    let run := pollAll o (target root) (changes.take looks) { workspace := w } []
    run.2.workspace.read (Output.path (target root)) =
        ((lastModule o (target root) found).map .ok).getD (w.read (Output.path (target root))) ∧
      run.1.map Prod.fst = logOf o (target root) found := by
  intro found run
  have hfound : found = readings o (target root) (changes.take looks) { workspace := w } :=
    (readings_take changes _ looks).symm
  have hapart : ToldApart found := ToldApart.of_append (by rwa [List.take_append_drop])
  rw [hfound] at hapart ⊢
  have hbegin : ([] : List (LogEntry × Workspace)).reverse.map Prod.fst =
      logOf o (target root) [] := rfl
  obtain ⟨hlog, hkept⟩ := (Consistent.start hpage).pollAll (isWay_targetWay hroot) (by decide)
    (path_target hroot) (hchanges.take looks) hapart hbegin
  exact ⟨hkept.page, hlog⟩

/-- A module with a module file from before. -/
def oldSite : Workspace :=
  ⟨.directory [(ascii "site", .directory [(ascii "playground", .directory
    [(ascii "page.jsx", .file (ascii "old"))])])], some (ascii "/site")⟩

/-- Its tree file is written, spoilt, removed and written again. -/
def mendings : List (Workspace → Workspace) :=
  let page := target (ascii "/site")
  [(·.write page (ascii "\x7b\"type\":\"root\"\x7d")), (·.write page (ascii "[]")), (·.remove page),
    (·.write page (ascii "\x7b\"type\":\"root\"\x7d"))]

/-- The content that is spoilt leaves the module as it is, and so does the removal. -/
theorem pollAll_module_and_log_mendings :
    let page := target (ascii "/site")
    let run := fun looks => pollAll {} page (mendings.take looks) { workspace := oldSite } []
    (run 0).2.workspace.read (Output.path page) = .ok (ascii "old") ∧
      ((run 3).2.workspace.read (Output.path page)).toOption =
        (moduleFor {} page (ascii "\x7b\"type\":\"root\"\x7d")).toOption ∧
      (run 4).1.map (·.1.level) = [.info, .error, .warning, .info] := by
  intro page run
  have hroot : Path.isAbsolute (ascii "/site") = true := by decide
  have hpage : oldSite.EndsInFile (Output.path page) := ⟨by decide +kernel, by decide +kernel⟩
  have hchanges : Undisturbed {} page mendings { workspace := oldSite } := by decide +kernel
  have hdigest : ToldApart (readings {} page mendings { workspace := oldSite }) := by decide +kernel
  have hrun := pollAll_module_and_log hroot hpage hchanges hdigest
  refine ⟨(hrun 0).1.trans (by decide +kernel), ?_, ?_⟩
  · rw [(hrun 3).1]
    decide +kernel
  · have hlevels := congrArg (List.map LogEntry.level) (hrun 4).2
    rw [List.map_map] at hlevels
    exact hlevels.trans (by decide +kernel)

end

end DocTree.Watch
