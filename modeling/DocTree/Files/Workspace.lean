import DocTree.Files.Entry

/-!
# Workspaces

A workspace is what a command sees of a file system: files are read and replaced in it, modules are
written into it, and two states of it can be compared.
-/

/-!
## The place where a command runs

A workspace is a file system with a working directory, which may have been removed. Paths are taken
as an operating system takes them: relative ones from the working directory, and with all links on
the way followed.
-/

namespace DocTree

/-- A file system and a working directory. -/
structure Workspace where
  /-- The root directory. -/
  tree : Entry
  /-- The absolute path of the working directory; `none` when it has been removed. -/
  cwd : Option Bytes

/-- Why an operation on files fails. -/
inductive FileError where
  /-- An operation on a path fails. -/
  | onPath (call path : Bytes) (reason : Reason)
  /-- Renaming fails. -/
  | onRename (old new : Bytes) (reason : Reason)
  /-- The working directory is asked for and has been removed. -/
  | noWorkingDirectory
  deriving DecidableEq, Repr

/-- What is said about a reason. -/
def Reason.message : Reason → Bytes
  | .notFound => ascii "no such file or directory"
  | .notDirectory => ascii "not a directory"
  | .isDirectory => ascii "is a directory"
  | .alreadyThere => ascii "file exists"
  | .tooManyLinks => ascii "too many levels of symbolic links"
  | .slashInName => ascii "pattern contains path separator"

/-- What is said about a failed operation on files. -/
def FileError.message : FileError → Bytes
  | .onPath call path reason => call ++ ascii " " ++ path ++ ascii ": " ++ reason.message
  | .onRename old new reason =>
    ascii "rename " ++ old ++ ascii " " ++ new ++ ascii ": " ++ reason.message
  | .noWorkingDirectory => ascii "getwd: " ++ Reason.notFound.message

namespace Workspace

/-! ### Paths -/

/-- The working directory. -/
def workingDirectory (w : Workspace) : Except FileError Bytes :=
  match w.cwd with
  | some path => .ok path
  | none => .error .noWorkingDirectory

/-- The clean absolute path of a path. -/
def absolute (w : Workspace) (path : Bytes) : Except FileError Bytes :=
  if Path.isAbsolute path then .ok (Path.clean path)
  else w.workingDirectory.map fun cwd => Path.child cwd path

/-- The parts that lead from the root to a path. -/
def way? (w : Workspace) (path : Bytes) : Option (List Bytes) :=
  if path.isEmpty then none
  else if Path.isAbsolute path then some (Path.parts path)
  else w.cwd.map fun cwd => Path.parts cwd ++ Path.parts path

/-- The place that a path leads to. -/
def locate (w : Workspace) (followLast : Bool) (path : Bytes) : Except Reason Entry.Place :=
  match w.way? path with
  | none => .error .notFound
  | some way => w.tree.resolve followLast Entry.maxLinks [] way

/-- What stands at a path. -/
def lookup (w : Workspace) (followLast : Bool) (path : Bytes) : Except Reason Entry :=
  match w.locate followLast path with
  | .error reason => .error reason
  | .ok (_, none) => .error .notFound
  | .ok (_, some e) => .ok e

/-! ### Reading -/

/-- What stands at a path, links followed. -/
def stat (w : Workspace) (path : Bytes) : Except FileError Entry :=
  (w.lookup true path).mapError (.onPath (ascii "stat") path)

/-- What stands at a path, a link at its end not followed. -/
def lstat (w : Workspace) (path : Bytes) : Except FileError Entry :=
  (w.lookup false path).mapError (.onPath (ascii "lstat") path)

/-- Is there something other than a directory at a path? -/
def isFile (w : Workspace) (path : Bytes) : Bool :=
  match w.stat path with
  | .ok e => !e.isDirectory
  | .error _ => false

/-- The content of a file. -/
def read (w : Workspace) (path : Bytes) : Except FileError Bytes :=
  match w.lookup true path with
  | .ok (.file content) => .ok content
  | .ok _ => .error (.onPath (ascii "read") path .isDirectory)
  | .error reason => .error (.onPath (ascii "open") path reason)

/-- The entries of a directory. -/
def list (w : Workspace) (path : Bytes) : Except FileError (List (Bytes × Entry)) :=
  match w.lookup true path with
  | .ok (.directory entries) => .ok entries
  | .ok _ => .error (.onPath (ascii "open") path .notDirectory)
  | .error reason => .error (.onPath (ascii "open") path reason)

/-! ### Writing -/

/-- Makes a directory and the directories on the way to it. -/
def makeDirectory (w : Workspace) (path : Bytes) : Workspace :=
  match w.way? path with
  | none => w
  | some way =>
    { w with tree := (List.range (way.length + 1)).foldl (step way) w.tree }
where
  /-- Makes the directory at the end of the first parts of a way. -/
  step (way : List Bytes) (tree : Entry) (n : Nat) : Entry :=
    match tree.resolve true Entry.maxLinks [] (way.take n) with
    | .ok (names, none) => tree.put names (.directory [])
    | _ => tree

/-- Makes a file with a content, and the directories on the way to it. A link is written through. -/
def write (w : Workspace) (path content : Bytes) : Workspace :=
  let w := w.makeDirectory (Path.parent path)
  match w.locate true path with
  | .ok (names, _) => { w with tree := w.tree.put names (.file content) }
  | .error _ => w

/-- Removes what stands at a path and everything below it. -/
def remove (w : Workspace) (path : Bytes) : Workspace :=
  match w.locate false path with
  | .ok (names, some _) => { w with tree := w.tree.remove names }
  | _ => w

/-- Moves what stands at the end of a way of names to a path. What stands there is replaced, a link
included; a directory never is. -/
def rename (w : Workspace) (old : List Bytes) (path : Bytes) : Except Reason Workspace :=
  match w.locate false path, w.tree.at? old with
  | .error reason, _ => .error reason
  | _, none => .error .notFound
  | .ok (_, some (.directory _)), _ => .error .alreadyThere
  | .ok (new, _), some e => .ok { w with tree := (w.tree.put new e).remove old }

/-- The first name that is free in a directory, out of `stem` with a number behind it. -/
def freeName (stem : Bytes) (entries : List (Bytes × Entry)) : Bytes :=
  let names := (List.range (entries.length + 1)).map fun n => stem ++ Bytes.ofNat n
  (names.find? fun name => (entries.lookup name).isNone).getD stem

/-- Puts a finished file in the place of what stands at a path, a link included. The file is written
under a temporary name beside its place first and then moved there; when it cannot be moved, it is
removed again. The root has no name that a temporary one could be made of. -/
def replace (w : Workspace) (path content : Bytes) : Except FileError Unit × Workspace :=
  let directory := Path.parent path
  let stem := octet '.' :: (Path.base path ++ ascii ".")
  let told := Path.beneath directory (stem ++ ascii "TMP")
  if stem.contains Path.slash then
    (.error (.onPath (ascii "createtemp") (stem ++ ascii "*") .slashInName), w)
  else
    match w.locate true directory with
    | .error reason => (.error (.onPath (ascii "open") told reason), w)
    | .ok (_, none) => (.error (.onPath (ascii "open") told .notFound), w)
    | .ok (place, some (.directory entries)) =>
      let temporary := place ++ [freeName stem entries]
      let written : Workspace := { w with tree := w.tree.put temporary (.file content) }
      match written.rename temporary path with
      | .ok w => (.ok (), w)
      | .error reason =>
        (.error (.onRename told path reason),
          { written with tree := written.tree.remove temporary })
    | .ok (_, some _) => (.error (.onPath (ascii "open") told .notDirectory), w)

end Workspace

end DocTree

/-!
## What a run changes

The files that are new or have a new content when two states of a file system are compared.
-/

namespace DocTree.Workspace

/-- The file at a way of names. -/
def fileAt? (w : Workspace) (names : List Bytes) : Option Bytes :=
  match w.tree.at? names with
  | some (.file content) => some content
  | _ => none

/-- The absolute paths of the files whose content is not what it was, with their contents. -/
def changes (before after : Workspace) : List (Bytes × Bytes) :=
  after.tree.leaves.filterMap fun names =>
    match after.fileAt? names with
    | some content =>
      if before.fileAt? names = some content then none
      else some (Path.ofNames names.reverse, content)
    | none => none

end DocTree.Workspace

/-!
## Generated files

A module is written beside its tree file. A file that holds the module already is left alone.
-/

namespace DocTree

/-- Why a generated file is not written. -/
structure OutputError where
  /-- The file. -/
  path : Bytes
  /-- The operation that fails. -/
  cause : FileError
  deriving DecidableEq, Repr

/-- What is said about a generated file that is not written. -/
def OutputError.message (e : OutputError) : Bytes :=
  ascii "writing " ++ e.path ++ ascii ": " ++ e.cause.message

namespace Output

/-- The file that the module of a tree file goes to. -/
def path (treePath : Bytes) : Bytes :=
  ((treePath.before? (ascii ".hast.json")).getD
    ((treePath.before? (ascii ".json")).getD treePath)) ++ ascii ".jsx"

/-- Makes a file hold a text, and tells whether it had to be written. -/
def write (w : Workspace) (path content : Bytes) : Except OutputError Bool × Workspace :=
  if (w.read path).toOption = some content then (.ok false, w)
  else
    match w.replace path content with
    | (.ok (), w) => (.ok true, w)
    | (.error e, w) => (.error ⟨path, e⟩, w)

end Output

end DocTree
