import DocTree.Files.Workspace
import DocTree.Text.Utf8

/-!
# Finding tree files

A tree file is a file whose name ends in `.hast.json`. Patterns select tree files: a file selects
itself, a directory the tree files in it, and a directory followed by `/...` the tree files in and
below it, except in vendor and hidden directories.
-/

namespace DocTree

/-- Why a search fails. -/
inductive SearchError where
  /-- A file operation fails. -/
  | file (error : FileError)
  /-- A pattern names a file that is not a tree file. -/
  | notTreeFile (path : Bytes)
  /-- The start of the way up to the module's root cannot be made absolute. -/
  | unresolved (error : FileError)
  /-- There is no module file on the way up. -/
  | noModule (path : Bytes)
  deriving DecidableEq, Repr

/-- What is said about a search that fails. -/
def SearchError.message : SearchError → Bytes
  | .file error => error.message
  | .notTreeFile path => ascii "mdxc: not a .hast.json file: " ++ path
  | .unresolved error => ascii "resolving module root: " ++ error.message
  | .noModule path => ascii "no go.mod at or above " ++ path

namespace Search

/-- The ending of the names of tree files. -/
def suffix : Bytes := ascii ".hast.json"

/-- Is it the name of a tree file? -/
def isTreeName (name : Bytes) : Bool := name.endsWith suffix

/-- Is a directory with this name passed over? -/
def isSkipped (name : Bytes) : Bool :=
  name == ascii "vendor" || name == ascii "node_modules" || name.startsWith (ascii ".")

/-! ## Directories -/

/-- The names of the tree files among the entries of a directory. -/
def treeNames (entries : List (Bytes × Entry)) : List Bytes :=
  (entries.filter fun (name, e) => !e.isDirectory && isTreeName name).map (·.1)

/-- The tree files in a directory, in order. -/
def inDirectory (w : Workspace) (directory : Bytes) : Except FileError (List Bytes) :=
  (w.list directory).map fun entries =>
    Bytes.sort ((treeNames entries).map (Path.child directory))

/-- Finds by name: a list of results under the names that they were found at, in the order of the
names. -/
def inNameOrder (found : List (Bytes × List Bytes)) : List Bytes :=
  (found.mergeSort fun a b => Bytes.le a.1 b.1).flatMap (·.2)

mutual

/-- The tree files at or below an entry with a name and a path, in the order of the walk: the
entries of each directory by name. -/
def below (path name : Bytes) : Entry → List Bytes
  | .directory entries => inNameOrder (belowEach path entries)
  | .file _ => if isTreeName name then [path] else []
  | .link _ => if isTreeName name then [path] else []

/-- The tree files at or below each entry of a directory, under the name of the entry. -/
def belowEach (path : Bytes) : List (Bytes × Entry) → List (Bytes × List Bytes)
  | [] => []
  | (name, e) :: es =>
    (name, if e.isDirectory && isSkipped name then [] else below (Path.child path name) name e) ::
      belowEach path es

end

/-- The tree files at or below a path, in the order of the walk. A link is not followed, not even at
the path itself. -/
def walk (w : Workspace) (path : Bytes) : Except FileError (List Bytes) :=
  (w.lstat path).map (below path (Path.base path))

/-! ## Patterns -/

/-- A path as seen from a directory, absolute and clean. -/
def absoluteFrom (w : Workspace) (directory path : Bytes) : Except FileError Bytes :=
  w.absolute (if Path.isAbsolute path then path else Path.child directory path)

/-- What a pattern selects. -/
inductive Pattern where
  /-- Nothing. -/
  | blank
  /-- The tree files at or below a path. -/
  | recursive (path : Bytes)
  /-- A tree file, or the tree files in a directory. -/
  | single (path : Bytes)
  deriving DecidableEq, Repr

/-- The meaning of the text of a pattern. -/
def Pattern.parse (text : Bytes) : Pattern :=
  let text := Bytes.trim text
  if text.isEmpty then .blank
  else if text == ascii "..." then .recursive Path.dot
  else
    match text.before? (ascii "/...") with
    | some base => .recursive (if base.isEmpty then Path.dot else base)
    | none => .single text

/-- The tree files that a pattern selects. -/
def Pattern.files (w : Workspace) (directory : Bytes) :
    Pattern → Except SearchError (List Bytes)
  | .blank => .ok []
  | .recursive path =>
    ((absoluteFrom w directory path).bind (walk w)).mapError .file
  | .single path =>
    match absoluteFrom w directory path with
    | .error e => .error (.file e)
    | .ok target =>
      match w.stat target with
      | .error e => .error (.file e)
      | .ok (.directory _) => (inDirectory w target).mapError .file
      | .ok _ => if isTreeName target then .ok [target] else .error (.notTreeFile target)

/-- The patterns in force: without any, everything below the directory. -/
def patternsInForce (patterns : List Bytes) : List Pattern :=
  if patterns.isEmpty then [.recursive Path.dot] else patterns.map Pattern.parse

/-- The tree files that patterns select as seen from a directory: each one once, in order. -/
def files (w : Workspace) (directory : Bytes) (patterns : List Bytes) :
    Except SearchError (List Bytes) :=
  ((patternsInForce patterns).mapM (Pattern.files w directory)).map fun found =>
    Bytes.sort found.flatten.eraseDups

/-! ## The root of a module -/

/-- The nearest directory at or above `start` that holds a module file. -/
def moduleRoot (w : Workspace) (start : Bytes) : Except SearchError Bytes :=
  match w.absolute start with
  | .error e => .error (.unresolved e)
  | .ok path =>
    match (Path.upward (Path.names path)).find? fun d =>
      w.isFile (Path.child d (ascii "go.mod")) with
    | some d => .ok d
    | none => .error (.noModule path)

end Search

end DocTree
