import DocTree.Command.Run
import DocTree.Files.Workspace
import DocTree.Watch

/-!
# The programs

The program compiles tree files, or watches one when it is called `playground`. It takes in the part
of the disk that its arguments lead to, leaves all decisions to the library, and then prints and
writes what the library says.
-/

namespace DocTree.Program

/-! ## Texts -/

/-- The bytes of a text. -/
def bytesOf (s : String) : Bytes := s.toUTF8.toList

/-- The text that bytes spell. -/
def stringOf (s : Bytes) : String := String.ofList (Utf8.decode s)

/-- Writes bytes to a stream. -/
def emit (stream : IO.FS.Stream) (s : Bytes) : IO Unit := do
  stream.write ⟨s.toArray⟩
  stream.flush

/-! ## Taking in the disk -/

/-- Is the content of a file with this name needed wherever it is? -/
def matters (name : Bytes) : Bool :=
  Search.isTreeName name || name.endsWith (ascii ".jsx") || Config.fileNames.contains name ||
    name == ascii "go.mod"

/-- What stands at a path of the disk. Contents of files with other names than those that matter are
left out unless `whole` is set, and so is what is in directories that are passed over. -/
partial def entryAt (whole : Bool) (path : String) : IO (Option Entry) := do
  let name := Path.base (bytesOf path)
  try
    match (← (← IO.currentDir).join path |>.symlinkMetadata).type with
    | .symlink =>
      let target ← try pure (← IO.FS.realPath path).toString catch _ => pure ""
      return some (.link (bytesOf target))
    | .dir =>
      if !whole && Search.isSkipped name then return some (.directory [])
      let mut entries := []
      for e in (← (← IO.currentDir).join path |>.readDir) do
        if let some entry ← entryAt false e.path.toString then
          entries := (bytesOf e.fileName, entry) :: entries
      return some (.directory entries)
    | _ =>
      if whole || matters name then
        return some (.file (← IO.FS.readBinFile path).toList)
      return some (.file [])
  catch _ => return none

/-- Adds what stands at an absolute path, if there is anything. -/
def takeIn (w : Workspace) (path : Bytes) : IO Workspace := do
  match ← entryAt true (stringOf path) with
  | some entry =>
    let w := w.makeDirectory (Path.parent path)
    return { w with tree := w.tree.put (Path.names path).reverse entry }
  | none => return w

/-- The paths that an argument may name. -/
def pathsIn (argument : Bytes) : List Bytes :=
  let value := (argument.dropWhile (· != octet '=')).tail
  let direct (s : Bytes) : List Bytes :=
    if s.isEmpty then [] else [s, (s.before? (ascii "/...")).getD s]
  direct argument ++ direct value

/-- The targets of links that lead to something that is not taken in yet. -/
def openTargets (w : Workspace) : List Bytes :=
  w.tree.leaves.filterMap fun names =>
    match w.tree.at? names with
    | some (.link target) =>
      if target.isEmpty || (w.stat target).toOption.isSome then none else some target
    | _ => none

/-- Adds what links lead to, through so many links at most. -/
def takeInTargets (w : Workspace) : Nat → IO Workspace
  | 0 => return w
  | links + 1 => do
    match openTargets w with
    | [] => return w
    | targets => takeInTargets (← targets.foldlM takeIn w) links

/-- The part of the disk that arguments lead to: the working directory and everything they name. -/
def diskFor (arguments : List Bytes) : IO Workspace := do
  let cwd := bytesOf (← IO.currentDir).toString
  let empty : Workspace := ⟨.directory [], some cwd⟩
  let named := (arguments.flatMap pathsIn).map fun p =>
    if Path.isAbsolute p then Path.clean p else Path.child cwd p
  -- Outer directories come first, so that what is taken in later is not covered again.
  let paths := ((cwd :: named).eraseDups).mergeSort fun a b => a.length ≤ b.length
  takeInTargets (← paths.foldlM takeIn empty) Entry.maxLinks

/-- Writes the files that a run changed, each under a temporary name first. -/
def writeOut (before after : Workspace) : IO Unit := do
  for (path, content) in before.changes after do
    let name := octet '.' :: (Path.base path ++ ascii ".tmp")
    let temporary := stringOf (Path.child (Path.parent path) name)
    IO.FS.writeBinFile temporary ⟨content.toArray⟩
    IO.FS.rename temporary (stringOf path)

/-! ## The programs -/

/-- Compiles tree files, or prints one as HTML. -/
def compiler (arguments : List Bytes) : IO UInt32 := do
  let w ← diskFor arguments
  let o := Command.run w arguments
  writeOut w o.workspace
  emit (← IO.getStdout) o.printed
  emit (← IO.getStderr) o.complaints
  return UInt32.ofNat o.exitCode

/-- Looks at the tree file again and again. -/
partial def watchFrom (o : Watch.Options) (path : Bytes) (seen : Option Bytes) : IO Unit := do
  let empty : Workspace := ⟨.directory [], some (bytesOf (← IO.currentDir).toString)⟩
  let w ← takeIn (← takeIn empty path) (Output.path path)
  let (entry, s) := Watch.poll o path ⟨w, seen⟩
  writeOut w s.workspace
  if let some e := entry then emit (← IO.getStderr) e.line
  IO.sleep (UInt32.ofNat (o.interval.toNat / Nat.pow 10 6))
  watchFrom o path s.seen

/-- Watches the tree file of the module that the working directory belongs to. -/
def watcher (arguments : List Bytes) : IO UInt32 := do
  match Watch.readArguments arguments {} with
  | .error e =>
    emit (← IO.getStderr) e.message
    return UInt32.ofNat e.exitCode
  | .ok o =>
    let cwd := bytesOf (← IO.currentDir).toString
    let modules := (Path.upward (Path.names cwd)).map (Path.child · (ascii "go.mod"))
    let w ← modules.foldlM takeIn ⟨.directory [], some cwd⟩
    match Search.moduleRoot w (ascii ".") with
    | .error e =>
      emit (← IO.getStderr) (Watch.fatal e).line
      return 1
    | .ok root =>
      watchFrom o (Watch.target root) none
      return 0

end DocTree.Program

/-- The compiler of tree files, or the watcher under its own name. -/
def main (arguments : List String) : IO UInt32 := do
  let arguments := arguments.map DocTree.Program.bytesOf
  if (← IO.appPath).fileStem == some "playground" then DocTree.Program.watcher arguments
  else DocTree.Program.compiler arguments
