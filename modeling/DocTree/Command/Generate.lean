import DocTree.Files.Workspace
import DocTree.Files.Search
import DocTree.Log
import DocTree.Module

/-!
# Compiling tree files

Each tree file is compiled by itself: a failure does not keep the others from being compiled.
-/

namespace DocTree

/-- Why a tree file gives no module. -/
inductive TreeFileError where
  /-- It cannot be read. -/
  | unreadable (error : FileError)
  /-- It does not hold a document. -/
  | undecodable (path : Bytes) (error : DecodeError)
  /-- Its document gives no module. -/
  | uncompilable (path : Bytes) (error : CompileError)
  /-- The module cannot be written. -/
  | unwritable (error : OutputError)

/-- What is said about a tree file that gives no module. -/
def TreeFileError.message : TreeFileError → Bytes
  | .unreadable error => error.message
  | .undecodable path error => path ++ ascii ": " ++ error.message
  | .uncompilable path error => path ++ ascii ": " ++ error.message
  | .unwritable error => error.message

/-- What is done with modules. -/
structure GenerateOptions where
  /-- How documents are compiled. -/
  compile : CompileOptions
  /-- Print the modules instead of writing them. -/
  print : Bool := false

/-- What has come of the tree files so far. -/
structure Generated where
  /-- The files. -/
  workspace : Workspace
  /-- What is printed. -/
  printed : Bytes := []
  /-- The log entries, the last one first. -/
  log : List LogEntry := []
  /-- The failures, the last one first. -/
  failures : List TreeFileError := []

namespace Generated

/-- Adds a log entry. -/
def note (g : Generated) (level : Level) (message : Bytes) : Generated :=
  { g with log := ⟨level, message⟩ :: g.log }

/-- Adds a failure. -/
def fail (g : Generated) (e : TreeFileError) : Generated :=
  { g with failures := e :: g.failures }

/-- Prints or writes the module of a tree file. -/
def put (o : GenerateOptions) (g : Generated) (path module : Bytes) : Generated :=
  if o.print then { g with printed := g.printed ++ module ++ ascii "\n" }
  else
    let file := Output.path path
    match Output.write g.workspace file module with
    | (.error e, w) => ({ g with workspace := w }).fail (.unwritable e)
    | (.ok true, w) => ({ g with workspace := w }).note .info (ascii "Wrote " ++ file)
    | (.ok false, w) =>
      ({ g with workspace := w }).note .debug (file ++ ascii " is up to date")

/-- Compiles a tree file. -/
def compileFile (o : GenerateOptions) (g : Generated) (path : Bytes) : Generated :=
  match g.workspace.read path with
  | .error e => g.fail (.unreadable e)
  | .ok source =>
    match Document.decode source with
    | .error e => g.fail (.undecodable path e)
    | .ok d =>
      let g := d.compileNotes.foldl (fun g n => g.note .debug n) g
      match d.compile o.compile with
      | .error e => g.fail (.uncompilable path e)
      | .ok module => g.put o path module

end Generated

/-- Compiles tree files, one after the other. -/
def generate (o : GenerateOptions) (w : Workspace) (paths : List Bytes) : Generated :=
  paths.foldl (Generated.compileFile o) { workspace := w }

end DocTree
