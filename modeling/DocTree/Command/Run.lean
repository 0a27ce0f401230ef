import DocTree.Command.Arguments
import DocTree.Command.Generate
import DocTree.Config
import DocTree.Preview
import DocTree.Text.Utf8

/-!
# Running a command

A run reads its arguments, then the settings, and then does what the command is for. Flags win over
the project file.
-/

namespace DocTree.Command

/-- Why a run fails. -/
inductive RunError where
  /-- The arguments are refused. -/
  | arguments (error : ArgumentError)
  /-- A file operation fails. -/
  | file (error : FileError)
  /-- The project file cannot be used. -/
  | load (error : LoadError)
  /-- The settings are refused. -/
  | config (error : ConfigError)
  /-- The search for tree files fails. -/
  | search (error : SearchError)
  /-- A directory is given by a flag, and paths beside it. -/
  | dirAndPaths
  /-- Some tree files give no module. -/
  | treeFiles (errors : List TreeFileError)
  /-- The file does not hold a document. -/
  | notDocument (path : Bytes) (error : DecodeError)

/-- What is said about some failures. -/
def failuresMessage (messages : List Bytes) : Bytes :=
  let count := messages.length
  (if count = 1 then ascii "1 error occurred:"
    else Bytes.ofNat count ++ ascii " errors occurred:") ++
    messages.flatMap (fun m => ascii "\n\t* " ++ m) ++ ascii "\n\n"

/-- What is said about a run that fails. -/
def RunError.message : RunError → Bytes
  | .arguments error => error.message
  | .file error => error.message
  | .load error => error.message
  | .config error => error.message
  | .search error => error.message
  | .dirAndPaths => ascii "mdxc: cannot use --dir with positional paths"
  | .treeFiles errors => failuresMessage (errors.map TreeFileError.message)
  | .notDocument path error => path ++ ascii ": " ++ error.message

/-- What a run leaves. -/
structure Outcome where
  /-- The files. -/
  workspace : Workspace
  /-- What is printed. -/
  printed : Bytes := []
  /-- The log entries. -/
  log : List LogEntry := []
  /-- The log level in force at the end. -/
  level : Level := .info
  /-- Why the run fails. -/
  error : Option RunError := none

/-! ## Settings -/

/-- The settings with the flags in front of them. -/
def Flags.over (fs : Flags) (c : Config) : Config where
  skipExport := fs.skipExport.getD c.skipExport
  preserveNewlines := fs.preserveNewlines.getD c.preserveNewlines
  maxDepth := fs.maxDepth.getD c.maxDepth
  logLevel := fs.logLevel.getD c.logLevel

/-- The project file: the one that a flag names, or that of the working directory. -/
def projectFile (w : Workspace) (fs : Flags) : Except FileError (Option Bytes) :=
  match fs.config with
  | some (b :: path) => .ok (some (b :: path))
  | _ => w.workingDirectory.map (Config.find? w)

/-- The settings of a run, and its log level. -/
def settings (w : Workspace) (fs : Flags) : Except RunError (Config × Level) :=
  match projectFile w fs with
  | .error e => .error (.file e)
  | .ok path =>
    match Config.load? w path with
    | .error e => .error (.load e)
    | .ok c =>
      let c := fs.over c
      match c.validate with
      | .error e => .error (.config e)
      | .ok level => .ok (c, level)

/-! ## Commands -/

/-- The tree files that are compiled: those of the directory that a flag names, or those that the
arguments select. -/
def treeFiles (w : Workspace) (fs : Flags) (paths : List Bytes) : Except RunError (List Bytes) :=
  match w.workingDirectory with
  | .error e => .error (.file e)
  | .ok cwd =>
    if (Bytes.trim fs.dir).isEmpty then
      match Search.files w cwd paths with
      | .error e => .error (.search e)
      | .ok files => .ok files
    else if !paths.isEmpty then .error .dirAndPaths
    else
      let dir := if Path.isAbsolute fs.dir then fs.dir else Path.child cwd fs.dir
      match Search.inDirectory w dir with
      | .error e => .error (.file e)
      | .ok files => .ok files

/-- Compiles tree files. -/
def runGenerate (w : Workspace) (fs : Flags) (c : Config) (level : Level) (paths : List Bytes) :
    Outcome :=
  match treeFiles w fs paths with
  | .error e => { workspace := w, level := level, error := some e }
  | .ok files =>
    let found : LogEntry :=
      ⟨.debug, ascii "Found " ++ Bytes.ofNat files.length ++ ascii " tree files"⟩
    let options : GenerateOptions :=
      ⟨⟨c.skipExport, c.preserveNewlines, c.maxDepth⟩, fs.stdout⟩
    let g := generate options w files
    { workspace := g.workspace
      printed := g.printed
      log := (found :: g.log.reverse).filter fun e => level.keeps e.level
      level := level
      error := if g.failures.isEmpty then none else some (.treeFiles g.failures.reverse) }

/-- Prints a tree file as HTML. -/
def runPreview (w : Workspace) (level : Level) (path : Bytes) : Outcome :=
  match w.read path with
  | .error e => { workspace := w, level := level, error := some (.file e) }
  | .ok source =>
    match Document.decode source with
    | .error e => { workspace := w, level := level, error := some (.notDocument path e) }
    | .ok d => { workspace := w, printed := d.render, level := level }

/-- The command that help is asked for. -/
def helpTopic (arguments : List Bytes) : Action := (select arguments).1

/-- Runs a command. -/
def run (w : Workspace) (arguments : List Bytes) : Outcome :=
  let (command, arguments) := select arguments
  let failed (e : RunError) : Outcome := { workspace := w, error := some e }
  match readArguments command.flags arguments {} [] with
  | .error e => failed (.arguments e)
  | .ok (fs, others) =>
    if fs.help then { workspace := w, printed := usage command }
    else
      match command with
      | .help => { workspace := w, printed := usage (helpTopic others) }
      | .preview =>
        match others with
        | [path] =>
          match settings w fs with
          | .error e => failed e
          | .ok (_, level) => runPreview w level path
        | _ => failed (.arguments (.notOne others.length))
      | .generate =>
        match settings w fs with
        | .error e => failed e
        | .ok (c, level) => runGenerate w fs c level others

/-- The exit code of a run. -/
def Outcome.exitCode (o : Outcome) : Nat := if o.error.isSome then 1 else 0

/-- What a run writes to standard error: the log, then why it fails. -/
def Outcome.complaints (o : Outcome) : Bytes :=
  o.log.flatMap LogEntry.line ++ ((o.error.map fun e => e.message ++ ascii "\n").getD [])

end DocTree.Command
