import DocTree.Command.Flag

/-!
# Command lines

The arguments that the commands take, and the texts that say so.
-/

/-!
## The arguments of a command

Flags and other arguments can be mixed. A flag is `--name=value`, or `--name value` unless it is on
or off; `--` ends the flags. The first argument that is not a flag can select a command.
-/

namespace DocTree.Command

/-- A command. -/
inductive Action where
  /-- Compile tree files. -/
  | generate
  /-- Print a tree file as HTML. -/
  | preview
  /-- Print how a command is used. -/
  | help
  deriving DecidableEq, Repr

/-- The flags that a command knows. -/
def Action.flags : Action → List Flag
  | .generate =>
    [.config, .logLevel, .skipExport, .preserveNewlines, .maxDepth, .dir, .stdout, .help]
  | .preview | .help => [.config, .logLevel, .help]

/-- Why arguments are refused. -/
inductive ArgumentError where
  /-- A flag without a name. -/
  | badSyntax (argument : Bytes)
  /-- A flag that the command does not know. -/
  | unknownFlag (name : Bytes)
  /-- A letter that is not a flag. -/
  | unknownLetter (letter : UInt8) (letters : Bytes)
  /-- A flag without its value. -/
  | missingValue (argument : Bytes)
  /-- A value that the flag does not take. -/
  | badValue (flag : Flag) (value : Bytes) (fault : ValueFault)
  /-- The command takes one argument. -/
  | notOne (count : Nat)
  deriving DecidableEq, Repr

/-- What is said about arguments that are refused. -/
def ArgumentError.message : ArgumentError → Bytes
  | .badSyntax argument => ascii "bad flag syntax: " ++ argument
  | .unknownFlag name => ascii "unknown flag: --" ++ name
  | .unknownLetter letter letters =>
    ascii "unknown shorthand flag: " ++ Quoted.char (Char.ofNat letter.toNat) ++ ascii " in -" ++
      letters
  | .missingValue argument => ascii "flag needs an argument: " ++ argument
  | .badValue flag value fault =>
    ascii "invalid argument " ++ Quoted.text value ++ ascii " for " ++ Quoted.text flag.title ++
      ascii " flag: " ++ fault.message value
  | .notOne count => ascii "accepts 1 arg(s), received " ++ Bytes.ofNat count

/-! ### Selecting the command -/

/-- The dashes in front of a flag. -/
def dashes : Bytes := ascii "--"

/-- Does the next argument belong to this one, when the command is looked for? Only the flags that
are on or off stand alone, and the flag for help is not known yet. -/
def takesNext (argument : Bytes) : Bool :=
  let standsAlone (name : Bytes) : Bool :=
    Action.generate.flags.any fun f => f.kind == .truth && f != .help && f.name == name
  if argument.contains (octet '=') then false
  else
    match Bytes.after? dashes argument with
    | some name => !standsAlone name
    | none => argument.startsWith (ascii "-") && argument.length == 2

/-- The first argument that is neither a flag nor the value of one. When a flag has at most one
argument behind it, the search ends there. -/
def firstWord? : List Bytes → Option Bytes
  | [] => none
  | [a] =>
    if a == dashes || takesNext a || a.isEmpty || a.startsWith (ascii "-") then none else some a
  | a :: b :: rest =>
    if a == dashes then none
    else if takesNext a then if rest.isEmpty then none else firstWord? rest
    else if a.isEmpty || a.startsWith (ascii "-") then firstWord? (b :: rest)
    else some a

/-- The arguments without the first one that is `word` and neither a flag nor the value of one. -/
def dropWord (word : Bytes) : List Bytes → List Bytes
  | [] => []
  | [a] => if a == word && !takesNext a then [] else [a]
  | a :: b :: rest =>
    if a == dashes then a :: b :: rest
    else if takesNext a then a :: b :: dropWord word rest
    else if a == word then b :: rest
    else a :: dropWord word (b :: rest)

/-- The command that arguments select, and the arguments for it. -/
def select (arguments : List Bytes) : Action × List Bytes :=
  match firstWord? arguments with
  | some word =>
    if word == ascii "preview" then (.preview, dropWord word arguments)
    else if word == ascii "help" then (.help, dropWord word arguments)
    else (.generate, arguments)
  | none => (.generate, arguments)

/-! ### Flags and other arguments -/

/-- Sets a flag to the value that a text denotes. -/
def assign (fs : Flags) (f : Flag) (value : Bytes) : Except ArgumentError Flags :=
  match fs.set f value with
  | .ok fs => .ok fs
  | .error fault => .error (.badValue f value fault)

/-- The flag with a name, and the value behind `=`. -/
def splitFlag (known : List Flag) (argument body : Bytes) :
    Except ArgumentError (Flag × Option Bytes) :=
  let (name, value) := body.span (· != octet '=')
  if name.isEmpty || name.head? == some (octet '-') then .error (.badSyntax argument)
  else
    match known.find? (·.name == name) with
    | none => .error (.unknownFlag name)
    | some f => .ok (f, if value.isEmpty then none else some value.tail)

/-- Reads the letters behind a single dash. Only `h` is a flag, and what begins with `test.` does
not count. -/
def readLetters : Nat → Bytes → Flags → Except ArgumentError Flags
  | 0, _, fs => .ok fs
  | _, [], fs => .ok fs
  | rounds + 1, letter :: rest, fs =>
    if Bytes.startsWith (letter :: rest) (ascii "test.") then .ok fs
    else if letter != octet 'h' then .error (.unknownLetter letter (letter :: rest))
    else
      match rest with
      | e :: v :: value =>
        if e == octet '=' then assign fs .help (v :: value)
        else readLetters rounds rest { fs with help := true }
      | _ => readLetters rounds rest { fs with help := true }

/-- Reads arguments, behind other arguments than flags, the last one first. -/
def readArguments (known : List Flag) :
    List Bytes → Flags → List Bytes → Except ArgumentError (Flags × List Bytes)
  | [], fs, others => .ok (fs, others.reverse)
  | a :: rest, fs, others =>
    match a with
    | [] => readArguments known rest fs (a :: others)
    | first :: body =>
      if first != octet '-' || body.isEmpty then readArguments known rest fs (a :: others)
      else if a == dashes then .ok (fs, others.reverse ++ rest)
      else
        match Bytes.after? (ascii "-") body with
        | none =>
          match readLetters (body.length + 1) body fs with
          | .ok fs => readArguments known rest fs others
          | .error e => .error e
        | some body =>
          match splitFlag known a body with
          | .error e => .error e
          | .ok (f, some value) =>
            match assign fs f value with
            | .ok fs => readArguments known rest fs others
            | .error e => .error e
          | .ok (f, none) =>
            if f.kind == .truth then readArguments known rest (fs.setTruth f true) others
            else
              match rest with
              | [] => .error (.missingValue a)
              | value :: rest =>
                match assign fs f value with
                | .ok fs => readArguments known rest fs others
                | .error e => .error e

end DocTree.Command

/-!
## How commands are used

The texts that `--help` prints.
-/

namespace DocTree.Command

/-- The lines of a text. -/
def lines (ls : List String) : Bytes := ls.flatMap fun l => ascii l ++ ascii "\n"

/-- How tree files are compiled. -/
def generateUsage : Bytes :=
  lines
    ["Generates one *.jsx file next to each *.hast.json tree.",
     "",
     "Paths behave like Go patterns:",
     "  - ./...               recurse from cwd",
     "  - ./dir               only that directory (non-recursive)",
     "  - ./dir/...           recurse from that directory",
     "  - ./page.hast.json    only that file",
     "",
     "Usage:",
     "  mdxc [flags] [paths...]",
     "  mdxc [command]",
     "",
     "Available Commands:",
     "  help     Help about any command",
     "  preview  Render a tree as static HTML",
     "",
     "Flags:",
     "      --config string       project file (defaults to .mdxc.yaml, .mdxc.yml or .mdxc.toml in cwd)",
     "      --dir string          only generate for this directory (non-recursive)",
     "  -h, --help                help for mdxc",
     "      --log-level string    log messages above specified level (trace, debug, info, warn, error)",
     "      --max-depth int       maximum tree depth (0 uses the compiler default)",
     "      --preserve-newlines   keep newline text nodes as text outside <pre> too",
     "      --skip-export         do not export the generated component as the module default",
     "      --stdout              print generated code instead of writing files",
     "",
     "Use \"mdxc [command] --help\" for more information about a command."]

/-- How a tree file is printed as HTML. -/
def previewUsage : Bytes :=
  lines
    ["Renders the content of a *.hast.json tree as HTML on stdout. Import, export and JSX blocks are omitted.",
     "",
     "Usage:",
     "  mdxc preview FILE [flags]",
     "",
     "Flags:",
     "  -h, --help   help for preview",
     "",
     "Global Flags:",
     "      --config string      project file (defaults to .mdxc.yaml, .mdxc.yml or .mdxc.toml in cwd)",
     "      --log-level string   log messages above specified level (trace, debug, info, warn, error)"]

/-- How help is asked for. -/
def helpUsage : Bytes :=
  lines
    ["Help provides help for any command in the application.",
     "Simply type mdxc help [path to command] for full details.",
     "",
     "Usage:",
     "  mdxc help [command] [flags]",
     "",
     "Flags:",
     "  -h, --help   help for help",
     "",
     "Global Flags:",
     "      --config string      project file (defaults to .mdxc.yaml, .mdxc.yml or .mdxc.toml in cwd)",
     "      --log-level string   log messages above specified level (trace, debug, info, warn, error)"]

/-- How a command is used. -/
def usage : Action → Bytes
  | .generate => generateUsage
  | .preview => previewUsage
  | .help => helpUsage

end DocTree.Command
