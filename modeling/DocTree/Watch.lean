import DocTree.Command.Arguments
import DocTree.Command.Flag
import DocTree.Command.Generate
import DocTree.Number.Decimal
import DocTree.Text.Digest

/-!
# The watcher

A command of its own that looks at one tree file again and again: the durations and arguments that
it takes, and what it does at each look.
-/

/-!
## Durations

A duration is a sequence of decimals with units, such as `1h30m` or `0.5ms`, in nanoseconds, of 64
bits.
-/

namespace DocTree.Duration

/-- The units and their lengths in nanoseconds. The sign for a millionth is known in both
codings. -/
def units : List (Bytes × Nat) :=
  [(ascii "ns", 1), (ascii "us", 1000), ([0xC2, 0xB5] ++ ascii "s", 1000),
   ([0xCE, 0xBC] ++ ascii "s", 1000), (ascii "ms", Nat.pow 10 6), (ascii "s", Nat.pow 10 9),
   (ascii "m", 60 * Nat.pow 10 9), (ascii "h", 3600 * Nat.pow 10 9)]

/-- Can `b` stand in the name of a unit? -/
def isUnitOctet (b : UInt8) : Bool := b != octet '.' && !Decimal.isDigit b

/-- The length of the decimals with units that follow, in nanoseconds, on top of `total`. A part of
a nanosecond does not count. -/
def sum? : Nat → Bytes → Nat → Option Nat
  | _, [], total => some total
  | 0, _, _ => none
  | rounds + 1, s, total =>
    let (whole, rest) := s.span Decimal.isDigit
    let (part, rest) := Decimal.fraction rest
    let (name, rest) := rest.span isUnitOctet
    if whole.isEmpty && part.isEmpty then none
    else
      match units.lookup name with
      | none => none
      | some unit =>
        let total := total + Decimal.ofDigits whole * unit +
          Decimal.ofDigits part * unit / Nat.pow 10 part.length
        if Nat.pow 2 63 < total then none else sum? rounds rest total

/-- The duration that a text denotes, in nanoseconds. Only a zero needs no unit. -/
def parse? (s : Bytes) : Option Int :=
  let (negative, s) := Decimal.sign s
  if s == ascii "0" then some 0
  else if s.isEmpty then none
  else
    (sum? (s.length + 1) s 0).bind fun n =>
      if negative then some (-(n : Int)) else if n < Nat.pow 2 63 then some n else none

end DocTree.Duration

/-!
## The arguments of the watcher

A flag has one dash or two. The first argument that is not a flag ends them, and then there is
nothing left that the watcher takes.
-/

namespace DocTree.Watch

/-- How the watcher works. -/
structure Options where
  /-- The time between two looks at the tree file, in nanoseconds. -/
  interval : Int := 300000000
  /-- Keep newline texts everywhere. -/
  preserveNewlines : Bool := false
  deriving DecidableEq, Repr

/-- Why the watcher does not start. -/
inductive ArgumentError where
  /-- A flag without a name. -/
  | badSyntax (argument : Bytes)
  /-- A flag that the watcher does not know. -/
  | unknownFlag (name : Bytes)
  /-- A flag without its value. -/
  | missingValue (name : Bytes)
  /-- The value is not a duration. -/
  | notDuration (value : Bytes)
  /-- The value is not a truth value. -/
  | notTruth (value : Bytes)
  /-- An argument is left over. -/
  | leftOver
  /-- Help is asked for. -/
  | help
  deriving DecidableEq, Repr

/-- How the watcher is used. -/
def usage : Bytes :=
  Command.lines
    ["Usage: playground [flags]",
     "",
     "Watches ./playground/page.hast.json and recompiles it to page.jsx on changes.",
     "  -interval duration",
     "    \twatch polling interval (default 300ms)",
     "  -preserve-newlines",
     "    \tkeep newline text nodes as text outside <pre> too"]

/-- The complaint in front of the usage. -/
def ArgumentError.complaint : ArgumentError → Bytes
  | .badSyntax argument => ascii "bad flag syntax: " ++ argument ++ ascii "\n"
  | .unknownFlag name => ascii "flag provided but not defined: -" ++ name ++ ascii "\n"
  | .missingValue name => ascii "flag needs an argument: -" ++ name ++ ascii "\n"
  | .notDuration value =>
    ascii "invalid value " ++ Quoted.text value ++ ascii " for flag -interval: parse error\n"
  | .notTruth value =>
    ascii "invalid boolean value " ++ Quoted.text value ++
      ascii " for -preserve-newlines: parse error\n"
  | .leftOver => []
  | .help => []

/-- What is said when the watcher does not start. -/
def ArgumentError.message (e : ArgumentError) : Bytes := e.complaint ++ usage

/-- The exit code when the watcher does not start. -/
def ArgumentError.exitCode : ArgumentError → Nat
  | .help => 0
  | _ => 2

/-- The name of a flag and the value behind `=`, without the dashes. Fails with nothing for an
argument that is not a flag. -/
def splitFlag? (argument : Bytes) : Option (Bytes × Option Bytes) :=
  match argument with
  | d :: rest =>
    if d != octet '-' || rest.isEmpty then none
    else
      let body := (Bytes.after? (ascii "-") rest).getD rest
      match body with
      | [] => none
      | b :: more =>
        let (name, value) := more.span (· != octet '=')
        some (b :: name, if value.isEmpty then none else some value.tail)
  | [] => none

/-- Reads the arguments of the watcher. -/
def readArguments : List Bytes → Options → Except ArgumentError Options
  | [], o => .ok o
  | a :: rest, o =>
    match splitFlag? a with
    | none => if a == ascii "--" && rest.isEmpty then .ok o else .error .leftOver
    | some (name, value) =>
      if name.head? == some (octet '-') || name.head? == some (octet '=') then .error (.badSyntax a)
      else if name == ascii "preserve-newlines" then
        match value with
        | none => readArguments rest { o with preserveNewlines := true }
        | some v =>
          match Command.truth? v with
          | some b => readArguments rest { o with preserveNewlines := b }
          | none => .error (.notTruth v)
      else if name == ascii "interval" then
        match value, rest with
        | some v, rest =>
          match Duration.parse? v with
          | some n => readArguments rest { o with interval := n }
          | none => .error (.notDuration v)
        | none, v :: rest =>
          match Duration.parse? v with
          | some n => readArguments rest { o with interval := n }
          | none => .error (.notDuration v)
        | none, [] => .error (.missingValue name)
      else if name == ascii "h" || name == ascii "help" then .error .help
      else .error (.unknownFlag name)

end DocTree.Watch

/-!
## Watching a tree file

The watcher looks at one tree file again and again, and compiles it when the digest of its content
is not what it was when it was read last.
-/

namespace DocTree.Watch

/-- What the watcher keeps between two looks. -/
structure State where
  /-- The files. -/
  workspace : Workspace
  /-- The digest of the content that was read last. -/
  seen : Option Bytes := none

/-- The tree file that is watched, below the root of the module. -/
def target (root : Bytes) : Bytes := Path.join [root, ascii "playground", ascii "page.hast.json"]

/-- What the watcher puts in front of what it says. -/
def label (message : Bytes) : Bytes := ascii "playground: " ++ message

/-- Compiles the tree file, and tells what came of it. -/
def compile (o : Options) (w : Workspace) (path source : Bytes) : LogEntry × Workspace :=
  let failed (e : TreeFileError) : LogEntry × Workspace := (⟨.error, label e.message⟩, w)
  match Document.decode source with
  | .error e => failed (.undecodable path e)
  | .ok d =>
    match d.compile { preserveNewlines := o.preserveNewlines } with
    | .error e => failed (.uncompilable path e)
    | .ok module =>
      match Output.write w (Output.path path) module with
      | (.error e, w) => (⟨.error, label (TreeFileError.unwritable e).message⟩, w)
      | (.ok _, w) => (⟨.info, label (ascii "compiled " ++ Output.path path)⟩, w)

/-- One look at the tree file, and what there is to tell. -/
def poll (o : Options) (path : Bytes) (s : State) : Option LogEntry × State :=
  match s.workspace.read path with
  | .error e => (some ⟨.warning, label (ascii "read error: " ++ e.message)⟩, s)
  | .ok source =>
    let digest := Digest.sha256 source
    if s.seen = some digest then (none, s)
    else
      let (entry, w) := compile o s.workspace path source
      (some entry, ⟨w, some digest⟩)

/-- The looks at the tree file, each at the files as a change leaves them: what each has to tell,
with the files then. -/
def pollAll (o : Options) (path : Bytes) :
    List (Workspace → Workspace) → State → List (LogEntry × Workspace) →
      List (LogEntry × Workspace) × State
  | [], s, told => (told.reverse, s)
  | change :: rest, s, told =>
    match poll o path { s with workspace := change s.workspace } with
    | (some entry, s) => pollAll o path rest s ((entry, s.workspace) :: told)
    | (none, s) => pollAll o path rest s told

/-- What the watcher has to tell before it looks, when there is no root to be found. -/
def fatal (e : SearchError) : LogEntry := ⟨.fatal, e.message⟩

end DocTree.Watch
