import DocTree.Number.Integer
import DocTree.Text.Quoted

/-!
# Flags

The flags of the command line and the notation of their values.
-/

namespace DocTree.Command

/-- A flag. -/
inductive Flag where
  /-- The project file. -/
  | config
  /-- The log level. -/
  | logLevel
  /-- Leave out `export default`. -/
  | skipExport
  /-- Keep newline texts everywhere. -/
  | preserveNewlines
  /-- The deepest level of content. -/
  | maxDepth
  /-- The directory whose tree files are compiled. -/
  | dir
  /-- Print modules instead of writing them. -/
  | stdout
  /-- Print how the command is used. -/
  | help
  deriving DecidableEq, Repr

/-- The kind of a flag's value. -/
inductive FlagKind where
  /-- A truth value, which can be left out. -/
  | truth
  /-- An integer. -/
  | integer
  /-- A text. -/
  | text
  deriving DecidableEq, Repr

namespace Flag

/-- The name of a flag. -/
def name : Flag → Bytes
  | .config => ascii "config"
  | .logLevel => ascii "log-level"
  | .skipExport => ascii "skip-export"
  | .preserveNewlines => ascii "preserve-newlines"
  | .maxDepth => ascii "max-depth"
  | .dir => ascii "dir"
  | .stdout => ascii "stdout"
  | .help => ascii "help"

/-- The kind of the flag's value. -/
def kind : Flag → FlagKind
  | .config | .logLevel | .dir => .text
  | .maxDepth => .integer
  | .skipExport | .preserveNewlines | .stdout | .help => .truth

/-- The flag as a complaint about its value names it. -/
def title : Flag → Bytes
  | .help => ascii "-h, --help"
  | f => ascii "--" ++ f.name

end Flag

/-- The texts that stand for truth values. -/
def truthTexts : List (String × Bool) :=
  [("1", true), ("t", true), ("T", true), ("TRUE", true), ("true", true), ("True", true),
   ("0", false), ("f", false), ("F", false), ("FALSE", false), ("false", false), ("False", false)]

/-- The truth value that a text stands for. -/
def truth? (s : Bytes) : Option Bool :=
  (truthTexts.find? fun (word, _) => ascii word == s).map (·.2)

/-- The flags that are set, with the values that they were given last. -/
structure Flags where
  /-- The project file. -/
  config : Option Bytes := none
  /-- The log level. -/
  logLevel : Option Bytes := none
  /-- Leave out `export default`. -/
  skipExport : Option Bool := none
  /-- Keep newline texts everywhere. -/
  preserveNewlines : Option Bool := none
  /-- The deepest level of content. -/
  maxDepth : Option Int := none
  /-- The directory whose tree files are compiled. -/
  dir : Bytes := []
  /-- Print modules instead of writing them. -/
  stdout : Bool := false
  /-- Print how the command is used. -/
  help : Bool := false

/-- Why the value of a flag is refused. -/
inductive ValueFault where
  /-- It is not a truth value. -/
  | notTruth
  /-- It is not an integer. -/
  | notInteger (fault : Integer.Fault)
  deriving DecidableEq, Repr

/-- What is said about a value that is refused. -/
def ValueFault.message (value : Bytes) : ValueFault → Bytes
  | .notTruth =>
    ascii "strconv.ParseBool: parsing " ++ Quoted.text value ++ ascii ": invalid syntax"
  | .notInteger fault =>
    ascii "strconv.ParseInt: parsing " ++ Quoted.text value ++
      match fault with
      | .malformed => ascii ": invalid syntax"
      | .outOfRange => ascii ": value out of range"

namespace Flags

/-- Sets a flag that is on or off. -/
def setTruth (fs : Flags) (f : Flag) (b : Bool) : Flags :=
  match f with
  | .skipExport => { fs with skipExport := some b }
  | .preserveNewlines => { fs with preserveNewlines := some b }
  | .stdout => { fs with stdout := b }
  | .help => { fs with help := b }
  | _ => fs

/-- Sets a flag that takes a text. -/
def setText (fs : Flags) (f : Flag) (s : Bytes) : Flags :=
  match f with
  | .config => { fs with config := some s }
  | .logLevel => { fs with logLevel := some s }
  | .dir => { fs with dir := s }
  | _ => fs

/-- Sets a flag to the value that a text denotes. -/
def set (fs : Flags) (f : Flag) (value : Bytes) : Except ValueFault Flags :=
  match f.kind with
  | .text => .ok (fs.setText f value)
  | .truth =>
    match truth? value with
    | some b => .ok (fs.setTruth f b)
    | none => .error .notTruth
  | .integer =>
    match Integer.parse value with
    | .ok n => .ok { fs with maxDepth := some n }
    | .error fault => .error (.notInteger fault)

end Flags

end DocTree.Command
