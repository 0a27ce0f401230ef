import DocTree.Files.Workspace
import DocTree.Log
import DocTree.Text.Utf8
import DocTree.Toml.Document
import DocTree.Yaml.Value

/-!
# Configuration

Settings come from a project file, in one of two languages, or from the command line.
-/

/-!
## Configuration

What a project file or the command line can set.
-/

namespace DocTree

/-- The settings of a run. -/
structure Config where
  /-- Leave out `export default`. -/
  skipExport : Bool
  /-- Keep newline texts everywhere. -/
  preserveNewlines : Bool
  /-- The deepest level of content; zero for the default. -/
  maxDepth : Int
  /-- The log level, by name. -/
  logLevel : Bytes
  deriving DecidableEq, Repr

/-- Why settings are refused. -/
inductive ConfigError where
  /-- The deepest level is negative. -/
  | negativeDepth (depth : Int)
  /-- There is no log level with this name. -/
  | unknownLevel (text : Bytes)
  deriving DecidableEq, Repr

/-- What is said about settings that are refused. -/
def ConfigError.message : ConfigError → Bytes
  | .negativeDepth depth => ascii "maxDepth must not be negative, got " ++ Bytes.ofInt depth
  | .unknownLevel text => ascii "not a valid logrus Level: " ++ Quoted.text text

namespace Config

/-- The settings when nothing is set. -/
def initial : Config := ⟨false, false, 0, Level.warning.name⟩

/-- The log level of valid settings. -/
def validate (c : Config) : Except ConfigError Level :=
  if c.maxDepth < 0 then .error (.negativeDepth c.maxDepth)
  else
    match Level.parse? c.logLevel with
    | some level => .ok level
    | none => .error (.unknownLevel c.logLevel)

end Config

end DocTree

/-!
## Settings in TOML

The outermost table holds the settings, in letters of any case. Names that are not settings do not
matter.
-/

namespace DocTree.Config

/-- A letter without its case, for the letters that names of settings have. Two signs beyond ASCII
count as letters: the long s and the sign for kelvin. -/
def foldCase (c : Char) : Char :=
  if c.toNat == 0x17F then 's' else if c.toNat == 0x212A then 'k' else c.toLower

/-- Is it the name of a setting? -/
def isNamed (setting : String) (name : List Char) : Bool :=
  name.map foldCase == setting.toList.map foldCase

/-- Applies a field of the outermost table to the settings. -/
def applyItem (c : Config) (field : List Char × Toml.Item) : Option Config :=
  let (name, item) := field
  if isNamed "skipExport" name then
    match item with
    | .value (.truth b) => some { c with skipExport := b }
    | _ => none
  else if isNamed "preserveNewlines" name then
    match item with
    | .value (.truth b) => some { c with preserveNewlines := b }
    | _ => none
  else if isNamed "maxDepth" name then
    match item with
    | .value (.integer n) => some { c with maxDepth := n }
    | _ => none
  else if isNamed "logLevel" name then
    match item with
    | .value (.text s) => some { c with logLevel := Utf8.encode s }
    | _ => none
  else some c

/-- A text without its byte order mark. -/
def dropMark (s : Bytes) : Bytes :=
  ((Bytes.after? [0xEF, 0xBB, 0xBF] s).or
    ((Bytes.after? [0xFF, 0xFE] s).or (Bytes.after? [0xFE, 0xFF] s))).getD s

/-- Applies the settings of a TOML text. -/
def applyToml (c : Config) (s : Bytes) : Option Config :=
  let s := dropMark s
  let text := Utf8.decode s
  if Utf8.encode text != s then none
  else
    (Toml.fields? text).bind fun fields =>
      fields.foldl (fun c field => c.bind (applyItem · field)) (some c)

end DocTree.Config

/-!
## Settings in YAML

The text holds one mapping. Keys that are not settings do not matter, and a null leaves a setting as
it was.
-/

namespace DocTree.Config

/-! ### The fields of a mapping -/

/-- Are two keys of a mapping the same? Sequences are not told apart, and neither are mappings. -/
def sameKey : Yaml.Node → Yaml.Node → Bool
  | .scalar _ _ a, .scalar _ _ b => a == b
  | .sequence _, .sequence _ => true
  | .mapping _, .mapping _ => true
  | .named a _, .named b _ => a == b
  | _, _ => false

/-- Are all keys of a mapping different? -/
def keysDiffer : List (Yaml.Node × Yaml.Node) → Bool
  | [] => true
  | (k, _) :: rest => rest.all (fun p => !sameKey k p.1) && keysDiffer rest

/-- Is it the key of a mapping that is merged in? -/
def isMerge : Yaml.Node → Bool
  | .scalar tag plain text =>
    text == ['<', '<'] &&
      (Yaml.shortTag tag == "!!merge".toList || ((tag.isEmpty || tag == ['!']) && plain))
  | _ => false

/-- The node that a name stands for. -/
def target : Yaml.Node → Yaml.Node
  | .named _ n => n
  | n => n

/-- The text of a key: nothing for a null. Fails for a key that is not a scalar. -/
def keyText? : Yaml.Node → Option (Option Bytes)
  | .scalar tag plain text =>
    (Yaml.scalarValue? tag plain text).map fun
      | .null => none
      | _ => some (Utf8.encode text)
  | _ => none

/-- The texts of the keys of a mapping that is not merged in, with their values. -/
def ownFields : List (Yaml.Node × Yaml.Node) → Option (List (Bytes × Yaml.Node))
  | [] => some []
  | (k, v) :: rest =>
    if isMerge k then ownFields rest
    else
      match keyText? (target k), ownFields rest with
      | some (some name), some fields => some ((name, v) :: fields)
      | some none, some fields => some fields
      | _, _ => none

/-- The fields in front of others, which count only where they are new. -/
def addFields (fields more : List (Bytes × Yaml.Node)) : List (Bytes × Yaml.Node) :=
  fields ++ more.filter fun (name, _) => (fields.lookup name).isNone

/-- The fields of a mapping, those of mappings that are merged in behind its own. `rounds` bounds
the nesting of merges. -/
def fields? : Nat → Yaml.Node → Option (List (Bytes × Yaml.Node))
  | 0, _ => none
  | rounds + 1, n =>
    match target n with
    | .mapping pairs =>
      if !keysDiffer pairs then none
      else
        match ownFields pairs with
        | none => none
        | some own =>
          if !(own.map (·.1)).Nodup then none
          else
            match pairs.find? fun (k, _) => isMerge k with
            | none => some own
            | some (_, .sequence items) =>
              items.foldl
                (fun found item =>
                  match found, fields? rounds item with
                  | some fields, some more => some (addFields fields more)
                  | _, _ => none)
                (some own)
            | some (_, v) => (fields? rounds v).map (addFields own)
    | _ => none

/-! ### Settings -/

/-- The value of a scalar. -/
def value? (n : Yaml.Node) : Option Yaml.Value :=
  match target n with
  | .scalar tag plain text => Yaml.scalarValue? tag plain text
  | _ => none

/-- The words that also stand for truth values. -/
def truthWords : List (String × Bool) :=
  [("y", true), ("Y", true), ("yes", true), ("Yes", true), ("YES", true),
   ("on", true), ("On", true), ("ON", true),
   ("n", false), ("N", false), ("no", false), ("No", false), ("NO", false),
   ("off", false), ("Off", false), ("OFF", false)]

/-- Is it a scalar that is not marked as a text? -/
def isPlain (n : Yaml.Node) : Bool :=
  match target n with
  | .scalar tag plain _ => plain && Yaml.shortTag tag != "!!str".toList
  | _ => false

/-- A setting that is on or off. -/
def truthField (n : Yaml.Node) (before : Bool) : Option Bool :=
  match value? n with
  | some .null => some before
  | some (.truth b) => some b
  | some (.text s) =>
    if isPlain n then (truthWords.find? fun (w, _) => ascii w == s).map (·.2) else none
  | _ => none

/-- The integer part of a number; below the range of 64 bits, the least integer. -/
def wholePart (x : Double) : Option Int :=
  let size : Nat :=
    if 0 ≤ x.exponent then x.significand * Nat.pow 2 x.exponent.toNat
    else x.significand / Nat.pow 2 (-x.exponent).toNat
  let n : Int := if x.isNegative then -size else size
  if Int.pow 2 63 < n then none
  else if n < -Int.pow 2 63 || n == Int.pow 2 63 then some (-Int.pow 2 63)
  else some n

/-- A setting that is an integer. -/
def integerField (n : Yaml.Node) (before : Int) : Option Int :=
  match value? n with
  | some .null => some before
  | some (.integer i) => if i < Int.pow 2 63 then some i else none
  | some (.number x) => wholePart x
  | some (.infinite true) => some (-Int.pow 2 63)
  | _ => none

/-- A setting that is a text: that of any scalar. -/
def textField (n : Yaml.Node) (before : Bytes) : Option Bytes :=
  match target n, value? n with
  | _, some .null => some before
  | .scalar _ _ text, some _ => some (Utf8.encode text)
  | _, _ => none

/-- Applies a field to the settings. -/
def applyField (c : Config) (field : Bytes × Yaml.Node) : Option Config :=
  let (name, n) := field
  if name == ascii "skipExport" then
    (truthField n c.skipExport).map ({ c with skipExport := · })
  else if name == ascii "preserveNewlines" then
    (truthField n c.preserveNewlines).map ({ c with preserveNewlines := · })
  else if name == ascii "maxDepth" then (integerField n c.maxDepth).map ({ c with maxDepth := · })
  else if name == ascii "logLevel" then (textField n c.logLevel).map ({ c with logLevel := · })
  else some c

/-- Applies the settings of a YAML text. -/
def applyYaml (c : Config) (s : Bytes) : Option Config :=
  let text := Utf8.decode s
  if Utf8.encode text != s then none
  else
    let text := if text.head? == some (Char.ofNat 0xFEFF) then text.tail else text
    match Yaml.document text with
    | none => none
    | some none => some c
    | some (some n) =>
      if value? n == some .null then some c
      else
        (fields? (text.length + 1) n).bind fun fields =>
          fields.foldl (fun c field => c.bind (applyField · field)) (some c)

end DocTree.Config

/-!
## Project files

Settings are read from a file in YAML or TOML, which its extension tells.
-/

namespace DocTree

/-- Why a project file cannot be used. -/
inductive LoadError where
  /-- It cannot be read. -/
  | unreadable (path : Bytes) (error : FileError)
  /-- Its extension names no format. -/
  | unknownFormat (path : Bytes)
  /-- It is not a text of its format that holds settings. -/
  | malformed (path : Bytes)
  /-- Its settings are refused. -/
  | refused (path : Bytes) (error : ConfigError)
  deriving DecidableEq, Repr

/-- What is said about a project file that cannot be used. -/
def LoadError.message : LoadError → Bytes
  | .unreadable path error => ascii "reading config " ++ path ++ ascii ": " ++ error.message
  | .unknownFormat path =>
    ascii "config " ++ path ++ ascii ": unsupported format " ++ Quoted.text (Path.extension path)
  | .malformed path => ascii "parsing config " ++ path
  | .refused path error => ascii "config " ++ path ++ ascii ": " ++ error.message

namespace Config

/-- The names of project files, the one that is tried first in front. -/
def fileNames : List Bytes := [ascii ".mdxc.yaml", ascii ".mdxc.yml", ascii ".mdxc.toml"]

/-- The project file of a directory. -/
def find? (w : Workspace) (directory : Bytes) : Option Bytes :=
  (fileNames.map (Path.child directory)).find? w.isFile

/-- Applies the settings of a text in the format that an extension names; fails with nothing when it
names none. -/
def applyText? (c : Config) (extension text : Bytes) : Option (Option Config) :=
  let format := Letter.lowerText extension
  if format == ascii ".toml" then some (c.applyToml text)
  else if format == ascii ".yaml" || format == ascii ".yml" then some (c.applyYaml text)
  else none

/-- The settings of a project file. -/
def load (w : Workspace) (path : Bytes) : Except LoadError Config :=
  match w.read path with
  | .error e => .error (.unreadable path e)
  | .ok text =>
    match initial.applyText? (Path.extension path) text with
    | none => .error (.unknownFormat path)
    | some none => .error (.malformed path)
    | some (some c) =>
      match c.validate with
      | .error e => .error (.refused path e)
      | .ok _ => .ok c

/-- The settings of a project file, if there is one. -/
def load? (w : Workspace) : Option Bytes → Except LoadError Config
  | none => .ok initial
  | some path => load w path

end Config

end DocTree
