import DocTree.Text.Bytes

/-!
# Paths

Paths are texts with slashes between names. The operations here look at the text alone and never at
a file system: `clean` gives the shortest equivalent path, in which a name and the `..` behind it
cancel.
-/

namespace DocTree.Path

/-- The byte between two names. -/
def slash : UInt8 := octet '/'

/-- Does a path begin at the root? -/
def isAbsolute (path : Bytes) : Bool := path.head? == some slash

/-- The texts between the slashes, empty ones included. -/
def parts (path : Bytes) : List Bytes := path.splitOn slash

/-- The name of the directory itself. -/
def dot : Bytes := ascii "."

/-- The name of the directory above. -/
def dotDot : Bytes := ascii ".."

/-! ## Clean paths -/

/-- Adds a part to the names in front of it, the last one first. Above the root there is nothing;
above the start of a relative path `..` remains. -/
def push (absolute : Bool) (names : List Bytes) (part : Bytes) : List Bytes :=
  if part.isEmpty || part == dot then names
  else if part == dotDot then
    match names with
    | [] => if absolute then [] else [dotDot]
    | last :: before => if last == dotDot then dotDot :: last :: before else before
  else part :: names

/-- The names of a path, the last one first. -/
def names (path : Bytes) : List Bytes := (parts path).foldl (push (isAbsolute path)) []

/-- The absolute path with the given names, the last one first. -/
def ofNames (names : List Bytes) : Bytes := slash :: Bytes.join [slash] names.reverse

/-- The shortest equivalent path. -/
def clean (path : Bytes) : Bytes :=
  if isAbsolute path then ofNames (names path)
  else if (names path).isEmpty then dot
  else Bytes.join [slash] (names path).reverse

/-- The clean path of some paths one behind the other; empty ones do not count. -/
def join (paths : List Bytes) : Bytes :=
  match paths.filter (!·.isEmpty) with
  | [] => []
  | paths => clean (Bytes.join [slash] paths)

/-- The path of a name in a directory. -/
def child (directory name : Bytes) : Bytes := join [directory, name]

/-- The path of a name in a directory as it is written, with one slash between the two. -/
def beneath (directory name : Bytes) : Bytes :=
  if directory.getLast? == some slash then directory ++ name else directory ++ slash :: name

/-! ## Parts of a path -/

/-- The directory that a path is in. -/
def parent (path : Bytes) : Bytes := clean (path.reverse.dropWhile (· != slash)).reverse

/-- The last name of a path. -/
def base (path : Bytes) : Bytes :=
  match path.reverse.dropWhile (· == slash) with
  | [] => if path.isEmpty then dot else [slash]
  | rest => (rest.takeWhile (· != slash)).reverse

/-- The text from the last dot of the last name; empty when there is no dot. -/
def extension (path : Bytes) : Bytes :=
  let name := path.reverse.takeWhile (· != slash)
  if name.contains (octet '.') then octet '.' :: (name.takeWhile (· != octet '.')).reverse else []

/-- The absolute path with the given names, the last one first, and the paths of the directories
above it, up to the root. -/
def upward : List Bytes → List Bytes
  | [] => [ofNames []]
  | name :: names => ofNames (name :: names) :: upward names

end DocTree.Path
