import DocTree.Files.Path
import DocTree.Keyed

/-!
# Files, links and directories

A file system is a tree of directories with files and symbolic links in them. `Entry.at?` and
`Entry.put` follow names only; links are followed by `Entry.resolve`, at most forty of them on one
way.
-/

namespace DocTree

/-- What a name in a directory stands for. -/
inductive Entry where
  /-- A file with its content. -/
  | file (content : Bytes)
  /-- A symbolic link with the path that it leads to. -/
  | link (target : Bytes)
  /-- A directory. -/
  | directory (entries : List (Bytes × Entry))
  deriving Inhabited

/-- Why a file operation fails. -/
inductive Reason where
  /-- A name on the way is missing. -/
  | notFound
  /-- A name on the way is not a directory. -/
  | notDirectory
  /-- There is a directory where a file is asked for. -/
  | isDirectory
  /-- There is something already. -/
  | alreadyThere
  /-- There are too many links on the way. -/
  | tooManyLinks
  /-- A new name has a slash in it. -/
  | slashInName
  deriving DecidableEq, Repr

namespace Entry

/-- Is the entry itself, and not what it may lead to, a directory? -/
def isDirectory : Entry → Bool
  | .directory _ => true
  | _ => false

/-! ## Names -/

/-- Sets a name in a directory. -/
def setEntry (name : Bytes) (entry : Entry) (entries : List (Bytes × Entry)) :
    List (Bytes × Entry) :=
  Keyed.put Prod.fst Keyed.replace (name, entry) entries

/-- What stands at the end of a way of names. -/
def at? : List Bytes → Entry → Option Entry
  | [], e => some e
  | name :: names, .directory entries => (entries.lookup name).bind (at? names)
  | _ :: _, _ => none

/-- Puts an entry at the end of a way of names. Directories that are missing on the way are made;
where a file or a link is in the way nothing changes. -/
def put : Entry → List Bytes → Entry → Entry
  | _, [], new => new
  | .directory entries, name :: names, new =>
    .directory (setEntry name (put ((entries.lookup name).getD (.directory [])) names new) entries)
  | e, _ :: _, _ => e

/-- Removes what stands at the end of a way of names. -/
def remove : List Bytes → Entry → Entry
  | [name], .directory entries => .directory (entries.filter (·.1 != name))
  | name :: names, .directory entries =>
    match entries.lookup name with
    | some e => .directory (setEntry name (remove names e) entries)
    | none => .directory entries
  | _, e => e

/-! ## Links -/

/-- The place where a way ends: its names without links, and what stands there. -/
abbrev Place := List Bytes × Option Entry

/-- Follows a way of path parts from the directory `here` on. At a link, `follow` takes over; the
last link is passed by when `followLast` is off. -/
def resolveWith (tree : Entry) (followLast : Bool)
    (follow : List Bytes → List Bytes → Except Reason Place) :
    List Bytes → List Bytes → Except Reason Place
  | here, [] => .ok (here, tree.at? here)
  | here, part :: rest =>
    if part.isEmpty || part == Path.dot then resolveWith tree followLast follow here rest
    else if part == Path.dotDot then resolveWith tree followLast follow here.dropLast rest
    else
      let there := here ++ [part]
      match tree.at? there with
      | none => if rest.isEmpty then .ok (there, none) else .error .notFound
      | some (.file content) =>
        if rest.isEmpty then .ok (there, some (.file content)) else .error .notDirectory
      | some (.directory _) => resolveWith tree followLast follow there rest
      | some (.link target) =>
        if rest.isEmpty && !followLast then .ok (there, some (.link target))
        else follow (if Path.isAbsolute target then [] else here) (Path.parts target ++ rest)

/-- Follows a way of path parts from a directory on, and so many links. -/
def resolve (tree : Entry) (followLast : Bool) :
    Nat → List Bytes → List Bytes → Except Reason Place
  | 0 => resolveWith tree followLast fun _ _ => .error .tooManyLinks
  | links + 1 => resolveWith tree followLast (resolve tree followLast links)

/-- The number of links that may be on one way. -/
def maxLinks : Nat := 40

/-! ## Listing -/

mutual

/-- The ways to everything below an entry that is not a directory. -/
def leaves : Entry → List (List Bytes)
  | .directory entries => leavesOf entries
  | .file _ => [[]]
  | .link _ => [[]]

/-- The ways to everything in and below a directory that is not a directory. -/
def leavesOf : List (Bytes × Entry) → List (List Bytes)
  | [] => []
  | (name, e) :: es => (leaves e).map (name :: ·) ++ leavesOf es

end

end Entry

end DocTree
