import DocTree.Json.Read
import DocTree.Tree.Basic

/-!
# Documents from JSON

A node is an object. Its fields may come in any order and more than once; fields that have no
meaning, and values of a type that has none in their place, are passed over.
-/

namespace DocTree

/-- Why a text is not a document. -/
inductive DecodeError where
  /-- The JSON text is refused. -/
  | json (fault : Json.Fault)
  /-- The node at the top is of another type than `root`. -/
  | notRoot (type : Bytes)
  deriving DecidableEq, Repr

namespace Decode

open Json (Read Fault)

/-! ## Property values -/

/-- A token of a list value, added to the tokens in front of it, the last one first. Strings and
numbers count, a number as it is written. -/
def token (room : Nat) (acc : List Bytes) (s : Bytes) : Read (List Bytes) :=
  match Json.nextKind s with
  | .string => (Json.string s).map fun (t, rest) => (t :: acc, rest)
  | .number => let (run, rest) := Json.numberRun s; .ok (run :: acc, rest)
  | _ => (Json.skip room s).map (acc, ·)

/-- A member of a style object, added to the declarations in front of it, the last one first. -/
def declaration (room : Nat) (acc : List Style.Declaration) (key s : Bytes) :
    Read (List Style.Declaration) :=
  match Json.nextKind s with
  | .string => (Json.string s).map fun (v, rest) => (⟨[], key, v, false⟩ :: acc, rest)
  | .number => let (run, rest) := Json.numberRun s; .ok (⟨[], key, run, true⟩ :: acc, rest)
  | _ => (Json.skip room s).map (acc, ·)

/-- The value of a property; `null` gives none. -/
def value (room : Nat) (s : Bytes) : Read (Option Value) :=
  match Json.nextKind s with
  | .string => (Json.string s).map fun (t, rest) => (some (.string t), rest)
  | .bool => (Json.bool s).map fun (b, rest) => (some (.bool b), rest)
  | .number => (Json.double s).map fun (x, rest) => (some (.number x), rest)
  | .array =>
    match room with
    | 0 => .error .malformed
    | room + 1 =>
      (Json.items (token room) [] ((Json.skipSpaces s).drop 1)).map fun (acc, rest) =>
        (some (.list acc.reverse), rest)
  | .object =>
    match room with
    | 0 => .error .malformed
    | room + 1 =>
      (Json.members (declaration room) [] ((Json.skipSpaces s).drop 1)).map fun (acc, rest) =>
        (some (.style acc.reverse), rest)
  | _ => (Json.skip room s).map (none, ·)

/-- A member of a property object, set in the properties in front of it. -/
def property (room : Nat) (props : Properties) (name s : Bytes) : Read Properties :=
  (value room s).map fun (v, rest) =>
    match v with
    | some v => (props.set name v, rest)
    | none => (props, rest)

/-- The properties of an element; `null` stands for none. -/
def properties (room : Nat) (s : Bytes) : Read Properties :=
  match Json.nextKind s with
  | .null => (Json.skip room s).map ([], ·)
  | .object =>
    match room with
    | 0 => .error .malformed
    | room + 1 => Json.members (property room) [] ((Json.skipSpaces s).drop 1)
  | _ => .error .malformed

/-! ## Nodes -/

/-- The fields of a node, as far as they are read. -/
structure Fields where
  /-- The type. -/
  type : Bytes := []
  /-- The text of a text, a comment or a fragment of source. -/
  value : Bytes := []
  /-- Is an export the default one? -/
  isDefault : Bool := false
  /-- The tag of an element. -/
  tag : Bytes := []
  /-- The properties of an element. -/
  props : Properties := []
  /-- The children, the last one first. -/
  children : List Node := []

/-- The node that the fields describe. -/
def Fields.toNode (f : Fields) : Except Fault Node :=
  if f.type == ascii "root" then .ok (.root f.children.reverse)
  else if f.type == ascii "import" then .ok (.importing f.value)
  else if f.type == ascii "export" then .ok (.exporting f.value f.isDefault)
  else if f.type == ascii "element" then .ok (.element f.tag f.props f.children.reverse)
  else if f.type == ascii "text" then .ok (.text f.value)
  else if f.type == ascii "comment" then .ok (.comment f.value)
  else if f.type == ascii "jsx" then .ok (.jsx f.value)
  else if f.type.isEmpty then .error .missingType
  else .ok (.unknown f.type)

/-- The children of a node, added to those in front of them; `null` stands for none. -/
def children (node : Bytes → Read Node) (room : Nat) (f : Fields) (s : Bytes) : Read Fields :=
  match Json.nextKind s with
  | .null => (Json.expectWord (ascii "null") (Json.skipSpaces s)).map (f, ·)
  | .array =>
    if room = 0 then .error .malformed
    else
      Json.items
        (fun (f : Fields) s =>
          (node s).map fun (n, rest) => ({ f with children := n :: f.children }, rest))
        f ((Json.skipSpaces s).drop 1)
  | _ => .error .malformed

/-- A member of a node object, where `node` reads a child and so many arrays and objects may still
be opened. -/
def field (node : Bytes → Read Node) (room : Nat) (f : Fields) (key s : Bytes) : Read Fields :=
  if key == ascii "type" then
    (Json.string s).map fun (t, rest) => ({ f with type := t }, rest)
  else if key == ascii "value" then
    if Json.nextKind s = .string then
      (Json.string s).map fun (t, rest) => ({ f with value := t }, rest)
    else (Json.skip room s).map (f, ·)
  else if key == ascii "default" then
    if Json.nextKind s = .bool then
      (Json.bool s).map fun (b, rest) => ({ f with isDefault := b }, rest)
    else (Json.skip room s).map (f, ·)
  else if key == ascii "tagName" then
    (Json.string s).map fun (t, rest) => ({ f with tag := t }, rest)
  else if key == ascii "properties" then
    (properties room s).map fun (props, rest) => ({ f with props := props }, rest)
  else if key == ascii "children" then children node room f s
  else (Json.skip room s).map (f, ·)

/-- A node, in which so many arrays and objects may be open at once. A child has two less: one is
the node itself, one the array of its children. -/
def node : Nat → Bytes → Read Node
  | 0, s => .error (if Json.nextKind s = .object then .malformed else .expectedObject)
  | 1, s => nodeWith (fun _ => .error .malformed) 0 s
  | room + 2, s => nodeWith (node room) (room + 1) s
where
  /-- A node whose children are read by `child`. -/
  nodeWith (child : Bytes → Read Node) (room : Nat) (s : Bytes) : Read Node :=
    if Json.nextKind s = .object then
      match Json.members (field child room) {} ((Json.skipSpaces s).drop 1) with
      | .error e => .error e
      | .ok (f, rest) => f.toNode.map (·, rest)
    else .error .expectedObject

end Decode

/-- The document that a JSON text describes. What stands behind the top object is not looked at. -/
def Document.decode (s : Bytes) : Except DecodeError Document :=
  match Decode.node Json.maxNesting s with
  | .error fault => .error (.json fault)
  | .ok (.root children, _) => .ok ⟨children⟩
  | .ok (n, _) => .error (.notRoot n.typeName)

end DocTree
