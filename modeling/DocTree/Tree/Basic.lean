import DocTree.Keyed
import DocTree.Number.Double
import DocTree.Style

/-!
# Document trees

A document is a tree of nodes: elements with ordered properties, texts, comments, and fragments of
module source. Properties form a list with one rule for writing: a name that is there already keeps
its place and takes the new value, a new name goes to the end. A place in a document is the list of
child positions that lead to it from the root.
-/

namespace DocTree

/-! ## Property values -/

/-- The value of a property. -/
inductive Value where
  /-- A text. -/
  | string (s : Bytes)
  /-- A truth value. -/
  | bool (b : Bool)
  /-- A number. -/
  | number (x : Double)
  /-- A list of tokens, such as the classes of an element. -/
  | list (tokens : List Bytes)
  /-- A style, as declarations. -/
  | style (decls : List Style.Declaration)
  /-- A value of a kind outside the five, with the number of that kind. -/
  | other (kind : Int)
  deriving DecidableEq, Repr

namespace Value

/-- The name of a kind of value, by its number. -/
def kindName : Int → String
  | 0 => "string"
  | 1 => "bool"
  | 2 => "number"
  | 3 => "list"
  | 4 => "style"
  | _ => "unknown"

/-- The tokens of a list with single blanks between them; nothing for the other kinds. -/
def joined : Value → Bytes
  | .list tokens => Bytes.join (ascii " ") tokens
  | _ => []

end Value

/-! ## Properties -/

/-- A named property. -/
structure Property where
  /-- The name. -/
  name : Bytes
  /-- The value. -/
  value : Value
  deriving DecidableEq, Repr

/-- The properties of an element, in the order in which they are written. -/
abbrev Properties := List Property

namespace Properties

/-- The position of the first property with a name. -/
def index? (name : Bytes) (props : Properties) : Option Nat := props.findIdx? (·.name == name)

/-- The value of the first property with a name. -/
def get? (name : Bytes) (props : Properties) : Option Value :=
  (Keyed.find? Property.name name props).map Property.value

/-- Replaces the value of the first property with a name, or adds the property at the end. -/
def set (name : Bytes) (value : Value) (props : Properties) : Properties :=
  Keyed.put Property.name Keyed.replace ⟨name, value⟩ props

end Properties

/-! ## Nodes -/

/-- A node of a document tree. -/
inductive Node where
  /-- A list of nodes. It is the top of a document; below the top it stands for its children. -/
  | root (children : List Node)
  /-- An import statement, as source text. -/
  | importing (source : Bytes)
  /-- An export statement, as source text. -/
  | exporting (source : Bytes) (isDefault : Bool)
  /-- An element. -/
  | element (tag : Bytes) (props : Properties) (children : List Node)
  /-- A text. -/
  | text (value : Bytes)
  /-- A comment. -/
  | comment (value : Bytes)
  /-- A block of component markup, as source text. -/
  | jsx (source : Bytes)
  /-- A node of a type that has no meaning here. -/
  | unknown (type : Bytes)
  deriving Repr, Inhabited

/-- The name of a node's type. -/
def Node.typeName : Node → Bytes
  | .root _ => ascii "root"
  | .importing _ => ascii "import"
  | .exporting _ _ => ascii "export"
  | .element _ _ _ => ascii "element"
  | .text _ => ascii "text"
  | .comment _ => ascii "comment"
  | .jsx _ => ascii "jsx"
  | .unknown type => type

/-- A document: the children of its root. -/
structure Document where
  /-- The nodes at the top. -/
  children : List Node
  deriving Repr

/-! ## Places -/

namespace Node

/-- The children of a root or an element. -/
def children : Node → List Node
  | .root children => children
  | .element _ _ children => children
  | _ => []

/-- The properties of an element. -/
def props : Node → Properties
  | .element _ props _ => props
  | _ => []

/-- An element with other properties. -/
def withProps (props : Properties) : Node → Node
  | .element tag _ children => .element tag props children
  | n => n

/-- The node at a place. -/
def at? : List Nat → Node → Option Node
  | [], n => some n
  | i :: path, n => (n.children[i]?).bind (at? path)

end Node

namespace Document

/-- The document as a node. -/
def toNode (d : Document) : Node := .root d.children

/-- The node at a place. -/
def at? (path : List Nat) (d : Document) : Option Node := d.toNode.at? path

end Document

end DocTree
