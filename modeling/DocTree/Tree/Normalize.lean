import DocTree.Tree.Basic

/-!
# Normal properties

Before an element is written its properties are brought into one form: style text becomes
declarations, `ariaLabel` and `dataFoo` become `aria-label` and `data-foo`, and a list of classes
becomes one text.
-/

namespace DocTree

namespace Attribute

/-- Does `s` begin with `word` and then an ASCII capital? -/
def beginsCamel (word s : Bytes) : Bool :=
  match Bytes.after? word s with
  | some (b :: _) => Style.isCapital b
  | _ => false

/-- Does `word` with an ASCII capital behind it stand anywhere in a text? -/
def hasCamel (word : Bytes) : Bytes → Bool
  | [] => false
  | b :: rest => beginsCamel word (b :: rest) || hasCamel word rest

/-- Is the name spelled in camel case and to be written with dashes? `aria` counts at the front
only, `data` anywhere. -/
def isCamel (name : Bytes) : Bool :=
  beginsCamel (ascii "aria") name || hasCamel (ascii "data") name

/-- The name that an attribute is written under. -/
def writtenName (name : Bytes) : Bytes := if isCamel name then Words.kebab name else name

end Attribute

namespace Properties

/-- Replaces style text by its declarations. -/
def parseStyle (props : Properties) : Properties :=
  match props.get? (ascii "style") with
  | some (.string css) => props.set (ascii "style") (.style (Style.parse css))
  | _ => props

/-- Gives every property the name that it is written under; of two that meet under one name the
first keeps its place and the last its value. -/
def rename (props : Properties) : Properties :=
  props.foldl (fun acc p => acc.set (Attribute.writtenName p.name) p.value) []

/-- Replaces a list of classes by one text. -/
def joinClasses (props : Properties) : Properties :=
  match props.get? (ascii "className") with
  | some (.list tokens) => props.set (ascii "className") (.string (Value.list tokens).joined)
  | _ => props

/-- Properties in the form in which they are written. -/
def normalize (props : Properties) : Properties := props.parseStyle.rename.joinClasses

end Properties

namespace Node

/-- An element with its own properties in normal form and its children as they are; other nodes as
they are. -/
def normalizeOwn (n : Node) : Node := n.withProps n.props.normalize

mutual

/-- The node with the properties of all elements in normal form. -/
def normalize : Node → Node
  | .root children => .root (normalizeAll children)
  | .element tag props children => .element tag props.normalize (normalizeAll children)
  | .importing source => .importing source
  | .exporting source isDefault => .exporting source isDefault
  | .text value => .text value
  | .comment value => .comment value
  | .jsx source => .jsx source
  | .unknown type => .unknown type

/-- The nodes with the properties of all elements in normal form. -/
def normalizeAll : List Node → List Node
  | [] => []
  | n :: ns => normalize n :: normalizeAll ns

end

end Node

/-- The document with the properties of all elements in normal form. -/
def Document.normalize (d : Document) : Document := ⟨Node.normalizeAll d.children⟩

end DocTree
