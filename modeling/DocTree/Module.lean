import DocTree.Json.Write
import DocTree.Statement
import DocTree.Text.Quoted
import DocTree.Tree.Decode
import DocTree.Tree.Normalize

/-!
# Modules

A document becomes the source of a module, or an error with its wording.
-/

/-!
## Component markup

The body of a generated module: tags, template literals, comments and source that is copied. The
printers take what follows the markup, so that the text of a deep tree is put together once.
-/

namespace DocTree

/-- A piece of component markup. -/
inductive Markup where
  /-- A component for an element, with the tag of the element around it (empty at the top). -/
  | tag (name parent : Bytes) (props : Properties) (children : List Markup)
  /-- A text, as a template literal. -/
  | literal (value : Bytes)
  /-- A comment. -/
  | comment (value : Bytes)
  /-- Text that stands as it is. -/
  | verbatim (source : Bytes)

namespace Markup

/-- The escape of a byte that has a meaning in a template literal. -/
def templateEscape? (b : UInt8) : Option Bytes :=
  if b == octet '\\' || b == octet '`' || b == octet '$' then some [octet '\\', b] else none

/-- The inside of the template literal that evaluates to a text. -/
def escapeTemplate (s : Bytes) : Bytes := Bytes.replaceOctets templateEscape? s

/-- The opening tag of a component. -/
def openTag (name parent : Bytes) (props : Properties) : Bytes :=
  ascii "<MDXTag name=\"" ++ name ++ ascii "\" components=\x7bcomponents\x7d" ++
    (if parent.isEmpty then [] else ascii " parentName=\"" ++ parent ++ ascii "\"") ++
    (if props.isEmpty then [] else ascii " props=\x7b" ++ Json.properties props ++ ascii "\x7d") ++
    ascii ">"

/-- The closing tag of a component. -/
def closeTag : Bytes := ascii "</MDXTag>"

mutual

/-- The text of a piece of markup in front of `rest`. -/
def textBefore : Markup → Bytes → Bytes
  | .tag name parent props children, rest =>
    openTag name parent props ++ textsBefore children (closeTag ++ rest)
  | .literal value, rest => ascii "\x7b`" ++ (escapeTemplate value ++ (ascii "`\x7d" ++ rest))
  | .comment value, rest => ascii "\x7b/*" ++ (value ++ (ascii "*/\x7d" ++ rest))
  | .verbatim source, rest => source ++ rest

/-- The text of pieces of markup in front of `rest`. -/
def textsBefore : List Markup → Bytes → Bytes
  | [], rest => rest
  | m :: ms, rest => textBefore m (textsBefore ms rest)

end

/-- The text of pieces of markup. -/
def texts (ms : List Markup) : Bytes := textsBefore ms []

end Markup

end DocTree

/-!
## From a document to a module

The nodes at the top of a document are imports, exports and content. Imports and exports are copied
to the top of the module; the content becomes the body of a component. A default export is the
layout that the component is wrapped in.
-/

namespace DocTree

/-! ### Options and errors -/

/-- What shapes the generated module. -/
structure CompileOptions where
  /-- Leave out `export default`. -/
  skipExport : Bool := false
  /-- Keep newline texts as text everywhere and not only in preformatted elements. -/
  preserveNewlines : Bool := false
  /-- The deepest level of content; zero and below stand for the default. -/
  maxDepth : Int := 0
  deriving DecidableEq, Repr

/-- The deepest level of content when none is given. -/
def defaultMaxDepth : Nat := 10000

/-- The deepest level of content that the options allow. -/
def CompileOptions.depthLimit (o : CompileOptions) : Nat :=
  if o.maxDepth ≤ 0 then defaultMaxDepth else o.maxDepth.toNat

/-- Why there is no module. -/
inductive CompileError where
  /-- There is no document. -/
  | noDocument
  /-- The statement exports a binding as the default in a spelling that is not supported. -/
  | defaultReexport (source : Bytes)
  /-- There is content deeper than the limit. -/
  | tooDeep (limit : Nat)
  deriving DecidableEq, Repr

/-! ### Content -/

/-- What a node knows about the elements around it. -/
structure Context where
  /-- The tag of the element around it; empty at the top. -/
  tag : Bytes
  /-- Do newline texts count as text? -/
  preserve : Bool
  /-- The level of the node; one at the top. -/
  depth : Nat
  deriving DecidableEq, Repr

/-- The context at the top. -/
def CompileOptions.context (o : CompileOptions) : Context := ⟨[], o.preserveNewlines, 1⟩

/-- Do newline texts count as text in an element with this tag? -/
def isPreformatted (tag : Bytes) : Bool := tag == ascii "pre"

/-- The context of the children of an element. -/
def Context.enter (c : Context) (tag : Bytes) : Context :=
  ⟨tag, c.preserve || isPreformatted tag, c.depth + 1⟩

/-- The markup of a text: a lone newline between elements is layout, all else is text. -/
def textMarkup (c : Context) (value : Bytes) : Markup :=
  if value == ascii "\n" && !c.preserve then .verbatim value else .literal value

namespace Node

mutual

/-- The markup of a node, or `none` when it has a node deeper than the limit. A root stands for its
children, and a node without a meaning for nothing. -/
def markup? (limit : Nat) (c : Context) : Node → Option (List Markup)
  | .root children => if limit < c.depth then none else markups? limit c children
  | .element tag props children =>
    if limit < c.depth then none
    else
      (markups? limit (c.enter tag) children).map fun ms =>
        [.tag tag c.tag props.normalize ms]
  | .text value => if limit < c.depth then none else some [textMarkup c value]
  | .comment value => if limit < c.depth then none else some [.comment value]
  | .importing source => if limit < c.depth then none else some [.verbatim source]
  | .exporting source _ => if limit < c.depth then none else some [.verbatim source]
  | .jsx source => if limit < c.depth then none else some [.verbatim source]
  | .unknown _ => if limit < c.depth then none else some []

/-- The markup of nodes that stand side by side. -/
def markups? (limit : Nat) (c : Context) : List Node → Option (List Markup)
  | [] => some []
  | n :: ns =>
    match markup? limit c n with
    | none => none
    | some ms => (markups? limit c ns).map (ms ++ ·)

end

mutual

/-- The node as a walk to the limit leaves it, and whether the walk came through. Elements are
brought into normal form as they are met; the walk ends at the first node below the limit. -/
def visit (limit depth : Nat) : Node → Node × Bool
  | .root children =>
    if limit < depth then (.root children, false)
    else
      let (children, through) := visitAll limit depth children
      (.root children, through)
  | .element tag props children =>
    if limit < depth then (.element tag props children, false)
    else
      let (children, through) := visitAll limit (depth + 1) children
      (.element tag props.normalize children, through)
  | n => (n, !(limit < depth))

/-- Nodes that stand side by side as a walk to the limit leaves them, and whether it came
through. -/
def visitAll (limit depth : Nat) : List Node → List Node × Bool
  | [] => ([], true)
  | n :: ns =>
    match visit limit depth n with
    | (n, false) => (n :: ns, false)
    | (n, true) =>
      let (ns, through) := visitAll limit depth ns
      (n :: ns, through)

end

/-- Is the node content, and neither an import nor an export? -/
def isContent : Node → Bool
  | .importing _ => false
  | .exporting _ _ => false
  | _ => true

/-- The source of an import. -/
def import? : Node → Option Bytes
  | .importing source => some source
  | _ => none

/-- The source of an export, and whether it is the default one. -/
def export? : Node → Option (Bytes × Bool)
  | .exporting source isDefault => some (source, isDefault)
  | _ => none

end Node

/-! ### The module -/

namespace Document

/-- The imports at the top. -/
def imports (d : Document) : List Bytes := d.children.filterMap Node.import?

/-- The exports at the top, and whether they are default exports. -/
def exports (d : Document) : List (Bytes × Bool) := d.children.filterMap Node.export?

/-- The content at the top. -/
def content (d : Document) : List Node := d.children.filter Node.isContent

/-- The names that the exports bind, default exports apart. -/
def boundNames (d : Document) : List Bytes :=
  d.exports.filterMap fun (source, isDefault) =>
    if isDefault then none else Statement.boundName? source

/-- The expression of the last default export; empty when there is none. -/
def layout (d : Document) : Bytes :=
  match (d.exports.filter (·.2)).getLast? with
  | some (source, _) => Statement.defaultExpression source
  | none => []

/-- The first export in a spelling that is not supported. -/
def defaultReexport? (d : Document) : Option Bytes :=
  (d.exports.map (·.1)).find? Statement.reexportsDefault

/-- The text of the module around the text of its body. -/
def moduleText (o : CompileOptions) (d : Document) (body : List Markup) : Bytes :=
  Bytes.join (ascii "\n") d.imports ++ ascii "\n" ++
    Bytes.join (ascii "\n") (d.exports.map (·.1)) ++ ascii "\n" ++
    ascii "const layoutProps = \x7b\n  " ++ Bytes.join (ascii ",\n") d.boundNames ++
    ascii "\n\x7d;\n" ++
    (if o.skipExport then [] else ascii "export default") ++
    ascii " class MDXContent extends React.Component \x7b\n  constructor(props) \x7b\n" ++
    ascii "    super(props)\n    this.layout = " ++
    (if d.layout.isEmpty then ascii "null" else d.layout) ++
    ascii "\n  \x7d\n  render() \x7b\n    const \x7b components, ...props \x7d = this.props\n\n" ++
    ascii "    return <MDXTag\n             name=\"wrapper\"\n             " ++
    (if d.layout.isEmpty then []
      else
        ascii "Layout=\x7bthis.layout\x7d " ++
          ascii "layoutProps=\x7bObject.assign(\x7b\x7d, layoutProps, props)\x7d") ++
    ascii "\n             components=\x7bcomponents\x7d>" ++
    Markup.textsBefore body (ascii "\n           </MDXTag>\n  \x7d\n\x7d")

/-- The module of a document. -/
def compile (o : CompileOptions) (d : Document) : Except CompileError Bytes :=
  match d.defaultReexport? with
  | some source => .error (.defaultReexport source)
  | none =>
    match Node.markups? o.depthLimit o.context d.content with
    | none => .error (.tooDeep o.depthLimit)
    | some body => .ok (d.moduleText o body)

/-- The document as compiling it leaves it: elements are in normal form up to the end of the walk
through the content. -/
def afterCompile (o : CompileOptions) (d : Document) : Document :=
  match d.defaultReexport? with
  | some _ => d
  | none => ⟨(Node.visitAll o.depthLimit 1 d.children).1⟩

/-- What compiling a document has to tell: the sizes of its parts, and its layout if there is
one. -/
def compileNotes (d : Document) : List Bytes :=
  match d.defaultReexport? with
  | some _ => []
  | none =>
    (ascii "mdx: compiling root with " ++ Bytes.ofNat d.imports.length ++ ascii " imports, " ++
      Bytes.ofNat d.exports.length ++ ascii " exports, " ++ Bytes.ofNat d.content.length ++
      ascii " content nodes") ::
    (if d.layout.isEmpty then []
      else [ascii "mdx: using layout " ++ Quoted.text d.layout])

end Document

end DocTree

/-!
## The wording of errors

One function for each kind of error says what a reader is told.
-/

namespace DocTree

/-- The complaint about a document that cannot be read; `none` where the text is no JSON at all and
the wording is left open. -/
def Json.Fault.complaint? : Json.Fault → Option Bytes
  | .malformed => none
  | .expectedObject => some (ascii "decode node: expected object")
  | .missingType => some (ascii "decode node: missing type")

/-- What is said about a text that is not a document. -/
def DecodeError.message : DecodeError → Bytes
  | .json fault =>
    match fault.complaint? with
    | some complaint => ascii "decoding tree: " ++ complaint
    | none => ascii "decoding tree"
  | .notRoot type => ascii "decoding tree: top level node is " ++ type ++ ascii ", want root"

/-- An example of the supported spelling of a default export, with a `from` clause or without. -/
def reexportExample : Bool → Bytes
  | true =>
    ascii "For example, instead of:\n\nexport \x7b default \x7d from './Layout'\n\n" ++
      ascii "use:\n\nimport Layout from './Layout'\nexport default Layout"
  | false =>
    ascii "For example, instead of:\n\nexport \x7b Layout as default \x7d\n\n" ++
      ascii "use:\n\nexport default Layout"

/-- What is said about a document that gives no module. -/
def CompileError.message : CompileError → Bytes
  | .noDocument => ascii "mdx: nil root"
  | .defaultReexport source =>
    ascii "MDX doesn't support using \"default\" as a named export, " ++
      ascii "use \"export default\" statement instead.\n\n" ++
      reexportExample (Statement.hasFromClause source)
  | .tooDeep limit => ascii "mdx: tree exceeds the maximum depth of " ++ Bytes.ofNat limit

end DocTree
