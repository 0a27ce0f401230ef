import DocTree.Number.Shortest
import DocTree.Text.Bytes
import DocTree.Tree.Normalize

/-!
# Previews

A document as HTML, and the text of that HTML.
-/

/-!
## HTML

Elements, texts and comments, and their text.
-/

namespace DocTree

/-- A piece of HTML. -/
inductive Html where
  /-- An element. An attribute without a value is written as its name alone. -/
  | element (name : Bytes) (attributes : List (Bytes × Option Bytes)) (children : List Html)
  /-- A text. -/
  | text (value : Bytes)
  /-- A comment. -/
  | comment (value : Bytes)

namespace Html

/-- The elements that have neither children nor an end tag. -/
def voidNames : List Bytes :=
  [ascii "area", ascii "base", ascii "br", ascii "col", ascii "command", ascii "embed", ascii "hr",
   ascii "img", ascii "input", ascii "keygen", ascii "link", ascii "meta", ascii "param",
   ascii "source", ascii "track", ascii "wbr"]

/-- The text that stands for a byte with a meaning in HTML. A zero byte becomes U+FFFD. -/
def escape? (b : UInt8) : Option Bytes :=
  if b == 0 then some [0xEF, 0xBF, 0xBD]
  else if b == octet '"' then some (ascii "&#34;")
  else if b == octet '\'' then some (ascii "&#39;")
  else if b == octet '&' then some (ascii "&amp;")
  else if b == octet '<' then some (ascii "&lt;")
  else if b == octet '>' then some (ascii "&gt;")
  else none

/-- A text as the inside of an element or of an attribute value. -/
def escaped (s : Bytes) : Bytes := Bytes.replaceOctets escape? s

/-- An attribute with a blank in front. -/
def attributeText : Bytes × Option Bytes → Bytes
  | (name, none) => octet ' ' :: name
  | (name, some value) => octet ' ' :: (name ++ ascii "=\"" ++ escaped value ++ ascii "\"")

/-- The opening tag of an element. -/
def openTag (name : Bytes) (attributes : List (Bytes × Option Bytes)) : Bytes :=
  octet '<' :: (name ++ attributes.flatMap attributeText ++ ascii ">")

/-- The inside of a comment, in which the end of a comment is broken up. -/
def commentText (value : Bytes) : Bytes := Bytes.replaceAll (ascii "-->") (ascii "--&gt;") value

mutual

/-- The text of a piece of HTML in front of `rest`. -/
def textBefore : Html → Bytes → Bytes
  | .element name attributes children, rest =>
    openTag name attributes ++
      if voidNames.contains name then rest
      else textsBefore children (ascii "</" ++ (name ++ (ascii ">" ++ rest)))
  | .text value, rest => escaped value ++ rest
  | .comment value, rest => ascii "<!--" ++ (commentText value ++ (ascii "-->" ++ rest))

/-- The text of pieces of HTML in front of `rest`. -/
def textsBefore : List Html → Bytes → Bytes
  | [], rest => rest
  | h :: hs, rest => textBefore h (textsBefore hs rest)

end

/-- The text of pieces of HTML. -/
def texts (hs : List Html) : Bytes := textsBefore hs []

end Html

end DocTree

/-!
## The preview of a document

The content of a document as HTML. Statements and component markup have no HTML form and are left
out.
-/

namespace DocTree

/-- The HTML name of an attribute. -/
def Attribute.htmlName (name : Bytes) : Bytes :=
  if name == ascii "className" then ascii "class"
  else if name == ascii "htmlFor" then ascii "for"
  else if name == ascii "httpEquiv" then ascii "http-equiv"
  else if name == ascii "acceptCharset" then ascii "accept-charset"
  else name

/-- A number in an attribute: always in positional notation. -/
def Double.attributeText (x : Double) : Bytes :=
  if x.isFinite then x.shortest.plain
  else if x.isNaN then ascii "NaN"
  else if x.isNegative then ascii "-Inf"
  else ascii "+Inf"

/-- The HTML attribute of a property, if it has one: a false value and an empty style have none. -/
def Property.htmlAttribute? (p : Property) : Option (Bytes × Option Bytes) :=
  let name := Attribute.htmlName p.name
  match p.value with
  | .bool false => none
  | .bool true => some (name, none)
  | .string s => some (name, some s)
  | .number x => some (name, some x.attributeText)
  | .list tokens => some (name, some (Value.list tokens).joined)
  | .style decls => if decls.isEmpty then none else some (name, some (Style.format decls))
  | .other _ => none

namespace Node

mutual

/-- The HTML of a node. -/
def html : Node → List Html
  | .text value => [.text value]
  | .comment value => [.comment value]
  | .element tag props children =>
    [.element tag (props.normalize.filterMap Property.htmlAttribute?) (htmls children)]
  | .root children => htmls children
  | _ => []

/-- The HTML of nodes that stand side by side. -/
def htmls : List Node → List Html
  | [] => []
  | n :: ns => html n ++ htmls ns

end

end Node

/-- The preview of a document. -/
def Document.render (d : Document) : Bytes := Html.texts (Node.htmls d.children)

end DocTree
