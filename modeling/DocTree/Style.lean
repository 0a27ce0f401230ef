import DocTree.Keyed
import DocTree.Text.Bytes
import DocTree.Text.Utf8
import DocTree.Text.Words

/-!
# Inline styles

Style text is cut into pieces, each piece is a declaration with a name and a value, and the name has
a second spelling as the key of a style object.
-/

/-!
## Splitting style text

Style text is cut at a separator only where the separator stands outside quotes and parentheses, so
that `url(data:image/png;base64,x)` is one piece. Inside quotes a backslash takes the meaning from
the byte behind it. A closing parenthesis that closes nothing is plain text, and a quote or a
parenthesis that is never closed reaches to the end.
-/

namespace DocTree.Style

/-- Where a reader of style text stands. -/
structure Position where
  /-- The open quote, if any. -/
  quote : Option UInt8
  /-- Has the byte before, a backslash inside quotes, taken the meaning from this one? -/
  escaped : Bool
  /-- The number of open parentheses. -/
  depth : Nat
  deriving DecidableEq, Repr

namespace Position

/-- The start of a text. -/
def start : Position := ⟨none, false, 0⟩

/-- Does a separator count here? -/
def isOutside (p : Position) : Bool := p.quote.isNone && p.depth == 0

/-- The position behind the byte `b`. -/
def next (p : Position) (b : UInt8) : Position :=
  match p.quote with
  | some q =>
    if p.escaped then { p with escaped := false }
    else if b == octet '\\' then { p with escaped := true }
    else if b == q then { p with quote := none }
    else p
  | none =>
    if b == octet '"' || b == octet '\'' then { p with quote := some b }
    else if b == octet '(' then { p with depth := p.depth + 1 }
    else if b == octet ')' then { p with depth := p.depth - 1 }
    else p

end Position

/-- Splits on from a position. `piece` is the current piece and `done` the pieces before it, both
with the last item first. -/
def splitFrom (separator : UInt8) : Position → Bytes → Bytes → List Bytes → List Bytes
  | _, [], piece, done => (piece.reverse :: done).reverse
  | p, b :: rest, piece, done =>
    if p.isOutside && b == separator then
      splitFrom separator p rest [] (piece.reverse :: done)
    else
      splitFrom separator (p.next b) rest (b :: piece) done

/-- The pieces between the separators that stand outside quotes and parentheses. -/
def split (separator : UInt8) (s : Bytes) : List Bytes := splitFrom separator .start s [] []

end DocTree.Style

/-!
## Names of style properties

A style property has two spellings: the name that a style sheet uses (`font-size`,
`-webkit-transition`) and the key that a style object uses (`fontSize`, `WebkitTransition`). Custom
properties, whose names begin with two dashes, are spelled the same way in both.
-/

namespace DocTree.Style

/-- Is `b` an ASCII capital? -/
def isCapital (b : UInt8) : Bool := octet 'A' ≤ b && b ≤ octet 'Z'

/-- The key of a style sheet name. A vendor name begins with a capital, except for the vendor `ms`;
a name without a dash is its own key. -/
def toKey (name : Bytes) : Bytes :=
  if name.startsWith (ascii "--") then name
  else if name.startsWith (ascii "-ms-") then Words.camel (name.drop 1)
  else if name.startsWith (ascii "-") then Words.pascal (name.drop 1)
  else if !name.contains (octet '-') then name
  else Words.camel (Letter.lowerText name)

/-- Does a key belong to a vendor: a capital in front, or `ms` and then a capital? -/
def isVendorKey : Bytes → Bool
  | [] => false
  | a :: rest =>
    isCapital a ||
      match rest with
      | b :: c :: _ => a == octet 'm' && b == octet 's' && isCapital c
      | _ => false

/-- The style sheet name of a key. -/
def ofKey (key : Bytes) : Bytes :=
  if key.startsWith (ascii "--") then key
  else if isVendorKey key then octet '-' :: Words.kebab key
  else Words.kebab key

end DocTree.Style

/-!
## Style declarations

Inline style text as an ordered list of declarations, read (`parse`) and written (`format`).
-/

namespace DocTree.Style

/-- One declaration of an inline style. -/
structure Declaration where
  /-- The style sheet name as written; empty when the style came as an object. -/
  name : Bytes
  /-- The key in a style object. -/
  key : Bytes
  /-- The value. -/
  value : Bytes
  /-- Is the value the text of a number rather than a string? -/
  numeric : Bool
  deriving DecidableEq, Repr

/-- The declaration in one piece of style text. The first colon outside quotes and parentheses
divides name and value; a piece that lacks either is no declaration. -/
def declaration? (piece : Bytes) : Option Declaration :=
  match split (octet ':') piece with
  | first :: _ :: _ =>
    let name := Bytes.trim first
    let value := Bytes.trim (piece.drop (first.length + 1))
    if name.isEmpty || value.isEmpty then none
    else some ⟨name, toKey name, value, false⟩
  | _ => none

/-- The declarations in the pieces of style text. -/
def declared (css : Bytes) : List Declaration := (split (octet ';') css).filterMap declaration?

/-- A declaration with the value of another one. -/
def Declaration.revalue (d e : Declaration) : Declaration := { d with value := e.value }

/-- The declarations of inline style text. One whose key is there already does not come behind the
others: the declaration that has the key stays where it is and takes the new value. -/
def parse (css : Bytes) : List Declaration :=
  Keyed.putAll Declaration.key Declaration.revalue [] (declared css)

/-- The name that a declaration is written with. -/
def Declaration.writtenName (d : Declaration) : Bytes :=
  if d.name.isEmpty then ofKey d.key else d.name

/-- Declarations as inline style text. -/
def format (decls : List Declaration) : Bytes :=
  Bytes.join (ascii ";") (decls.map fun d => d.writtenName ++ octet ':' :: d.value)

end DocTree.Style
