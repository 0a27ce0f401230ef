import DocTree.Text.Bytes

/-!
# Import and export statements

The statements of a document are opaque source text. A few shapes are looked for in them, byte by
byte: a re-export as the default, a `from` clause behind braces, the expression of a default export,
and the name that an export binds.
-/

namespace DocTree.Statement

/-! ## Pieces of the shapes -/

/-- Is `b` white space of a statement: tab, line feed, form feed, carriage return or blank? -/
def isSpace (b : UInt8) : Bool := b == 9 || b == 10 || b == 12 || b == 13 || b == 32

/-- Is `b` an ASCII letter, a digit or an underscore? -/
def isWordByte (b : UInt8) : Bool :=
  (octet 'a' ≤ b && b ≤ octet 'z') || (octet 'A' ≤ b && b ≤ octet 'Z') ||
    (octet '0' ≤ b && b ≤ octet '9') || b == octet '_'

/-- What follows one white space byte. -/
def space? : Bytes → Option Bytes
  | [] => none
  | b :: rest => if isSpace b then some rest else none

/-- What follows at most one white space byte. -/
def optionalSpace (s : Bytes) : Bytes := (space? s).getD s

/-- What follows white space of any length. -/
def spaces (s : Bytes) : Bytes := s.dropWhile isSpace

/-- What follows white space of length one or more. -/
def spaces? (s : Bytes) : Option Bytes := (space? s).map spaces

/-- The run of word bytes in front, when it is not empty. -/
def word? (s : Bytes) : Option Bytes :=
  let w := s.takeWhile isWordByte
  if w.isEmpty then none else some w

/-- The first result of `f` on the suffixes of a text, the longest first. -/
def findSuffix? {α : Type} (f : Bytes → Option α) : Bytes → Option α
  | [] => f []
  | b :: rest =>
    match f (b :: rest) with
    | some a => some a
    | none => findSuffix? f rest

/-! ## Re-exports as the default -/

/-- What follows `export`, one white space byte and an opening brace. -/
def exportBrace? (s : Bytes) : Option Bytes := do
  let s ← Bytes.after? (ascii "export") s
  let s ← space? s
  Bytes.after? (ascii "\x7b") s

/-- What follows `export { default } from`. -/
def defaultFrom? (s : Bytes) : Option Bytes := do
  let s ← exportBrace? s
  let s ← Bytes.after? (ascii "default") (optionalSpace s)
  let s ← Bytes.after? (ascii "\x7d") (optionalSpace s)
  let s ← space? s
  Bytes.after? (ascii "from") s

/-- Does the text begin as `export { default } from`? -/
def beginsDefaultFrom (s : Bytes) : Bool := (defaultFrom? s).isSome

/-- What follows `as default }`. -/
def asDefaultEnd? (s : Bytes) : Option Bytes := do
  let s ← Bytes.after? (ascii "as") s
  let s ← space? s
  let s ← Bytes.after? (ascii "default") s
  Bytes.after? (ascii "\x7d") (optionalSpace s)

/-- Does the text begin as `as default }`? -/
def beginsAsDefault (s : Bytes) : Bool := (asDefaultEnd? s).isSome

/-- Does `as default }` follow on the same line? -/
def hasAsDefault : Bytes → Bool
  | [] => false
  | b :: rest =>
    if beginsAsDefault (b :: rest) then true
    else if b == 10 then false
    else hasAsDefault rest

/-- Does the statement export a binding as the default in one of the spellings
`export { default } from` and `export { x as default }`? -/
def reexportsDefault (s : Bytes) : Bool :=
  beginsDefaultFrom s ||
    match exportBrace? s with
    | some rest => hasAsDefault rest
    | none => false

/-- What follows a closing brace, `from` and one white space byte. -/
def fromClause? (s : Bytes) : Option Bytes := do
  let s ← Bytes.after? (ascii "\x7d") s
  let s ← Bytes.after? (ascii "from") (spaces s)
  space? s

/-- Does a closing brace with `from` behind it stand anywhere? -/
def hasFromClause (s : Bytes) : Bool := (findSuffix? fromClause? s).isSome

/-! ## Default exports -/

/-- The text without `export default` in front. -/
def dropExportDefault (s : Bytes) : Bytes :=
  (do
    let s ← Bytes.after? (ascii "export") s
    let s ← spaces? s
    let s ← Bytes.after? (ascii "default") s
    spaces? s : Option Bytes).getD s

/-- The text without a semicolon at its end and white space behind that semicolon. -/
def dropSemicolon (s : Bytes) : Bytes :=
  match s.reverse.dropWhile isSpace with
  | b :: rest => if b == octet ';' then rest.reverse else s
  | [] => s

/-- The expression that a default export exports. -/
def defaultExpression (s : Bytes) : Bytes := dropSemicolon (dropExportDefault s)

/-! ## Bound names -/

/-- The words that may stand between `export` and the bound name. -/
def bindingKeywords : List Bytes :=
  [ascii "var", ascii "const", ascii "let", ascii "class", ascii "function"]

/-- The name bound by the `export` at the head of the text. A keyword counts as one only when a word
follows it; otherwise it is itself the name. -/
def nameHere? (s : Bytes) : Option Bytes := do
  let s ← Bytes.after? (ascii "export") s
  let s := spaces s
  match bindingKeywords.findSome? fun k => (Bytes.after? k s).bind fun r => word? (spaces r) with
  | some name => some name
  | none => word? s

/-- The name that an export statement binds: the one of the first `export` in the text that has
one. -/
def boundName? (s : Bytes) : Option Bytes := findSuffix? nameHere? s

end DocTree.Statement
