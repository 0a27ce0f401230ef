import DocTree.Yaml.Scalar

/-!
# YAML tokens

A YAML text becomes a list of tokens before it is read as a tree.
-/

/-!
## YAML tokens

The signs of a YAML text. Indentation shows up as tokens of its own: a start in front of the first
item of a block and `blockEnd` behind the last.
-/

namespace DocTree.Yaml

/-- A token of a YAML text. -/
inductive Token where
  /-- `%YAML`, with the version. -/
  | version (major minor : Nat)
  /-- `%TAG`, with the handle and what it stands for. -/
  | tagHandle (handle meaning : List Char)
  /-- `---` -/
  | documentStart
  /-- `...` -/
  | documentEnd
  /-- The start of a block sequence. -/
  | blockSequence
  /-- The start of a block mapping. -/
  | blockMapping
  /-- The end of a block. -/
  | blockEnd
  /-- `[` -/
  | openBracket
  /-- `]` -/
  | closeBracket
  /-- `{` -/
  | openBrace
  /-- `}` -/
  | closeBrace
  /-- `-` in front of an item. -/
  | blockEntry
  /-- `,` between items. -/
  | flowEntry
  /-- The start of a key. -/
  | key
  /-- The start of a value. -/
  | value
  /-- `*`, with a name. -/
  | alias (name : List Char)
  /-- `&`, with a name. -/
  | anchor (name : List Char)
  /-- `!`, with a handle and what follows it. -/
  | tag (handle suffix : List Char)
  /-- A scalar, plain or marked as text by quotes or a block. -/
  | scalar (plain : Bool) (text : List Char)
  /-- The end of the text. -/
  | streamEnd
  deriving DecidableEq, Repr

end DocTree.Yaml

/-!
## From a YAML text to tokens

A key without a `?` in front is known as a key only at its `:`. The place where such a key may begin
is kept, by the number of tokens in front of it, and the key token is put there when the `:` comes.
-/

namespace DocTree.Yaml

/-! ### Places where a key may begin -/

/-- A place where a key may begin. -/
structure KeyPlace where
  /-- The number of tokens in front. -/
  tokens : Nat
  /-- The place in the text. -/
  cursor : Cursor
  /-- Must a key stand here, because a block mapping goes on at this column? -/
  required : Bool

/-- The longest key, in characters. -/
def maxKeyLength : Nat := 1024

/-- The deepest nesting. -/
def maxDepth : Nat := 10000

/-- Can the key still end at `c`? It must end on its line and not be too long. -/
def KeyPlace.reaches (k : KeyPlace) (c : Cursor) : Bool :=
  k.cursor.line == c.line && c.index ≤ k.cursor.index + maxKeyLength

/-- A text as far as it is split into tokens. -/
structure Lexer where
  /-- What is left of the text. -/
  cursor : Cursor
  /-- The tokens, the last one first. -/
  tokens : List Token := []
  /-- The column of the block that is open; -1 outside of blocks. -/
  indent : Int := -1
  /-- The columns of the blocks around it, the innermost first. -/
  indents : List Int := []
  /-- A place for a key in each open bracket, the innermost first. -/
  flow : List (Option KeyPlace) := []
  /-- A place for a key in the open block. -/
  place : Option KeyPlace := none
  /-- Can a key begin here? -/
  allowed : Bool := true

namespace Lexer

/-- Is a bracket open? -/
def inFlow (l : Lexer) : Bool := !l.flow.isEmpty

/-- Adds a token. -/
def push (l : Lexer) (t : Token) : Lexer := { l with tokens := t :: l.tokens }

/-- Adds a token behind the first `n`. -/
def insert (l : Lexer) (n : Nat) (t : Token) : Lexer :=
  { l with tokens := l.tokens.insertIdx (l.tokens.length - n) t }

/-- Moves on by `n` characters. -/
def advance (l : Lexer) (n : Nat) : Lexer := { l with cursor := l.cursor.advance n }

/-- The place for a key in the innermost bracket or block. -/
def keyPlace (l : Lexer) : Option KeyPlace :=
  match l.flow with
  | [] => l.place
  | k :: _ => k

/-- Sets the place for a key in the innermost bracket or block. -/
def setKeyPlace (l : Lexer) (k : Option KeyPlace) : Lexer :=
  match l.flow with
  | [] => { l with place := k }
  | _ :: outer => { l with flow := k :: outer }

/-- Gives up the place for a key; fails when a key must stand there. -/
def dropKeyPlace (l : Lexer) : Option Lexer :=
  match l.keyPlace with
  | some k => if k.required then none else some (l.setKeyPlace none)
  | none => some l

/-- Notes that a key may begin here. -/
def markKeyPlace (l : Lexer) : Option Lexer :=
  if l.allowed then
    l.dropKeyPlace.map fun l =>
      l.setKeyPlace (some ⟨l.tokens.length, l.cursor, !l.inFlow && l.indent == l.cursor.column⟩)
  else some l

/-! ### Blocks -/

/-- Closes the blocks to the right of a column. -/
def closeBlocks (column : Int) : Int → List Int → List Token → Int × List Int × List Token
  | indent, [], tokens =>
    if indent > column then (-1, [], .blockEnd :: tokens) else (indent, [], tokens)
  | indent, outer :: indents, tokens =>
    if indent > column then closeBlocks column outer indents (.blockEnd :: tokens)
    else (indent, outer :: indents, tokens)

/-- Closes the blocks to the right of a column, outside of brackets. -/
def unindent (l : Lexer) (column : Int) : Lexer :=
  if l.inFlow then l
  else
    let (indent, indents, tokens) := closeBlocks column l.indent l.indents l.tokens
    { l with indent := indent, indents := indents, tokens := tokens }

/-- Opens a block at a column to the right of the open one, with its token behind the first `n`
tokens. -/
def indentTo (l : Lexer) (column n : Nat) (t : Token) : Option Lexer :=
  if !l.inFlow && l.indent < column then
    if l.indents.length ≥ maxDepth then none
    else some { l.insert n t with indent := column, indents := l.indent :: l.indents }
  else some l

/-! ### Blanks and comments -/

/-- Moves on to the next token. -/
def skipBlanks : Nat → Lexer → Lexer
  | 0, l => l
  | fuel + 1, l =>
    let c := l.cursor
    let c := if c.column == 0 && c.peek == some (Char.ofNat 0xFEFF) then c.advance 1 else c
    let c := c.skipWhile fun x => x == ' ' || ((l.inFlow || !l.allowed) && x == '\t')
    let c := if c.peek == some '#' then c.skipWhile fun _ => true else c
    if (c.peek.map isBreak).getD false then
      skipBlanks fuel { l with cursor := c.nextLine, allowed := l.allowed || !l.inFlow }
    else { l with cursor := c }

/-! ### Names and tags -/

/-- Can `c` stand in a name? -/
def isNameChar (c : Char) : Bool := c.isAlphanum || c == '_' || c == '-'

/-- Can `c` stand in a tag? -/
def isTagChar (c : Char) : Bool :=
  isNameChar c || (";/?:@&=+$,.!~*'()[]%".toList).contains c

/-- The bytes that the escapes at the start of a text stand for, and the rest of it. -/
def tagEscapes : Nat → List Char → List UInt8 → List UInt8 × List Char
  | fuel + 1, '%' :: a :: b :: rest, done =>
    match hexDigit? a, hexDigit? b with
    | some x, some y => tagEscapes fuel rest (UInt8.ofNat (x * 16 + y) :: done)
    | _, _ => (done.reverse, '%' :: a :: b :: rest)
  | _, rest, done => (done.reverse, rest)

/-- The text of a tag with its escapes resolved. -/
def resolveTag : Nat → List Char → Option (List Char)
  | 0, _ => none
  | _ + 1, [] => some []
  | fuel + 1, c :: rest =>
    if c == '%' then
      let (bytes, rest') := tagEscapes (rest.length + 1) (c :: rest) []
      if bytes.isEmpty then none
      else
        match String.fromUTF8? ⟨bytes.toArray⟩ with
        | some s => (resolveTag fuel rest').map (s.toList ++ ·)
        | none => none
    else (resolveTag fuel rest).map (c :: ·)

/-- Reads the characters of a tag. -/
def tagText (c : Cursor) : Option (List Char × Cursor) :=
  let (run, c) := c.spanWhile isTagChar
  (resolveTag (run.length + 1) run).map (·, c)

/-- Reads a tag: `!<...>`, a handle between two `!` and a text, or `!` and a text. -/
def scanTag (c : Cursor) : Option (Token × Cursor) :=
  let found : Option (Token × Cursor) :=
    if c.peekAt 1 == some '<' then
      match tagText (c.advance 2) with
      | some (text, c) =>
        if text.isEmpty || c.peek != some '>' then none else some (.tag [] text, c.advance 1)
      | none => none
    else
      let (name, behind) := (c.advance 1).spanWhile isNameChar
      if behind.peek == some '!' then
        match tagText (behind.advance 1) with
        | some (text, c) =>
          if text.isEmpty then none else some (.tag ('!' :: name ++ ['!']) text, c)
        | none => none
      else
        match tagText (c.advance 1) with
        | some (text, c) => some (if text.isEmpty then .tag [] ['!'] else .tag ['!'] text, c)
        | none => none
  found.filter fun (_, c) => isGap c.peek

/-- Reads the name behind `*` or `&`. -/
def scanName (c : Cursor) : Option (List Char × Cursor) :=
  let (name, c) := (c.advance 1).spanWhile isNameChar
  let ended :=
    match c.peek with
    | none => true
    | some x =>
      isGap (some x) || x == '?' || x == ':' || x == ',' || x == ']' || x == '}' || x == '%' ||
        x == '@' || x.toNat == 0x60
  if name.isEmpty || !ended then none else some (name, c)

/-! ### Directives -/

/-- The number of a version, of at most nine digits. -/
def versionNumber (c : Cursor) : Option (Nat × Cursor) :=
  let (digits, c) := c.spanWhile Char.isDigit
  if digits.isEmpty || digits.length > 9 then none
  else some (digits.foldl (fun n d => n * 10 + (d.toNat - 48)) 0, c)

/-- Reads a directive, from its `%` on, with the rest of its line. -/
def scanDirective (c : Cursor) : Option (Token × Cursor) :=
  let (name, c) := (c.advance 1).spanWhile isNameChar
  let found : Option (Token × Cursor) :=
    if !isGap c.peek then none
    else if name == "YAML".toList then
      (versionNumber (c.skipWhile isBlank)).bind fun (major, c) =>
        if c.peek != some '.' then none
        else (versionNumber (c.advance 1)).map fun (minor, c) => (.version major minor, c)
    else if name == "TAG".toList then
      let c := c.skipWhile isBlank
      if c.peek != some '!' then none
      else
        let (name, c) := (c.advance 1).spanWhile isNameChar
        let closed := c.peek == some '!'
        let handle := if closed then '!' :: name ++ ['!'] else ['!']
        let c := if closed then c.advance 1 else c
        if (!closed && !name.isEmpty) || !(c.peek.map isBlank).getD false then none
        else
          (tagText (c.skipWhile isBlank)).bind fun (text, c) =>
            if text.isEmpty || !isGap c.peek then none else some (.tagHandle handle text, c)
    else none
  found.bind fun (t, c) =>
    let c := c.skipWhile isBlank
    let c := if c.peek == some '#' then c.skipWhile fun _ => true else c
    if isLineEnd c.peek then some (t, c.nextLine) else none

/-! ### Tokens -/

/-- Closes all blocks, in front of a mark that ends a document. -/
def closeAll (l : Lexer) : Option Lexer :=
  (l.unindent (-1)).dropKeyPlace.map fun l => { l with allowed := false }

/-- Adds a token of one character that stands where a key cannot begin. -/
def pushSign (l : Lexer) (t : Token) (allowed : Bool) : Option Lexer :=
  l.dropKeyPlace.map fun l => { (l.push t).advance 1 with allowed := allowed }

/-- Opens a bracket. -/
def openFlow (l : Lexer) (t : Token) : Option Lexer :=
  l.markKeyPlace.bind fun l =>
    if l.flow.length ≥ maxDepth then none
    else some { (l.push t).advance 1 with flow := none :: l.flow, allowed := true }

/-- Closes a bracket. -/
def closeFlow (l : Lexer) (t : Token) : Option Lexer :=
  l.dropKeyPlace.map fun l =>
    { (l.push t).advance 1 with flow := l.flow.tail, allowed := false }

/-- Adds the `-` of an item. -/
def pushEntry (l : Lexer) : Option Lexer :=
  if !l.inFlow && !l.allowed then none
  else
    (l.indentTo l.cursor.column l.tokens.length .blockSequence).bind fun l =>
      l.pushSign .blockEntry true

/-- Adds a `?`. -/
def pushKey (l : Lexer) : Option Lexer :=
  if !l.inFlow && !l.allowed then none
  else
    (l.indentTo l.cursor.column l.tokens.length .blockMapping).bind fun l =>
      l.pushSign .key !l.inFlow

/-- Adds a `:`, and in front of the text that it makes a key the key token. -/
def pushValue (l : Lexer) : Option Lexer :=
  let finish (l : Lexer) (allowed : Bool) : Lexer :=
    { (l.push .value).advance 1 with allowed := allowed }
  let alone (l : Lexer) : Option Lexer :=
    if !l.inFlow && !l.allowed then none
    else
      (l.indentTo l.cursor.column l.tokens.length .blockMapping).map fun l => finish l !l.inFlow
  match l.keyPlace with
  | none => alone l
  | some k =>
    if k.reaches l.cursor then
      ((l.insert k.tokens .key).indentTo k.cursor.column k.tokens .blockMapping).map fun l =>
        finish (l.setKeyPlace none) false
    else if k.required then none
    else alone (l.setKeyPlace none)

/-- Adds a token that may begin a key. -/
def pushContent (l : Lexer) (found : Cursor → Option (Token × Cursor)) : Option Lexer :=
  l.markKeyPlace.bind fun l =>
    (found l.cursor).map fun (t, c) => { l.push t with cursor := c, allowed := false }

/-- Adds a block scalar. -/
def pushBlock (l : Lexer) (literal : Bool) : Option Lexer :=
  l.dropKeyPlace.bind fun l =>
    (block literal l.indent l.cursor).map fun (text, c) =>
      { l.push (.scalar false text) with cursor := c, allowed := true }

/-- Adds a plain scalar. A key can begin behind it when it ends behind a line break. -/
def pushPlain (l : Lexer) : Option Lexer :=
  l.markKeyPlace.bind fun l =>
    (plain (l.indent + 1) l.inFlow l.cursor).map fun (text, broken, c) =>
      { l.push (.scalar true text) with cursor := c, allowed := broken }

/-- Can a plain scalar begin with `x` in front of `next`? -/
def beginsPlain (inFlow : Bool) (x : Char) (next : Option Char) : Bool :=
  !(isGap (some x) || x.toNat == 0x60 || ("-?:,[]\x7b\x7d#&*!|>'\"%@".toList).contains x) ||
    (x == '-' && !(next.map isBlank).getD false) ||
    (!inFlow && (x == '?' || x == ':') && !isGap next)

/-- Adds the token that begins with `x`. -/
def pushToken (l : Lexer) (x : Char) : Option Lexer :=
  let c := l.cursor
  let next := c.peekAt 1
  if c.column == 0 && x == '%' then
    l.closeAll.bind fun l =>
      (scanDirective l.cursor).map fun (t, c) => { l.push t with cursor := c }
  else if c.atDocumentMark then
    l.closeAll.map fun l =>
      (l.push (if x == '-' then .documentStart else .documentEnd)).advance 3
  else if x == '[' then l.openFlow .openBracket
  else if x == '{' then l.openFlow .openBrace
  else if x == ']' then l.closeFlow .closeBracket
  else if x == '}' then l.closeFlow .closeBrace
  else if x == ',' then l.pushSign .flowEntry true
  else if x == '-' && isGap next then l.pushEntry
  else if x == '?' && (l.inFlow || isGap next) then l.pushKey
  else if x == ':' && (l.inFlow || isGap next) then l.pushValue
  else if x == '*' then l.pushContent fun c => (scanName c).map fun (n, c) => (.alias n, c)
  else if x == '&' then l.pushContent fun c => (scanName c).map fun (n, c) => (.anchor n, c)
  else if x == '!' then l.pushContent scanTag
  else if x == '|' && !l.inFlow then l.pushBlock true
  else if x == '>' && !l.inFlow then l.pushBlock false
  else if x == '\'' || x == '"' then
    l.pushContent fun c => (quoted x c).map fun (text, c) => (.scalar false text, c)
  else if beginsPlain l.inFlow x next then l.pushPlain
  else none

/-- Gives up a place for a key that can no longer be one. -/
def forgetKeyPlace (l : Lexer) : Option Lexer :=
  match l.keyPlace with
  | some k => if k.reaches l.cursor then some l else l.dropKeyPlace
  | none => some l

/-- Splits a text into tokens, the last one first. Fails with the tokens in front of the fault. -/
def run : Nat → Lexer → Except (List Token) (List Token)
  | 0, l => .error l.tokens
  | fuel + 1, l =>
    let l := skipBlanks (l.cursor.rest.length + 1) l
    match l.forgetKeyPlace with
    | none => .error l.tokens
    | some l =>
      let l := l.unindent l.cursor.column
      match l.cursor.peek with
      | none =>
        match l.closeAll with
        | some l => .ok (.streamEnd :: l.tokens)
        | none => .error l.tokens
      | some x =>
        match l.pushToken x with
        | some l => run fuel l
        | none => .error l.tokens

end Lexer

/-- Can `c` stand in a YAML text? -/
def isTextChar (c : Char) : Bool :=
  let n := c.toNat
  n == 0x9 || n == 0xA || n == 0xD || (0x20 ≤ n && n ≤ 0x7E) || n == 0x85 ||
    (0xA0 ≤ n && n ≤ 0xFFFD) || 0x10000 ≤ n

/-- The tokens of a text, and whether there are no more because of a fault. -/
def tokens (text : List Char) : List Token × Bool :=
  match Lexer.run (text.length + 2) { cursor := .start text } with
  | .ok ts => (ts.reverse, false)
  | .error ts => (ts.reverse, true)

end DocTree.Yaml
