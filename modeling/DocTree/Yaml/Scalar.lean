/-!
# YAML scalars

The places in a YAML text, and the readers of the scalars that begin at them.
-/

/-!
## Places in a YAML text

A cursor is the rest of a text together with the number of its line and column.
-/

namespace DocTree.Yaml

/-- Is `c` a line break? -/
def isBreak (c : Char) : Bool :=
  c == '\n' || c == '\r' || c.toNat == 0x85 || c.toNat == 0x2028 || c.toNat == 0x2029

/-- Is `c` a blank or a tab? -/
def isBlank (c : Char) : Bool := c == ' ' || c == '\t'

/-- Does a blank, a line break or the end of the text come? -/
def isGap : Option Char → Bool
  | none => true
  | some c => isBlank c || isBreak c

/-- Does a line break or the end of the text come? -/
def isLineEnd : Option Char → Bool
  | none => true
  | some c => isBreak c

/-- A place in a text. -/
structure Cursor where
  /-- What is left of the text. -/
  rest : List Char
  /-- The number of characters in front. -/
  index : Nat
  /-- The number of lines in front. -/
  line : Nat
  /-- The number of characters in front on the same line. -/
  column : Nat

namespace Cursor

/-- The start of a text. -/
def start (text : List Char) : Cursor := ⟨text, 0, 0, 0⟩

/-- The character that comes. -/
def peek (c : Cursor) : Option Char := c.rest.head?

/-- The character behind `n` others. -/
def peekAt (c : Cursor) (n : Nat) : Option Char := c.rest[n]?

/-- The place behind `n` characters of the same line. -/
def advance (c : Cursor) (n : Nat) : Cursor :=
  ⟨c.rest.drop n, c.index + n, c.line, c.column + n⟩

/-- The place behind the line break that comes. -/
def nextLine (c : Cursor) : Cursor :=
  match c.rest with
  | '\r' :: '\n' :: rest => ⟨rest, c.index + 2, c.line + 1, 0⟩
  | _ :: rest => ⟨rest, c.index + 1, c.line + 1, 0⟩
  | [] => c

/-- What the line break that comes counts as in a text: a line feed, except for the separators of
lines and paragraphs. -/
def lineBreak (c : Cursor) : List Char :=
  match c.peek with
  | some b =>
    if b.toNat == 0x2028 || b.toNat == 0x2029 then [b] else if isBreak b then ['\n'] else []
  | none => []

/-- The characters of the same line that `p` holds for, and the place behind them. -/
def spanWhile (p : Char → Bool) (c : Cursor) : List Char × Cursor :=
  let run := c.rest.takeWhile fun x => p x && !isBreak x
  (run, c.advance run.length)

/-- The place behind the characters of the same line that `p` holds for. -/
def skipWhile (p : Char → Bool) (c : Cursor) : Cursor := (c.spanWhile p).2

/-- Does `---` or `...` stand here, alone at the start of a line? -/
def atDocumentMark (c : Cursor) : Bool :=
  c.column == 0 && isGap (c.peekAt 3) &&
    (c.rest.take 3 == ['-', '-', '-'] || c.rest.take 3 == ['.', '.', '.'])

end Cursor

end DocTree.Yaml

/-!
## YAML scalars

The five spellings of a scalar. Each reader gives the text and the place behind it. Line breaks
inside a scalar are folded: one becomes a blank, of several the first is dropped.
-/

namespace DocTree.Yaml

/-! ### Folding -/

/-- A scalar as far as it is read; all texts have their last character first. -/
structure Folding where
  /-- The text. -/
  text : List Char := []
  /-- Blanks behind the text on the same line. -/
  blanks : List Char := []
  /-- The first line break behind the text; nothing when it is escaped. -/
  lead : Option (List Char) := none
  /-- The line breaks behind the first. -/
  more : List Char := []

namespace Folding

/-- Takes blanks and line breaks into the text. -/
def join (f : Folding) : Folding :=
  match f.lead with
  | none => { text := f.blanks ++ f.text }
  | some lead =>
    if lead == ['\n'] then { text := if f.more.isEmpty then ' ' :: f.text else f.more ++ f.text }
    else { text := f.more ++ lead ++ f.text }

/-- Adds characters, given with the last one first. -/
def add (f : Folding) (cs : List Char) : Folding := { f with text := cs ++ f.text }

/-- Adds a blank. At the start of a line blanks do not count. -/
def addBlank (f : Folding) (c : Char) : Folding :=
  if f.lead.isSome then f else { f with blanks := c :: f.blanks }

/-- Adds a line break. -/
def addBreak (f : Folding) (b : List Char) : Folding :=
  if f.lead.isSome then { f with more := b ++ f.more } else { f with blanks := [], lead := some b }

end Folding

/-- Reads blanks and line breaks. A tab at the start of a line in front of the column `indent` is
refused. -/
def foldBlanks (indent : Int) : Nat → Cursor → Folding → Option (Cursor × Folding)
  | 0, _, _ => none
  | fuel + 1, c, f =>
    match c.peek with
    | none => some (c, f)
    | some x =>
      if isBlank x then
        if f.lead.isSome && c.column < indent && x == '\t' then none
        else foldBlanks indent fuel (c.advance 1) (f.addBlank x)
      else if isBreak x then foldBlanks indent fuel c.nextLine (f.addBreak c.lineBreak)
      else some (c, f)

/-! ### Plain scalars -/

/-- The characters of a plain scalar up to a blank, a line break or a sign that ends it, with the
last one first. -/
def plainRun (inFlow : Bool) : List Char → List Char → List Char
  | [], done => done
  | c :: rest, done =>
    if isGap (some c) then done
    else if c == ':' && isGap rest.head? then done
    else if inFlow && [',', '?', '[', ']', '{', '}'].contains c then done
    else plainRun inFlow rest (c :: done)

/-- Reads a plain scalar whose further lines must reach the column `indent`. -/
def plainFrom (indent : Int) (inFlow : Bool) : Nat → Cursor → Folding → Option (Cursor × Folding)
  | 0, _, _ => none
  | fuel + 1, c, f =>
    if c.atDocumentMark || c.peek == some '#' then some (c, f)
    else
      let run := plainRun inFlow c.rest []
      let f := if run.isEmpty then f else f.join.add run
      let c := c.advance run.length
      if c.peek.isNone || !isGap c.peek then some (c, f)
      else
        match foldBlanks indent (c.rest.length + 1) c f with
        | none => none
        | some (c, f) =>
          if !inFlow && c.column < indent then some (c, f) else plainFrom indent inFlow fuel c f

/-- A plain scalar, and whether it ends behind a line break. -/
def plain (indent : Int) (inFlow : Bool) (c : Cursor) : Option (List Char × Bool × Cursor) :=
  (plainFrom indent inFlow (c.rest.length + 1) c {}).map fun (c, f) =>
    (f.text.reverse, f.lead.isSome, c)

/-! ### Quoted scalars -/

/-- The character that an escape of one letter stands for. -/
def escape? (c : Char) : Option Char :=
  match c with
  | '0' => some (Char.ofNat 0)
  | 'a' => some (Char.ofNat 7)
  | 'b' => some (Char.ofNat 8)
  | 't' => some '\t'
  | '\t' => some '\t'
  | 'n' => some '\n'
  | 'v' => some (Char.ofNat 11)
  | 'f' => some (Char.ofNat 12)
  | 'r' => some '\r'
  | 'e' => some (Char.ofNat 27)
  | ' ' => some ' '
  | '"' => some '"'
  | '\'' => some '\''
  | '/' => some '/'
  | '\\' => some '\\'
  | 'N' => some (Char.ofNat 0x85)
  | '_' => some (Char.ofNat 0xA0)
  | 'L' => some (Char.ofNat 0x2028)
  | 'P' => some (Char.ofNat 0x2029)
  | _ => none

/-- The number of digits of an escape that gives a code point. -/
def escapeDigits : Char → Nat
  | 'x' => 2
  | 'u' => 4
  | 'U' => 8
  | _ => 0

/-- The value of a hexadecimal digit. -/
def hexDigit? (c : Char) : Option Nat :=
  if '0' ≤ c && c ≤ '9' then some (c.toNat - 48)
  else if 'a' ≤ c && c ≤ 'f' then some (c.toNat - 87)
  else if 'A' ≤ c && c ≤ 'F' then some (c.toNat - 55)
  else none

/-- The number that hexadecimal digits denote. -/
def hexValue? (digits : List Char) : Option Nat :=
  digits.foldl (fun n c => n.bind fun n => (hexDigit? c).map (n * 16 + ·)) (some 0)

/-- The character of an escape behind its backslash, and the number of characters of the escape. -/
def escaped? (rest : List Char) : Option (Char × Nat) :=
  match rest with
  | [] => none
  | c :: rest =>
    let size := escapeDigits c
    if size = 0 then (escape? c).map (·, 1)
    else if rest.length < size then none
    else
      (hexValue? (rest.take size)).bind fun n =>
        if n.isValidChar then some (Char.ofNat n, size + 1) else none

/-- Reads a quoted scalar up to its closing quote. -/
def quotedFrom (quote : Char) : Nat → Cursor → Folding → Option (Cursor × Folding)
  | 0, _, _ => none
  | fuel + 1, c, f =>
    if c.atDocumentMark then none
    else
      match c.rest with
      | [] => none
      | x :: rest =>
        if isGap (some x) then
          match foldBlanks 0 (c.rest.length + 1) c f with
          | none => none
          | some (c, f) => quotedFrom quote fuel c f.join
        else if x == quote then
          if quote == '\'' && rest.head? == some '\'' then
            quotedFrom quote fuel (c.advance 2) (f.add [x])
          else some (c.advance 1, f)
        else if quote == '"' && x == '\\' then
          if (rest.head?.map isBreak).getD false then
            let behind := (c.advance 1).nextLine
            match foldBlanks 0 (rest.length + 1) behind { f with lead := some [] } with
            | none => none
            | some (c, f) => quotedFrom quote fuel c f.join
          else
            match escaped? rest with
            | none => none
            | some (y, size) => quotedFrom quote fuel (c.advance (size + 1)) (f.add [y])
        else quotedFrom quote fuel (c.advance 1) (f.add [x])

/-- A quoted scalar, from its opening quote on. -/
def quoted (quote : Char) (c : Cursor) : Option (List Char × Cursor) :=
  (quotedFrom quote (c.rest.length + 1) (c.advance 1) {}).map fun (c, f) => (f.text.reverse, c)

/-! ### Block scalars -/

/-- What becomes of the line breaks at the end of a block scalar. -/
inductive Chomping where
  /-- The first one stays. -/
  | clip
  /-- None stays. -/
  | strip
  /-- All stay. -/
  | keep
  deriving DecidableEq, Repr

/-- The signs behind the `|` or `>` of a block scalar: an indentation and a chomping, in any order.
An indentation of zero is refused. -/
def blockHeader? (c : Cursor) : Option (Nat × Chomping × Cursor) :=
  let chomp (c : Cursor) : Chomping × Cursor :=
    match c.peek with
    | some '+' => (.keep, c.advance 1)
    | some '-' => (.strip, c.advance 1)
    | _ => (.clip, c)
  let digit (c : Cursor) : Option (Nat × Cursor) :=
    match c.peek with
    | some d =>
      if d == '0' then none
      else if d.isDigit then some (d.toNat - 48, c.advance 1)
      else some (0, c)
    | none => some (0, c)
  match chomp c with
  | (.clip, _) => (digit c).map fun (n, c) => (n, chomp c)
  | (ch, c) => (digit c).map fun (n, c) => (n, ch, c)

/-- Reads indentation and empty lines, up to the column `indent`, or as far as there are blanks when
that is zero. Gives the line breaks, the last one first, and the largest column met. A tab in the
indentation is refused. -/
def blockBreaks (indent : Nat) :
    Nat → Cursor → List Char → Nat → Option (Cursor × List Char × Nat)
  | 0, _, _, _ => none
  | fuel + 1, c, breaks, widest =>
    let room := if indent = 0 then c.rest.length else indent - c.column
    let c := c.advance (min room (c.rest.takeWhile (· == ' ')).length)
    let widest := max widest c.column
    if (indent = 0 || c.column < indent) && c.peek == some '\t' then none
    else if (c.peek.map isBreak).getD false then
      blockBreaks indent fuel c.nextLine (c.lineBreak ++ breaks) widest
    else some (c, breaks, widest)

/-- A block scalar as far as it is read; all texts have their last character first. -/
structure BlockText where
  /-- The text. -/
  text : List Char := []
  /-- The line break behind the last line. -/
  lead : List Char := []
  /-- The line breaks of the empty lines behind it. -/
  more : List Char := []
  /-- Does the last line begin with a blank? -/
  blank : Bool := false

/-- Reads the lines of a block scalar. -/
def blockLines (literal : Bool) (indent : Nat) :
    Nat → Cursor → BlockText → Option (Cursor × BlockText)
  | 0, _, _ => none
  | fuel + 1, c, b =>
    if c.column != indent || c.peek.isNone then some (c, b)
    else
      let blank := (c.peek.map isBlank).getD false
      let joined :=
        if !literal && !b.blank && !blank && b.lead == ['\n'] then
          if b.more.isEmpty then ' ' :: b.text else b.more ++ b.text
        else b.more ++ b.lead ++ b.text
      let (run, c) := c.spanWhile fun _ => true
      let lead := c.lineBreak
      let c := if c.peek.isNone then c else c.nextLine
      match blockBreaks indent (c.rest.length + 1) c [] 0 with
      | none => none
      | some (c, more, _) =>
        blockLines literal indent fuel c ⟨run.reverse ++ joined, lead, more, blank⟩

/-- A block scalar, from its `|` or `>` on, inside a block of the given indentation. -/
def block (literal : Bool) (parent : Int) (c : Cursor) : Option (List Char × Cursor) :=
  match blockHeader? (c.advance 1) with
  | none => none
  | some (increment, chomping, c) =>
    let c := c.skipWhile isBlank
    let c := if c.peek == some '#' then c.skipWhile fun _ => true else c
    if !isLineEnd c.peek then none
    else
      let c := if c.peek.isNone then c else c.nextLine
      let given := if increment = 0 then 0 else ((max parent 0) + increment).toNat
      match blockBreaks given (c.rest.length + 1) c [] 0 with
      | none => none
      | some (c, more, widest) =>
        let indent := if given = 0 then max (max widest (parent + 1).toNat) 1 else given
        (blockLines literal indent (c.rest.length + 1) c { more := more }).map fun (c, b) =>
          let tail :=
            match chomping with
            | .strip => []
            | .clip => b.lead
            | .keep => b.more ++ b.lead
          ((tail ++ b.text).reverse, c)

end DocTree.Yaml
