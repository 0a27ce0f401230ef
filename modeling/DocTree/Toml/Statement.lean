import DocTree.Toml.Scalar

/-!
# TOML statements

A TOML text is a sequence of statements, one a line: heads of tables, and keys with their values.
-/

namespace DocTree.Toml

/-- A key: the names on the way down to a value. -/
abbrev Key := List (List Char)

/-- A statement. -/
inductive Statement where
  /-- The head of a table. -/
  | table (key : Key)
  /-- The head of a further table of a list. -/
  | tables (key : Key)
  /-- A key with its value. -/
  | pair (key : Key) (value : Value)

/-! ## Keys -/

/-- Can `c` stand in a name without quotes? -/
def isNameChar (c : Char) : Bool := c.isAlphanum || c == '_' || c == '-'

/-- Reads a name. -/
def readName (s : List Char) : Option (List Char × List Char) :=
  match s with
  | [] => none
  | c :: rest =>
    if c == '"' || c == '\'' then lineText c (rest.length + 1) rest []
    else
      let name := s.takeWhile isNameChar
      if name.isEmpty then none else some (name, s.drop name.length)

/-- Reads the names of a key up to the sign behind it. -/
def readKey (stop : Char) : Nat → List Char → Key → Option (Key × List Char)
  | 0, _, _ => none
  | fuel + 1, s, names =>
    match readName (s.dropWhile isBlank) with
    | none => none
    | some (name, rest) =>
      match rest.dropWhile isBlank with
      | [] => none
      | c :: rest =>
        if c == '.' then readKey stop fuel rest (name :: names)
        else if c == stop then some ((name :: names).reverse, rest)
        else none

/-! ## Values -/

/-- The text behind a comment, which ends in front of the line break. -/
def dropComment (s : List Char) : List Char := s.dropWhile fun c => !isBreak c

/-- The text behind blanks, line breaks and comments. -/
def dropLines : Nat → List Char → List Char
  | 0, s => s
  | fuel + 1, s =>
    let s := s.dropWhile fun c => isBlank c || isBreak c
    match s with
    | '#' :: _ => dropLines fuel (dropComment s)
    | _ => s

mutual

/-- Reads a value. -/
def readValue : Nat → List Char → Option (Value × List Char)
  | 0, _ => none
  | fuel + 1, s =>
    match s.dropWhile isBlank with
    | [] => none
    | c :: rest =>
      if c == '"' || c == '\'' then (quotedText c rest).map fun (text, rest) => (.text text, rest)
      else if c == '[' then readList fuel rest []
      else if c == '{' then readPairs fuel rest []
      else bareValue? (c :: rest)

/-- Reads the values of a list, behind those read, the last one first. -/
def readList : Nat → List Char → List Value → Option (Value × List Char)
  | 0, _, _ => none
  | fuel + 1, s, items =>
    let s := dropLines (s.length + 1) s
    if s.head? == some ']' then some (.list items.reverse, s.tail)
    else
      match readValue fuel s with
      | none => none
      | some (v, rest) =>
        match dropLines (rest.length + 1) rest with
        | ',' :: rest => readList fuel rest (v :: items)
        | ']' :: rest => some (.list (v :: items).reverse, rest)
        | _ => none

/-- Reads the pairs of a table in braces, behind those read, the last one first. It stands on one
line, and no comma stands behind the last pair. -/
def readPairs : Nat → List Char → List (Key × Value) → Option (Value × List Char)
  | 0, _, _ => none
  | fuel + 1, s, pairs =>
    let s := s.dropWhile isBlank
    if pairs.isEmpty && s.head? == some '}' then some (.table [], s.tail)
    else
      match readKey '=' (s.length + 1) s [] with
      | none => none
      | some (key, rest) =>
        match readValue fuel rest with
        | none => none
        | some (v, rest) =>
          match rest.dropWhile isBlank with
          | ',' :: rest => readPairs fuel rest ((key, v) :: pairs)
          | '}' :: rest => some (.table ((key, v) :: pairs).reverse, rest)
          | _ => none

end

/-! ## Statements -/

/-- Reads a statement. -/
def readStatement (s : List Char) : Option (Statement × List Char) :=
  match s with
  | '[' :: '[' :: rest =>
    match readKey ']' (rest.length + 1) rest [] with
    | some (key, ']' :: rest) => some (.tables key, rest)
    | _ => none
  | '[' :: rest => (readKey ']' (rest.length + 1) rest []).map fun (key, rest) => (.table key, rest)
  | _ =>
    (readKey '=' (s.length + 1) s []).bind fun (key, rest) =>
      (readValue (rest.length + 1) rest).map fun (v, rest) => (.pair key v, rest)

/-- The text behind the end of a line. -/
def endLine (s : List Char) : Option (List Char) :=
  match s.dropWhile isBlank with
  | [] => some []
  | c :: rest =>
    if c == '#' then some (dropComment rest) else if isBreak c then some rest else none

/-- Reads the statements of a text, behind those read, the last one first. -/
def readStatements : Nat → List Char → List Statement → Option (List Statement)
  | 0, _, _ => none
  | fuel + 1, s, done =>
    let s := dropLines (s.length + 1) s
    if s.isEmpty then some done.reverse
    else
      match readStatement s with
      | none => none
      | some (statement, rest) =>
        match endLine rest with
        | none => none
        | some rest => readStatements fuel rest (statement :: done)

/-- Is there no control character but tabs and line breaks, and no carriage return alone? -/
def isClean : List Char → Bool
  | [] => true
  | '\r' :: '\n' :: rest => isClean rest
  | c :: rest => (c == '\t' || c == '\n' || (32 ≤ c.toNat && c.toNat != 127)) && isClean rest

/-- The statements of a text. -/
def statements (s : List Char) : Option (List Statement) :=
  if isClean s then readStatements (s.length + 1) s [] else none

end DocTree.Toml
