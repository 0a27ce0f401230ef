import DocTree.Number.Double
import DocTree.Number.Integer
import DocTree.Text.Utf8

/-!
# TOML scalars

Texts in four spellings, numbers, dates and truth values. Each reader gives what it read and the
rest of the text.
-/

namespace DocTree.Toml

/-- Is `c` a blank or a tab? -/
def isBlank (c : Char) : Bool := c == ' ' || c == '\t'

/-- Is `c` part of a line break? -/
def isBreak (c : Char) : Bool := c == '\n' || c == '\r'

/-- A TOML value. -/
inductive Value where
  /-- A text. -/
  | text (s : List Char)
  /-- An integer. -/
  | integer (n : Int)
  /-- A truth value. -/
  | truth (b : Bool)
  /-- A number with a fraction or an exponent. -/
  | number
  /-- A date, a time of day or both. -/
  | date
  /-- A list. -/
  | list (items : List Value)
  /-- A table in braces, with its keys and values. -/
  | table (pairs : List (List (List Char) × Value))
  deriving Inhabited

/-! ## Texts -/

/-- The value of a hexadecimal digit. -/
def hexDigit? (c : Char) : Option Nat :=
  if c.isDigit then some (c.toNat - 48)
  else if 'a' ≤ c && c ≤ 'f' then some (c.toNat - 87)
  else if 'A' ≤ c && c ≤ 'F' then some (c.toNat - 55)
  else none

/-- The character with the code point that `size` hexadecimal digits denote, and the rest. -/
def codePoint? (size : Nat) (rest : List Char) : Option (Char × List Char) :=
  if rest.length < size then none
  else
    let n := (rest.take size).foldl
      (fun n c => n.bind fun n => (hexDigit? c).map (n * 16 + ·)) (some 0)
    n.bind fun n => if n.isValidChar then some (Char.ofNat n, rest.drop size) else none

/-- The character of an escape, from behind its backslash on, and the rest. -/
def escape? : List Char → Option (Char × List Char)
  | 'b' :: rest => some (Char.ofNat 8, rest)
  | 't' :: rest => some ('\t', rest)
  | 'n' :: rest => some ('\n', rest)
  | 'f' :: rest => some (Char.ofNat 12, rest)
  | 'r' :: rest => some ('\r', rest)
  | '"' :: rest => some ('"', rest)
  | '\\' :: rest => some ('\\', rest)
  | 'u' :: rest => codePoint? 4 rest
  | 'U' :: rest => codePoint? 8 rest
  | _ => none

/-- Reads a text on one line up to its quote, behind the characters `done`, the last one first. In
single quotes there are no escapes. -/
def lineText (quote : Char) : Nat → List Char → List Char → Option (List Char × List Char)
  | 0, _, _ => none
  | _, [], _ => none
  | fuel + 1, c :: rest, done =>
    if c == quote then some (done.reverse, rest)
    else if isBreak c then none
    else if c == '\\' && quote == '"' then
      (escape? rest).bind fun (x, rest) => lineText quote fuel rest (x :: done)
    else lineText quote fuel rest (c :: done)

/-- The most quotes that can stand at the end of a text on several lines: three close it. -/
def maxQuotes : Nat := 5

/-- Reads a text on several lines up to its three quotes, behind the characters `done`, the last one
first. A backslash at the end of a line takes the blanks and line breaks behind it away. -/
def blockText (quote : Char) : Nat → List Char → List Char → Option (List Char × List Char)
  | 0, _, _ => none
  | _, [], _ => none
  | fuel + 1, c :: rest, done =>
    if c == quote then
      let quotes := (c :: rest).takeWhile (· == quote)
      let behind := rest.dropWhile (· == quote)
      if maxQuotes < quotes.length then none
      else if 3 ≤ quotes.length then some ((quotes.drop 3 ++ done).reverse, behind)
      else blockText quote fuel behind (quotes ++ done)
    else if c == '\\' && quote == '"' then
      match rest.dropWhile isBlank with
      | [] => none
      | x :: after =>
        if isBreak x then
          blockText quote fuel (after.dropWhile fun y => isBlank y || isBreak y) done
        else (escape? rest).bind fun (x, rest) => blockText quote fuel rest (x :: done)
    else blockText quote fuel rest (c :: done)

/-- A text on several lines without the line break that may stand at its start. -/
def dropFirstBreak : List Char → List Char
  | '\r' :: '\n' :: rest => rest
  | '\n' :: rest => rest
  | rest => rest

/-- Reads a text, from behind its first quote on. -/
def quotedText (quote : Char) (rest : List Char) : Option (List Char × List Char) :=
  match rest with
  | a :: b :: more =>
    if a == quote && b == quote then
      let more := dropFirstBreak more
      blockText quote (more.length + 1) more []
    else lineText quote (rest.length + 1) rest []
  | _ => lineText quote (rest.length + 1) rest []

/-! ## Dates -/

/-- The number that two digits denote, and the rest. -/
def twoDigits? : List Char → Option (Nat × List Char)
  | a :: b :: rest =>
    if a.isDigit && b.isDigit then some ((a.toNat - 48) * 10 + (b.toNat - 48), rest) else none
  | _ => none

/-- Reads a sign. -/
def expect (c : Char) : List Char → Option (List Char)
  | x :: rest => if x == c then some rest else none
  | [] => none

/-- The number of days of a month. -/
def daysIn (year month : Nat) : Nat :=
  if month == 2 then
    if year % 4 == 0 && (year % 100 != 0 || year % 400 == 0) then 29 else 28
  else if month == 4 || month == 6 || month == 9 || month == 11 then 30
  else 31

/-- Reads a day. -/
def day? (s : List Char) : Option (List Char) := do
  let (century, s) ← twoDigits? s
  let (years, s) ← twoDigits? s
  let s ← expect '-' s
  let (month, s) ← twoDigits? s
  let s ← expect '-' s
  let (day, s) ← twoDigits? s
  if 1 ≤ month && month ≤ 12 && 1 ≤ day && day ≤ daysIn (century * 100 + years) month then some s
  else none

/-- Reads a time of day, with a fraction of a second if there is one. -/
def time? (s : List Char) : Option (List Char) := do
  let (hour, s) ← twoDigits? s
  let s ← expect ':' s
  let (minute, s) ← twoDigits? s
  let s ← expect ':' s
  let (second, s) ← twoDigits? s
  if hour ≤ 23 && minute ≤ 59 && second ≤ 59 then
    match s with
    | '.' :: d :: rest => if d.isDigit then some (rest.dropWhile Char.isDigit) else none
    | _ => some s
  else none

/-- Is it the distance of a time zone, or nothing? -/
def isZone : List Char → Bool
  | [] => true
  | c :: rest =>
    if c == 'Z' || c == 'z' then rest.isEmpty
    else if c == '+' || c == '-' then
      match twoDigits? rest with
      | some (hour, ':' :: rest) =>
        match twoDigits? rest with
        | some (minute, []) => hour ≤ 24 && minute ≤ 59
        | _ => false
      | _ => false
    else false

/-- Is it a day, a time of day, or both with a `T` or a blank between them? -/
def isDate (s : List Char) : Bool :=
  match day? s with
  | some [] => true
  | some (c :: rest) =>
    (c == 'T' || c == 't' || c == ' ') && ((time? rest).map isZone).getD false
  | none => time? s == some []

/-- Can `c` stand in a date? -/
def isDateChar (c : Char) : Bool := c.isDigit || ("-:Tt .Zz+".toList).contains c

/-! ## Numbers -/

/-- Does each underscore stand behind a digit of any base, and does a digit end the text? `ready`
says that a digit stands in front. -/
def wellSpaced : Bool → List Char → Bool
  | ready, [] => ready
  | ready, c :: rest => (c != '_' || ready) && wellSpaced (hexDigit? c).isSome rest

/-- The digits of an integer part, behind its sign. -/
def unsign : List Char → List Char
  | '+' :: rest => rest
  | '-' :: rest => rest
  | rest => rest

/-- Does an integer part begin with a zero that it does not need? -/
def hasLeadingZero (s : List Char) : Bool :=
  match unsign s with
  | '0' :: _ :: _ => true
  | _ => false

/-- An integer of 64 bits. -/
def integer? (s : List Char) : Option Value :=
  match Integer.parse (Utf8.encode (s.filter (· != '_'))) with
  | .ok n => some (.integer n)
  | .error _ => none

/-- Is it an integer in base ten? -/
def isDecimal (s : List Char) : Bool :=
  !(unsign s).isEmpty && (unsign s).all (fun c => c.isDigit || c == '_') && wellSpaced false s &&
    !hasLeadingZero s

/-- Is it an integer in a base that its start names? -/
def isBased (s : List Char) : Bool :=
  let digits (base : Nat) (rest : List Char) : Bool :=
    wellSpaced false rest &&
      rest.all fun c => c == '_' || ((hexDigit? c).map fun d => decide (d < base)).getD false
  match s with
  | '0' :: 'x' :: rest => digits 16 rest
  | '0' :: 'o' :: rest => digits 8 rest
  | '0' :: 'b' :: rest => digits 2 rest
  | _ => false

/-- Is it a number with a fraction or an exponent, within the range of doubles? -/
def isNumber (s : List Char) : Bool :=
  let (whole, rest) := s.span fun c => c != '.' && c != 'e' && c != 'E'
  let part : List Char :=
    match rest with
    | '.' :: rest => rest.takeWhile fun c => c != 'e' && c != 'E'
    | _ => ['0']
  let power : List Char := (rest.dropWhile fun c => c != 'e' && c != 'E').drop 1
  isDecimal whole && part.all (fun c => c.isDigit || c == '_') && wellSpaced false part &&
    (power.isEmpty || wellSpaced false power) &&
    ((Decimal.parse? (Utf8.encode (s.filter (· != '_')))).bind Double.ofDecimal?).isSome

/-- The value of the text of a number. -/
def numberValue? (s : List Char) : Option Value :=
  if ["inf", "nan"].any (fun w => unsign s == w.toList) then some .number
  else if isDecimal s || isBased s then integer? s
  else if isNumber s then some .number
  else none

/-- Can `c` stand in a number or a word? -/
def isWordChar (c : Char) : Bool := c.isAlphanum || c == '_' || c == '+' || c == '-' || c == '.'

/-- Reads a value that begins with neither a quote nor a bracket. -/
def bareValue? (s : List Char) : Option (Value × List Char) :=
  let digits := s.takeWhile Char.isDigit
  let sign := (s.drop digits.length).head?
  if !digits.isEmpty && (sign == some '-' || sign == some ':') then
    let run := s.takeWhile isDateChar
    let text := (run.reverse.dropWhile isBlank).reverse
    if isDate text then some (.date, s.drop run.length) else none
  else
    let word := s.takeWhile isWordChar
    let rest := s.drop word.length
    if word == "true".toList then some (.truth true, rest)
    else if word == "false".toList then some (.truth false, rest)
    else (numberValue? word).map (·, rest)

end DocTree.Toml
