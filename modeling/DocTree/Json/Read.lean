import DocTree.Number.Double
import DocTree.Text.Utf8

/-!
# Reading JSON

A reader takes the text that is left and gives its result with what is left behind it.
-/

/-!
## Reading JSON: scalars

A reader takes the text that is left and gives its result with what is left behind it. It looks at
no more than it needs: what a value turns out to be is decided by its first byte, and nothing behind
the end of a value is looked at.

The reader is lenient in some places. Bytes below U+0020 are refused in a string only before its
first backslash, a lone surrogate escape stands for U+FFFD, and numbers are checked as strictly as
their use asks: as doubles (`double?`), not at all (`numberRun`), or only as far as is needed to
pass over them (`isSkippable`).
-/

namespace DocTree.Json

/-- Why a text is refused. -/
inductive Fault where
  /-- The text is not the JSON that is asked for. -/
  | malformed
  /-- An object has to stand for each node, and something else does. -/
  | expectedObject
  /-- A node has no type, or an empty one. -/
  | missingType
  deriving DecidableEq, Repr

/-- A result together with what is left of the text. -/
abbrev Read (α : Type) := Except Fault (α × Bytes)

/-! ### Tokens -/

/-- Is `b` white space between tokens? -/
def isSpace (b : UInt8) : Bool := b == 0x20 || b == 0x0A || b == 0x09 || b == 0x0D

/-- Drops white space from the front. -/
def skipSpaces (s : Bytes) : Bytes := s.dropWhile isSpace

/-- What a value is, told by its first byte. -/
inductive Kind where
  /-- A string. -/
  | string
  /-- A number. -/
  | number
  /-- `true` or `false`. -/
  | bool
  /-- `null`. -/
  | null
  /-- An array. -/
  | array
  /-- An object. -/
  | object
  /-- No value begins this way. -/
  | invalid
  deriving DecidableEq, Repr

/-- The kind of value that begins with `b`. -/
def Kind.ofByte (b : UInt8) : Kind :=
  if b == octet '"' then .string
  else if b == octet '-' || Decimal.isDigit b then .number
  else if b == octet 't' || b == octet 'f' then .bool
  else if b == octet 'n' then .null
  else if b == octet '[' then .array
  else if b == octet '{' then .object
  else .invalid

/-- The kind of the value that comes next. -/
def nextKind (s : Bytes) : Kind :=
  match skipSpaces s with
  | [] => .invalid
  | b :: _ => .ofByte b

/-- What follows the token `b`, which must come next. -/
def expect (b : UInt8) (s : Bytes) : Except Fault Bytes :=
  match skipSpaces s with
  | c :: rest => if c == b then .ok rest else .error .malformed
  | [] => .error .malformed

/-- What follows a word that must stand here. -/
def expectWord (word s : Bytes) : Except Fault Bytes :=
  match Bytes.after? word s with
  | some rest => .ok rest
  | none => .error .malformed

/-- A truth value. -/
def bool (s : Bytes) : Read Bool :=
  let s := skipSpaces s
  match Bytes.after? (ascii "true") s, Bytes.after? (ascii "false") s with
  | some rest, _ => .ok (true, rest)
  | none, some rest => .ok (false, rest)
  | none, none => .error .malformed

/-! ### Strings -/

/-- Where the reader of a string stands. -/
inductive StringState where
  /-- In plain text; `strict` until the first backslash. -/
  | text (strict : Bool)
  /-- Behind a backslash, with a surrogate in front of it that waits for its partner. -/
  | escape (pending : Option Nat)
  /-- In a `\u` escape with so many digits read and their value. -/
  | unit (pending : Option Nat) (count value : Nat)
  /-- Behind an escape that gave a surrogate. -/
  | surrogate (unit : Nat)
  deriving DecidableEq, Repr

/-- What a byte of a string does. -/
inductive StringStep where
  /-- It leads on and adds some bytes to the result. -/
  | next (state : StringState) (out : Bytes)
  /-- It ends the string and adds some bytes to the result. -/
  | close (out : Bytes)
  /-- It is not allowed here. -/
  | refuse
  deriving DecidableEq, Repr

/-- The byte that a one-letter escape stands for. -/
def simpleEscape? (b : UInt8) : Option UInt8 :=
  if b == octet '"' || b == octet '\\' || b == octet '/' then some b
  else if b == octet 'b' then some 8
  else if b == octet 'f' then some 12
  else if b == octet 'n' then some 10
  else if b == octet 'r' then some 13
  else if b == octet 't' then some 9
  else none

/-- Is the number half of a surrogate pair? -/
def isSurrogate (n : Nat) : Bool := 0xD800 ≤ n && n < 0xE000

/-- The bytes of a code point; a surrogate becomes the replacement character. -/
def codePoint (n : Nat) : Bytes :=
  String.utf8EncodeChar (if isSurrogate n then Utf8.replacement else Char.ofNat n)

/-- The bytes of a surrogate and the unit behind it: one character if they form a pair, else each
for itself. -/
def unitPair (first second : Nat) : Bytes :=
  if first < 0xDC00 && 0xDC00 ≤ second && second < 0xE000 then
    codePoint ((first - 0xD800) * 0x400 + (second - 0xDC00) + 0x10000)
  else codePoint first ++ codePoint second

/-- The bytes of a surrogate that gets no partner. -/
def unpaired : Option Nat → Bytes
  | some n => codePoint n
  | none => []

/-- What the byte `b` does in plain text behind the bytes `out` that are still to be added. -/
def textStep (strict : Bool) (out : Bytes) (b : UInt8) : StringStep :=
  if b == octet '"' then .close out
  else if b == octet '\\' then .next (.escape none) out
  else if strict && b < 0x20 then .refuse
  else .next (.text strict) (out ++ [b])

/-- What the byte `b` does in a state. -/
def StringState.step : StringState → UInt8 → StringStep
  | .text strict, b => textStep strict [] b
  | .surrogate n, b =>
    if b == octet '\\' then .next (.escape (some n)) [] else textStep false (codePoint n) b
  | .escape pending, b =>
    if b == octet 'u' then .next (.unit pending 0 0) []
    else
      match simpleEscape? b with
      | some c => .next (.text false) (unpaired pending ++ [c])
      | none => .refuse
  | .unit pending count value, b =>
    match Bytes.hexDigit? b with
    | none => .refuse
    | some d =>
      let value := value * 16 + d
      if count < 3 then .next (.unit pending (count + 1) value) []
      else
        match pending with
        | some first => .next (.text false) (unitPair first value)
        | none =>
          if isSurrogate value then .next (.surrogate value) []
          else .next (.text false) (codePoint value)

/-- Reads on in a string. `done` is the result so far with the last byte first. -/
def stringFrom : StringState → Bytes → Bytes → Read Bytes
  | _, [], _ => .error .malformed
  | state, b :: rest, done =>
    match state.step b with
    | .next state out => stringFrom state rest (out.reverseAux done)
    | .close out => .ok ((out.reverseAux done).reverse, rest)
    | .refuse => .error .malformed

/-- A string; `null` stands for the empty one. -/
def string (s : Bytes) : Read Bytes :=
  match skipSpaces s with
  | b :: rest =>
    if b == octet '"' then stringFrom (.text true) rest []
    else if b == octet 'n' then (expectWord (ascii "ull") rest).map ([], ·)
    else .error .malformed
  | [] => .error .malformed

/-! ### Numbers -/

/-- Can `b` be part of a number? -/
def isNumberByte (b : UInt8) : Bool :=
  Decimal.isDigit b || b == octet '+' || b == octet '-' || b == octet '.' || b == octet 'e' ||
    b == octet 'E'

/-- The longest run of bytes that can be part of a number, as it stands. -/
def numberRun (s : Bytes) : Bytes × Bytes := (skipSpaces s).span isNumberByte

/-- Does a number without its minus sign begin correctly: no point, no second minus sign, and no
zero with a digit behind it? -/
def beginsWell : Bytes → Bool
  | [] => false
  | b :: rest =>
    b != octet '.' && b != octet '-' &&
      !(b == octet '0' && (rest.head?.map Decimal.isDigit).getD false)

/-- Does a digit follow the first point, if there is one? -/
def pointWell (body : Bytes) : Bool :=
  match body.dropWhile (· != octet '.') with
  | [] => true
  | _ :: rest => (rest.head?.map Decimal.isDigit).getD false

/-- The number that a run without its minus sign denotes. -/
def decimal? (body : Bytes) : Option Decimal :=
  if beginsWell body && pointWell body then Decimal.parse? body else none

/-- A run as a double. -/
def double? (run : Bytes) : Option Double :=
  match Bytes.after? (ascii "-") run with
  | some body => ((decimal? body).bind Double.ofDecimal?).map Double.neg
  | none => (decimal? run).bind Double.ofDecimal?

/-- A number as a double. -/
def double (s : Bytes) : Read Double :=
  let (run, rest) := numberRun s
  match double? run with
  | some x => .ok (x, rest)
  | none => .error .malformed

/-- Does the format `single` hold the number that a run denotes? -/
def fitsSingle (run : Bytes) : Bool :=
  match decimal? run with
  | some d => (BinaryFormat.single.nearest? d.ratio.1 d.ratio.2).isSome
  | none => false

/-- What a look at the digits and points of a number shows. -/
inductive Glance where
  /-- There is nothing but digits and at most one point, which has a digit behind it. -/
  | plain
  /-- A point is misplaced. -/
  | broken
  /-- There is something else. -/
  | unsure
  deriving DecidableEq, Repr

/-- Looks at the digits and points of a number up to the first other byte. `seen` tells whether a
point was found already. -/
def glance (seen : Bool) : Bytes → Glance
  | [] => .plain
  | b :: rest =>
    if Decimal.isDigit b then glance seen rest
    else if b == octet '.' then
      if seen || !(rest.head?.map Decimal.isDigit).getD false then .broken else glance true rest
    else .unsure

/-- Does a run denote a number with more freedom in front: a minus sign and then a point, or a zero
with digits behind it? Its exponent must not be too large even for a wide format. -/
def isLooseNumber (run : Bytes) : Bool :=
  match Bytes.after? (ascii "-") run with
  | some body =>
    !beginsWell body && body.head? != some (octet '-') &&
      (Decimal.parseWide? body).any Decimal.fitsWide
  | none => false

/-- Can a number be passed over? One that begins with a zero must be a number that the format
`single` holds; of the others those with nothing but digits and a well placed point pass, and else
those that denote a double. -/
def isSkippable (run : Bytes) : Bool :=
  match run with
  | [] => false
  | b :: rest =>
    if b == octet '0' then fitsSingle run
    else
      match glance false rest with
      | .plain => !rest.isEmpty || (double? run).isSome
      | .broken => false
      | .unsure => (double? run).isSome || isLooseNumber run

end DocTree.Json

/-!
## Reading JSON: arrays and objects

The readers of arrays and objects take the reader of an item or of a member's value as a parameter.
Each round of their loops passes a comma, so a loop has at most as many rounds as there are bytes
left; `rounds` holds those bytes.

No more than `maxNesting` arrays and objects may be open at once. Readers of nested values take the
number of those that may still be opened.
-/

namespace DocTree.Json

/-- The number of arrays and objects that may be open at once. -/
def maxNesting : Nat := 10000

/-- Items from the next one to the closing bracket. -/
def itemsFrom {σ : Type} (item : σ → Bytes → Read σ) : Bytes → σ → Bytes → Read σ
  | rounds, acc, s =>
    match item acc s with
    | .error e => .error e
    | .ok (acc, s) =>
      match skipSpaces s with
      | [] => .error .malformed
      | b :: rest =>
        if b == octet ']' then .ok (acc, rest)
        else if b == octet ',' then
          match rounds with
          | [] => .error .malformed
          | _ :: rounds => itemsFrom item rounds acc rest
        else .error .malformed

/-- The items of an array behind its opening bracket. -/
def items {σ : Type} (item : σ → Bytes → Read σ) (acc : σ) (s : Bytes) : Read σ :=
  match skipSpaces s with
  | [] => itemsFrom item [] acc []
  | b :: rest =>
    if b == octet ']' then .ok (acc, rest) else itemsFrom item (b :: rest) acc (b :: rest)

/-- Members from the next key to the closing brace. -/
def membersFrom {σ : Type} (member : σ → Bytes → Bytes → Read σ) : Bytes → σ → Bytes → Read σ
  | rounds, acc, s =>
    match string s with
    | .error e => .error e
    | .ok (key, s) =>
      match expect (octet ':') s with
      | .error e => .error e
      | .ok s =>
        match member acc key s with
        | .error e => .error e
        | .ok (acc, s) =>
          match skipSpaces s with
          | [] => .error .malformed
          | b :: rest =>
            if b == octet '}' then .ok (acc, rest)
            else if b == octet ',' then
              match rounds with
              | [] => .error .malformed
              | _ :: rounds => membersFrom member rounds acc rest
            else .error .malformed

/-- The members of an object behind its opening brace. -/
def members {σ : Type} (member : σ → Bytes → Bytes → Read σ) (acc : σ) (s : Bytes) : Read σ :=
  match skipSpaces s with
  | [] => .error .malformed
  | b :: rest =>
    if b == octet '}' then .ok (acc, rest)
    else if b == octet '"' then membersFrom member (b :: rest) acc (b :: rest)
    else .error .malformed

/-- Passes over a value that is neither an array nor an object. -/
def skipScalar (s : Bytes) : Except Fault Bytes :=
  match nextKind s with
  | .string => (string s).map (·.2)
  | .number =>
    let (run, rest) := numberRun s
    if isSkippable run then .ok rest else .error .malformed
  | .bool => (bool s).map (·.2)
  | .null => expectWord (ascii "null") (skipSpaces s)
  | _ => .error .malformed

/-- Passes over a value, in which so many arrays and objects may be open at once. -/
def skip : Nat → Bytes → Except Fault Bytes
  | 0, s => skipScalar s
  | room + 1, s =>
    match nextKind s with
    | .array =>
      (items (fun _ s => (skip room s).map ((), ·)) () ((skipSpaces s).drop 1)).map (·.2)
    | .object =>
      (members (fun _ _ s => (skip room s).map ((), ·)) () ((skipSpaces s).drop 1)).map (·.2)
    | _ => skipScalar s

end DocTree.Json
