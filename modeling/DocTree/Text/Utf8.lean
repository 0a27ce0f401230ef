import DocTree.Text.Bytes

/-!
# Characters

Texts are bytes. Here they are read and written as characters, and trimmed at both ends of the
characters that are white space.
-/

/-!
## UTF-8

Reading is total: a byte that does not begin a well-formed sequence counts as one character, the
replacement character U+FFFD, and reading goes on behind that byte. Well-formed means no overlong
form, no surrogate and nothing above U+10FFFF.
-/

namespace DocTree.Utf8

/-- The character that stands for a byte that cannot be read. -/
def replacement : Char := Char.ofNat 0xFFFD

/-- Is `b` a continuation byte? -/
def isContinuation (b : UInt8) : Bool := 0x80 ≤ b && b ≤ 0xBF

/-- The six payload bits of a continuation byte. -/
def payload (b : UInt8) : Nat := b.toNat % 64

/-- The character at the head of `b :: rest`, and how many bytes of `rest` belong to it. -/
def head (b : UInt8) (rest : Bytes) : Char × Nat :=
  if b < 0x80 then (Char.ofNat b.toNat, 0)
  else if b < 0xC2 then (replacement, 0)
  else if b < 0xE0 then
    match rest with
    | c :: _ =>
      if isContinuation c then (Char.ofNat (b.toNat % 32 * 64 + payload c), 1)
      else (replacement, 0)
    | [] => (replacement, 0)
  else if b < 0xF0 then
    let low : UInt8 := if b == 0xE0 then 0xA0 else 0x80
    let high : UInt8 := if b == 0xED then 0x9F else 0xBF
    match rest with
    | c :: d :: _ =>
      if low ≤ c && c ≤ high && isContinuation d then
        (Char.ofNat ((b.toNat % 16 * 64 + payload c) * 64 + payload d), 2)
      else (replacement, 0)
    | _ => (replacement, 0)
  else if b < 0xF5 then
    let low : UInt8 := if b == 0xF0 then 0x90 else 0x80
    let high : UInt8 := if b == 0xF4 then 0x8F else 0xBF
    match rest with
    | c :: d :: e :: _ =>
      if low ≤ c && c ≤ high && isContinuation d && isContinuation e then
        (Char.ofNat (((b.toNat % 8 * 64 + payload c) * 64 + payload d) * 64 + payload e), 3)
      else (replacement, 0)
    | _ => (replacement, 0)
  else (replacement, 0)

/-- Reads on behind `done`, the characters read so far with the last one first. `skip` counts the
bytes that belong to a character already read. -/
def decodeFrom : Nat → Bytes → List Char → List Char
  | _, [], done => done.reverse
  | skip + 1, _ :: rest, done => decodeFrom skip rest done
  | 0, b :: rest, done =>
    let (c, used) := head b rest
    decodeFrom used rest (c :: done)

/-- The characters of a text. -/
def decode (s : Bytes) : List Char := decodeFrom 0 s []

/-- The bytes of a list of characters. -/
def encode (cs : List Char) : Bytes := cs.flatMap String.utf8EncodeChar

end DocTree.Utf8

/-!
## White space

The characters with the property White_Space, as characters (`isBlank`) and as the texts that
encode them (`blankTexts`), and trimming of texts at both ends.
-/

namespace DocTree

/-- The white space characters. -/
def blanks : List Char :=
  [0x09, 0x0A, 0x0B, 0x0C, 0x0D, 0x20, 0x85, 0xA0, 0x1680, 0x2000, 0x2001, 0x2002, 0x2003, 0x2004,
   0x2005, 0x2006, 0x2007, 0x2008, 0x2009, 0x200A, 0x2028, 0x2029, 0x202F, 0x205F, 0x3000].map
    Char.ofNat

/-- Is `c` white space? -/
def isBlank (c : Char) : Bool := blanks.contains c

namespace Bytes

/-- The texts that encode one white space character. -/
def blankTexts : List Bytes := blanks.map String.utf8EncodeChar

/-- Drops texts of `words` from the front as long as there is one. `skip` counts the bytes of a text
already dropped. -/
def dropWords (words : List Bytes) : Nat → Bytes → Bytes
  | _, [] => []
  | skip + 1, _ :: rest => dropWords words skip rest
  | 0, b :: rest =>
    match words.find? (·.isPrefixOf (b :: rest)) with
    | some w => dropWords words (w.length - 1) rest
    | none => b :: rest

/-- Drops white space from the front. -/
def trimLeft (s : Bytes) : Bytes := dropWords blankTexts 0 s

/-- Drops white space from the end. -/
def trimRight (s : Bytes) : Bytes := (dropWords (blankTexts.map List.reverse) 0 s.reverse).reverse

/-- Drops white space from both ends. -/
def trim (s : Bytes) : Bytes := trimRight (trimLeft s)

end Bytes

end DocTree
