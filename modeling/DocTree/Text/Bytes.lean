/-!
# Byte strings

A text is a string of bytes. Nothing below assumes that the bytes are valid UTF-8: a document may
carry any bytes at all, and what is copied is copied as it stands.

The module gives the literals (`octet`, `ascii`), the cuts and joins that the other modules share,
and the order of byte strings.
-/

namespace DocTree

/-- A text: a string of bytes, not necessarily valid UTF-8. -/
abbrev Bytes := List UInt8

/-- The byte of an ASCII character. -/
@[inline] def octet (c : Char) : UInt8 := UInt8.ofNat c.toNat

/-- The bytes of an ASCII text that is written as a literal. -/
def ascii (s : String) : Bytes := s.toList.map octet

namespace Bytes

/-! ## Beginnings and ends -/

/-- What follows `start` in a text that begins with it. -/
def after? : Bytes → Bytes → Option Bytes
  | [], s => some s
  | _ :: _, [] => none
  | p :: ps, b :: rest => if b == p then after? ps rest else none

/-- Does `s` begin with `start`? -/
def startsWith (s start : Bytes) : Bool := start.isPrefixOf s

/-- Does `s` end with `ending`? -/
def endsWith (s ending : Bytes) : Bool := ending.isSuffixOf s

/-- What stands in front of `ending` in `s`, when `s` ends with it. -/
def before? (s ending : Bytes) : Option Bytes :=
  if endsWith s ending then some (s.take (s.length - ending.length)) else none

/-! ## Joining and replacing -/

/-- The parts with `separator` between each two. -/
def join (separator : Bytes) (parts : List Bytes) : Bytes := separator.intercalate parts

/-- Replaces each byte that `f` has a text for by that text. -/
def replaceOctets (f : UInt8 → Option Bytes) (s : Bytes) : Bytes :=
  s.flatMap fun b => (f b).getD [b]

/-- Replaces the occurrences of `target`, from left to right and without overlap. `skip` counts the
bytes of an occurrence that is already replaced. -/
def replaceFrom (target replacement : Bytes) : Nat → Bytes → Bytes → Bytes
  | _, [], done => done.reverse
  | skip + 1, _ :: rest, done => replaceFrom target replacement skip rest done
  | 0, b :: rest, done =>
    if target.isPrefixOf (b :: rest) then
      replaceFrom target replacement (target.length - 1) rest (replacement.reverse ++ done)
    else
      replaceFrom target replacement 0 rest (b :: done)

/-- Replaces every occurrence of the non-empty text `target`. -/
def replaceAll (target replacement s : Bytes) : Bytes := replaceFrom target replacement 0 s []

/-! ## Order -/

/-- Lexicographic order by byte value; a text comes before its continuations. -/
def le : Bytes → Bytes → Bool
  | [], _ => true
  | _ :: _, [] => false
  | a :: as, b :: bs => if a == b then le as bs else a < b

/-- The texts in increasing order. -/
def sort (texts : List Bytes) : List Bytes := texts.mergeSort le

/-! ## Numbers -/

/-- A natural number in decimal. -/
def ofNat (n : Nat) : Bytes := (Nat.toDigits 10 n).map octet

/-- An integer in decimal, with `-` in front when it is negative. -/
def ofInt : Int → Bytes
  | .ofNat n => ofNat n
  | .negSucc n => octet '-' :: ofNat (n + 1)

/-- The value of a hexadecimal digit of either case. -/
def hexDigit? (b : UInt8) : Option Nat :=
  if octet '0' ≤ b && b ≤ octet '9' then some (b.toNat - 48)
  else if octet 'a' ≤ b && b ≤ octet 'f' then some (b.toNat - 87)
  else if octet 'A' ≤ b && b ≤ octet 'F' then some (b.toNat - 55)
  else none

/-- The lower-case hexadecimal digit of a number below sixteen. -/
def hexDigit (n : Nat) : UInt8 :=
  if n < 10 then UInt8.ofNat (48 + n) else UInt8.ofNat (87 + n)

end Bytes

end DocTree
