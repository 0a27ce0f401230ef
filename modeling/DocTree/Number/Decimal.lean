import DocTree.Text.Bytes

/-!
# Decimal numbers

A decimal number is a sign, a coefficient and a power of ten. `parse?` reads the usual notation with
an optional point and exponent; `plain` and `scientific` write the two notations.
-/

namespace DocTree

/-- The number `± coefficient * 10 ^ exponent`. -/
structure Decimal where
  /-- Is there a minus sign? Zero may have one. -/
  negative : Bool
  /-- The digits, as a number. -/
  coefficient : Nat
  /-- The power of ten. -/
  exponent : Int
  deriving DecidableEq, Repr

namespace Decimal

/-! ## Reading -/

/-- Is `b` a decimal digit? -/
def isDigit (b : UInt8) : Bool := octet '0' ≤ b && b ≤ octet '9'

/-- The number that a run of digits denotes. -/
def ofDigits (digits : Bytes) : Nat := digits.foldl (fun n b => n * 10 + (b.toNat - 48)) 0

/-- The number that the digits of an exponent denote. Digits stop counting once the number has
passed ten thousand, which is beyond every exponent that matters. -/
def ofExponentDigits (digits : Bytes) : Nat :=
  digits.foldl (fun n b => if n < 10000 then n * 10 + (b.toNat - 48) else n) 0

/-- An optional sign, and what follows it. -/
def sign : Bytes → Bool × Bytes
  | [] => (false, [])
  | b :: rest =>
    if b == octet '-' then (true, rest)
    else if b == octet '+' then (false, rest)
    else (false, b :: rest)

/-- An optional point with its digits, and what follows them. -/
def fraction : Bytes → Bytes × Bytes
  | [] => ([], [])
  | b :: rest => if b == octet '.' then rest.span isDigit else ([], b :: rest)

/-- The exponent that makes up the whole text, with its digits read by `value`; an empty text stands
for zero. -/
def exponentBy? (value : Bytes → Nat) : Bytes → Option Int
  | [] => some 0
  | b :: rest =>
    if b == octet 'e' || b == octet 'E' then
      let (negative, digits) := sign rest
      if digits.isEmpty || !digits.all isDigit then none
      else
        let n : Int := value digits
        some (if negative then -n else n)
    else none

/-- The exponent that makes up the whole text, as far as it matters to a double. -/
def exponent? : Bytes → Option Int := exponentBy? ofExponentDigits

/-- The exponent that makes up the whole text, if it is a number of 64 bits. -/
def wideExponent? (s : Bytes) : Option Int :=
  (exponentBy? ofDigits s).filter fun e => -(Int.pow 2 63) ≤ e && e < Int.pow 2 63

/-- The number that a text denotes: an optional sign, digits with at most one point among or around
them, and an optional exponent, which `exponent` reads. -/
def parseBy? (exponent : Bytes → Option Int) (s : Bytes) : Option Decimal :=
  let (negative, s) := sign s
  let (whole, s) := s.span isDigit
  let (part, s) := fraction s
  if whole.isEmpty && part.isEmpty then none
  else (exponent s).map fun e => ⟨negative, ofDigits (whole ++ part), e - part.length⟩

/-- The number that a text denotes, as far as it matters to a double. -/
def parse? : Bytes → Option Decimal := parseBy? exponent?

/-- The number that a text denotes, if its exponent is a number of 64 bits. -/
def parseWide? : Bytes → Option Decimal := parseBy? wideExponent?

/-- Can the number be taken into a binary format with an exponent of 32 bits? There it is first
`coefficient * 2 ^ exponent`, and the factor `5 ^ exponent` comes later; so it is the first of these
that has to fit. Zero always does. -/
def fitsWide (d : Decimal) : Bool :=
  let e : Int := d.coefficient.log2 + 1 + d.exponent
  d.coefficient == 0 || (-(Int.pow 2 31) ≤ e && e < Int.pow 2 31)

/-- The number as a quotient of two natural numbers, without its sign. -/
def ratio (d : Decimal) : Nat × Nat :=
  if 0 ≤ d.exponent then (d.coefficient * Nat.pow 10 d.exponent.toNat, 1)
  else (d.coefficient, Nat.pow 10 (-d.exponent).toNat)

/-! ## Writing -/

/-- A minus sign, when there is one, in front of a text. -/
def signed (negative : Bool) (s : Bytes) : Bytes := if negative then octet '-' :: s else s

/-- `n` zeros. -/
def zeros (n : Nat) : Bytes := List.replicate n (octet '0')

/-- Positional notation. -/
def plain (d : Decimal) : Bytes :=
  let digits := Bytes.ofNat d.coefficient
  signed d.negative <|
    if 0 ≤ d.exponent then digits ++ zeros d.exponent.toNat
    else
      let places := (-d.exponent).toNat
      if places < digits.length then
        digits.take (digits.length - places) ++ octet '.' :: digits.drop (digits.length - places)
      else ascii "0." ++ zeros (places - digits.length) ++ digits

/-- Scientific notation: one digit in front of the point, and an exponent with its sign and at least
two digits. -/
def scientific (d : Decimal) : Bytes :=
  let digits := Bytes.ofNat d.coefficient
  let e : Int := d.exponent + digits.length - 1
  let size := Bytes.ofNat e.natAbs
  let point := if digits.length = 1 then [] else [octet '.']
  signed d.negative <|
    digits.take 1 ++ point ++ digits.drop 1 ++ octet 'e' ::
      (if e < 0 then octet '-' else octet '+') :: zeros (2 - size.length) ++ size

end Decimal

end DocTree
