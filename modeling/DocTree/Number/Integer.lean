import DocTree.Text.Bytes

/-!
# Integers of 64 bits

Integers are written with an optional sign, and in a base that the start of the digits names: `0x`
for sixteen, `0b` for two, `0o` or a plain `0` for eight, else ten. Single underscores may stand
between digits.
-/

namespace DocTree.Integer

/-- Why a text is not an integer of 64 bits. -/
inductive Fault where
  /-- It is not the text of an integer. -/
  | malformed
  /-- The integer needs more bits. -/
  | outOfRange
  deriving DecidableEq, Repr

/-- The letter `b` in its small form. -/
def small (b : UInt8) : UInt8 := if octet 'A' ≤ b && b ≤ octet 'Z' then b + 32 else b

/-- The value of a digit or letter as a digit. -/
def digit? (b : UInt8) : Option Nat :=
  if octet '0' ≤ b && b ≤ octet '9' then some (b.toNat - 48)
  else if octet 'a' ≤ small b && small b ≤ octet 'z' then some ((small b).toNat - 87)
  else none

/-- The number that digits denote, behind those that denote `n`. The first digit that takes it out
of range decides, whatever follows. Underscores are passed over if `spaced` is set. -/
def digits (base : Nat) (spaced : Bool) : Bytes → Nat → Except Fault Nat
  | [], n => .ok n
  | b :: rest, n =>
    if spaced && b == octet '_' then digits base spaced rest n
    else
      match digit? b with
      | none => .error .malformed
      | some d =>
        if base ≤ d then .error .malformed
        else if Nat.pow 2 64 ≤ n * base + d then .error .outOfRange
        else digits base spaced rest (n * base + d)

/-- The base that the start of a text names, and the digits in it. -/
def base : Bytes → Nat × Bytes
  | z :: b :: c :: rest =>
    if z == octet '0' then
      if small b == octet 'x' then (16, c :: rest)
      else if small b == octet 'o' then (8, c :: rest)
      else if small b == octet 'b' then (2, c :: rest)
      else (8, b :: c :: rest)
    else (10, z :: b :: c :: rest)
  | z :: rest => if z == octet '0' then (8, rest) else (10, z :: rest)
  | [] => (10, [])

/-- Does each underscore stand behind a digit and in front of one? `ready` says that a digit, or the
sign of a base, stands in front. -/
def spacing (isDigit : UInt8 → Bool) : (ready last : Bool) → Bytes → Bool
  | _, last, [] => !last
  | ready, last, b :: rest =>
    if isDigit b then spacing isDigit true false rest
    else if b == octet '_' then ready && spacing isDigit false true rest
    else !last && spacing isDigit false false rest

/-- Are the underscores of a text without its sign in the right places? -/
def wellSpaced (s : Bytes) : Bool :=
  let decimal (b : UInt8) : Bool := octet '0' ≤ b && b ≤ octet '9'
  let hexadecimal (b : UInt8) : Bool := decimal b || (octet 'a' ≤ small b && small b ≤ octet 'f')
  match s with
  | z :: b :: rest =>
    if z == octet '0' && small b == octet 'x' then spacing hexadecimal true false rest
    else if z == octet '0' && (small b == octet 'o' || small b == octet 'b') then
      spacing decimal true false rest
    else spacing decimal false false s
  | _ => spacing decimal false false s

/-- The natural number that a text without a sign denotes. -/
def natural (s : Bytes) : Except Fault Nat :=
  if s.isEmpty then .error .malformed
  else
    let (base, ds) := base s
    match digits base true ds 0 with
    | .error e => .error e
    | .ok n => if s.contains (octet '_') && !wellSpaced s then .error .malformed else .ok n

/-- A sign and what follows it. -/
def sign : Bytes → Bool × Bytes
  | [] => (false, [])
  | b :: rest =>
    if b == octet '-' then (true, rest) else if b == octet '+' then (false, rest)
    else (false, b :: rest)

/-- Gives a number its sign, if 64 bits suffice. -/
def signed (negative : Bool) (n : Nat) : Except Fault Int :=
  if negative then if n ≤ Nat.pow 2 63 then .ok (-n) else .error .outOfRange
  else if n < Nat.pow 2 63 then .ok n else .error .outOfRange

/-- The integer that a text denotes. -/
def parse (s : Bytes) : Except Fault Int :=
  let (negative, s) := sign s
  (natural s).bind (signed negative)

/-- The integer that a text denotes in a given base, without underscores. -/
def parseIn (base : Nat) (s : Bytes) : Except Fault Int :=
  let (negative, s) := sign s
  if s.isEmpty then .error .malformed else (digits base false s 0).bind (signed negative)

end DocTree.Integer
