import DocTree.Number.Double

/-!
# The shortest decimal of a double

The decimal that a double is written as has the fewest digits among those that read back as the
double, and is the nearest to it among these; of two equally near, the one with the even last digit.
All comparisons are made in natural numbers.
-/

namespace DocTree.Double

/-- The decimals that read back as a double: those between `low` and `high`, in units of
`unit.1 / unit.2`, ends included when `closed`. -/
structure Interval where
  /-- The lower end. -/
  low : Nat
  /-- The double itself. -/
  mid : Nat
  /-- The upper end. -/
  high : Nat
  /-- Do the ends belong to the interval? -/
  closed : Bool
  /-- The unit, as a quotient. -/
  unit : Nat × Nat

/-- The interval of a finite double. It reaches halfway to the neighbours; the lower neighbour of a
power of two is half as far away as the upper one. -/
def interval (x : Double) : Interval :=
  let m := x.significand
  let e := x.exponent - 2
  { low := if x.fractionField = 0 && 1 < x.exponentField then 4 * m - 1 else 4 * m - 2
    mid := 4 * m
    high := 4 * m + 2
    closed := m % 2 == 0
    unit := if 0 ≤ e then (Nat.pow 2 e.toNat, 1) else (1, Nat.pow 2 (-e).toNat) }

/-- Is `c * 10 ^ e` in the interval? -/
def Interval.contains (i : Interval) (c : Nat) (e : Int) : Bool :=
  let value := if 0 ≤ e then c * Nat.pow 10 e.toNat * i.unit.2 else c * i.unit.2
  let scale := if 0 ≤ e then i.unit.1 else i.unit.1 * Nat.pow 10 (-e).toNat
  if i.closed then i.low * scale ≤ value && value ≤ i.high * scale
  else i.low * scale < value && value < i.high * scale

/-- How often `n` must be multiplied by ten to reach `d`, tried at most `fuel` times. -/
def shortfall (d : Nat) : Nat → Nat → Nat
  | 0, _ => 0
  | fuel + 1, n => if d ≤ n then 0 else shortfall d fuel (n * 10) + 1

/-- The number of digits in front of the point of the positive quotient `n / d`; zero or below when
it is less than one: then it counts the zeros behind the point. -/
def magnitude (n d : Nat) : Int :=
  if d ≤ n then (Nat.toDigits 10 (n / d)).length else 1 - shortfall d (d.log2 + 1) n

/-- The members of the grid of multiples of `10 ^ e` next to the quotient `n / d`: the one at or
below it, and whether the next one is nearer (`gt`), farther (`lt`) or as near (`eq`). -/
def neighbours (n d : Nat) (e : Int) : Nat × Ordering :=
  let a := if 0 ≤ e then n else n * Nat.pow 10 (-e).toNat
  let b := if 0 ≤ e then d * Nat.pow 10 e.toNat else d
  (a / b, compare (2 * (a % b)) b)

/-- The member of the grid of multiples of `10 ^ e` that lies in the interval and is nearest to its
middle. -/
def Interval.onGrid? (i : Interval) (e : Int) : Option Nat :=
  let (c, order) := neighbours (i.mid * i.unit.1) i.unit.2 e
  let up := order == .gt || (order == .eq && c % 2 == 1)
  if i.contains c e then
    if up && i.contains (c + 1) e then some (c + 1) else some c
  else if i.contains (c + 1) e then some (c + 1)
  else none

/-- Drops zeros at the end of a positive coefficient, at most `fuel` of them. -/
def dropZeros : Nat → Nat → Int → Nat × Int
  | 0, c, e => (c, e)
  | fuel + 1, c, e => if c % 10 = 0 then dropZeros fuel (c / 10) (e + 1) else (c, e)

/-- Tries grids with one digit more each time; seventeen digits always suffice. -/
def searchGrids (i : Interval) (point : Int) : Nat → Nat → Nat × Int
  | 0, _ => (0, 0)
  | fuel + 1, digits =>
    let e := point - digits
    match i.onGrid? e with
    | some c => dropZeros 17 c e
    | none => searchGrids i point fuel (digits + 1)

/-- The shortest decimal that reads back as a finite double. -/
def shortest (x : Double) : Decimal :=
  if x.significand = 0 then ⟨x.isNegative, 0, 0⟩
  else
    let i := x.interval
    let (c, e) := searchGrids i (magnitude (i.mid * i.unit.1) i.unit.2) 17 1
    ⟨x.isNegative, c, e⟩

end DocTree.Double
