/-
SearchClient/Number/Shortest.lean

The shortest decimal of a binary64 number.  The reals that round to the number form an interval;
on the grid of the multiples of 10 ^ k only the two neighbours of the number can lie in it as the
closest points.  Walking from a coarse grid to finer ones, the first grid with a neighbour in the
interval has the fewest digits, and of two neighbours there the closer one is taken.  All of it
is exact arithmetic on natural numbers.

How the digits are laid out is the business of whoever writes a number; `Layout` holds those
decisions, and a tie between the two neighbours is one of them.
-/
import SearchClient.Number.Double

namespace SearchClient.Number

/-- Which of two equally close neighbours is taken. -/
inductive Tie where
  | even
  | up
deriving DecidableEq

/-- The number `digits * 10 ^ power`. -/
structure Decimal where
  digits : Nat
  power : Int
deriving DecidableEq

/-! ### The interval that rounds to a number -/

/-- A positive number and the ends of the interval that rounds to it, over one denominator. -/
structure Interval where
  low : Nat
  value : Nat
  high : Nat
  den : Nat
  closed : Bool

namespace Interval

/-- The ends lie halfway to the neighbouring numbers, and belong to the interval when the
mantissa is even.  Below a power of two the neighbour is half as far away. -/
def ofDouble (x : Double) : Interval :=
  let unit := Nat.pow 2 x.exponent.toNat
  let value := 4 * x.mantissa * unit
  let narrow := x.fractionField = 0 ∧ 1 < x.exponentField
  { low := value - (if narrow then unit else 2 * unit)
    value
    high := value + 2 * unit
    den := 4 * Nat.pow 2 (-x.exponent).toNat
    closed := x.mantissa % 2 = 0 }

/-- Whether `c * 10 ^ k` lies in the interval. -/
def contains (i : Interval) (c : Nat) (k : Int) : Bool :=
  let point := c * Nat.pow 10 k.toNat * i.den
  let stretch := Nat.pow 10 (-k).toNat
  if i.closed then i.low * stretch ≤ point && point ≤ i.high * stretch
  else i.low * stretch < point && point < i.high * stretch

/-- The neighbour on the grid of the multiples of 10 ^ k that is in the interval, and the closer
one when both are. -/
def onGrid (i : Interval) (tie : Tie) (k : Int) : Option Nat :=
  let stretched := i.value * Nat.pow 10 (-k).toNat
  let step := i.den * Nat.pow 10 k.toNat
  let below := stretched / step
  match i.contains below k, i.contains (below + 1) k with
  | false, false => none
  | true, false => some below
  | false, true => some (below + 1)
  | true, true =>
    let middle := (2 * below + 1) * step
    if 2 * stretched < middle then some below
    else if middle < 2 * stretched then some (below + 1)
    else match tie with
      | .even => some (below + below % 2)
      | .up => some (below + 1)

/-- Tries the grids from 10 ^ k downwards. -/
def search (i : Interval) (tie : Tie) : Nat → Int → Decimal
  | 0, k => ⟨i.value * Nat.pow 10 (-k).toNat / (i.den * Nat.pow 10 k.toNat), k⟩
  | n + 1, k =>
    match i.onGrid tie k with
    | some c => ⟨c, k⟩
    | none => search i tie n (k - 1)

end Interval

def decimalLength (n : Nat) : Nat := (Nat.toDigits 10 n).length

/-- The shortest decimal of the absolute value of a finite number.  Seventeen digits always
suffice, and the first grid tried is at most two steps above that of the leading digit. -/
def Double.shortest (x : Double) (tie : Tie) : Decimal :=
  if x.mantissa = 0 then ⟨0, 0⟩
  else
    let i := Interval.ofDouble x
    let top : Int := decimalLength (i.value / i.den) - decimalLength (i.den / i.value) + 2
    i.search tie 24 top

/-! ### Layout -/

/-- How a number is written. -/
structure Layout where
  tie : Tie
  /-- The exponents of the leading digit that are written without an exponent; all if absent. -/
  positional : Option (Int × Int)
  /-- Whether a whole number keeps a point and a zero. -/
  wholePoint : Bool

namespace Decimal

/-- The exponent of the leading digit. -/
def leading (d : Decimal) : Int := d.power + decimalLength d.digits - 1

def positional (d : Decimal) (wholePoint : Bool) : List Char :=
  let digits := Nat.toDigits 10 d.digits
  if 0 ≤ d.power then
    digits ++ List.replicate d.power.toNat '0' ++ (if wholePoint then ['.', '0'] else [])
  else
    let places := (-d.power).toNat
    let padded := List.replicate (places + 1 - digits.length) '0' ++ digits
    padded.take (padded.length - places) ++ '.' :: padded.drop (padded.length - places)

def scientific (d : Decimal) : List Char :=
  let mark := if d.leading < 0 then ['e', '-'] else ['e', '+']
  let power := mark ++ Nat.toDigits 10 d.leading.natAbs
  match Nat.toDigits 10 d.digits with
  | [] => power
  | [c] => c :: power
  | c :: rest => c :: '.' :: rest ++ power

end Decimal

/-- The text of a finite number. -/
def Layout.text (l : Layout) (x : Double) : List Char :=
  let d := x.shortest l.tie
  let plain := match l.positional with
    | none => true
    | some (least, greatest) => least ≤ d.leading && d.leading ≤ greatest
  let body := if plain then d.positional l.wholePoint else d.scientific
  if x.isNegative then '-' :: body else body

end SearchClient.Number
