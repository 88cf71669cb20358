/-
SearchClient/Number/Double.lean

Binary64 numbers as their bits.  Equality is equality of bits, so the type has decidable
equality and a negative zero of its own; what a number is worth is `magnitude` together with
`isNegative`.  Arithmetic happens on rational numbers and comes back through `ofRatio`.
-/
import SearchClient.Number.Binary

namespace SearchClient.Number

/-- A binary64 number. -/
structure Double where
  bits : UInt64
deriving DecidableEq, Inhabited

namespace Double

/-! ### The fields of the encoding -/

def isNegative (x : Double) : Bool := Nat.pow 2 63 ≤ x.bits.toNat

def exponentField (x : Double) : Nat := x.bits.toNat / Nat.pow 2 52 % Nat.pow 2 11

def fractionField (x : Double) : Nat := x.bits.toNat % Nat.pow 2 52

/-- Neither an infinity nor a NaN. -/
def isFinite (x : Double) : Bool := x.exponentField ≠ 2047

/-- A finite number is `mantissa * 2 ^ exponent`, up to its sign. -/
def mantissa (x : Double) : Nat :=
  if x.exponentField = 0 then x.fractionField else Nat.pow 2 52 + x.fractionField

def exponent (x : Double) : Int := (max x.exponentField 1 : Int) - 1075

/-- The absolute value of a finite number. -/
def magnitude (x : Double) : Rat := scaled x.mantissa x.exponent

/-! ### Encoding -/

def signBit (negative : Bool) : Nat := if negative then Nat.pow 2 63 else 0

/-- The number `m * 2 ^ e` with `m ≤ 2 ^ 53`, where `m < 2 ^ 52` only at the least exponent.
What is too large becomes an infinity. -/
def ofParts (negative : Bool) (m : Nat) (e : Int) : Double :=
  let infinite := 2047 * Nat.pow 2 52
  ⟨.ofNat (signBit negative + min ((e + 1074).toNat * Nat.pow 2 52 + m) infinite)⟩

/-- The number closest to `num / den`. -/
def ofRatio (negative : Bool) (num den : Nat) : Double :=
  let r := BinaryFormat.double.round num den
  ofParts negative r.1 r.2

/-- The number closest to an integer. -/
def ofInt (i : Int) : Double := ofRatio (i < 0) i.natAbs 1

/-- The number closest to `digits * 10 ^ power`.  The powers that only give zero or an infinity
are cut off first, so that no power of ten grows without need. -/
def ofDecimal (negative : Bool) (digits : Nat) (power : Int) : Double :=
  let top : Int := digits.log2 / 3 + power
  if digits = 0 ∨ (digits.log2 + 1 : Int) + power < -330 then ofParts negative 0 (-1074)
  else if 330 < top ∧ 330 < power then ofParts negative (Nat.pow 2 53) 1000
  else ofRatio negative (digits * Nat.pow 10 power.toNat) (Nat.pow 10 (-power).toNat)

def positiveInfinity : Double := ⟨0x7FF0000000000000⟩

def negativeInfinity : Double := ⟨0xFFF0000000000000⟩

def notANumber : Double := ⟨0x7FF8000000000000⟩

/-- The binary64 number with the value of the closest binary32 number.  From 2 ^ 128 on that is
an infinity. -/
def toSingle (x : Double) : Double :=
  if ¬ x.isFinite then x
  else
    let q := BinaryFormat.single.nearest x.magnitude
    if scaled 1 128 ≤ q then
      if x.isNegative then negativeInfinity else positiveInfinity
    else ofRatio x.isNegative q.num.toNat q.den

end Double

end SearchClient.Number
