/-
SearchClient/Number/Binary.lean

Binary floating point in exact arithmetic.  A format has a precision `p` and a least exponent;
its values are `m * 2 ^ e` with `m < 2 ^ p` and `e` not below the least exponent.  `nearest`
takes a rational number to the closest such value, and a number halfway between two of them to
the one with the even `m`.  Nothing here has a largest value: whoever stores a value in bits
decides what becomes of the large ones.

Powers are written `Nat.pow`, which is the same operation next to the powers of monoids, where `^` is
not.
-/
namespace SearchClient.Number

/-- The quotient rounded to the closest integer; halfway goes to the even one. -/
def roundDiv (num den : Nat) : Nat :=
  let k := num / den
  let r := num % den
  if 2 * r < den then k else if den < 2 * r then k + 1 else k + k % 2

/-- The rational number `m * 2 ^ e`. -/
def scaled (m : Nat) (e : Int) : Rat :=
  mkRat (m * Nat.pow 2 e.toNat) (Nat.pow 2 (-e).toNat)

/-- A binary floating-point format without an upper limit. -/
structure BinaryFormat where
  precision : Nat
  leastExponent : Int
deriving DecidableEq

namespace BinaryFormat

/-- Twenty-four digits, from 2 ^ -149. -/
def single : BinaryFormat := ⟨24, -149⟩

/-- Fifty-three digits, from 2 ^ -1074. -/
def double : BinaryFormat := ⟨53, -1074⟩

/-- The integer closest to `num / den / 2 ^ e`. -/
def mantissaAt (num den : Nat) (e : Int) : Nat :=
  roundDiv (num * Nat.pow 2 (-e).toNat) (den * Nat.pow 2 e.toNat)

/-- The exponent at which `num / den` fills the precision of the format, or the least one. -/
def exponentOf (f : BinaryFormat) (num den : Nat) : Int :=
  if num = 0 then f.leastExponent else
  let e : Int := max ((num.log2 : Int) - den.log2 - f.precision) f.leastExponent
  if den * Nat.pow 2 e.toNat * Nat.pow 2 f.precision ≤ num * Nat.pow 2 (-e).toNat then e + 1 else e

/-- Mantissa and exponent of the value closest to `num / den`. -/
def round (f : BinaryFormat) (num den : Nat) : Nat × Int :=
  let e := f.exponentOf num den
  (mantissaAt num den e, e)

/-- The value of the format closest to a number that is not negative. -/
def nearest (f : BinaryFormat) (q : Rat) : Rat :=
  let r := f.round q.num.toNat q.den
  scaled r.1 r.2

end BinaryFormat

end SearchClient.Number
