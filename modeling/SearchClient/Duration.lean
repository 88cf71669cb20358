/-
SearchClient/Duration.lean

Lengths of time in whole nanoseconds.  Scaling by a floating-point factor goes through seconds
as a binary64 number: the whole seconds and the rest are converted one by one, added, multiplied
and brought back to the closest nanosecond.  A product of 2 ^ 64 seconds or more has no length.
-/
import SearchClient.Number.Double

namespace SearchClient

open Number

/-- A length of time, or a moment counted from the start, in nanoseconds. -/
abbrev Duration := Nat

namespace Duration

def perSecond : Nat := 1000000000

def perMilli : Nat := 1000000

def ofMillis (n : Nat) : Duration := n * perMilli

def ofSeconds (n : Nat) : Duration := n * perSecond

/-- The length in seconds, rounded as binary64 arithmetic does. -/
def seconds (d : Duration) : Rat :=
  let nearest := BinaryFormat.double.nearest
  nearest (nearest (mkRat (d / perSecond) 1) + nearest (mkRat (d % perSecond) perSecond))

/-- The nanosecond closest to a number of seconds, unless they are too many. -/
def ofRat? (seconds : Rat) : Option Duration :=
  if scaled 1 64 ≤ seconds then none
  else some (roundDiv (seconds.num.toNat * perSecond) seconds.den)

/-- The length times a positive finite factor. -/
def scale? (factor : Double) (d : Duration) : Option Duration :=
  ofRat? (BinaryFormat.double.nearest (d.seconds * factor.magnitude))

/-- The earliest moment not before `d` that a clock with this grain shows. -/
def ceilTo (grain : Duration) (d : Duration) : Duration :=
  (d + grain - 1) / grain * grain

/-! ### Text -/

/-- A fraction of `unit`, without the zeros at its end. -/
def fraction (part unit : Nat) : List Char :=
  let digits := Nat.toDigits 10 part
  let padded := List.replicate ((Nat.toDigits 10 unit).length - 1 - digits.length) '0' ++ digits
  match (padded.reverse.dropWhile (· == '0')).reverse with
  | [] => []
  | kept => '.' :: kept

def inUnit (d unit : Nat) (name : String) : String :=
  toString (d / unit) ++ String.ofList (fraction (d % unit) unit) ++ name

/-- The length in the largest unit of which it holds at least one. -/
def text (d : Duration) : String :=
  if perSecond ≤ d then inUnit d perSecond "s"
  else if perMilli ≤ d then inUnit d perMilli "ms"
  else if 1000 ≤ d then inUnit d 1000 "µs"
  else inUnit d 1 "ns"

end Duration

end SearchClient
