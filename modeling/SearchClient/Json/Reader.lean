/-
SearchClient/Json/Reader.lean

Reading JSON text.  A number token without point and exponent that fits 64 bits is a whole
number; every other one, and the token `-0`, is the closest binary64 number.  The members of an
object come out ordered by name, and of two members with one name the last one counts.

A reader gives back what it finds at the front of a text, and what follows it.  Values nest, so
the readers of values, items and members call each other; each of them gets the number of
characters that are left as fuel, and every call uses one up.
-/
import SearchClient.Json.Basic
import SearchClient.Table

namespace SearchClient.Json

open Number

def skipSpace (cs : List Char) : List Char :=
  cs.dropWhile fun c => c = ' ' || c = '\t' || c = '\n' || c = '\r'

/-- Drops an expected word from the front. -/
def dropWord : List Char → List Char → Option (List Char)
  | [], cs => some cs
  | w :: ws, c :: cs => if w = c then dropWord ws cs else none
  | _ :: _, [] => none

/-! ### Numbers -/

def digitsValue (ds : List Char) : Nat :=
  ds.foldl (fun n c => 10 * n + (c.toNat - 48)) 0

/-- A run of one or more digits. -/
def readDigits (cs : List Char) : Option (List Char × List Char) :=
  match cs.takeWhile Char.isDigit with
  | [] => none
  | ds => some (ds, cs.dropWhile Char.isDigit)

/-- The digits after a point, if there is one. -/
def readFraction : List Char → Option (Option (List Char) × List Char)
  | '.' :: cs => (readDigits cs).map fun r => (some r.1, r.2)
  | cs => some (none, cs)

/-- The power of ten after an `e`, if there is one. -/
def readPower : List Char → Option (Option Int × List Char)
  | c :: cs =>
    if c = 'e' ∨ c = 'E' then
      match cs with
      | '-' :: ds => (readDigits ds).map fun r => (some (-(digitsValue r.1 : Int)), r.2)
      | '+' :: ds => (readDigits ds).map fun r => (some (digitsValue r.1 : Int), r.2)
      | ds => (readDigits ds).map fun r => (some (digitsValue r.1 : Int), r.2)
    else some (none, c :: cs)
  | [] => some (none, [])

/-- The value of a number token from its parts. -/
def numberOf (negative : Bool) (whole : List Char) (fraction : Option (List Char))
    (power : Option Int) : Option Json :=
  let n := digitsValue whole
  let fits := if negative then 0 < n && n ≤ Nat.pow 2 63 else n < UInt64.size
  if fraction.isNone && power.isNone && fits then
    some (.int (if negative then -n else n))
  else
    let places := fraction.getD []
    let x := Double.ofDecimal negative (digitsValue (whole ++ places))
      (power.getD 0 - places.length)
    if x.isFinite then some (.float x) else none

def readNumber (cs : List Char) : Option (Json × List Char) := do
  let (negative, cs) := match cs with
    | '-' :: cs => (true, cs)
    | cs => (false, cs)
  let (whole, cs) ← readDigits cs
  if whole.length ≠ 1 ∧ whole.head? = some '0' then none
  let (fraction, cs) ← readFraction cs
  let (power, cs) ← readPower cs
  let j ← numberOf negative whole fraction power
  some (j, cs)

/-! ### Strings -/

def hexValue? (c : Char) : Option Nat :=
  if c.isDigit then some (c.toNat - 48)
  else if 'a' ≤ c ∧ c ≤ 'f' then some (c.toNat - 87)
  else if 'A' ≤ c ∧ c ≤ 'F' then some (c.toNat - 55)
  else none

/-- The number that four hexadecimal digits stand for. -/
def unit? (a b c d : Char) : Option Nat := do
  let a ← hexValue? a
  let b ← hexValue? b
  let c ← hexValue? c
  let d ← hexValue? d
  some (((a * 16 + b) * 16 + c) * 16 + d)

/-- The character of two surrogates. -/
def pair? (high low : Nat) : Option Char :=
  if 0xD800 ≤ high ∧ high < 0xDC00 ∧ 0xDC00 ≤ low ∧ low < 0xE000 then
    some (Char.ofNat (0x10000 + (high - 0xD800) * 0x400 + (low - 0xDC00)))
  else none

/-- The character of a code that is not a surrogate. -/
def single? (code : Nat) : Option Char :=
  if 0xD800 ≤ code ∧ code < 0xE000 then none else some (Char.ofNat code)

def simpleEscape? (c : Char) : Option Char :=
  if c = '"' ∨ c = '\\' ∨ c = '/' then some c
  else if c = 'b' then some '\x08'
  else if c = 'f' then some '\x0c'
  else if c = 'n' then some '\n'
  else if c = 'r' then some '\r'
  else if c = 't' then some '\t'
  else none

/-- The inside of a string, up to its closing quote. -/
def readInside : List Char → Option (List Char × List Char)
  | [] => none
  | '"' :: rest => some ([], rest)
  | '\\' :: 'u' :: a :: b :: c :: d :: '\\' :: 'u' :: e :: f :: g :: h :: rest => do
    let first ← unit? a b c d
    let second ← unit? e f g h
    match pair? first second with
    | some x =>
      let r ← readInside rest
      some (x :: r.1, r.2)
    | none =>
      let x ← single? first
      let r ← readInside ('\\' :: 'u' :: e :: f :: g :: h :: rest)
      some (x :: r.1, r.2)
  | '\\' :: 'u' :: a :: b :: c :: d :: rest => do
    let x ← single? (← unit? a b c d)
    let r ← readInside rest
    some (x :: r.1, r.2)
  | '\\' :: c :: rest => do
    let x ← simpleEscape? c
    let r ← readInside rest
    some (x :: r.1, r.2)
  | c :: rest => do
    if c.toNat < 0x20 then none
    let r ← readInside rest
    some (c :: r.1, r.2)

def readString : List Char → Option (String × List Char)
  | '"' :: cs => (readInside cs).map fun r => (String.ofList r.1, r.2)
  | _ => none

/-! ### Values -/

mutual

/-- A value at the front of a text. -/
def readValue : Nat → List Char → Option (Json × List Char)
  | 0, _ => none
  | n + 1, cs =>
    match skipSpace cs with
    | '[' :: rest =>
      match skipSpace rest with
      | ']' :: rest => some (.arr [], rest)
      | rest => (readItems n rest).map fun r => (.arr r.1, r.2)
    | '\x7b' :: rest =>
      match skipSpace rest with
      | '\x7d' :: rest => some (.obj [], rest)
      | rest => (readMembers n [] rest).map fun r => (.obj r.1, r.2)
    | '"' :: rest => (readString ('"' :: rest)).map fun r => (.str r.1, r.2)
    | 'n' :: rest => (dropWord ['u', 'l', 'l'] rest).map fun r => (.null, r)
    | 't' :: rest => (dropWord ['r', 'u', 'e'] rest).map fun r => (.bool true, r)
    | 'f' :: rest => (dropWord ['a', 'l', 's', 'e'] rest).map fun r => (.bool false, r)
    | rest => readNumber rest

/-- The items of an array, up to its closing bracket. -/
def readItems : Nat → List Char → Option (List Json × List Char)
  | 0, _ => none
  | n + 1, cs => do
    let (j, rest) ← readValue n cs
    match skipSpace rest with
    | ',' :: rest =>
      let (js, rest) ← readItems n rest
      some (j :: js, rest)
    | ']' :: rest => some ([j], rest)
    | _ => none

/-- The members of an object, up to its closing brace, put in with those already read. -/
def readMembers : Nat → Table Json → List Char → Option (Table Json × List Char)
  | 0, _, _ => none
  | n + 1, known, cs => do
    let (name, rest) ← readString (skipSpace cs)
    match skipSpace rest with
    | ':' :: rest =>
      let (j, rest) ← readValue n rest
      let known := Table.put name j known
      match skipSpace rest with
      | ',' :: rest => readMembers n known rest
      | '\x7d' :: rest => some (known, rest)
      | _ => none
    | _ => none

end

/-- The value that a text holds, with nothing but white space around it. -/
def ofText? (s : String) : Option Json := do
  let cs := s.toList
  let (j, rest) ← readValue (cs.length + 1) cs
  if (skipSpace rest).isEmpty then some j else none

end SearchClient.Json
