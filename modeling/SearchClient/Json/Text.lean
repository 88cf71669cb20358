/-
SearchClient/Json/Text.lean

JSON as compact text.  Of the characters of a string only the quote, the backslash and the
control characters below U+0020 are escaped.  A floating-point number has the fewest digits that
read back to it; between 0.00001 and 10 ^ 16 it is written out with a point, elsewhere with an
exponent; an infinity or a NaN, for which JSON has no number, is written `null`.
-/
import SearchClient.Json.Basic
import SearchClient.Number.Shortest

namespace SearchClient.Json

open Number

/-- The layout of floating-point numbers in JSON text. -/
def numberLayout : Layout :=
  { tie := .even
    positional := some (-5, 15)
    wholePoint := true }

def hexDigit (n : Nat) : Char := (Nat.toDigits 16 (n % 16)).headD '0'

def escapeChar (c : Char) : List Char :=
  if c = '"' then ['\\', '"']
  else if c = '\\' then ['\\', '\\']
  else if c = '\x08' then ['\\', 'b']
  else if c = '\x0c' then ['\\', 'f']
  else if c = '\n' then ['\\', 'n']
  else if c = '\r' then ['\\', 'r']
  else if c = '\t' then ['\\', 't']
  else if c.toNat < 0x20 then
    ['\\', 'u', '0', '0', hexDigit (c.toNat / 16), hexDigit c.toNat]
  else [c]

def quoted (s : String) : List Char :=
  '"' :: (s.toList.flatMap escapeChar ++ ['"'])

def intText (i : Int) : List Char :=
  if i < 0 then '-' :: Nat.toDigits 10 i.natAbs else Nat.toDigits 10 i.natAbs

mutual

/-- The text of a value. -/
def chars : Json → List Char
  | .null => ['n', 'u', 'l', 'l']
  | .bool true => ['t', 'r', 'u', 'e']
  | .bool false => ['f', 'a', 'l', 's', 'e']
  | .int i => intText i
  | .float x => if x.isFinite then numberLayout.text x else ['n', 'u', 'l', 'l']
  | .str s => quoted s
  | .arr items => '[' :: (itemChars items ++ [']'])
  | .obj members => '\x7b' :: (memberChars members ++ ['\x7d'])

/-- The texts of a list of values, with commas between them. -/
def itemChars : List Json → List Char
  | [] => []
  | [j] => chars j
  | j :: rest => chars j ++ ',' :: itemChars rest

/-- The texts of a list of members, with commas between them. -/
def memberChars : List (String × Json) → List Char
  | [] => []
  | [(k, j)] => quoted k ++ ':' :: chars j
  | (k, j) :: rest => quoted k ++ ':' :: (chars j ++ ',' :: memberChars rest)

end

/-- The compact text of a value. -/
def text (j : Json) : String := String.ofList (chars j)

end SearchClient.Json
