/-
SearchClient/Filter/Expression.lean

Filter expressions of the search engine, as syntax and as text.

    'column' = 'value'                   comparison
    'column' IN ['a',2,true]             membership, also NOT IN
    'column' IS EMPTY                    presence
    (expr AND expr OR expr)              group

Columns and text values are quoted literals.  Numbers are written with the fewest digits that
read back to them and never with an exponent.  AND binds tighter than OR, and a group writes its
members in a row, each after the connective that joins it to the one before.
-/
import SearchClient.Filter.Node
import SearchClient.Text.Quoted
import SearchClient.Json.Text

namespace SearchClient

open Number

/-! ### Syntax -/

/-- A value inside an expression.  A number is known by its text. -/
inductive Literal where
  | flag (b : Bool)
  | number (digits : List Char)
  | text (s : List Char)
deriving DecidableEq, Inhabited

/-- A filter expression. -/
inductive Expr where
  | presence (column : List Char) (test : Presence)
  | compare (column : List Char) (comparison : Comparison) (value : Literal)
  | member (column : List Char) (negated : Bool) (values : List Literal)
  | group (first : Expr) (rest : List (Connective × Expr))
deriving Inhabited

/-- The layout of numbers in filter expressions. -/
def filterNumberLayout : Layout :=
  { tie := .up
    positional := none
    wholePoint := false }

/-- The value as a literal; an infinity or a NaN has none. -/
def Scalar.literal? : Scalar → Option Literal
  | .bool b => some (.flag b)
  | .int i => some (.number (Json.intText i.toInt))
  | .float x => if x.isFinite then some (.number (filterNumberLayout.text x)) else none
  | .text s => some (.text s.toList)

/-! ### Text -/

namespace Literal

def chars : Literal → List Char
  | .flag true => ['t', 'r', 'u', 'e']
  | .flag false => ['f', 'a', 'l', 's', 'e']
  | .number digits => digits
  | .text s => Text.Quoted.quote s

/-- Literals with commas between them. -/
def listChars : List Literal → List Char
  | [] => []
  | [v] => v.chars
  | v :: vs => v.chars ++ ',' :: listChars vs

end Literal

namespace Expr

/-- A word with a blank on both sides. -/
def spaced (word : String) : List Char := ' ' :: (word.toList ++ [' '])

mutual

/-- The text of an expression. -/
def chars : Expr → List Char
  | .presence column test => Text.Quoted.quote column ++ ' ' :: test.text.toList
  | .compare column comparison value =>
    Text.Quoted.quote column ++ spaced comparison.text ++ value.chars
  | .member column negated values =>
    Text.Quoted.quote column ++ spaced (if negated then "NOT IN" else "IN") ++
      '[' :: (Literal.listChars values ++ [']'])
  | .group first rest => '(' :: (chars first ++ (restChars rest ++ [')']))

/-- The members of a group after the first, each after its connective. -/
def restChars : List (Connective × Expr) → List Char
  | [] => []
  | (c, e) :: rest => spaced c.text ++ (chars e ++ restChars rest)

end

def text (e : Expr) : String := String.ofList e.chars

/-- The comparisons of one column with each of some values, joined by one connective. -/
def chain (column : List Char) (comparison : Comparison) (joiner : Connective)
    (first : Literal) (rest : List Literal) : Expr :=
  .group (.compare column comparison first)
    (rest.map fun v => (joiner, .compare column comparison v))

end Expr

end SearchClient
