/-
SearchClient/Filter/Operator.lean

The words of the filter language.  An operator either compares a column with one value, tests it
against a list of values, or asks whether it is present; which of the three decides what may
stand on its right.  Connectives join sibling clauses.

Each word has one exact spelling, used on the wire, and a loose reading for text that people
write: blanks around it (and between its words) and the case of ASCII letters do not matter.
-/
import SearchClient.Text.Blank
import SearchClient.Json.Decode

namespace SearchClient

/-! ### Operators -/

/-- Operators that compare a column with one value. -/
inductive Comparison where
  | eq | ne | gt | ge | lt | le
deriving DecidableEq, Inhabited

/-- Operators that test a column against a list of values. -/
inductive ListTest where
  | isIn | notIn
  /-- Every listed value is matched. -/
  | all
deriving DecidableEq, Inhabited

/-- Operators that ask whether a column is present, and take no value. -/
inductive Presence where
  | isEmpty | isNotEmpty | isNull | isNotNull
deriving DecidableEq, Inhabited

inductive Operator where
  | compare (c : Comparison)
  | list (t : ListTest)
  | presence (p : Presence)
deriving DecidableEq, Inhabited

def Comparison.text : Comparison → String
  | .eq => "="
  | .ne => "!="
  | .gt => ">"
  | .ge => ">="
  | .lt => "<"
  | .le => "<="

def ListTest.text : ListTest → String
  | .isIn => "IN"
  | .notIn => "NOT IN"
  | .all => "MATCHES"

def Presence.text : Presence → String
  | .isEmpty => "IS EMPTY"
  | .isNotEmpty => "IS NOT EMPTY"
  | .isNull => "IS NULL"
  | .isNotNull => "IS NOT NULL"

namespace Operator

/-- The exact spelling. -/
def text : Operator → String
  | .compare c => c.text
  | .list t => t.text
  | .presence p => p.text

def all : List Operator :=
  [.compare .eq, .compare .ne, .compare .gt, .compare .ge, .compare .lt, .compare .le,
   .list .isIn, .list .notIn, .list .all,
   .presence .isEmpty, .presence .isNotEmpty, .presence .isNull, .presence .isNotNull]

/-- Whether the operator stands without a value. -/
def isUnary : Operator → Bool
  | .presence _ => true
  | _ => false

/-- Whether the value of the operator is always a list. -/
def takesList : Operator → Bool
  | .list _ => true
  | _ => false

/-- The loose reading: the words of the text, in upper case, are those of the operator. -/
def ofText? (s : String) : Option Operator :=
  let spelled := (Text.words s.toList).map Text.upper
  all.find? fun op => Text.words op.text.toList = spelled

def toJson (op : Operator) : Json := .str op.text

def ofJson (j : Json) : Decoded Operator := do
  let name ← j.asName
  match all.find? fun op => op.text = name with
  | some op => .ok op
  | none => .error (.unknownName name)

end Operator

/-! ### Connectives -/

/-- What joins a clause to the one before it. -/
inductive Connective where
  | and | or
deriving DecidableEq, Inhabited

namespace Connective

def text : Connective → String
  | .and => "AND"
  | .or => "OR"

def all : List Connective := [.and, .or]

/-- The loose reading: without the blanks around it and in upper case, the text is the word. -/
def ofText? (s : String) : Option Connective :=
  let spelled := Text.upper (Text.trim s.toList)
  all.find? fun c => c.text.toList = spelled

def toJson (c : Connective) : Json := .str c.text

def ofJson (j : Json) : Decoded Connective := do
  let name ← j.asName
  match all.find? fun c => c.text = name with
  | some c => .ok c
  | none => .error (.unknownName name)

end Connective

end SearchClient
