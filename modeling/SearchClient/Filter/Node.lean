/-
SearchClient/Filter/Node.lean

Filter trees.  A leaf is a clause on one column; a group holds clauses, each joined to the one
before it by its own connective.  A group may be facet-blind: its clauses narrow the hits, and
are left out of the filters under which facets are counted.

Trees are plain data and may be malformed; `Leaf.wellFormed` says when a leaf makes sense, and
`Node.firstMalformed?` finds the first leaf of a tree that does not.
-/
import SearchClient.Filter.Operator

namespace SearchClient

open Number

/-! ### Values -/

/-- A single value of a clause. -/
inductive Scalar where
  | bool (b : Bool)
  | int (i : Int64)
  | float (x : Double)
  | text (s : String)
deriving DecidableEq, Inhabited

/-- An infinity or a NaN has no text in the filter language. -/
def Scalar.isFinite : Scalar → Bool
  | .float x => x.isFinite
  | _ => true

/-- What stands on the right of an operator. -/
inductive Operand where
  | none
  | scalar (v : Scalar)
  | list (vs : List Scalar)
deriving DecidableEq, Inhabited

/-- The values of an operand, a single one as a list of one. -/
def Operand.values : Operand → List Scalar
  | .none => []
  | .scalar v => [v]
  | .list vs => vs

/-! ### Leaves -/

/-- A clause on one column. -/
structure Leaf where
  column : String
  operator : Operator
  operand : Operand := .none
  connective : Connective := .and
deriving DecidableEq, Inhabited

namespace Leaf

/-- A leaf has a column, a value exactly when its operator needs one, and finite numbers. -/
def wellFormed (l : Leaf) : Bool :=
  l.column ≠ "" &&
    match l.operand with
    | .none => l.operator.isUnary
    | operand => !l.operator.isUnary && operand.values.all Scalar.isFinite

/-- The leaf of a clause as it is written; a single value under an operator that takes a list
becomes a list of one. -/
def ofClause (column : String) (operator : Operator) (operand : Operand)
    (connective : Connective) : Leaf :=
  let operand := match operand with
    | .scalar v => if operator.takesList then .list [v] else .scalar v
    | other => other
  { column, operator, operand, connective }

end Leaf

/-! ### Trees -/

/-- A clause or a group of clauses. -/
inductive Node where
  | leaf (l : Leaf)
  | group (children : List Node) (connective : Connective) (facetBlind : Bool)
deriving Inhabited

namespace Node

def connective : Node → Connective
  | .leaf l => l.connective
  | .group _ c _ => c

mutual

/-- The first malformed leaf of a tree, from left to right. -/
def firstMalformed? : Node → Option Leaf
  | .leaf l => if l.wellFormed then none else some l
  | .group children _ _ => firstMalformedOf? children

/-- The first malformed leaf of a list of trees. -/
def firstMalformedOf? : List Node → Option Leaf
  | [] => none
  | n :: ns => (firstMalformed? n).or (firstMalformedOf? ns)

end

end Node

end SearchClient
