/-
SearchClient/Filter/Compile.lean

Compiling filter trees.  A pass over a tree keeps all of it, leaves out the clauses on one column,
or leaves out the facet-blind groups.  Every node that keeps something yields one expression; a
group whose children all vanish vanishes too, and the connective of its first surviving child is
not written.  Beside the expressions the pass collects the columns of the clauses it kept, apart
for clauses inside and outside facet-blind groups.

A malformed leaf that the pass visits ends it, also when the leaf is on the column left out.
-/
import SearchClient.Filter.Expression
import SearchClient.Error

namespace SearchClient

/-! ### Choices -/

/-- How a list of values is written: as one membership test, or as comparisons in a row. -/
inductive ListRendering where
  | membership | orChain
deriving DecidableEq, Inhabited

def ListRendering.text : ListRendering → String
  | .membership => "membership"
  | .orChain => "or_chain"

def ListRendering.ofJson (j : Json) : Decoded ListRendering := do
  let name ← j.asName
  match [ListRendering.membership, .orChain].find? fun r => r.text = name with
  | some r => .ok r
  | none => .error (.unknownName name)

/-- Which part of a tree is compiled. -/
inductive Pass where
  | full
  /-- Without the clauses on a column. -/
  | without (column : String)
  /-- Without the facet-blind groups. -/
  | facets
deriving DecidableEq

/-- Whether a clause on this column is left out. -/
def Pass.drops (p : Pass) (column : String) : Bool := p = .without column

/-! ### Columns -/

/-- The columns of the clauses that were kept, in the order in which they were first seen. -/
structure Columns where
  /-- Outside facet-blind groups. -/
  query : List String := []
  /-- Inside facet-blind groups. -/
  blind : List String := []
deriving DecidableEq

namespace Columns

/-- The columns of the places where they were seen, each with whether it is facet-blind. -/
def ofSeen (seen : List (Bool × String)) : Columns :=
  { query := ((seen.filter fun s => !s.1).map Prod.snd).eraseDups
    blind := ((seen.filter Prod.fst).map Prod.snd).eraseDups }

/-- The columns that are seen in facet-blind groups alone. -/
def blindOnly (c : Columns) : List String :=
  c.blind.filter fun column => !c.query.contains column

/-- Every column, once. -/
def all (c : Columns) : List String := c.query ++ c.blindOnly

end Columns

/-! ### Compiling -/

/-- What a node contributes: an expression, and the columns of the clauses in it. -/
structure Piece where
  expr : Expr
  seen : List (Bool × String)
deriving Inhabited

/-- The expression of a list of values.  Only MATCHES and NOT IN ask something else than that some
value of the list is met. -/
def ListRendering.expr (r : ListRendering) (operator : Operator) (column : List Char)
    (first : Literal) (rest : List Literal) : Expr :=
  match operator, r with
  | .list .all, _ => .chain column .eq .and first rest
  | .list .notIn, .membership => .member column true (first :: rest)
  | .list .notIn, .orChain => .chain column .ne .and first rest
  | _, .membership => .member column false (first :: rest)
  | _, .orChain => .chain column .eq .or first rest

namespace Leaf

/-- The expression of a well-formed leaf.  An empty list contributes nothing. -/
def expr? (r : ListRendering) (l : Leaf) : Option Expr :=
  let column := l.column.toList
  match l.operator, l.operand with
  | .presence test, _ => some (.presence column test)
  | .compare comparison, .scalar v => v.literal?.map (.compare column comparison)
  | operator, operand =>
    match operand.values.filterMap Scalar.literal? with
    | [] => none
    | first :: rest => some (r.expr operator column first rest)

/-- What a leaf contributes. -/
def compile (r : ListRendering) (pass : Pass) (blind : Bool) (l : Leaf) :
    Except ClientError (Option Piece) :=
  if !l.wellFormed then .error (.malformedLeaf l)
  else if pass.drops l.column then .ok none
  else .ok ((l.expr? r).map fun e => ⟨e, [(blind, l.column)]⟩)

end Leaf

/-- The group of what its children contribute. -/
def Piece.join : List (Connective × Piece) → Option Piece
  | [] => none
  | (_, first) :: rest =>
    some ⟨.group first.expr (rest.map fun p => (p.1, p.2.expr)),
      first.seen ++ rest.flatMap fun p => p.2.seen⟩

namespace Node

mutual

/-- What a node contributes; `blind` says whether it stands in a facet-blind group. -/
def compile (r : ListRendering) (pass : Pass) (blind : Bool) :
    Node → Except ClientError (Option Piece)
  | .leaf l => l.compile r pass blind
  | .group children _ facetBlind =>
    if facetBlind && pass = .facets then .ok none
    else do
      let pieces ← compileList r pass (blind || facetBlind) children
      .ok (Piece.join pieces)

/-- What the nodes of a list contribute, each with its connective. -/
def compileList (r : ListRendering) (pass : Pass) (blind : Bool) :
    List Node → Except ClientError (List (Connective × Piece))
  | [] => .ok []
  | n :: ns => do
    let piece ← compile r pass blind n
    let pieces ← compileList r pass blind ns
    match piece with
    | some p => .ok ((n.connective, p) :: pieces)
    | none => .ok pieces

end

end Node

/-- The expressions of a list of trees, of which all must hold, and the columns in them. -/
structure Filters where
  exprs : List Expr := []
  columns : Columns := {}

namespace Filters

/-- The filters of a list of trees. -/
def compile (r : ListRendering) (pass : Pass) (nodes : List Node) : Except ClientError Filters := do
  let pieces ← Node.compileList r pass false nodes
  .ok { exprs := pieces.map fun p => p.2.expr
        columns := .ofSeen (pieces.flatMap fun p => p.2.seen) }

def texts (f : Filters) : List String := f.exprs.map Expr.text

end Filters

end SearchClient
