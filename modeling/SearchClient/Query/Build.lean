/-
SearchClient/Query/Build.lean

Building queries step by step.  A clause is checked when it is added: its words are read loosely,
its leaf must be well-formed, and OR is open to the members of a group alone.  The trees of a
query, and the members of a facet-blind group, are joined by AND.

A step either gives the query with the step made, or says why it cannot be made.
-/
import SearchClient.Query.Basic

namespace SearchClient

/-! ### Loosely written words -/

def Operator.read (s : String) : Except ClientError Operator :=
  match ofText? s with
  | some op => .ok op
  | none => .error (.unknownOperator s)

def Connective.read (s : String) : Except ClientError Connective :=
  match ofText? s with
  | some c => .ok c
  | none => .error (.invalidConnective s)

def Direction.read (s : String) : Except ClientError Direction :=
  match ofText? s with
  | some d => .ok d
  | none => .error (.invalidDirection s)

/-! ### Clauses -/

/-- A clause as a caller writes it. -/
inductive Clause where
  | filter (column operator : String) (operand : Operand) (joiner : String)
  /-- A column tested against a list; an empty list adds nothing. -/
  | list (column : String) (test : ListTest) (values : List Scalar)
  | presence (column : String) (test : Presence)
  /-- A ready tree. -/
  | node (n : Node)
  | group (joiner : Connective) (clauses : List Clause)

/-- Where clauses are added: among trees that are joined by AND, or in a group. -/
inductive Scope where
  | andOnly | group
deriving DecidableEq

/-- Checks every leaf of a tree. -/
def Node.check (n : Node) : Except ClientError Unit :=
  match n.firstMalformed? with
  | some l => .error (.malformedLeaf l)
  | none => .ok ()

/-- The tree, if it may stand in the scope. -/
def Scope.admit (scope : Scope) (n : Node) : Except ClientError Node := do
  if scope = .andOnly ∧ n.connective = .or then .error .orAtTopLevel
  n.check
  .ok n

/-- The leaf of a clause, if it is well-formed. -/
def Leaf.make (column : String) (operator : Operator) (operand : Operand)
    (connective : Connective) : Except ClientError Leaf :=
  let l := Leaf.ofClause column operator operand connective
  if l.wellFormed then .ok l else .error (.malformedLeaf l)

namespace Clause

mutual

/-- The tree that a clause adds, if it adds one. -/
def node? (scope : Scope) : Clause → Except ClientError (Option Node)
  | .filter column operator operand joiner => do
    let connective ← Connective.read joiner
    let operator ← Operator.read operator
    let l ← Leaf.make column operator operand connective
    some <$> scope.admit (.leaf l)
  | .list column test values =>
    if values.isEmpty then .ok none
    else do
      let l ← Leaf.make column (.list test) (.list values) .and
      some <$> scope.admit (.leaf l)
  | .presence column test => do
    let l ← Leaf.make column (.presence test) .none .and
    some <$> scope.admit (.leaf l)
  | .node n => some <$> scope.admit n
  | .group joiner clauses => do
    let children ← nodes .group clauses
    some <$> scope.admit (.group children joiner false)

/-- The trees that the clauses of a list add, up to the first that cannot be added. -/
def nodes (scope : Scope) : List Clause → Except ClientError (List Node)
  | [] => .ok []
  | c :: cs => do
    let n ← node? scope c
    let ns ← nodes scope cs
    .ok (n.toList ++ ns)

end

end Clause

/-! ### Steps -/

inductive Step where
  | clause (c : Clause)
  /-- Clauses that narrow the hits and leave the facets as they are. -/
  | keepFacets (clauses : List Clause)
  | index (name : String)
  | search (text : String)
  | limit (n : UInt64)
  | offset (n : UInt64)
  | page (n : UInt64)
  | hitsPerPage (n : UInt64)
  | orderBy (fields : List String) (direction : String)
  | random
  | facets (names : List String)
  | addFacet (name : String)
  | attributes (names : List String)
  /-- Steps that are made only if a condition holds. -/
  | when (condition : Bool) (steps : List Step)

namespace Step

mutual

/-- The query with a step made. -/
def apply : Step → Query → Except ClientError Query
  | .clause c, q => do
    let n ← c.node? .andOnly
    .ok { q with wheres := q.wheres ++ n.toList }
  | .keepFacets clauses, q => do
    let children ← Clause.nodes .andOnly clauses
    .ok { q with facetSplit := true, wheres := q.wheres ++ [.group children .and true] }
  | .index name, q => .ok { q with index := name }
  | .search text, q => .ok { q with search := text }
  | .limit n, q => .ok { q with limit := n }
  | .offset n, q => .ok { q with offset := n }
  | .page n, q => .ok { q with page := some n }
  | .hitsPerPage n, q => .ok { q with hitsPerPage := some n }
  | .orderBy fields direction, q => do
    if q.randomOrder then .error .orderAfterRandom
    let direction ← Direction.read direction
    .ok { q with order := q.order ++ fields.map fun field => ⟨field, direction⟩ }
  | .random, q => .ok { q with randomOrder := true }
  | .facets names, q => .ok { q with facets := names }
  | .addFacet name, q => .ok { q with facets := q.facets ++ [name] }
  | .attributes names, q => .ok { q with attributes := some names }
  | .when condition steps, q => if condition then applyAll steps q else .ok q

/-- The query with the steps of a list made, up to the first that cannot be made. -/
def applyAll : List Step → Query → Except ClientError Query
  | [], q => .ok q
  | s :: ss, q => do
    let q ← apply s q
    applyAll ss q

end

end Step

/-- The finished query. -/
def Query.finish (q : Query) : Except ClientError Query :=
  if q.index = "" then .error .noIndex else .ok q

end SearchClient
