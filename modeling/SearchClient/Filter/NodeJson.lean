/-
SearchClient/Filter/NodeJson.lean

Filter trees as JSON.  A node is an object with one member, `Leaf` or `Group`, and the members of
a written node stand in a fixed order.  A value is written bare: a list, a single value or
`null`.  When it is read, a whole number that fits 64 bits with a sign is an integer, and every
other number is a floating-point number.
-/
import SearchClient.Filter.Node

namespace SearchClient

/-! ### Values -/

namespace Scalar

def toJson : Scalar → Json
  | .bool b => .bool b
  | .int i => .int i.toInt
  | .float x => .float x
  | .text s => .str s

def ofJson : Json → Decoded Scalar
  | .bool b => .ok (.bool b)
  | .int i =>
    if Int64.minValue.toInt ≤ i ∧ i ≤ Int64.maxValue.toInt then .ok (.int (.ofInt i))
    else .ok (.float (.ofInt i))
  | .float x => .ok (.float x)
  | .str s => .ok (.text s)
  | _ => .error (.expected "a filter value")

end Scalar

namespace Operand

def toJson : Operand → Json
  | .none => .null
  | .scalar v => v.toJson
  | .list vs => .arr (vs.map Scalar.toJson)

def ofJson : Json → Decoded Operand
  | .null => .ok .none
  | .arr items => .list <$> items.mapM Scalar.ofJson
  | j => .scalar <$> Scalar.ofJson j

end Operand

/-! ### Nodes -/

namespace Leaf

def toJson (l : Leaf) : Json :=
  .obj [("column", .str l.column), ("operator", l.operator.toJson),
    ("value", l.operand.toJson), ("connective", l.connective.toJson)]

def ofJson (j : Json) : Decoded Leaf := do
  let r ← j.asRecord ["column", "operator", "value", "connective"]
  let column ← r.required "column" Json.asText
  let operator ← r.required "operator" Operator.ofJson
  let operand ← r.orElse "value" .none Operand.ofJson
  let connective ← r.orElse "connective" .and Connective.ofJson
  .ok { column, operator, operand, connective }

end Leaf

namespace Node

mutual

def toJson : Node → Json
  | .leaf l => .obj [("Leaf", l.toJson)]
  | .group children connective facetBlind =>
    .obj [("Group", .obj [("children", .arr (listToJson children)),
      ("connective", connective.toJson), ("metadata_exclude", .bool facetBlind)])]

def listToJson : List Node → List Json
  | [] => []
  | n :: ns => toJson n :: listToJson ns

end

/-- The group of children that have been read, with the fields beside them. -/
def groupOf (r : Json.Record) (children : List Node) : Decoded Node := do
  let connective ← r.orElse "connective" .and Connective.ofJson
  let facetBlind ← r.orElse "metadata_exclude" false Json.asBool
  .ok (.group children connective facetBlind)

def groupFields : List String := ["children", "connective", "metadata_exclude"]

mutual

/-- A node with `Leaf` or `Group` as its only member. -/
def ofJson : Json → Decoded Node
  | .obj [(kind, body)] =>
    if kind = "Leaf" then .leaf <$> Leaf.ofJson body
    else if kind = "Group" then ofGroupJson body
    else .error (.unknownName kind)
  | _ => .error (.expected "a node")

/-- The body of a group: an object, or an array that starts with the children. -/
def ofGroupJson : Json → Decoded Node
  | .obj members => do
    groupOf ⟨members, false⟩ (← ofChildrenMember members)
  | .arr items => do
    let children ← ofChildrenItem items
    groupOf (← (Json.arr items).asRecord groupFields) children
  | _ => .error (.expected "an object")

/-- The children, found under their name. -/
def ofChildrenMember : List (String × Json) → Decoded (List Node)
  | [] => .error (.missing "children")
  | (name, j) :: rest => if name = "children" then ofListJson j else ofChildrenMember rest

/-- The children, found in the first place. -/
def ofChildrenItem : List Json → Decoded (List Node)
  | [] => .error (.missing "children")
  | j :: _ => ofListJson j

def ofListJson : Json → Decoded (List Node)
  | .arr items => ofItems items
  | _ => .error (.expected "an array")

def ofItems : List Json → Decoded (List Node)
  | [] => .ok []
  | j :: js => do
    let n ← ofJson j
    let ns ← ofItems js
    .ok (n :: ns)

end

end Node

end SearchClient
