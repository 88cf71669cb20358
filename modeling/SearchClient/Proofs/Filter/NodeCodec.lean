/-
SearchClient/Proofs/Filter/NodeCodec.lean

Filter trees as JSON and back.  What is written says of every value which kind it is: a list is an
array, no value is `null`, an integer is a number without a point, and a finite floating-point number is
one with a point or a power of ten.  So reading takes no value for another one, although the kind is
nowhere written out.

A decoder finds the fields of a leaf or a group by name, and does not see in which order they stand.
A tree may be written with its members as they come, or kept as a value, whose members are in the order
of their names; `Json.Reorders` covers both, and one induction over trees (`Node.ofJson_reordered`) is
enough.

Main result: `Node.json_roundTrip`.
-/
import SearchClient.Filter.Compile
import SearchClient.Filter.NodeJson
import SearchClient.Proofs.Json.Exact
import SearchClient.Proofs.Outcome
import SearchClient.Proofs.Search.Codec

namespace SearchClient

open Number

/-! ### Words -/

theorem Operator.ofJson_toJson (op : Operator) : ofJson op.toJson = .ok op := by
  rcases op with c | t | p
  · cases c <;> rfl
  · cases t <;> rfl
  · cases p <;> rfl

theorem Connective.ofJson_toJson (c : Connective) : ofJson c.toJson = .ok c := by
  cases c <;> rfl

/-! ### Values -/

namespace Scalar

theorem ofJson_toJson (v : Scalar) : ofJson v.toJson = .ok v := by
  cases v with
  | bool b => rfl
  | int i =>
    rw [toJson, ofJson, if_pos ⟨i.minValue_le_toInt, i.toInt_le⟩, Int64.ofInt_toInt]
  | float x => rfl
  | text s => rfl

theorem reordered {f : Json → Json} (hf : Json.Reorders f) (v : Scalar) : f v.toJson = v.toJson := by
  cases v with
  | bool b => exact hf.bool b
  | int i => exact hf.int i.toInt
  | float x => exact hf.float x
  | text s => exact hf.str s

end Scalar

namespace Operand

theorem ofJson_toJson (operand : Operand) : ofJson operand.toJson = .ok operand := by
  cases operand with
  | none => rfl
  | scalar v =>
    -- no single value is written as `null` or as an array
    have hsingle : ofJson v.toJson = scalar <$> Scalar.ofJson v.toJson := by
      cases v with
      | bool b => rfl
      | int i => rfl
      | float x => rfl
      | text s => rfl
    rw [toJson, hsingle, Scalar.ofJson_toJson]
    rfl
  | list vs =>
    show list <$> (Json.arr (vs.map Scalar.toJson)).asList Scalar.ofJson = _
    rw [Json.asList_map Scalar.ofJson_toJson]
    rfl

theorem reordered {f : Json → Json} (hf : Json.Reorders f) (operand : Operand) :
    f operand.toJson = operand.toJson := by
  cases operand with
  | none => exact hf.null
  | scalar v => exact v.reordered hf
  | list vs =>
    rw [toJson, hf.arr, List.map_map]
    congr 1
    apply List.map_congr_left
    intro v _
    exact v.reordered hf

end Operand

/-! ### Leaves -/

namespace Leaf

/-- No infinity and no NaN stands in the leaf. -/
def isFinite (l : Leaf) : Bool := l.operand.values.all Scalar.isFinite

/-- A leaf is read from its members in any order. -/
theorem ofJson_reordered {f : Json → Json} (hf : Json.Reorders f) (l : Leaf) :
    ofJson (f l.toJson) = .ok l := by
  have hnames : (["column", "operator", "value", "connective"] : List String).Nodup := by decide
  obtain ⟨members, hmembers, hlookup⟩ := hf.obj
    [("column", .str l.column), ("operator", l.operator.toJson), ("value", l.operand.toJson),
      ("connective", l.connective.toJson)] hnames
  have hcolumn : Json.Record.field? ⟨members, false⟩ "column" = some (.str l.column) :=
    (hlookup "column").trans (congrArg some (hf.str l.column))
  have hoperator : Json.Record.field? ⟨members, false⟩ "operator" = some l.operator.toJson :=
    (hlookup "operator").trans (congrArg some (hf.str l.operator.text))
  have hoperand : Json.Record.field? ⟨members, false⟩ "value" = some l.operand.toJson :=
    (hlookup "value").trans (congrArg some (l.operand.reordered hf))
  have hconnective : Json.Record.field? ⟨members, false⟩ "connective" = some l.connective.toJson :=
    (hlookup "connective").trans (congrArg some (hf.str l.connective.text))
  have hrecord : (Json.obj members).asRecord ["column", "operator", "value", "connective"] =
      .ok ⟨members, false⟩ := rfl
  have htext : (Json.str l.column).asText = .ok l.column := rfl
  rw [toJson, hmembers, ofJson, hrecord, ok_bind, Json.Record.required_eq hcolumn, htext, ok_bind,
    Json.Record.required_eq hoperator, Operator.ofJson_toJson, ok_bind,
    Json.Record.orElse_present hoperand, Operand.ofJson_toJson, ok_bind,
    Json.Record.orElse_present hconnective, Connective.ofJson_toJson]
  rfl

end Leaf

/-! ### Trees -/

namespace Node

mutual

/-- No infinity and no NaN stands anywhere in the tree. -/
def isFinite : Node → Bool
  | .leaf l => l.isFinite
  | .group children _ _ => areFinite children

def areFinite : List Node → Bool
  | [] => true
  | n :: ns => isFinite n && areFinite ns

end

/-- The children of a group are what stands under their name. -/
theorem ofChildrenMember_eq (members : List (String × Json)) :
    ofChildrenMember members = (match Table.get? members "children" with
      | some j => ofListJson j
      | none => .error (.missing "children")) := by
  induction members with
  | nil => rfl
  | cons m members ih =>
    obtain ⟨k, j⟩ := m
    rw [ofChildrenMember, Table.get?_cons]
    by_cases hk : k = "children"
    · rw [if_pos hk, if_pos hk.symm]
    · rw [if_neg hk, if_neg (Ne.symm hk), ih]

mutual

/-- A tree is read from its members in any order. -/
theorem ofJson_reordered {f : Json → Json} (hf : Json.Reorders f) :
    ∀ n : Node, ofJson (f n.toJson) = .ok n
  | .leaf l => by
    rw [toJson, hf.single, ofJson, if_pos rfl, Leaf.ofJson_reordered hf]
    rfl
  | .group children connective blind => by
    have hnames : (["children", "connective", "metadata_exclude"] : List String).Nodup := by decide
    obtain ⟨members, hmembers, hlookup⟩ := hf.obj
      [("children", .arr (listToJson children)), ("connective", connective.toJson),
        ("metadata_exclude", .bool blind)] hnames
    have hchildren : Table.get? members "children" = some (.arr ((listToJson children).map f)) :=
      (hlookup "children").trans (congrArg some (hf.arr _))
    have hconnective : Json.Record.field? ⟨members, false⟩ "connective" = some connective.toJson :=
      (hlookup "connective").trans (congrArg some (hf.str connective.text))
    have hblind : Json.Record.field? ⟨members, false⟩ "metadata_exclude" = some (.bool blind) :=
      (hlookup "metadata_exclude").trans (congrArg some (hf.bool blind))
    -- the children are under a name of the object, and within the induction
    have hitems := ofItems_reordered hf children
    rw [toJson, hf.single, ofJson, if_neg (by decide), if_pos rfl, hmembers, ofGroupJson,
      ofChildrenMember_eq, hchildren]
    show (ofItems ((listToJson children).map f) >>= groupOf ⟨members, false⟩) = _
    rw [hitems, ok_bind, groupOf, Json.Record.orElse_present hconnective,
      Connective.ofJson_toJson, ok_bind, Json.Record.orElse_present hblind]
    rfl

theorem ofItems_reordered {f : Json → Json} (hf : Json.Reorders f) :
    ∀ ns : List Node, ofItems ((listToJson ns).map f) = .ok ns
  | [] => rfl
  | n :: ns => by
    rw [listToJson, List.map_cons, ofItems, ofJson_reordered hf n, ok_bind,
      ofItems_reordered hf ns]
    rfl

end

/-! ### Round trip -/

theorem ofJson_toJson (n : Node) : ofJson n.toJson = .ok n := ofJson_reordered Json.reorders_id n

/-- A finite tree comes back from its JSON with every value of the kind that it was, whether the members
stand as they were written or in the order of their names.  A tree that was decoded from any value comes
back when it is encoded again, in either order, and so it compiles to the same filters. -/
theorem json_roundTrip :
    (∀ n : Node, n.isFinite = true →
      ofJson n.toJson = .ok n ∧ ofJson n.toJson.settled = .ok n) ∧
    ∀ (j : Json) (n : Node), ofJson j = .ok n →
      ∀ written ∈ [n.toJson, n.toJson.settled], ∃ m, ofJson written = .ok m ∧ m = n ∧
        ∀ r pass, Filters.compile r pass [m] = Filters.compile r pass [n] := by
  have hsettled : ∀ n : Node, ofJson n.toJson.settled = .ok n :=
    ofJson_reordered Json.reorders_settled
  refine ⟨fun n _ => ⟨ofJson_toJson n, hsettled n⟩, ?_⟩
  intro j n _ written hwritten
  have hread : ofJson written = .ok n := by
    simp only [List.mem_cons, List.not_mem_nil, or_false] at hwritten
    rcases hwritten with rfl | rfl
    · exact ofJson_toJson n
    · exact hsettled n
  exact ⟨n, hread, rfl, fun _ _ => rfl⟩

/-- A facet-blind group with an empty group in it, and clauses whose values could be taken for one
another. -/
def lookalikes : Node :=
  .group
    [.leaf ⟨"count", .compare .eq, .scalar (.int 1), .and⟩,
      .leaf ⟨"weight", .compare .eq, .scalar (.float ⟨0x3FF0000000000000⟩), .or⟩,
      .leaf ⟨"least", .compare .ge, .scalar (.int Int64.minValue), .and⟩,
      .leaf ⟨"tags", .list .isIn, .list [], .and⟩,
      .leaf ⟨"flags", .list .notIn, .list [.bool true, .text "true", .text "\"\n\\"], .or⟩,
      .leaf ⟨"note", .presence .isNull, .none, .and⟩,
      .group [] .or false]
    .and true

theorem json_roundTrip_lookalikes :
    (lookalikes.isFinite = true ∧ ofJson lookalikes.toJson = .ok lookalikes ∧
      ofJson lookalikes.toJson.settled = .ok lookalikes) ∧
    (ofJson (.obj [("Group", .arr [.arr []])]) = .ok (.group [] .and false) ∧
      ∃ m, ofJson (toJson (.group [] .and false)) = .ok m ∧ m = .group [] .and false ∧
        ∀ r pass, Filters.compile r pass [m] = Filters.compile r pass [.group [] .and false]) := by
  have hfinite : lookalikes.isFinite = true := by decide
  have hgroup : ofJson (.obj [("Group", .arr [.arr []])]) = .ok (.group [] .and false) := rfl
  exact ⟨⟨hfinite, json_roundTrip.1 lookalikes hfinite⟩,
    ⟨hgroup, json_roundTrip.2 _ _ hgroup _ List.mem_cons_self⟩⟩

end Node

end SearchClient
