/-
SearchClient/Proofs/Json/Exact.lean

What JSON text keeps of a value.  A number is kept if it is an integer of 64 bits or finite (`Exact`);
of an object the text keeps the members and not their order, so that they come back in the order of their
names (`settled`), and nothing changes if they stood in that order already (`InOrder`).

Decoders of records find members by name.  For them a value in its first order and the settled one are
the same as long as no name comes twice, which `Reorders` says of both at once.
-/
import SearchClient.Json.Decode
import SearchClient.Proofs.Table

namespace SearchClient.Json

/-! ### Exact values -/

/-- The integers that JSON numbers can hold. -/
def FitsWord (i : Int) : Prop := Int64.minValue.toInt ≤ i ∧ i < UInt64.size

mutual

/-- Values of which the text keeps every number. -/
def Exact : Json → Prop
  | .int i => FitsWord i
  | .float x => x.isFinite = true
  | .arr items => ExactItems items
  | .obj members => ExactMembers members
  | _ => True

def ExactItems : List Json → Prop
  | [] => True
  | j :: js => Exact j ∧ ExactItems js

def ExactMembers : List (String × Json) → Prop
  | [] => True
  | (_, j) :: ms => Exact j ∧ ExactMembers ms

end

theorem exactItems_iff {items : List Json} : ExactItems items ↔ ∀ j ∈ items, j.Exact := by
  induction items with
  | nil => simp [ExactItems]
  | cons j items ih => simp [ExactItems, ih]

theorem exactMembers_iff {members : List (String × Json)} :
    ExactMembers members ↔ ∀ m ∈ members, m.2.Exact := by
  induction members with
  | nil => simp [ExactMembers]
  | cons m members ih => simp [ExactMembers, ih]

/-- The values that stand directly in a value. -/
def parts : Json → List Json
  | .arr items => items
  | .obj members => members.map Prod.snd
  | _ => []

theorem Record.field_mem_parts {fields : List String} {j : Json} {r : Record}
    (hr : j.asRecord fields = .ok r) {name : String} {field : Json}
    (hfield : r.field? name = some field) : field ∈ j.parts := by
  have hmem : (name, field) ∈ r.given := Table.mem_of_get? hfield
  unfold asRecord at hr
  split at hr
  · obtain rfl := Except.ok.inj hr
    exact List.mem_map_of_mem hmem
  · split at hr
    · obtain rfl := Except.ok.inj hr
      exact (List.of_mem_zip hmem).2
    · cases hr
  · cases hr

/-! ### Orders of members -/

/-- A rearrangement of the members of objects, at any depth.  A member is found under its name
afterwards if no name was given twice. -/
structure Reorders (f : Json → Json) : Prop where
  null : f .null = .null
  bool : ∀ b, f (.bool b) = .bool b
  int : ∀ i, f (.int i) = .int i
  float : ∀ x, f (.float x) = .float x
  str : ∀ s, f (.str s) = .str s
  arr : ∀ items, f (.arr items) = .arr (items.map f)
  single : ∀ name j, f (.obj [(name, j)]) = .obj [(name, f j)]
  obj : ∀ members, (members.map Prod.fst).Nodup → ∃ members', f (.obj members) = .obj members' ∧
    ∀ name, members'.lookup name = (members.lookup name).map f

theorem reorders_id : Reorders id where
  null := rfl
  bool := fun _ => rfl
  int := fun _ => rfl
  float := fun _ => rfl
  str := fun _ => rfl
  arr := fun items => by rw [List.map_id]; rfl
  single := fun _ _ => rfl
  obj := fun members _ => ⟨members, rfl, fun name => by rw [Option.map_id]; rfl⟩

mutual

/-- A value with the members of its objects in the order of their names. -/
def settled : Json → Json
  | .arr items => .arr (settledItems items)
  | .obj members => .obj (Table.ofList (settledMembers members))
  | j => j

def settledItems : List Json → List Json
  | [] => []
  | j :: js => settled j :: settledItems js

def settledMembers : List (String × Json) → List (String × Json)
  | [] => []
  | (k, j) :: ms => (k, settled j) :: settledMembers ms

end

theorem settledItems_eq (items : List Json) : settledItems items = items.map settled := by
  induction items with
  | nil => rfl
  | cons j items ih => rw [settledItems, ih, List.map_cons]

theorem settledMembers_eq (members : List (String × Json)) :
    settledMembers members = members.map fun m => (m.1, m.2.settled) := by
  induction members with
  | nil => rfl
  | cons m members ih => rw [settledMembers, ih, List.map_cons]

theorem reorders_settled : Reorders settled where
  null := rfl
  bool := fun _ => rfl
  int := fun _ => rfl
  float := fun _ => rfl
  str := fun _ => rfl
  arr := fun items => by rw [settled, settledItems_eq]
  single := fun _ _ => rfl
  obj := fun members hnames => by
    refine ⟨_, rfl, fun name => ?_⟩
    have hnames' : ((settledMembers members).map Prod.fst).Nodup := by
      rw [settledMembers_eq, List.map_map]
      exact hnames
    -- of two members with one name the table has the last, a record the first: here there are no two
    show Table.get? (Table.putAll [] (settledMembers members)) name = _
    rw [Table.get?_putAll, Table.get?_reverse hnames', settledMembers_eq, Table.get?_map]
    exact Option.or_none

/-! ### Values in order -/

mutual

/-- Values with the members of their objects in the order of their names, and no name twice. -/
def InOrder : Json → Prop
  | .arr items => InOrderItems items
  | .obj members => Table.Ordered members ∧ InOrderMembers members
  | _ => True

def InOrderItems : List Json → Prop
  | [] => True
  | j :: js => InOrder j ∧ InOrderItems js

def InOrderMembers : List (String × Json) → Prop
  | [] => True
  | (_, j) :: ms => InOrder j ∧ InOrderMembers ms

end

theorem inOrderItems_iff {items : List Json} : InOrderItems items ↔ ∀ j ∈ items, j.InOrder := by
  induction items with
  | nil => simp [InOrderItems]
  | cons j items ih => simp [InOrderItems, ih]

theorem inOrderMembers_iff {members : List (String × Json)} :
    InOrderMembers members ↔ ∀ m ∈ members, m.2.InOrder := by
  induction members with
  | nil => simp [InOrderMembers]
  | cons m members ih => simp [InOrderMembers, ih]

theorem inOrder_of_mem_parts {j part : Json} (hj : j.InOrder) (hpart : part ∈ j.parts) :
    part.InOrder := by
  cases j with
  | arr items => exact inOrderItems_iff.mp hj _ hpart
  | obj members =>
    obtain ⟨m, hm, rfl⟩ := List.mem_map.mp hpart
    exact inOrderMembers_iff.mp hj.2 m hm
  | null | bool | int | float | str => cases hpart

mutual

/-- A value in order is settled as it is. -/
theorem settled_of_inOrder : ∀ {j : Json}, j.InOrder → j.settled = j
  | .null, _ => rfl
  | .bool _, _ => rfl
  | .int _, _ => rfl
  | .float _, _ => rfl
  | .str _, _ => rfl
  | .arr items, h => by rw [settled, settledItems_of_inOrder h]
  | .obj members, h => by rw [settled, settledMembers_of_inOrder h.2, h.1.ofList_eq]

theorem settledItems_of_inOrder : ∀ {items : List Json}, InOrderItems items →
    settledItems items = items
  | [], _ => rfl
  | _ :: _, h => by rw [settledItems, settled_of_inOrder h.1, settledItems_of_inOrder h.2]

theorem settledMembers_of_inOrder : ∀ {members : List (String × Json)}, InOrderMembers members →
    settledMembers members = members
  | [], _ => rfl
  | (_, _) :: _, h => by rw [settledMembers, settled_of_inOrder h.1, settledMembers_of_inOrder h.2]

end

end SearchClient.Json
