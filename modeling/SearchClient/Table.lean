/-
SearchClient/Table.lean

Tables: lists of pairs ordered by name, each name once.  `put` keeps them so, and replaces what
stood under the name.  A table that is passed on has its order with it (`OrderedTable`).
-/
namespace SearchClient

/-- Pairs of a name and a value. -/
abbrev Table (α : Type) := List (String × α)

namespace Table

variable {α : Type}

/-- Puts a value under a name, in the place of the value that was there. -/
def put (name : String) (value : α) : Table α → Table α
  | [] => [(name, value)]
  | (k, v) :: rest =>
    if name < k then (name, value) :: (k, v) :: rest
    else if name = k then (name, value) :: rest
    else (k, v) :: put name value rest

/-- Puts every pair of a list, the later ones over the earlier. -/
def putAll (table : Table α) (pairs : List (String × α)) : Table α :=
  pairs.foldl (fun t p => t.put p.1 p.2) table

/-- The table of some pairs; of two with one name the last counts. -/
def ofList (pairs : List (String × α)) : Table α := putAll [] pairs

def get? (table : Table α) (name : String) : Option α := table.lookup name

/-! ### Order -/

/-- The names of the table ascend. -/
def Ordered (t : Table α) : Prop := t.Pairwise fun p q => p.1 < q.1

/-- A pair of the new table is the one that was put, or one of the old table. -/
theorem mem_put {t : Table α} {name : String} {v : α} {p : String × α} (h : p ∈ t.put name v) :
    p = (name, v) ∨ p ∈ t := by
  induction t with
  | nil => exact .inl (List.mem_singleton.mp h)
  | cons q t ih =>
    obtain ⟨k, u⟩ := q
    rw [put] at h
    split at h
    · exact List.mem_cons.mp h
    · split at h
      · exact (List.mem_cons.mp h).imp_right (List.mem_cons_of_mem _)
      · rcases List.mem_cons.mp h with rfl | h
        · exact .inr List.mem_cons_self
        · exact (ih h).imp_right (List.mem_cons_of_mem _)

theorem put_ordered {t : Table α} (h : t.Ordered) (name : String) (v : α) :
    (t.put name v).Ordered := by
  induction t with
  | nil => exact List.pairwise_singleton _ _
  | cons p t ih =>
    obtain ⟨k, u⟩ := p
    obtain ⟨hk, ht⟩ := List.pairwise_cons.mp h
    rw [put]
    split
    · next hlt =>
      refine List.pairwise_cons.mpr ⟨fun q hq => ?_, h⟩
      rcases List.mem_cons.mp hq with rfl | hq
      · exact hlt
      · exact String.lt_trans hlt (hk q hq)
    · next hlt =>
      split
      · next heq => exact List.pairwise_cons.mpr ⟨heq ▸ hk, ht⟩
      · next hne =>
        have hgt : k < name := by
          rcases String.le_total k name with hle | hle
          · exact String.not_le.mp fun hle' => hne (String.le_antisymm hle' hle)
          · exact absurd (String.not_le.mp fun hle' => hne (String.le_antisymm hle hle')) hlt
        refine List.pairwise_cons.mpr ⟨fun q hq => ?_, ih ht⟩
        rcases mem_put hq with rfl | hq
        · exact hgt
        · exact hk q hq

theorem putAll_ordered {t : Table α} (h : t.Ordered) (pairs : List (String × α)) :
    (t.putAll pairs).Ordered := by
  induction pairs generalizing t with
  | nil => exact h
  | cons p pairs ih => exact ih (put_ordered h p.1 p.2)

theorem ofList_ordered (pairs : List (String × α)) : (ofList pairs).Ordered :=
  putAll_ordered .nil pairs

end Table

/-- A table that is in order. -/
structure OrderedTable (α : Type) where
  pairs : Table α
  ordered : pairs.Ordered
deriving DecidableEq

namespace OrderedTable

variable {α : Type}

def empty : OrderedTable α := ⟨[], .nil⟩

instance : Inhabited (OrderedTable α) := ⟨empty⟩

/-- The table of some pairs; of two with one name the last counts. -/
def ofList (pairs : List (String × α)) : OrderedTable α :=
  ⟨Table.ofList pairs, Table.ofList_ordered pairs⟩

def get? (t : OrderedTable α) (name : String) : Option α := t.pairs.get? name

/-- Lays a table over another one, name by name. -/
def overlay (lower upper : OrderedTable α) : OrderedTable α :=
  ⟨lower.pairs.putAll upper.pairs, Table.putAll_ordered lower.ordered upper.pairs⟩

end OrderedTable

end SearchClient
