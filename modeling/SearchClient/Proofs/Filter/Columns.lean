/-
SearchClient/Proofs/Filter/Columns.lean

The columns of filter trees.  `Node.places` lists the leaves of a forest, each with whether it stands
in a facet-blind group, and `Leaf.contributes` says which of them leave something in the filters: all
but those with an empty list.  The columns that compiling records are those of the contributing
places (`Node.seen_contributions`, `Filters.mem_columns`).
-/
import SearchClient.Proofs.Filter.Leaf
import SearchClient.Proofs.Filter.Prune

namespace SearchClient

/-! ### The places of leaves -/

namespace Node

mutual

/-- The leaves of a node, each with whether it stands in a facet-blind group. -/
def places (blind : Bool) : Node → List (Bool × Leaf)
  | .leaf l => [(blind, l)]
  | .group children _ facetBlind => placesList (blind || facetBlind) children

def placesList (blind : Bool) : List Node → List (Bool × Leaf)
  | [] => []
  | n :: ns => places blind n ++ placesList blind ns

end

/-- Some clause of the trees on the column is in the filters. -/
def FilterOn (nodes : List Node) (column : String) : Prop :=
  ∃ p ∈ placesList false nodes, p.2.contributes = true ∧ p.2.column = column

end Node

/-! ### What compiling records -/

theorem Piece.seen_join (pieces : List (Connective × Piece)) :
    (Piece.join pieces).toList.flatMap Piece.seen = pieces.flatMap fun p => p.2.seen := by
  rcases pieces with - | ⟨p, pieces⟩
  · rfl
  · simp [Piece.join]

namespace Node

/-- Compiling sees the columns of the contributing leaves, in order. -/
theorem seen_contributions (r : ListRendering) (blind : Bool) {ns : List Node}
    (h : firstMalformedOf? ns = none) :
    ((contributions r blind ns).flatMap fun p => p.2.seen) =
      ((placesList blind ns).filter fun p => p.2.contributes).map
        fun p => (p.1, p.2.column) := by
  induction ns using forest generalizing blind with
  | nil => rfl
  | leaf l ns ih =>
    obtain ⟨hl, hns⟩ := firstMalformedOf?_leaf.mp h
    have hsome := Leaf.isSome_expr? r hl
    rw [contributions, List.flatMap_append, ih blind hns, contribution, placesList, places,
      List.filter_append, List.map_append]
    congr 1
    rcases he : l.expr? r with - | e
    · rw [he] at hsome
      simp [← hsome]
    · rw [he] at hsome
      simp [← hsome]
  | group children joiner facetBlind ns ihc ih =>
    obtain ⟨hc, hns⟩ := firstMalformedOf?_group.mp h
    have hjoin := Piece.seen_join (contributions r (blind || facetBlind) children)
    rw [contributions, List.flatMap_append, ih blind hns, contribution, placesList, places,
      List.filter_append, List.map_append, ← ihc (blind || facetBlind) hc, ← hjoin]
    congr 1
    rcases Piece.join (contributions r (blind || facetBlind) children) with - | piece
    · rfl
    · simp

end Node

/-! ### Columns -/

namespace Columns

theorem mem_query {seen : List (Bool × String)} {column : String} :
    column ∈ (ofSeen seen).query ↔ (false, column) ∈ seen := by
  simp [ofSeen]

theorem mem_blind {seen : List (Bool × String)} {column : String} :
    column ∈ (ofSeen seen).blind ↔ (true, column) ∈ seen := by
  simp [ofSeen]

theorem mem_blindOnly {seen : List (Bool × String)} {column : String} :
    column ∈ (ofSeen seen).blindOnly ↔ (true, column) ∈ seen ∧ (false, column) ∉ seen := by
  simp [blindOnly, mem_query, mem_blind]

theorem mem_all {seen : List (Bool × String)} {column : String} :
    column ∈ (ofSeen seen).all ↔ ∃ blind, (blind, column) ∈ seen := by
  rw [all, List.mem_append, mem_query, mem_blindOnly, Bool.exists_bool]
  by_cases h : (false, column) ∈ seen <;> simp [h]

end Columns

/-- The columns of the filters are those that the trees filter on. -/
theorem Filters.mem_columns {r : ListRendering} {nodes : List Node}
    (h : Node.firstMalformedOf? nodes = none) {column : String} :
    column ∈ (Filters.ofPieces (Node.contributions r false nodes)).columns.all ↔
      Node.FilterOn nodes column := by
  show column ∈ (Columns.ofSeen _).all ↔ _
  rw [Columns.mem_all, Node.seen_contributions r false h, Node.FilterOn]
  simp only [List.mem_map, List.mem_filter, Prod.mk.injEq]
  constructor
  · rintro ⟨blind, p, ⟨hp, hc⟩, -, rfl⟩
    exact ⟨p, hp, hc, rfl⟩
  · rintro ⟨p, hp, hc, rfl⟩
    exact ⟨p.1, p, ⟨hp, hc⟩, rfl, rfl⟩

end SearchClient
