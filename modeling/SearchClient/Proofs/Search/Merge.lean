/-
SearchClient/Proofs/Search/Merge.lean

The facets of companions, laid over those of a main answer.  Merging goes through the companions in turn and
puts one facet after the other, so nothing in it speaks of the last companion, or of a facet as a whole.  Both
come out of one induction (`SearchResults.facet?_merge`): what the results have under a name is what the last
companion with that name has there, all of it, or else what the main answer has.

The facets of an answer are a table, of which only the lookup counts (`OrderedTable.ext_get?`).  So the order
of companions that share no facet does not matter, and neither does a companion that comes twice in a row.

Main result: `SearchResults.merge_layered`.
-/
import SearchClient.Proofs.Table
import SearchClient.Search.Response

namespace SearchClient

/-! ### The facets of an answer -/

namespace SearchResponse

/-- The counts of a facet, if the answer has it. -/
def facet? (a : SearchResponse) (name : String) : Option FacetCounts := (a.facets.getD .empty).get? name

/-- The answers have no facet in common. -/
def Apart (a b : SearchResponse) : Prop := ∀ name, a.facet? name = none ∨ b.facet? name = none

theorem Apart.symm {a b : SearchResponse} (h : a.Apart b) : b.Apart a := fun name => (h name).symm

end SearchResponse

/-! ### The last companion with a facet -/

/-- The counts of a facet in the last of some answers that has it. -/
def lastFacet? (answers : List SearchResponse) (name : String) : Option FacetCounts :=
  answers.reverse.findSome? fun a => a.facet? name

theorem lastFacet?_append (answers more : List SearchResponse) (name : String) :
    lastFacet? (answers ++ more) name = (lastFacet? more name).or (lastFacet? answers name) := by
  rw [lastFacet?, List.reverse_append, List.findSome?_append]
  rfl

theorem lastFacet?_cons (a : SearchResponse) (answers : List SearchResponse) (name : String) :
    lastFacet? (a :: answers) name = (lastFacet? answers name).or (a.facet? name) := by
  rw [lastFacet?, List.reverse_cons, List.findSome?_append, List.findSome?_singleton]
  rfl

/-- The answer that has the last word on a facet has the facet, and none of those after it does. -/
theorem lastFacet?_eq_some_iff {answers : List SearchResponse} {name : String}
    {counts : FacetCounts} :
    lastFacet? answers name = some counts ↔ ∃ before a after, answers = before ++ a :: after ∧
      a.facet? name = some counts ∧ ∀ b ∈ after, b.facet? name = none := by
  rw [lastFacet?, List.findSome?_eq_some_iff]
  constructor
  · rintro ⟨after, a, before, hanswers, ha, hafter⟩
    refine ⟨before.reverse, a, after.reverse, ?_, ha, ?_⟩
    · rw [← List.reverse_reverse answers, hanswers]
      simp
    · intro b hb
      exact hafter b (List.mem_reverse.mp hb)
  · rintro ⟨before, a, after, rfl, ha, hafter⟩
    refine ⟨after.reverse, a, before.reverse, by simp, ha, ?_⟩
    intro b hb
    exact hafter b (List.mem_reverse.mp hb)

theorem lastFacet?_eq_none_iff {answers : List SearchResponse} {name : String} :
    lastFacet? answers name = none ↔ ∀ a ∈ answers, a.facet? name = none := by
  simp [lastFacet?]

/-- Where no two answers share a facet, whichever has it has the last word on it. -/
theorem lastFacet?_of_apart {answers : List SearchResponse}
    (h : answers.Pairwise SearchResponse.Apart) {name : String} {counts : FacetCounts} :
    lastFacet? answers name = some counts ↔ ∃ a ∈ answers, a.facet? name = some counts := by
  rw [lastFacet?_eq_some_iff]
  constructor
  · rintro ⟨before, a, after, rfl, ha, -⟩
    exact ⟨a, by simp, ha⟩
  · rintro ⟨a, hmem, ha⟩
    obtain ⟨before, after, rfl⟩ := List.append_of_mem hmem
    refine ⟨before, a, after, rfl, ha, ?_⟩
    intro b hb
    have hapart : a.Apart b := (List.pairwise_cons.mp (List.pairwise_append.mp h).2.1).1 b hb
    apply (hapart name).resolve_left
    rw [ha]
    exact Option.some_ne_none counts

theorem lastFacet?_perm {answers others : List SearchResponse} (hperm : answers.Perm others)
    (h : answers.Pairwise SearchResponse.Apart) (name : String) :
    lastFacet? others name = lastFacet? answers name := by
  have hothers : others.Pairwise SearchResponse.Apart :=
    hperm.pairwise h SearchResponse.Apart.symm
  apply Option.ext
  intro counts
  rw [lastFacet?_of_apart hothers, lastFacet?_of_apart h]
  simp only [hperm.mem_iff]

/-! ### Merging -/

/-- What a main answer and its companions come to. -/
structure Layered (main : SearchResponse) (companions : List SearchResponse) (r : SearchResults) :
    Prop where
  hits : r.hits = main.hits
  total : r.total = some main.total
  pagination : r.pagination = some main.pagination
  processingTime : r.processingTime = main.processingTime
  /-- The last companion that has a facet decides on all of its counts. -/
  companion : ∀ before a after name counts, companions = before ++ a :: after →
    a.facet? name = some counts → (∀ b ∈ after, b.facet? name = none) →
    r.facets.get? name = some counts
  /-- A facet that no companion has is left as it was. -/
  rest : ∀ name, (∀ a ∈ companions, a.facet? name = none) →
    r.facets.get? name = main.facet? name

namespace SearchResults

/-- Merging changes nothing but the facets. -/
theorem merge_eq_ofResponse (main : SearchResponse) (companions : List SearchResponse) :
    merge main companions = { ofResponse main with facets := (merge main companions).facets } := by
  have hfold : ∀ r : SearchResults,
      let r' := companions.foldl (fun r a => r.mergeFacets (a.facets.getD .empty)) r
      r' = { r with facets := r'.facets } := by
    induction companions with
    | nil => exact fun r => rfl
    | cons a companions ih => exact fun r => ih (r.mergeFacets (a.facets.getD .empty))
  exact hfold (ofResponse main)

theorem merge_hits (main : SearchResponse) (companions : List SearchResponse) :
    (merge main companions).hits = main.hits ∧
      (merge main companions).pagination = some main.pagination ∧
      (merge main companions).total = some main.total := by
  rw [merge_eq_ofResponse]
  exact ⟨rfl, rfl, rfl⟩

/-- Facet by facet, the results have what the last companion with the facet has, or the main answer. -/
theorem facet?_merge (main : SearchResponse) (companions : List SearchResponse) (name : String) :
    (merge main companions).facets.get? name =
      (lastFacet? companions name).or (main.facet? name) := by
  have hfold : ∀ r : SearchResults,
      (companions.foldl (fun r a => r.mergeFacets (a.facets.getD .empty)) r).facets.get? name =
        (lastFacet? companions name).or (r.facets.get? name) := by
    -- the companions that are still to come are laid over what there is so far
    induction companions with
    | nil => exact fun r => rfl
    | cons a companions ih =>
      intro r
      have hlaid : (r.mergeFacets (a.facets.getD .empty)).facets.get? name =
          (a.facet? name).or (r.facets.get? name) := r.facets.get?_overlay (a.facets.getD .empty) name
      rw [List.foldl_cons, ih, hlaid, lastFacet?_cons, Option.or_assoc]
  exact hfold (ofResponse main)

theorem mergeFacets_mergeFacets (r : SearchResults) (d : FacetDistribution) :
    (r.mergeFacets d).mergeFacets d = r.mergeFacets d := by
  show { r with facets := (r.facets.overlay d).overlay d } = { r with facets := r.facets.overlay d }
  rw [OrderedTable.overlay_overlay]

/-- Two lists of companions that have the same last words come to the same results. -/
theorem merge_congr (main : SearchResponse) {companions others : List SearchResponse}
    (h : ∀ name, lastFacet? others name = lastFacet? companions name) :
    merge main others = merge main companions := by
  have hfacets : (merge main others).facets = (merge main companions).facets := by
    apply OrderedTable.ext_get?
    intro name
    rw [facet?_merge, facet?_merge, h]
  rw [merge_eq_ofResponse main others, hfacets, ← merge_eq_ofResponse]

/-- **The last companion counts.**  Merging keeps everything but the facets of the main answer.  Each facet is
taken as a whole, from the last companion that has it or else from the main answer.  Companions that share no
facet can be merged in any order, a companion that comes twice in a row counts once, and so does a
distribution that is laid over any results twice in a row. -/
theorem merge_layered (main : SearchResponse) (companions : List SearchResponse) :
    Layered main companions (merge main companions) ∧
    (companions.Pairwise SearchResponse.Apart → ∀ others, companions.Perm others →
      merge main others = merge main companions) ∧
    (∀ before a after, companions = before ++ a :: after →
      merge main (before ++ a :: a :: after) = merge main companions) ∧
    ∀ (r : SearchResults) (d : FacetDistribution),
      (r.mergeFacets d).mergeFacets d = r.mergeFacets d := by
  refine ⟨?_, ?_, ?_, mergeFacets_mergeFacets⟩
  · have hsame := merge_eq_ofResponse main companions
    refine ⟨congrArg hits hsame, congrArg total hsame, congrArg pagination hsame,
      congrArg processingTime hsame, ?_, ?_⟩
    · intro before a after name counts hsplit ha hafter
      have hlast : lastFacet? companions name = some counts :=
        lastFacet?_eq_some_iff.mpr ⟨before, a, after, hsplit, ha, hafter⟩
      rw [facet?_merge, hlast, Option.some_or]
    · intro name hnone
      rw [facet?_merge, lastFacet?_eq_none_iff.mpr hnone, Option.none_or]
  · intro hapart others hperm
    exact merge_congr main (lastFacet?_perm hperm hapart)
  · rintro before a after rfl
    apply merge_congr main
    intro name
    have honce : lastFacet? (a :: a :: after) name = lastFacet? (a :: after) name := by
      rw [lastFacet?_cons, lastFacet?_cons, Option.or_assoc, Option.or_self]
    rw [lastFacet?_append, lastFacet?_append, honce]

end SearchResults

/-! ### Phones, counted in three answers -/

namespace ThreeAnswers

/-- An answer without hits. -/
def tally (facets : FacetDistribution) : SearchResponse :=
  { indexUid := none, hits := [], query := "phone", processingTime := 2, facets := some facets,
    pagination := .window 0 20 1 }

/-- The counts of some facets. -/
def counted (facets : List (String × List (String × UInt64))) : SearchResponse :=
  tally (.ofList (facets.map fun f => (f.1, .ofList f.2)))

def black : SearchResponse := counted [("brand", [("acme", 1)]), ("category", [("phones", 1)])]

def categories : SearchResponse := counted [("category", [("phones", 4), ("tablets", 2)])]

def colors : SearchResponse := counted [("color", [("black", 1), ("white", 3)])]

theorem categories_apart_colors : categories.Apart colors := by
  intro name
  by_cases hname : name = "category"
  · rw [hname]
    exact .inr rfl
  · apply Or.inl
    show Table.get? [("category", _)] name = none
    rw [Table.get?_cons, if_neg hname]
    rfl

/-- The categories are those of the companion, with all of their counts and no others. -/
theorem merge_layered_phones :
    [categories, colors].Pairwise SearchResponse.Apart ∧
    [categories, colors].Perm [colors, categories] ∧
    Layered black [categories, colors] (.merge black [categories, colors]) ∧
    SearchResults.merge black [colors, categories] = .merge black [categories, colors] ∧
    SearchResults.merge black [categories, categories, colors] =
      .merge black [categories, colors] := by
  have hapart : [categories, colors].Pairwise SearchResponse.Apart :=
    List.pairwise_pair.mpr categories_apart_colors
  have hswap : [categories, colors].Perm [colors, categories] := .swap colors categories []
  obtain ⟨hlayered, hperm, htwice, -⟩ := SearchResults.merge_layered black [categories, colors]
  exact ⟨hapart, hswap, hlayered, hperm hapart _ hswap, htwice [] categories [colors] rfl⟩

end ThreeAnswers

end SearchClient
