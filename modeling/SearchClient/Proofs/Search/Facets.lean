/-
SearchClient/Proofs/Search/Facets.lean

The facets of a query with facet-blind groups, end to end.  Its plan is known in closed form for a
built query (`SearchPlan.ofQuery_split`): one companion for every column in the filters, each asking
for the facet of that column alone.  Merging lays the companions over the main answer one after the
other, and since no companion has a facet of another column, what comes out for a facet is what its
companion says, or the main answer where there is no companion (`SearchResults.get?_merge`).

Main result: `Client.search_split`.  The search succeeds, and its results are those of
`SplitResults`: the hits under all filters, and every facet counted without the clauses on its own
column.
-/
import SearchClient.Proofs.Filter.Columns
import SearchClient.Proofs.Query.Built
import SearchClient.Proofs.Search.Engine
import SearchClient.Proofs.Search.Merge

namespace SearchClient

/-! ### Plans -/

/-- The filters of well-formed trees. -/
abbrev Query.fullFilters (q : Query) (r : ListRendering) : Filters :=
  .ofPieces (Node.contributions r false q.wheres)

/-- The filters of well-formed trees without the clauses on a column. -/
abbrev Query.filtersWithout (q : Query) (r : ListRendering) (column : String) : Filters :=
  .ofPieces (Node.contributions r false (Node.withoutColumn column q.wheres))

/-- The request for the hits, under some filters.  Facets that only facet-blind groups filter on are
not asked for. -/
def Query.hitsRequest (q : Query) (f : Filters) : SearchRequest :=
  { SearchRequest.ofQuery q f.texts with
    facets := q.facets.filter fun name => !f.columns.blindOnly.contains name }

/-- The request for the counts of a facet, under some filters. -/
def Query.countsRequest (q : Query) (f : Filters) (column : String) : SearchRequest :=
  { SearchRequest.ofFilter q f.texts with sort := q.sort, facets := [column] }.window 0 1

namespace SearchPlan

theorem companion_eq {q : Query} (h : Node.firstMalformedOf? q.wheres = none) (r : ListRendering)
    (column : String) :
    companion r q column =
      .ok ⟨column, q.countsRequest (q.filtersWithout r column) column⟩ := by
  rw [companion, (q.filters_wellFormed h r).2 column]
  rfl

/-- The plan of a query with well-formed trees whose facets are counted apart from its facet-blind
groups. -/
theorem ofQuery_split_wellFormed {q : Query} (h : Node.firstMalformedOf? q.wheres = none)
    (hsplit : q.facetSplit = true) (r : ListRendering) :
    ofQuery r q = .ok
      { main := q.hitsRequest (q.fullFilters r)
        companions := (q.fullFilters r).columns.all.map fun column =>
          ⟨column, q.countsRequest (q.filtersWithout r column) column⟩ } := by
  have hfacets : ∀ filter, (SearchRequest.ofQuery q filter).facets = q.facets := by
    intro filter
    unfold SearchRequest.ofQuery
    split <;> rfl
  rw [ofQuery, (q.filters_wellFormed h r).1, ok_bind, hsplit]
  simp only [Bool.not_true, Bool.false_eq_true, if_false]
  rw [mapM_ok fun column _ => companion_eq h r column, ok_bind, hfacets]
  rfl

/-- The plan of a query with well-formed trees whose facets are counted under all of its filters. -/
theorem ofQuery_whole_wellFormed {q : Query} (h : Node.firstMalformedOf? q.wheres = none)
    (hwhole : q.facetSplit = false) (r : ListRendering) :
    ofQuery r q = .ok { main := .ofQuery q (q.fullFilters r).texts, companions := [] } := by
  rw [ofQuery, (q.filters_wellFormed h r).1, ok_bind, hwhole]
  rfl

/-- A query with well-formed trees has a plan. -/
theorem exists_ofQuery {q : Query} (h : Node.firstMalformedOf? q.wheres = none)
    (r : ListRendering) : ∃ plan, ofQuery r q = .ok plan := by
  cases hsplit : q.facetSplit with
  | true => exact ⟨_, ofQuery_split_wellFormed h hsplit r⟩
  | false => exact ⟨_, ofQuery_whole_wellFormed h hsplit r⟩

/-- The plan of a built query whose facets are counted apart from its facet-blind groups. -/
theorem ofQuery_split {q : Query} (h : q.Built) (hsplit : q.facetSplit = true)
    (r : ListRendering) :
    ofQuery r q = .ok
      { main := q.hitsRequest (q.fullFilters r)
        companions := (q.fullFilters r).columns.all.map fun column =>
          ⟨column, q.countsRequest (q.filtersWithout r column) column⟩ } :=
  ofQuery_split_wellFormed h.wellFormed hsplit r

/-- A query with a malformed leaf has no plan. -/
theorem ofQuery_malformed {q : Query} {l : Leaf} (h : Node.firstMalformedOf? q.wheres = some l)
    (r : ListRendering) : ofQuery r q = .error (.malformedLeaf l) := by
  rw [ofQuery, Query.filters, Filters.compile_full, h]
  rfl

end SearchPlan

theorem Query.hitsRequest_untagged (q : Query) (f : Filters) :
    (q.hitsRequest f).indexUid = none := by
  unfold Query.hitsRequest SearchRequest.ofQuery
  split <;> rfl

/-- The words, the filters and the attributes of the request for the hits. -/
theorem Query.hitsRequest_conditions (q : Query) (f : Filters) :
    (q.hitsRequest f).q = q.search ∧ (q.hitsRequest f).filter = f.texts ∧
      (q.hitsRequest f).attributes = q.attributes := by
  unfold Query.hitsRequest SearchRequest.ofQuery
  split <;> exact ⟨rfl, rfl, rfl⟩

/-- A facet that is not asked apart is asked with the hits. -/
theorem Query.mem_hitsRequest_facets {q : Query} {f : Filters} {name : String}
    (h : name ∉ f.columns.blindOnly) :
    name ∈ (q.hitsRequest f).facets ↔ name ∈ q.facets := by
  simp [Query.hitsRequest, h]

/-- The answer to a request for the counts of a column has the facet of that column alone. -/
theorem SearchResponse.IsFrom.get?_countsRequest {e : SearchEngine} {a : SearchResponse} {q : Query}
    {f : Filters} {column : String} (h : a.IsFrom e q.index (q.countsRequest f column))
    (name : String) :
    a.facet? name =
      if name = column then some (e.counts q.index column q.search f.texts q.attributes)
      else none := by
  rw [facet?, h.facets, e.facets_respond]
  show (if name ∈ [column] then _ else _) = _
  by_cases hname : name = column
  · subst hname
    simp [Query.countsRequest, SearchRequest.ofFilter, SearchRequest.window]
  · simp [hname]

/-! ### Merging -/

/-- Among companions that each have the facet of their own column alone, a column is counted by its
companion. -/
theorem lastFacet?_of_columns (value : String → FacetCounts) {columns : List String}
    {companions : List SearchResponse}
    (h : List.Forall₂ (fun column a => ∀ name,
      a.facet? name = if name = column then some (value column) else none) columns companions)
    (name : String) :
    lastFacet? companions name = if name ∈ columns then some (value name) else none := by
  induction h with
  | nil => simp [lastFacet?]
  | @cons column a columns companions ha _ ih =>
    rw [lastFacet?_cons, ih, ha]
    by_cases hname : name = column
    · subst hname
      by_cases hmem : name ∈ columns <;> simp [hmem]
    · simp [hname]

/-- Companions that each have the facet of their own column alone, merged over a main answer. -/
theorem SearchResults.get?_merge (value : String → FacetCounts) (main : SearchResponse)
    {columns : List String} {companions : List SearchResponse}
    (h : List.Forall₂ (fun column a => ∀ name,
      a.facet? name = if name = column then some (value column) else none) columns companions)
    (name : String) :
    (merge main companions).facets.get? name =
      if name ∈ columns then some (value name) else main.facet? name := by
  rw [facet?_merge, lastFacet?_of_columns value h]
  split
  · rw [Option.some_or]
  · rw [Option.none_or]

/-! ### Running a plan -/

namespace Client

variable {σ : Type} {c : Client σ} {e : SearchEngine}

/-- A plan comes to the answers of its requests, merged. -/
theorem runPlan_ends (hserves : Serves c.session.transport e) (index : String) {plan : SearchPlan}
    (hmain : plan.main.indexUid = none)
    (hcompanions : ∀ p ∈ plan.companions, p.request.indexUid = none) (w : World σ) :
    (c.runPlan index plan).Ends w fun results _ => ∃ main companions,
      results = .merge main companions ∧ main.IsFrom e index plan.main ∧
      List.Forall₂ (fun p a => a.IsFrom e index p.request) plan.companions companions := by
  rw [runPlan]
  split
  · refine (Action.ends_count (P := fun _ _ => True) trivial).bind fun _ w₁ _ => ?_
    refine (dispatch_ends hserves index (plan.main :: plan.companions.map Companion.request)
      ?_ w₁).bind fun answers w₂ hanswers => ?_
    · intro r hr
      rcases List.mem_cons.mp hr with rfl | hr
      · exact hmain
      · obtain ⟨p, hp, rfl⟩ := List.mem_map.mp hr
        exact hcompanions p hp
    · cases hanswers with
      | @cons _ main _ companions hm hc =>
        rw [List.forall₂_map_left_iff] at hc
        exact Action.ends_pure ⟨main, companions, rfl, hm, hc⟩
  · next hsingle =>
    have hnone : plan.companions = [] := by simpa [SearchPlan.isSplit] using hsingle
    obtain ⟨main, w', hrun, hm⟩ := searchOne_ends hserves index hmain w
    refine ⟨.ofResponse main, w', ?_, main, [], rfl, hm, ?_⟩
    · rw [Action.run_map, hrun]
    · rw [hnone]
      exact .nil

/-- A query in order comes to what its plan comes to. -/
theorem searchInOrder_ends {q : Query} {plan : SearchPlan}
    (hplan : SearchPlan.ofQuery c.config.listRendering q = .ok plan) {w : World σ}
    {P : SearchResults → Prop} (h : (c.runPlan q.index plan).Ends w fun results _ => P results) :
    (c.searchInOrder q).Ends w fun results _ => P results := by
  rw [searchInOrder, hplan]
  refine (Action.ends_ofExcept (P := fun p w' => p = plan ∧ w' = w) ⟨rfl, rfl⟩).bind ?_
  rintro _ _ ⟨rfl, rfl⟩
  exact account_ends h

end Client

/-! ### The facet contract -/

/-- The results that a query whose facets are counted apart from its facet-blind groups should have,
where `f` are all its filters. -/
structure SplitResults (e : SearchEngine) (r : ListRendering) (q : Query) (f : Filters)
    (results : SearchResults) : Prop where
  hits : results.hits = (e.respond q.index (q.hitsRequest f)).hits
  pagination : results.pagination = some (e.respond q.index (q.hitsRequest f)).pagination
  total : results.total = some (e.respond q.index (q.hitsRequest f)).total
  /-- The facets are those asked for and the columns in the filters. -/
  names : ∀ name, name ∈ results.facets.pairs.map Prod.fst ↔
    name ∈ q.facets ∨ Node.FilterOn q.wheres name
  /-- A column in the filters is counted without its clauses. -/
  filtered : ∀ column, Node.FilterOn q.wheres column →
    ∃ g, Filters.compile r .full (Node.withoutColumn column q.wheres) = .ok g ∧
      results.facets.get? column =
        some (e.counts q.index column q.search g.texts q.attributes)
  /-- Any other facet is counted under all filters. -/
  requested : ∀ name ∈ q.facets, ¬ Node.FilterOn q.wheres name →
    results.facets.get? name = some (e.counts q.index name q.search f.texts q.attributes)

/-- The answers to the requests of a plan, merged, are what they should be. -/
theorem SplitResults.of_merge {e : SearchEngine} {q : Query} (h : q.Built) (r : ListRendering)
    {main : SearchResponse} {companions : List SearchResponse}
    (hmain : main.IsFrom e q.index (q.hitsRequest (q.fullFilters r)))
    (hcompanions : List.Forall₂ (fun column a =>
        a.IsFrom e q.index (q.countsRequest (q.filtersWithout r column) column))
      (q.fullFilters r).columns.all companions) :
    SplitResults e r q (q.fullFilters r) (.merge main companions) := by
  obtain ⟨hhits, hpagination, htotal⟩ := SearchResults.merge_hits main companions
  obtain ⟨hwords, hfilter, hattributes⟩ := q.hitsRequest_conditions (q.fullFilters r)
  have hmem : ∀ column, column ∈ (q.fullFilters r).columns.all ↔
      Node.FilterOn q.wheres column := fun column => Filters.mem_columns h.wellFormed
  have hblind : ∀ column, column ∈ (q.fullFilters r).columns.blindOnly →
      Node.FilterOn q.wheres column := fun column hb =>
    (hmem column).mp (List.mem_append_right _ hb)
  -- the companions decide on their columns, and the main answer on the rest
  have hget := SearchResults.get?_merge
    (fun column => e.counts q.index column q.search (q.filtersWithout r column).texts q.attributes)
    main (hcompanions.imp fun column a ha => ha.get?_countsRequest)
  have hmainFacets : ∀ name, main.facet? name =
      if name ∈ (q.hitsRequest (q.fullFilters r)).facets then
        some (e.counts q.index name q.search (q.fullFilters r).texts q.attributes)
      else none := by
    intro name
    rw [SearchResponse.facet?, hmain.facets, e.facets_respond, hwords, hfilter, hattributes]
  have hasked : ∀ name, ¬ Node.FilterOn q.wheres name →
      (name ∈ (q.hitsRequest (q.fullFilters r)).facets ↔ name ∈ q.facets) := fun name hname =>
    Query.mem_hitsRequest_facets fun hb => hname (hblind name hb)
  refine ⟨?_, ?_, ?_, fun name => ?_, fun column hcolumn => ?_, fun name hname hnot => ?_⟩
  · rw [hhits, hmain.hits]
  · rw [hpagination, hmain.pagination]
  · rw [htotal, SearchResponse.total, hmain.pagination]
    rfl
  · rw [← Table.isSome_get?]
    show ((SearchResults.merge main companions).facets.get? name).isSome = true ↔ _
    rw [hget, hmainFacets]
    by_cases hfilters : Node.FilterOn q.wheres name
    · simp [hfilters, (hmem name).mpr hfilters]
    · have hout : name ∉ (q.fullFilters r).columns.all := fun hc => hfilters ((hmem name).mp hc)
      by_cases hname : name ∈ q.facets <;>
        simp [hfilters, hout, hasked name hfilters, hname]
  · refine ⟨q.filtersWithout r column, ?_, ?_⟩
    · rw [Filters.compile_full]
      rw [show Node.firstMalformedOf? (Node.withoutColumn column q.wheres) = none from
        Node.firstMalformedOf?_pruneList _ _ h.wellFormed]
    · rw [hget, if_pos ((hmem column).mpr hcolumn)]
  · rw [hget, if_neg fun hc => hnot ((hmem name).mp hc), hmainFacets,
      if_pos ((hasked name hnot).mpr hname)]

/-- **Facets of a split search.**  Against any engine, a built query whose facets are counted apart
from its facet-blind groups, and which is not in random order, succeeds with the hits of all its
filters; the facets are those asked for and the columns in the filters, each column counted without
its own clauses and every other facet under all filters. -/
theorem Client.search_split {σ : Type} {c : Client σ} {e : SearchEngine}
    (hserves : Serves c.session.transport e) {q : Query} (hbuilt : q.Built)
    (hsplit : q.facetSplit = true) (horder : q.randomOrder = false) (w : World σ) :
    ∃ results w' f, (c.search q).run.run w = (.ok results, w') ∧
      Filters.compile c.config.listRendering .full q.wheres = .ok f ∧
      SplitResults e c.config.listRendering q f results := by
  have hends : (c.search q).Ends w fun results _ =>
      SplitResults e c.config.listRendering q (q.fullFilters c.config.listRendering) results := by
    rw [search, horder]
    refine searchInOrder_ends (SearchPlan.ofQuery_split hbuilt hsplit _) ?_
    refine (runPlan_ends hserves q.index (Query.hitsRequest_untagged q _) ?_ w).mono ?_
    · intro p hp
      obtain ⟨column, -, rfl⟩ := List.mem_map.mp hp
      rfl
    · rintro results - ⟨main, companions, rfl, hmain, hcompanions⟩
      rw [List.forall₂_map_left_iff] at hcompanions
      exact .of_merge hbuilt _ hmain hcompanions
  obtain ⟨results, w', hrun, hresults⟩ := hends
  exact ⟨results, w', _, hrun, (hbuilt.filters _).1, hresults⟩

/-! ### Black phones -/

/-- Phones, of which the black ones are shown, with three facets. -/
def blackPhones : Query where
  index := "products"
  wheres := [.leaf { column := "category", operator := .list .isIn, operand := .list [.text "phones"] },
    .group [.leaf { column := "color", operator := .list .isIn, operand := .list [.text "black"] }]
      .and true]
  facets := ["category", "color", "brand"]
  facetSplit := true

/-- How the query is built. -/
def blackPhonesSteps : List Step :=
  [.clause (.list "category" .isIn [.text "phones"]),
   .keepFacets [.list "color" .isIn [.text "black"]],
   .facets ["category", "color", "brand"]]

theorem blackPhones_built : blackPhones.Built := ⟨"products", blackPhonesSteps, _, rfl, rfl⟩

theorem Client.search_split_blackPhones : ∃ results w' f,
    ((FilterCount.client true .membership).search blackPhones).run.run { line := () } =
        (.ok results, w') ∧
      Filters.compile .membership .full blackPhones.wheres = .ok f ∧
      SplitResults FilterCount.engine .membership blackPhones f results :=
  Client.search_split (c := FilterCount.client true .membership) FilterCount.serves
    blackPhones_built rfl rfl _

/-- In random order the same query is a sample, which counts no facets. -/
theorem Client.search_split_not_random : ¬ ∀ q : Query, q.Built → q.facetSplit = true →
    ∃ results w' f,
      ((FilterCount.client true .membership).search q).run.run { line := () } =
          (.ok results, w') ∧
        Filters.compile .membership .full q.wheres = .ok f ∧
        SplitResults FilterCount.engine .membership q f results := by
  intro h
  have hbuilt : Query.Built { blackPhones with limit := 0, randomOrder := true } :=
    ⟨"products", blackPhonesSteps ++ [.random, .limit 0], _, rfl, rfl⟩
  obtain ⟨results, w', f, hrun, -, hresults⟩ := h _ hbuilt rfl
  -- a sample of nothing is no results at all, without a place in the matches
  obtain rfl : ({} : SearchResults) = results := Except.ok.inj (congrArg Prod.fst hrun)
  cases hresults.pagination

end SearchClient
