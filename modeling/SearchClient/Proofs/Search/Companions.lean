/-
SearchClient/Proofs/Search/Companions.lean

Which companions a plan has.  Compiling sees the columns of the contributing leaves one after the other,
and keeps each of them once, where it was first seen (`FirstSeen`), apart for leaves inside and outside
facet-blind groups (`Columns.Of`).  A plan has one companion for every column that was kept, in the same
order, and each asks for the facet of its column alone; so a facet that the caller asks for is counted by
the main request or by one companion, and only a facet that facet-blind groups alone filter on is left
out of the main request (`SearchPlan.Shaped`).

Main result: `SearchPlan.ofQuery_shaped`.
-/
import SearchClient.Proofs.Search.Facets
import Mathlib.Data.List.Induction
import Mathlib.Data.List.Nodup

namespace SearchClient

/-! ### First seen -/

section

variable {α : Type} [DecidableEq α]

/-- The items that were seen, once each, in the order in which they were first seen. -/
structure FirstSeen (seen items : List α) : Prop where
  nodup : items.Nodup
  mem : ∀ x, x ∈ items ↔ x ∈ seen
  order : items.Pairwise fun x y => seen.idxOf x < seen.idxOf y

theorem eraseDups_concat (seen : List α) (x : α) :
    (seen ++ [x]).eraseDups = if x ∈ seen then seen.eraseDups else seen.eraseDups ++ [x] := by
  rw [List.eraseDups_append]
  by_cases h : x ∈ seen <;> simp [List.removeAll, List.eraseDups_cons, h]

/-- One item more is a new one, or was seen before. -/
theorem FirstSeen.concat {seen items : List α} (h : FirstSeen seen items) (x : α) :
    FirstSeen (seen ++ [x]) (if x ∈ seen then items else items ++ [x]) := by
  -- what was seen before keeps its place, and the new item comes after all of it
  have hbefore : ∀ y ∈ items, (seen ++ [x]).idxOf y = seen.idxOf y := fun y hy =>
    List.idxOf_append_of_mem ((h.mem y).mp hy)
  have horder : items.Pairwise fun y z => (seen ++ [x]).idxOf y < (seen ++ [x]).idxOf z := by
    refine h.order.imp_of_mem fun {y z} hy hz hlt => ?_
    rwa [hbefore y hy, hbefore z hz]
  split
  · next hx =>
    refine ⟨h.nodup, fun y => ?_, horder⟩
    rw [h.mem, List.mem_append, List.mem_singleton]
    exact ⟨.inl, fun hy => hy.elim id fun hy => hy ▸ hx⟩
  · next hx =>
    have hnew : x ∉ items := fun hmem => hx ((h.mem x).mp hmem)
    refine ⟨?_, fun y => ?_, ?_⟩
    · refine List.nodup_append.mpr ⟨h.nodup, List.pairwise_singleton _ _, fun y hy z hz => ?_⟩
      obtain rfl := List.mem_singleton.mp hz
      rintro rfl
      exact hnew hy
    · rw [List.mem_append, List.mem_append, h.mem]
    · refine List.pairwise_append.mpr ⟨horder, List.pairwise_singleton _ _, fun y hy z hz => ?_⟩
      obtain rfl := List.mem_singleton.mp hz
      rw [hbefore y hy, List.idxOf_append_of_notMem hx]
      have hlt := List.idxOf_lt_length_iff.mpr ((h.mem y).mp hy)
      omega

theorem firstSeen_eraseDups (seen : List α) : FirstSeen seen seen.eraseDups := by
  induction seen using List.reverseRecOn with
  | nil => exact ⟨.nil, fun _ => .rfl, .nil⟩
  | append_singleton seen x ih =>
    rw [eraseDups_concat]
    exact ih.concat x

end

/-! ### Columns -/

/-- The columns of the contributing leaves, from left to right, inside facet-blind groups or outside. -/
def Node.columnsAt (blind : Bool) (nodes : List Node) : List String :=
  ((placesList false nodes).filter fun p => p.1 = blind && p.2.contributes).map fun p => p.2.column

/-- The columns of some trees, as compiling records them. -/
structure Columns.Of (nodes : List Node) (c : Columns) : Prop where
  query : FirstSeen (Node.columnsAt false nodes) c.query
  blind : FirstSeen (Node.columnsAt true nodes) c.blind
  all_nodup : c.all.Nodup
  query_prefix : c.query <+: c.all
  mem_all : ∀ column, column ∈ c.all ↔ column ∈ c.query ∨ column ∈ c.blind
  blindOnly_sublist : c.blindOnly.Sublist c.blind
  mem_blindOnly : ∀ column, column ∈ c.blindOnly ↔ column ∈ c.blind ∧ column ∉ c.query

theorem Columns.ofSeen_query (seen : List (Bool × String)) :
    FirstSeen ((seen.filter fun s => s.1 = false).map Prod.snd) (ofSeen seen).query := by
  have hside : (seen.filter fun s => !s.1) = seen.filter fun s => s.1 = false :=
    List.filter_congr fun s _ => by cases s.1 <;> rfl
  rw [ofSeen, hside]
  exact firstSeen_eraseDups _

theorem Columns.ofSeen_blind (seen : List (Bool × String)) :
    FirstSeen ((seen.filter fun s => s.1 = true).map Prod.snd) (ofSeen seen).blind := by
  have hside : seen.filter Prod.fst = seen.filter fun s => s.1 = true :=
    List.filter_congr fun s _ => by cases s.1 <;> rfl
  rw [ofSeen, hside]
  exact firstSeen_eraseDups _

/-- Whatever was kept on both sides, the columns together are those of either side, once each. -/
theorem Columns.of_firstSeen {nodes : List Node} {c : Columns}
    (hquery : FirstSeen (Node.columnsAt false nodes) c.query)
    (hblind : FirstSeen (Node.columnsAt true nodes) c.blind) : c.Of nodes := by
  have hmem : ∀ column, column ∈ c.blindOnly ↔ column ∈ c.blind ∧ column ∉ c.query := fun column => by
    simp [blindOnly]
  refine ⟨hquery, hblind, ?_, List.prefix_append _ _, fun column => ?_, ?_, hmem⟩
  · refine List.nodup_append.mpr ⟨hquery.nodup, hblind.nodup.filter _, fun x hx y hy => ?_⟩
    rintro rfl
    exact ((hmem x).mp hy).2 hx
  · rw [all, List.mem_append, hmem]
    by_cases h : column ∈ c.query <;> simp [h]
  · exact List.filter_sublist

/-- Compiling records the columns of the trees. -/
theorem Filters.columns_of {r : ListRendering} {nodes : List Node} {f : Filters}
    (h : Filters.compile r .full nodes = .ok f) : f.columns.Of nodes := by
  rw [compile_full] at h
  rcases hbad : Node.firstMalformedOf? nodes with - | l
  · rw [hbad] at h
    obtain rfl := Except.ok.inj h
    have hseen := Node.seen_contributions r false hbad
    have hside : ∀ blind, (((Node.contributions r false nodes).flatMap fun p => p.2.seen).filter
        fun s => s.1 = blind).map Prod.snd = Node.columnsAt blind nodes := by
      intro blind
      rw [hseen, List.filter_map, List.map_map, List.filter_filter]
      rfl
    refine Columns.of_firstSeen ?_ ?_
    · rw [← hside]
      exact Columns.ofSeen_query _
    · rw [← hside]
      exact Columns.ofSeen_blind _
  · rw [hbad] at h
    cases h

/-! ### Plans -/

/-- How a plan of a query should look, where `c` are the columns in its filters. -/
structure SearchPlan.Shaped (q : Query) (c : Columns) (plan : SearchPlan) : Prop where
  /-- There is a companion for every column, in order. -/
  columns : plan.companions.map Companion.column = c.all
  /-- Each asks for the facet of its column alone. -/
  facets : ∀ k ∈ plan.companions, k.request.facets = [k.column]
  /-- All requests go to one index, the main one first. -/
  tagged : ∀ index, ∀ p ∈ plan.requestsFor index, p.indexUid = some index
  requests : ∀ index, (plan.requestsFor index).map SearchRequest.untagged =
    plan.main :: plan.companions.map Companion.request
  /-- A facet that the caller asks for is asked for by the main request or by one companion. -/
  asked : ∀ name ∈ q.facets, name ∈ plan.main.facets ∨
    plan.companions.countP (fun k => k.request.facets.contains name) = 1
  /-- The main request leaves out what facet-blind groups alone filter on. -/
  hits : ∀ name ∈ q.facets, name ∈ plan.main.facets ↔ name ∉ c.blindOnly

/-- The requests of a plan are its own, but for the index. -/
theorem SearchPlan.untagged_requestsFor {plan : SearchPlan} (hmain : plan.main.indexUid = none)
    (hcompanions : ∀ k ∈ plan.companions, k.request.indexUid = none) (index : String) :
    (plan.requestsFor index).map SearchRequest.untagged =
      plan.main :: plan.companions.map Companion.request := by
  have huntag : ∀ p ∈ plan.main :: plan.companions.map Companion.request,
      (p.forIndex index).untagged = p := by
    intro p hp
    have hnone : p.indexUid = none := by
      rcases List.mem_cons.mp hp with rfl | hp
      · exact hmain
      · obtain ⟨k, hk, rfl⟩ := List.mem_map.mp hp
        exact hcompanions k hk
    simp only [SearchRequest.untagged, SearchRequest.forIndex, ← hnone]
  rw [requestsFor, List.map_map]
  exact (List.map_congr_left huntag).trans (List.map_id _)

/-- A column that was kept is asked for by one companion. -/
theorem Columns.Of.countP_companions {nodes : List Node} {c : Columns} (h : c.Of nodes)
    {companions : List Companion} (hcolumns : companions.map Companion.column = c.all)
    (hfacets : ∀ k ∈ companions, k.request.facets = [k.column]) {column : String}
    (hcolumn : column ∈ c.all) :
    companions.countP (fun k => k.request.facets.contains column) = 1 := by
  have hasks : companions.countP (fun k => k.request.facets.contains column) =
      (companions.map Companion.column).count column := by
    rw [List.count, List.countP_map]
    refine List.countP_congr fun k hk => ?_
    rw [hfacets k hk, Function.comp_apply, beq_iff_eq, List.contains_iff_mem, List.mem_singleton]
    exact eq_comm
  rw [hasks, hcolumns]
  exact List.nodup_iff_count_eq_one.mp h.all_nodup column hcolumn

/-- The plan of a query with well-formed trees. -/
theorem SearchPlan.shaped_of_wellFormed {q : Query} (h : Node.firstMalformedOf? q.wheres = none)
    (hsplit : q.facetSplit = true) (r : ListRendering) :
    ∃ plan, ofQuery r q = .ok plan ∧ plan.Shaped q (q.fullFilters r).columns := by
  have hcompanions : ∀ k ∈ (q.fullFilters r).columns.all.map fun column => Companion.mk column
      (q.countsRequest (q.filtersWithout r column) column),
      k.request.facets = [k.column] ∧ k.request.indexUid = none := by
    intro k hk
    obtain ⟨column, -, rfl⟩ := List.mem_map.mp hk
    exact ⟨rfl, rfl⟩
  have hcolumns : ((q.fullFilters r).columns.all.map fun column => Companion.mk column
      (q.countsRequest (q.filtersWithout r column) column)).map Companion.column =
      (q.fullFilters r).columns.all := by
    rw [List.map_map]
    exact List.map_id _
  have hhits : ∀ name ∈ q.facets, name ∈ (q.hitsRequest (q.fullFilters r)).facets ↔
      name ∉ (q.fullFilters r).columns.blindOnly := fun name hname => by
    simp [Query.hitsRequest, hname]
  refine ⟨_, ofQuery_split_wellFormed h hsplit r, hcolumns, fun k hk => (hcompanions k hk).1, ?_,
    untagged_requestsFor (q.hitsRequest_untagged _) fun k hk => (hcompanions k hk).2, ?_, hhits⟩
  · intro index p hp
    obtain ⟨s, -, rfl⟩ := List.mem_map.mp hp
    rfl
  · intro name hname
    by_cases hblind : name ∈ (q.fullFilters r).columns.blindOnly
    · -- left out of the main request, but among the columns
      have hof : (q.fullFilters r).columns.Of q.wheres :=
        Filters.columns_of (q.filters_wellFormed h r).1
      refine .inr (hof.countP_companions hcolumns (fun k hk => (hcompanions k hk).1) ?_)
      exact List.mem_append_right _ hblind
    · exact .inl ((hhits name hname).mpr hblind)

/-- **Columns and companions.**  Compiling records the columns of the contributing leaves, each once and
where it was first seen, apart for leaves inside and outside facet-blind groups.  A query whose facets
are counted apart from its facet-blind groups fails at its first malformed leaf, or it has a plan with
one companion for every column, in order, in which every facet is asked for. -/
theorem SearchPlan.ofQuery_shaped (r : ListRendering) :
    (∀ nodes f, Filters.compile r .full nodes = .ok f → f.columns.Of nodes) ∧
    ∀ q : Query, q.facetSplit = true →
      (∃ l, Node.firstMalformedOf? q.wheres = some l ∧
        SearchPlan.ofQuery r q = .error (.malformedLeaf l)) ∨
      ∃ f plan, Filters.compile r .full q.wheres = .ok f ∧ SearchPlan.ofQuery r q = .ok plan ∧
        plan.Shaped q f.columns := by
  refine ⟨fun nodes f => Filters.columns_of, fun q hsplit => ?_⟩
  rcases hbad : Node.firstMalformedOf? q.wheres with - | l
  · obtain ⟨plan, hplan, hshaped⟩ := shaped_of_wellFormed hbad hsplit r
    exact .inr ⟨_, plan, (q.filters_wellFormed hbad r).1, hplan, hshaped⟩
  · exact .inl ⟨l, rfl, ofQuery_malformed hbad r⟩

/-- Phones of a brand, which is named inside a facet-blind group as well as after it. -/
def brandedPhones : Query where
  index := "products"
  wheres :=
    [.group
      [.leaf { column := "color", operator := .list .isIn, operand := .list [.text "black"] },
       .group [.leaf { column := "brand", operator := .compare .eq, operand := .scalar (.text "acme") }]
         .and false]
      .and true,
     .leaf { column := "brand", operator := .compare .eq, operand := .scalar (.text "acme") },
     .leaf { column := "size", operator := .list .isIn, operand := .list [] },
     .leaf { column := "category", operator := .list .isIn, operand := .list [.text "phones"] },
     .leaf { column := "brand", operator := .presence .isNotNull }]
  facets := ["category", "color", "size"]
  facetSplit := true

theorem SearchPlan.ofQuery_shaped_brandedPhones : ∃ f plan,
    Filters.compile .orChain .full brandedPhones.wheres = .ok f ∧
      f.columns = { query := ["brand", "category"], blind := ["color", "brand"] } ∧
      f.columns.Of brandedPhones.wheres ∧
      SearchPlan.ofQuery .orChain brandedPhones = .ok plan ∧
      plan.Shaped brandedPhones f.columns := by
  obtain ⟨hcolumns, hplans⟩ := SearchPlan.ofQuery_shaped .orChain
  rcases hplans brandedPhones rfl with ⟨l, hbad, -⟩ | ⟨f, plan, hcompile, hplan, hshaped⟩
  · cases hbad
  · refine ⟨f, plan, hcompile, ?_, hcolumns _ f hcompile, hplan, hshaped⟩
    have hf : (Filters.compile .orChain .full brandedPhones.wheres).toOption.map Filters.columns =
        some { query := ["brand", "category"], blind := ["color", "brand"] } := by
      decide +kernel
    rw [hcompile] at hf
    exact Option.some.inj hf

end SearchClient
