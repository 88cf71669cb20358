/-
SearchClient/Proofs/Search/Several.lean

Several queries in one call.  A `Plain` query takes one request, and the plan of the query and the call
for several make the same one, but for the name of the index.  So an engine that evaluates an entry of
such a call like the search alone (`EvaluatesQueries`) gives the queries the same results together as one
by one, each query its own, in their order.

The searches one by one are followed by induction on the queries, with the state of the engine as it is
left by those before (`Client.searchEach_evaluated`).

Main result: `Client.multiSearch_independent`.
-/
import SearchClient.Proofs.Search.Sample

namespace SearchClient

variable {σ τ : Type}

/-! ### Plain queries -/

/-- A built query that takes one request: it is in order, and its facets are counted under all of its
filters. -/
structure Query.Plain (q : Query) : Prop where
  built : q.Built
  ordered : q.randomOrder = false
  whole : q.facetSplit = false

/-- The request for the hits of a query under all of its filters. -/
def Query.plainRequest (r : ListRendering) (q : Query) : SearchRequest :=
  .ofQuery q (q.fullFilters r).texts

theorem SearchPlan.ofQuery_plain {q : Query} (h : q.Plain) (r : ListRendering) :
    SearchPlan.ofQuery r q = .ok { main := q.plainRequest r, companions := [] } :=
  SearchPlan.ofQuery_whole_wellFormed h.built.wellFormed h.whole r

/-- The request of all queries together. -/
def Query.together (r : ListRendering) (qs : List Query) : Request :=
  SearchRequest.together (qs.map fun q => (q.plainRequest r).forIndex q.index)

/-- What an engine evaluates for a query. -/
def Query.asked (r : ListRendering) (q : Query) : Search := (q.plainRequest r).search q.index

/-- The request alone has no name of an index in its body, which is the search itself. -/
theorem Query.alone_searches (r : ListRendering) (q : Query) :
    ((q.plainRequest r).alone q.index).searches = [q.asked r] := by
  have huntagged : (q.plainRequest r).untagged = q.plainRequest r := by
    rw [SearchRequest.untagged, ← SearchRequest.indexUid_ofQuery q (q.fullFilters r).texts]
    rfl
  rw [asked, SearchRequest.search, huntagged]
  rfl

theorem Query.together_searches (r : ListRendering) (qs : List Query) :
    (Query.together r qs).searches = qs.map (Query.asked r) :=
  SearchRequest.searches_together Query.index (Query.plainRequest r) qs

/-- The transport evaluates the requests of some queries, of each alone and of all together. -/
structure EvaluatesQueries (t : Transport σ) (view : σ → τ) (e : Evaluator τ) (r : ListRendering)
    (qs : List Query) : Prop where
  alone : ∀ q ∈ qs, t.Evaluates view e ((q.plainRequest r).alone q.index) SearchResponse.ofJson
    fun a => [a]
  together : qs ≠ [] → t.Evaluates view e (Query.together r qs) MultiSearchResponse.ofJson
    MultiSearchResponse.results

/-- A transport that evaluates every search does so for any queries. -/
theorem EvaluatesSearches.queries {t : Transport σ} {view : σ → τ} {e : Evaluator τ}
    (h : EvaluatesSearches t view e) (r : ListRendering) (qs : List Query) :
    EvaluatesQueries t view e r qs where
  alone q _ := h.alone q.index (q.plainRequest r) (SearchRequest.indexUid_ofQuery q _)
  together _ := h.together _ fun request hrequest => by
    obtain ⟨q, -, rfl⟩ := List.mem_map.mp hrequest
    rfl

/-! ### One by one, and together -/

namespace Client

variable {c : Client σ} {view : σ → τ} {e : Evaluator τ}

/-- A plain query comes to the answer of the engine in its state. -/
theorem search_evaluated {q : Query} (hplain : q.Plain)
    (h : c.session.transport.Evaluates view e
      ((q.plainRequest c.config.listRendering).alone q.index) SearchResponse.ofJson fun a => [a])
    (w : World σ) :
    (c.search q).Ends w fun x w' =>
      x = .ofResponse (e (q.asked c.config.listRendering) (view w.line)).1 ∧
        view w'.line = (e (q.asked c.config.listRendering) (view w.line)).2 := by
  obtain ⟨latency, reply, line, a, hanswers, hs, ha, hshown, hview⟩ := h w.line
  rw [Query.alone_searches] at hshown hview
  obtain ⟨w', hone, hline⟩ : ∃ w', (c.searchOne q.index
      (q.plainRequest c.config.listRendering)).run.run w = (.ok a, w') ∧ w'.line = line :=
    ⟨_, call_run_ok hanswers hs ha, rfl⟩
  have hplan : (c.runPlan q.index ⟨q.plainRequest c.config.listRendering, []⟩).run.run w =
      (.ok (.ofResponse a), w') := by
    rw [runPlan, if_neg (by simp [SearchPlan.isSplit]), Action.run_map, hone]
  rw [search, if_neg (by simp [hplain.ordered]), searchInOrder, SearchPlan.ofQuery_plain hplain]
  refine .after_run (Action.run_ofExcept (.ok _) w) ?_
  exact ⟨_, _, account_run_ok hplan, List.head_eq_of_cons_eq hshown, hline ▸ hview⟩

/-- One by one, the queries come to the answers of the engine in turn, and each of them to its own in
any world in which the engine is as it was for it. -/
theorem searchEach_evaluated {qs : List Query} (hplain : ∀ q ∈ qs, q.Plain)
    (h : ∀ q ∈ qs, c.session.transport.Evaluates view e
      ((q.plainRequest c.config.listRendering).alone q.index) SearchResponse.ofJson fun a => [a])
    (w : World σ) :
    (qs.mapM c.search).Ends w fun xs w' =>
      xs = shown (e.all (qs.map (Query.asked c.config.listRendering)) (view w.line)).1 ∧
        view w'.line = (e.all (qs.map (Query.asked c.config.listRendering)) (view w.line)).2 ∧
        List.Forall₂ (fun q x => ∃ u₀ : World σ, ∀ u : World σ, view u.line = view u₀.line →
          ((c.search q).run.run u).1 = .ok x) qs xs := by
  induction qs generalizing w with
  | nil => exact Action.ends_pure ⟨rfl, rfl, .nil⟩
  | cons q qs ih =>
    have hsearch := search_evaluated (hplain q (by simp)) (h q (by simp))
    rw [List.mapM_cons]
    refine (hsearch w).bind fun x w₁ hx => ?_
    obtain ⟨hx, hview₁⟩ := hx
    refine (ih (fun p hp => hplain p (by simp [hp])) (fun p hp => h p (by simp [hp])) w₁).bind
      fun xs w₂ hxs => Action.ends_pure ?_
    obtain ⟨hxs, hview₂, hall⟩ := hxs
    rw [hview₁] at hxs hview₂
    refine ⟨?_, hview₂, .cons ⟨w, fun u hu => ?_⟩ hall⟩
    · rw [hx, hxs]
      rfl
    · obtain ⟨y, u', hrun, hy, -⟩ := hsearch u
      rw [hrun, hy, hx, hu]

/-- Together, they come to the same, by one request if there are any. -/
theorem multiSearch_evaluated {qs : List Query} (hplain : ∀ q ∈ qs, q.Plain)
    (h : EvaluatesQueries c.session.transport view e c.config.listRendering qs) (w : World σ) :
    (c.multiSearch qs).Ends w fun xs w' =>
      xs = shown (e.all (qs.map (Query.asked c.config.listRendering)) (view w.line)).1 ∧
        w'.sends = w.sends ++
          if qs.isEmpty then [] else [Query.together c.config.listRendering qs] := by
  rw [multiSearch]
  split
  · next hempty =>
    obtain rfl := List.isEmpty_iff.mp hempty
    exact Action.ends_pure ⟨rfl, by simp⟩
  · next hsome =>
    have hne : qs ≠ [] := fun h => hsome (by simp [h])
    have hrequests : qs.mapM (mainRequest c.config.listRendering) =
        .ok (qs.map fun q => (q.plainRequest c.config.listRendering).forIndex q.index) :=
      mapM_ok fun q hq => mainRequest_built (hplain q hq).built _
    have hsearches : (SearchRequest.together (qs.map fun q =>
        (q.plainRequest c.config.listRendering).forIndex q.index)).searches = _ :=
      Query.together_searches c.config.listRendering qs
    rw [hrequests]
    obtain ⟨answers, w₁, hrun, ⟨hshown, -⟩, -, hsends⟩ :=
      searchTogether_evaluated (h.together hne) (by rw [hsearches]; simp) w
    rw [hsearches] at hshown
    refine .after_run (account_run_ok hrun) (Action.ends_pure ?_)
    refine ⟨hshown, ?_⟩
    rw [World.sends_counted, World.sends_counted, hsends]
    rfl

/-- **Queries in one call come to what each comes to alone.**  The results of plain queries, over any
indexes, are those of searching for one after the other from the same state of the engine, in the order
of the queries, and it takes one request, or none if there is no query. -/
theorem multiSearch_independent {qs : List Query} (hplain : ∀ q ∈ qs, q.Plain)
    (h : EvaluatesQueries c.session.transport view e c.config.listRendering qs) {w v : World σ}
    (hlevel : view w.line = view v.line) :
    ∃ results w' v', (c.multiSearch qs).run.run w = (.ok results, w') ∧
      (qs.mapM c.search).run.run v = (.ok results, v') ∧
      List.Forall₂ (fun q x => ∃ u₀ : World σ, ∀ u : World σ, view u.line = view u₀.line →
        ((c.search q).run.run u).1 = .ok x) qs results ∧
      w'.sends = w.sends ++
        if qs.isEmpty then [] else [Query.together c.config.listRendering qs] := by
  obtain ⟨results, w', hmulti, hresults, hsends⟩ := multiSearch_evaluated hplain h w
  obtain ⟨results', v', heach, hresults', -, hall⟩ := searchEach_evaluated hplain h.alone v
  obtain rfl : results = results' := by rw [hresults, hresults', hlevel]
  exact ⟨results, w', v', hmulti, heach, hall, hsends⟩

end Client

/-! ### Engines that are asked in turn

Any evaluator has a transport that passes it the searches of a request, if what it answers can be written
so that it is read back. -/

namespace Evaluator

variable (e : Evaluator τ) (write : SearchResponse → Json)

def transport : Transport τ where
  depart _ state := (some 0, state)
  arrive request state :=
    let (answers, after) := e.all request.searches state
    match request.endpoint with
    | .search _ => (.ok ⟨200, write (answers.headD default)⟩, after)
    | .multiSearch => (.ok ⟨200, .obj [("results", .arr (answers.map write))]⟩, after)
    | _ => (.ok ⟨404, .null⟩, after)

theorem exists_of_mem_all {e : Evaluator τ} {searches : List Search} {state : τ}
    {a : SearchResponse} (h : a ∈ (e.all searches state).1) :
    ∃ search state', a = (e search state').1 := by
  induction searches generalizing state with
  | nil => cases h
  | cons search searches ih =>
    rcases List.mem_cons.mp h with rfl | h
    · exact ⟨search, state, rfl⟩
    · exact ih h

theorem evaluates_transport
    (hread : ∀ search state, SearchResponse.ofJson (write (e search state).1) =
      .ok (e search state).1) :
    EvaluatesSearches (e.transport write) id e where
  alone index r _ := fun state =>
    ⟨0, _, _, _, ⟨state, rfl, rfl⟩, rfl, hread ⟨some index, r.toJson⟩ state, rfl, rfl⟩
  together requests _ := fun state => by
    have hresults : MultiSearchResponse.ofJson (.obj [("results", .arr
        ((e.all (SearchRequest.together requests).searches state).1.map write))]) =
          .ok ⟨(e.all (SearchRequest.together requests).searches state).1.map id⟩ :=
      MultiSearchResponse.ofJson_results fun a ha => by
        obtain ⟨search, state', rfl⟩ := exists_of_mem_all ha
        exact hread search state'
    rw [List.map_id] at hresults
    exact ⟨0, _, _, _, ⟨state, rfl, rfl⟩, rfl, hresults, rfl, rfl⟩

end Evaluator

/-! ### An engine that keeps count -/

/-- The hits tell the index and the body of the search, and how many searches came before. -/
def tally : Evaluator Nat := fun search count =>
  ({ indexUid := search.index
     hits := [Json.orNull .str search.index, search.body, .ofNat count]
     query := ""
     processingTime := 0
     facets := none
     pagination := .window 0 3 0 }, count + 1)

def tallyJson (a : SearchResponse) : Json :=
  .obj [("indexUid", Json.orNull .str a.indexUid), ("hits", .arr a.hits)]

theorem ofJson_tallyJson (search : Search) (count : Nat) :
    SearchResponse.ofJson (tallyJson (tally search count).1) = .ok (tally search count).1 := by
  obtain ⟨index, body⟩ := search
  cases index <;> rfl

def tallyClient : Client Nat where
  session := { transport := tally.transport tallyJson, rounds := 1 }

/-- Phones in a window and books on a page. -/
def phonesAndBooks : List Query :=
  [{ index := "phones", limit := 5, offset := 10 },
    { index := "books", search := "lean", page := some 2, hitsPerPage := some 3 },
    { index := "phones", limit := 5, offset := 10 }]

theorem phonesAndBooks_plain : ∀ q ∈ phonesAndBooks, q.Plain := by
  have hphones : Query.Plain { index := "phones", limit := 5, offset := 10 } :=
    ⟨⟨"phones", [.limit 5, .offset 10], _, rfl, rfl⟩, rfl, rfl⟩
  have hbooks : Query.Plain
      { index := "books", search := "lean", page := some 2, hitsPerPage := some 3 } :=
    ⟨⟨"books", [.search "lean", .page 2, .hitsPerPage 3], _, rfl, rfl⟩, rfl, rfl⟩
  exact List.forall_mem_cons.mpr ⟨hphones, List.forall_mem_cons.mpr ⟨hbooks,
    List.forall_mem_singleton.mpr hphones⟩⟩

theorem Client.multiSearch_independent_phonesAndBooks :
    ∃ results w' v', (tallyClient.multiSearch phonesAndBooks).run.run { line := 4 } =
        (.ok results, w') ∧
      (phonesAndBooks.mapM tallyClient.search).run.run { line := 4, now := 7 } =
        (.ok results, v') ∧
      List.Forall₂ (fun q x => ∃ u₀ : World Nat, ∀ u : World Nat, id u.line = id u₀.line →
        ((tallyClient.search q).run.run u).1 = .ok x) phonesAndBooks results ∧
      w'.sends = [Query.together .membership phonesAndBooks] :=
  Client.multiSearch_independent phonesAndBooks_plain
    ((Evaluator.evaluates_transport tally tallyJson ofJson_tallyJson).queries .membership
      phonesAndBooks) rfl

end SearchClient
