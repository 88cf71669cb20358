/-
SearchClient/Proofs/Search/Engine.lean

Searching against an engine.  A `SearchEngine` is known by its answers: a function of the index and
the request, in which the facets are those that the request names, each with counts that depend on
the words, the filters and the attributes of the request and on nothing else of it.

A transport `Serves` an engine when every search that goes over it comes to an end with the answer of
the engine, up to what no result of a search shows (`SearchResponse.Agrees`), alone as well as among
others in one call.  How long that takes, and what else the transport does, is left open.

Then searches sent together and searches sent one by one give the same (`Client.dispatch_ends`).
-/
import SearchClient.Proofs.Search.Closing
import SearchClient.Proofs.Search.Codec

namespace SearchClient

/-! ### Engines -/

/-- A search engine by its answers. -/
structure SearchEngine where
  respond : (index : String) → SearchRequest → SearchResponse
  /-- The counts of a facet, under words and filters, in some attributes. -/
  counts : (index facet words : String) → (filter : List String) → Option (List String) →
    FacetCounts
  facets_respond : ∀ index r facet, ((respond index r).facets.getD .empty).get? facet =
    if facet ∈ r.facets then some (counts index facet r.q r.filter r.attributes) else none

/-- The answers are the same in their hits, their facets and their paging. -/
structure SearchResponse.Agrees (a b : SearchResponse) : Prop where
  hits : a.hits = b.hits
  facets : a.facets = b.facets
  pagination : a.pagination = b.pagination

/-- Whatever the state of the transport, it replies to the request, and so. -/
def Transport.Replies {σ : Type} (t : Transport σ) (request : Request) (P : Reply → Prop) : Prop :=
  ∀ line, ∃ latency reply line', t.Answers request line latency (.ok reply) line' ∧ P reply

/-- The transport answers searches as the engine does. -/
structure Serves {σ : Type} (t : Transport σ) (e : SearchEngine) : Prop where
  one : ∀ index (r : SearchRequest), r.indexUid = none →
    t.Replies { method := .post, endpoint := .search index, body := some r.toJson } fun reply =>
      reply.isSuccess = true ∧
        ∃ a, SearchResponse.ofJson reply.body = .ok a ∧ a.Agrees (e.respond index r)
  many : ∀ entries : List (String × SearchRequest), (∀ p ∈ entries, p.2.indexUid = none) →
    t.Replies
      { method := .post
        endpoint := .multiSearch
        body := some
          (MultiSearchRequest.mk (entries.map fun p => p.2.forIndex p.1)).toJson } fun reply =>
      reply.isSuccess = true ∧
        ∃ answers, MultiSearchResponse.ofJson reply.body = .ok ⟨answers⟩ ∧
          List.Forall₂ (fun p a => a.Agrees (e.respond p.1 p.2)) entries answers

/-! ### Searches -/

/-- An answer of the engine. -/
def SearchResponse.IsFrom (e : SearchEngine) (index : String) (r : SearchRequest)
    (a : SearchResponse) : Prop :=
  a.Agrees (e.respond index r)

namespace Client

variable {σ : Type} {c : Client σ} {e : SearchEngine}

theorem searchOne_ends (hserves : Serves c.session.transport e) (index : String)
    {r : SearchRequest} (hr : r.indexUid = none) (w : World σ) :
    (c.searchOne index r).Ends w fun a _ => a.IsFrom e index r := by
  obtain ⟨latency, reply, line, hanswers, hs, a, ha, hagrees⟩ := hserves.one index r hr w.line
  exact ⟨a, _, call_run_ok hanswers hs ha, hagrees⟩

theorem searchTogether_ends (hserves : Serves c.session.transport e)
    (entries : List (String × SearchRequest)) (h : ∀ p ∈ entries, p.2.indexUid = none)
    (w : World σ) :
    (c.searchTogether (entries.map fun p => p.2.forIndex p.1)).Ends w fun answers _ =>
      List.Forall₂ (fun p a => a.IsFrom e p.1 p.2) entries answers := by
  obtain ⟨latency, reply, line, hanswers, hs, answers, hbody, hagree⟩ :=
    hserves.many entries h w.line
  have hlength : answers.length = entries.length := hagree.length_eq.symm
  rw [searchTogether]
  refine Action.Ends.bind (P := fun m _ => m = ⟨answers⟩)
    ⟨_, _, call_run_ok hanswers hs hbody, rfl⟩ fun m w' hm => ?_
  subst hm
  rw [if_neg (by simp [hlength])]
  exact Action.ends_pure hagree

/-- Searches of one index come to the answers of the engine, together or one by one. -/
theorem dispatch_ends (hserves : Serves c.session.transport e) (index : String)
    (requests : List SearchRequest) (h : ∀ r ∈ requests, r.indexUid = none) (w : World σ) :
    (c.dispatch index (requests.map fun r => r.forIndex index)).Ends w fun answers _ =>
      List.Forall₂ (fun r a => a.IsFrom e index r) requests answers := by
  have huntag : ∀ r ∈ requests, (r.forIndex index).untagged = r := by
    intro r hr
    have hnone := h r hr
    simp only [SearchRequest.untagged, SearchRequest.forIndex, ← hnone]
  rw [dispatch]
  split
  · -- together, each with the index that it had already
    have htagged : (requests.map fun r => r.forIndex index).map (fun r => r.forIndex index) =
        (requests.map fun r => (index, r)).map fun p => p.2.forIndex p.1 := by
      simp [SearchRequest.forIndex]
    rw [htagged]
    refine (searchTogether_ends hserves (requests.map fun r => (index, r)) ?_ w).mono
      fun answers _ hanswers => ?_
    · intro p hp
      obtain ⟨r, hr, rfl⟩ := List.mem_map.mp hp
      exact h r hr
    · rwa [List.forall₂_map_left_iff] at hanswers
  · next hone =>
    -- one by one, without the index, which is in the path
    refine (Action.ends_mapM (P := fun r a => a.IsFrom e index r.untagged) _
      (fun r _ w' => searchOne_ends hserves index rfl w') w).mono fun answers _ hanswers => ?_
    rw [List.forall₂_map_left_iff] at hanswers
    clear h hone
    induction hanswers with
    | nil => exact .nil
    | @cons r a requests answers hra _ ih =>
      refine .cons ?_ (ih fun r hr => huntag r (by simp [hr]))
      rw [huntag r (by simp)] at hra
      exact hra

end Client

/-! ### A counting engine

An engine without documents that counts, for every facet, the filters that it was counted under.  Its
transport answers at once, and needs no state. -/

namespace FilterCount

def counts (filter : List String) : FacetCounts := .ofList [("filters", .ofNat filter.length)]

/-- The pairs of the facets that a request names. -/
def facetsOf (r : SearchRequest) : FacetDistribution :=
  .ofList (r.facets.map fun facet => (facet, counts r.filter))

theorem get?_facetsOf (r : SearchRequest) (facet : String) :
    (facetsOf r).get? facet = if facet ∈ r.facets then some (counts r.filter) else none := by
  have hlookup : ∀ names : List String,
      Table.get? (names.map fun name => (name, counts r.filter)) facet =
        if facet ∈ names then some (counts r.filter) else none := by
    intro names
    induction names with
    | nil => rfl
    | cons name names ih =>
      rw [List.map_cons, Table.get?_cons, ih]
      by_cases h : facet = name <;> simp [h]
  show (Table.putAll [] _).get? facet = _
  rw [Table.get?_putAll, ← List.map_reverse, hlookup]
  simp [Table.get?]

def engine : SearchEngine where
  respond _ r :=
    { indexUid := none, hits := [], query := "", processingTime := 0,
      facets := some (facetsOf r), pagination := .window 0 0 0 }
  counts _ _ _ filter _ := counts filter
  facets_respond _ r facet := get?_facetsOf r facet

def countsJson (filter : List String) : Json :=
  .obj [("filters", Json.ofUInt64 (.ofNat filter.length))]

def facetsJson (r : SearchRequest) : Json :=
  .obj (r.facets.map fun facet => (facet, countsJson r.filter))

/-- The body of an answer. -/
def body (r : SearchRequest) : Json := .obj [("facetDistribution", facetsJson r)]

theorem ofJson_countsJson (filter : List String) (facet : String) :
    ((facet, ·) <$> OrderedTable.ofList <$> (countsJson filter).asMembers Json.asUInt64 :
      Decoded (String × FacetCounts)) = .ok (facet, counts filter) := by
  rw [countsJson, Json.asMembers, List.mapM_cons, Json.asUInt64_ofUInt64]
  rfl

theorem ofJson_facetsJson (r : SearchRequest) :
    FacetDistribution.ofJson (facetsJson r) = .ok (facetsOf r) := by
  have hitems : FacetDistribution.ofJson (facetsJson r) =
      OrderedTable.ofList <$> r.facets.mapM fun facet =>
        (facet, ·) <$> OrderedTable.ofList <$> (countsJson r.filter).asMembers Json.asUInt64 := by
    rw [FacetDistribution.ofJson, facetsJson, Json.asMembers, List.mapM_map]
    rfl
  rw [hitems, mapM_ok fun facet _ => ofJson_countsJson r.filter facet, ok_map, facetsOf]

theorem ofJson_body (index : String) (r : SearchRequest) :
    SearchResponse.ofJson (body r) = .ok (engine.respond index r) := by
  obtain ⟨record, hrecord⟩ : ∃ record, (body r).asRecord SearchResponse.fields = .ok record :=
    ⟨_, rfl⟩
  have hobj : record.positional = false := by
    obtain rfl := Except.ok.inj hrecord
    rfl
  have hfield : record.optional "facetDistribution" FacetDistribution.ofJson =
      .ok (some (facetsOf r)) := by
    obtain rfl := Except.ok.inj hrecord
    exact Json.Record.optional_eq List.lookup_cons_self (by simp [facetsJson])
      (ofJson_facetsJson r)
  have absent : ∀ name, name ≠ "facetDistribution" → record.field? name = none := by
    intro name hname
    obtain rfl := Except.ok.inj hrecord
    simp [Json.Record.field?, hname]
  have number : ∀ name, name ≠ "facetDistribution" →
      record.nullable name Json.asUInt64 = .ok none :=
    fun name hname => Json.Record.nullable_absent hobj (absent name hname)
  rw [SearchResponse.ofJson, hrecord, ok_bind,
    Json.Record.optional_absent (absent "indexUid" (by decide)), ok_bind,
    Json.Record.orElse_absent (absent "hits" (by decide)), ok_bind,
    Json.Record.orElse_absent (absent "query" (by decide)), ok_bind,
    Json.Record.orElse_absent (absent "processingTimeMs" (by decide)), ok_bind, hfield, ok_bind,
    number "offset" (by decide), ok_bind, number "limit" (by decide), ok_bind,
    number "estimatedTotalHits" (by decide), ok_bind, number "page" (by decide), ok_bind,
    number "hitsPerPage" (by decide), ok_bind, number "totalPages" (by decide), ok_bind,
    number "totalHits" (by decide), ok_bind]
  rfl

/-- The transport of the engine. -/
def transport : Transport Unit where
  depart _ _ := (some 0, ())
  arrive request _ :=
    (.ok (match request.endpoint, request.body with
      | .search _, some j =>
        match SearchRequest.ofJson j with
        | .ok r => ⟨200, body r⟩
        | .error _ => ⟨400, .null⟩
      | .multiSearch, some j =>
        match MultiSearchRequest.ofJson j with
        | .ok m => ⟨200, .obj [("results", .arr (m.queries.map body))]⟩
        | .error _ => ⟨400, .null⟩
      | _, _ => ⟨404, .null⟩), ())

theorem serves : Serves transport engine where
  one index r _ := by
    intro line
    refine ⟨0, ⟨200, body r⟩, (), ⟨(), rfl, ?_⟩, rfl, engine.respond index r,
      ofJson_body index r, ⟨rfl, rfl, rfl⟩⟩
    simp only [transport, SearchRequest.ofJson_toJson]
  many entries _ := by
    intro line
    refine ⟨0, ⟨200, .obj [("results", .arr ((entries.map fun p => p.2.forIndex p.1).map body))]⟩,
      (), ⟨(), rfl, ?_⟩, rfl, _,
      MultiSearchResponse.ofJson_results fun r _ => ofJson_body "" r, ?_⟩
    · simp only [transport, MultiSearchRequest.ofJson_toJson]
    · rw [List.map_map, List.forall₂_map_right_iff]
      exact List.forall₂_same.mpr fun p _ => ⟨rfl, rfl, rfl⟩

/-- A client of the engine. -/
def client (multiSearch : Bool) (listRendering : ListRendering) : Client Unit :=
  { session := { transport, rounds := 1 }
    config := { multiSearch, listRendering } }

end FilterCount

end SearchClient
