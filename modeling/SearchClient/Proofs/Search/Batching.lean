/-
SearchClient/Proofs/Search/Batching.lean

Batching changes nothing.  An engine is asked for searches one by one, or for several in one call; the
entries of such a call are the same searches with the index written into the body.  `Request.searches`
unrolls a request into what there is to evaluate, and an engine, which may have a state, `Evaluates`
what it is asked: its replies are the answers to the searches of a request, one after the other.

A client that sends its searches together and one that sends them one by one then `Puts` the same
searches to the engine for every step of a query (`Client.dispatch_puts`), so a query runs alike with
either (`Client.search_alike`).

Main result: `Client.search_batching`.
-/
import SearchClient.Proofs.Search.Facets
import SearchClient.Proofs.Wire.Alike

namespace SearchClient

variable {σ τ α β : Type}

/-! ### What there is to evaluate -/

/-- A search as an engine evaluates it: an index, and a body that does not name the index. -/
structure Search where
  index : Option String
  body : Json
deriving DecidableEq

/-- An entry of a call for several searches, with the index taken out of the body. -/
def Search.ofEntry : Json → Search
  | .obj members =>
    { index := match members.lookup "indexUid" with
        | some (.str index) => some index
        | _ => none
      body := .obj (members.filter fun m => m.1 ≠ "indexUid") }
  | entry => ⟨none, entry⟩

/-- The searches that a request asks for, in order. -/
def Request.searches (request : Request) : List Search :=
  match request.endpoint, request.body with
  | .search index, some body => [⟨some index, body⟩]
  | .multiSearch, some body =>
    match body.member? "queries" with
    | some (.arr entries) => entries.map Search.ofEntry
    | _ => []
  | _, _ => []

/-- All searches that were asked for, in order. -/
def World.searches (w : World σ) : List Search :=
  w.history.flatMap fun
    | .sent request => request.searches
    | _ => []

namespace SearchRequest

/-- The request for one search. -/
def alone (index : String) (r : SearchRequest) : Request :=
  { method := .post, endpoint := .search index, body := some r.toJson }

/-- The request for several searches. -/
def together (requests : List SearchRequest) : Request :=
  { method := .post, endpoint := .multiSearch, body := some (MultiSearchRequest.mk requests).toJson }

/-- What an engine evaluates for a request to an index. -/
def search (index : String) (r : SearchRequest) : Search := ⟨some index, r.untagged.toJson⟩

/-- The name of the index is all that an entry has beyond the body of the search alone. -/
theorem ofEntry_forIndex (r : SearchRequest) (index : String) :
    Search.ofEntry (r.forIndex index).toJson = r.search index := by
  -- the members after the name of the index, which both bodies have
  let rest : List (String × Option Json) :=
    [("q", some (.str r.q)), ("filter", listJson r.filter), ("sort", listJson r.sort),
      ("facets", listJson r.facets), ("limit", r.limit.map Json.ofUInt64),
      ("offset", r.offset.map Json.ofUInt64), ("page", r.page.map Json.ofUInt64),
      ("hitsPerPage", r.hitsPerPage.map Json.ofUInt64),
      ("attributesToSearchOn", r.attributes.map Json.texts)]
  let written := rest.filterMap fun m => m.2.map (m.1, ·)
  have hnames : ∀ m ∈ written, m.1 ≠ "indexUid" := by
    intro m hm
    obtain ⟨p, hp, hm⟩ := List.mem_filterMap.mp hm
    obtain ⟨j, -, rfl⟩ := Option.map_eq_some_iff.mp hm
    have hp : p.1 ∈ rest.map Prod.fst := List.mem_map_of_mem hp
    have hdistinct : "indexUid" ∉ rest.map Prod.fst := by
      show "indexUid" ∉ ["q", "filter", "sort", "facets", "limit", "offset", "page", "hitsPerPage",
        "attributesToSearchOn"]
      decide
    exact fun h => hdistinct (h ▸ hp)
  have htagged : (r.forIndex index).toJson = .obj (("indexUid", .str index) :: written) := rfl
  have huntagged : r.untagged.toJson = .obj written := rfl
  have hkept : written.filter (fun m => m.1 ≠ "indexUid") = written :=
    List.filter_eq_self.mpr fun m hm => decide_eq_true (hnames m hm)
  rw [htagged, search, huntagged, Search.ofEntry, List.lookup_cons_self,
    List.filter_cons_of_neg (by simp), hkept]

/-- Together, requests are searches of the indexes that they name. -/
theorem searches_together {ι : Type} (index : ι → String) (request : ι → SearchRequest)
    (items : List ι) :
    (together (items.map fun i => (request i).forIndex (index i))).searches =
      items.map fun i => (request i).search (index i) := by
  show ((items.map fun i => (request i).forIndex (index i)).map toJson).map Search.ofEntry = _
  rw [List.map_map, List.map_map]
  exact List.map_congr_left fun i _ => (request i).ofEntry_forIndex (index i)

end SearchRequest

/-! ### Engines with a state -/

/-- The answer to a search in a state, and the state after it. -/
abbrev Evaluator (τ : Type) := Search → τ → SearchResponse × τ

/-- The answers to searches, one after the other, and the state after them. -/
def Evaluator.all (e : Evaluator τ) : List Search → τ → List SearchResponse × τ
  | [], state => ([], state)
  | search :: searches, state =>
    let (answer, after) := e search state
    let (answers, last) := e.all searches after
    (answer :: answers, last)

theorem Evaluator.length_all (e : Evaluator τ) (searches : List Search) (state : τ) :
    (e.all searches state).1.length = searches.length := by
  induction searches generalizing state with
  | nil => rfl
  | cons search searches ih => simp [Evaluator.all, ih]

/-- Answers as far as a result of a search shows them: all but the name of the index and the words of
the search, which an engine may repeat or leave out. -/
def shown (answers : List SearchResponse) : List SearchResults := answers.map .ofResponse

/-- The transport replies to the request with the answers to its searches, and what there is of the
engine in its state moves on with them. -/
def Transport.Evaluates (t : Transport σ) (view : σ → τ) (e : Evaluator τ) (request : Request)
    (read : Json → Decoded α) (answers : α → List SearchResponse) : Prop :=
  ∀ line, ∃ latency reply line' x, t.Answers request line latency (.ok reply) line' ∧
    reply.isSuccess = true ∧ read reply.body = .ok x ∧
      shown (answers x) = shown (e.all request.searches (view line)).1 ∧
        view line' = (e.all request.searches (view line)).2

/-- The transport evaluates every search, alone and among others. -/
structure EvaluatesSearches (t : Transport σ) (view : σ → τ) (e : Evaluator τ) : Prop where
  alone : ∀ index (r : SearchRequest), r.indexUid = none →
    t.Evaluates view e (r.alone index) SearchResponse.ofJson fun a => [a]
  together : ∀ requests : List SearchRequest, (∀ r ∈ requests, r.indexUid.isSome) →
    t.Evaluates view e (SearchRequest.together requests) MultiSearchResponse.ofJson
      MultiSearchResponse.results

/-! ### What an action asks for -/

/-- In any world the action gives a value, for which it asks for just these searches, and which has the
answers to them. -/
def Action.Puts (view : σ → τ) (e : Evaluator τ) (searches : List Search) (a : Action σ α)
    (answers : α → List SearchResponse) : Prop :=
  ∀ w, a.Ends w fun x w' =>
    shown (answers x) = shown (e.all searches (view w.line)).1 ∧
      view w'.line = (e.all searches (view w.line)).2 ∧ w'.searches = w.searches ++ searches

/-- The engine is in the same state in two worlds, which have come from two others with the same
searches. -/
def World.Level (view : σ → τ) (w₀ v₀ w v : World σ) : Prop :=
  view w.line = view v.line ∧
    ∃ asked, w.searches = w₀.searches ++ asked ∧ v.searches = v₀.searches ++ asked

section Puts

variable {view : σ → τ} {e : Evaluator τ}

/-- Actions that ask for the same searches are alike. -/
theorem Action.Puts.alike {searches : List Search} {a : Action σ α} {b : Action σ β}
    {f : α → List SearchResponse} {g : β → List SearchResponse} {w₀ v₀ : World σ}
    (ha : a.Puts view e searches f) (hb : b.Puts view e searches g) :
    Action.Alike (World.Level view w₀ v₀) (fun x y => shown (f x) = shown (g y)) a b := by
  refine Action.Alike.of_ends fun w v hS => ⟨_, _, ha w, hb v, ?_⟩
  rintro x w' y v' ⟨hx, hw', hasked⟩ ⟨hy, hv', hasked'⟩
  obtain ⟨hview, asked, hw, hv⟩ := hS
  refine ⟨by rw [hx, hy, hview], by rw [hw', hv', hview], asked ++ searches, ?_, ?_⟩
  · rw [hasked, hw, List.append_assoc]
  · rw [hasked', hv, List.append_assoc]

theorem World.searches_exchanged (w : World σ) (request : Request) (answer : Except String Reply)
    (line : σ) (now : Duration) :
    (w.exchanged request answer line now).searches = w.searches ++ request.searches := by
  simp [World.searches, World.exchanged]

theorem World.searches_counted (w : World σ) (m : Metric) :
    (w.counted m).searches = w.searches := by
  simp [World.searches, World.counted]

theorem World.Level.counted {w₀ v₀ w v : World σ} (h : World.Level view w₀ v₀ w v) (m : Metric) :
    World.Level view w₀ v₀ (w.counted m) (v.counted m) := by
  obtain ⟨hview, asked, hw, hv⟩ := h
  exact ⟨hview, asked, by rw [World.searches_counted, hw], by rw [World.searches_counted, hv]⟩

namespace Client

variable {c : Client σ}

theorem call_puts {operation : Operation} {request : Request} {read : Json → Decoded α}
    {answers : α → List SearchResponse}
    (h : c.session.transport.Evaluates view e request read answers) :
    (c.call operation request read).Puts view e request.searches answers := by
  intro w
  obtain ⟨latency, reply, line, x, hanswers, hs, hx, hshown, hview⟩ := h w.line
  exact ⟨x, _, call_run_ok hanswers hs hx, hshown, hview, World.searches_exchanged ..⟩

/-- Searches that are evaluated together have an answer each, which take one request. -/
theorem searchTogether_evaluated {requests : List SearchRequest}
    (h : c.session.transport.Evaluates view e (SearchRequest.together requests)
      MultiSearchResponse.ofJson MultiSearchResponse.results)
    (hone : (SearchRequest.together requests).searches.length = requests.length) (w : World σ) :
    (c.searchTogether requests).Ends w fun answers w' =>
      (shown answers = shown (e.all (SearchRequest.together requests).searches (view w.line)).1 ∧
        view w'.line = (e.all (SearchRequest.together requests).searches (view w.line)).2) ∧
        w'.searches = w.searches ++ (SearchRequest.together requests).searches ∧
        w'.sends = w.sends ++ [SearchRequest.together requests] := by
  obtain ⟨latency, reply, line, m, hanswers, hs, hm, hshown, hview⟩ := h w.line
  have hlength : m.results.length = requests.length := by
    have hsame := congrArg List.length hshown
    simpa [shown, Evaluator.length_all, hone] using hsame
  rw [searchTogether]
  refine .after_run (call_run_ok hanswers hs hm) ?_
  rw [if_neg (not_not_intro hlength)]
  exact Action.ends_pure
    ⟨⟨hshown, hview⟩, World.searches_exchanged .., World.sends_exchanged ..⟩

variable (hc : EvaluatesSearches c.session.transport view e)

include hc

theorem searchOne_puts (index : String) (r : SearchRequest) :
    (c.searchOne index r.untagged).Puts view e [r.search index] fun a => [a] := by
  have hasked : (r.untagged.alone index).searches = [r.search index] := rfl
  rw [← hasked]
  exact call_puts (hc.alone index r.untagged rfl)

/-- One by one, the searches are put to the engine in their order. -/
theorem searchEach_puts (index : String) (requests : List SearchRequest) :
    (requests.mapM fun r => c.searchOne index r.untagged).Puts view e
      (requests.map (SearchRequest.search index)) id := by
  induction requests with
  | nil => exact fun w => Action.ends_pure ⟨rfl, rfl, by simp⟩
  | cons r requests ih =>
    intro w
    rw [List.mapM_cons]
    refine (searchOne_puts hc index r w).bind fun a w₁ h₁ => ?_
    refine (ih w₁).bind fun answers w₂ h₂ => Action.ends_pure ?_
    obtain ⟨ha, hview₁, hasked₁⟩ := h₁
    obtain ⟨hanswers, hview₂, hasked₂⟩ := h₂
    rw [hview₁] at hanswers hview₂
    refine ⟨?_, hview₂, by simp [hasked₂, hasked₁]⟩
    have hanswers : shown answers = _ := hanswers
    show shown [a] ++ shown answers = _
    rw [ha, hanswers]
    rfl

/-- Together, they are put to the engine in their order as well. -/
theorem searchTogether_puts (index : String) (requests : List SearchRequest) :
    (c.searchTogether (requests.map fun r => r.forIndex index)).Puts view e
      (requests.map (SearchRequest.search index)) id := by
  have htagged : ∀ r ∈ requests.map fun r => r.forIndex index, r.indexUid.isSome := by
    intro r hr
    obtain ⟨s, -, rfl⟩ := List.mem_map.mp hr
    rfl
  have hsearches : (SearchRequest.together (requests.map fun r => r.forIndex index)).searches =
      requests.map (SearchRequest.search index) :=
    SearchRequest.searches_together (fun _ => index) id requests
  intro w
  refine (searchTogether_evaluated (hc.together _ htagged) (by rw [hsearches]; simp) w).mono
    fun answers w' h => ?_
  rw [hsearches] at h
  exact ⟨h.1.1, h.1.2, h.2.1⟩

/-- Whichever way the client is set. -/
theorem dispatch_puts (index : String) (requests : List SearchRequest) :
    (c.dispatch index requests).Puts view e (requests.map (SearchRequest.search index)) id := by
  rw [dispatch]
  split
  · exact searchTogether_puts hc index requests
  · exact searchEach_puts hc index requests

end Client

end Puts

/-! ### Results -/

theorem SearchResults.merge_eq (main : SearchResponse) (companions : List SearchResponse) :
    merge main companions =
      (shown companions).foldl (fun r s => r.mergeFacets s.facets) (ofResponse main) := by
  rw [shown, List.foldl_map]
  rfl

theorem Sample.results_eq (probe : SearchResponse) (points : List SearchResponse) (time : UInt64) :
    Sample.results probe points time =
      { hits := (shown points).flatMap SearchResults.hits
        total := (SearchResults.ofResponse probe).total
        processingTime := time } := by
  rw [shown, List.flatMap_map]
  rfl

/-- Answers that show the same took the same time. -/
theorem totalTime_congr : ∀ {answers answers' : List SearchResponse},
    shown answers = shown answers' → totalTime answers = totalTime answers'
  | [], [], _ => rfl
  | a :: answers, a' :: answers', h => by
    obtain ⟨hfirst, hrest⟩ := List.cons.inj h
    have htime : a.processingTime = a'.processingTime := congrArg SearchResults.processingTime hfirst
    rw [totalTime_cons, totalTime_cons, htime, totalTime_congr hrest]

theorem SearchRequest.indexUid_ofQuery (q : Query) (filter : List String) :
    (ofQuery q filter).indexUid = none := by
  unfold ofQuery
  split <;> rfl

/-- The request for the hits does not name the index. -/
theorem SearchPlan.main_untagged {r : ListRendering} {q : Query} {plan : SearchPlan}
    (h : ofQuery r q = .ok plan) : plan.main.untagged = plan.main := by
  obtain ⟨filters, -, h⟩ := bind_eq_ok.mp h
  have hnone : plan.main.indexUid = none := by
    split at h
    · obtain rfl := Except.ok.inj h
      exact SearchRequest.indexUid_ofQuery q filters.texts
    · obtain ⟨companions, -, h⟩ := bind_eq_ok.mp h
      obtain rfl := Except.ok.inj h
      exact SearchRequest.indexUid_ofQuery q filters.texts
  rw [SearchRequest.untagged, ← hnone]

/-! ### One query, batched or not -/

namespace Client

/-- The client with batching on or off. -/
def batching (c : Client σ) (on : Bool) : Client σ :=
  { c with config := { c.config with multiSearch := on } }

variable {c : Client σ} {view : σ → τ} {e : Evaluator τ} {w₀ v₀ : World σ} {on off : Bool}

/-- Searches that come to the same are counted alike. -/
theorem account_alike {kind : SearchKind} {a b : Action σ α}
    (h : Action.Alike (World.Level view w₀ v₀) (· = ·) a b) :
    Action.Alike (World.Level view w₀ v₀) (· = ·) (account kind a) (account kind b) := by
  intro w v hS
  obtain ⟨hends, hS'⟩ := h w v hS
  rw [account_run, account_run, hends.eq]
  refine ⟨(Both.self _).mono fun _ _ h => h.1, ?_⟩
  exact List.foldl_rel hS' fun m _ _ _ hS => hS.counted m

variable (hc : EvaluatesSearches c.session.transport view e)

include hc

theorem searchOne_alike (index : String) {r : SearchRequest} (hr : r.untagged = r) :
    Action.Alike (World.Level view w₀ v₀) (fun a b => SearchResults.ofResponse a = .ofResponse b)
      ((c.batching on).searchOne index r) ((c.batching off).searchOne index r) := by
  have hon := searchOne_puts (c := c.batching on) hc index r
  have hoff := searchOne_puts (c := c.batching off) hc index r
  rw [hr] at hon hoff
  exact (hon.alike hoff).mono fun a b h => List.head_eq_of_cons_eq h

theorem dispatch_alike (index : String) (requests : List SearchRequest) :
    Action.Alike (World.Level view w₀ v₀) (fun as bs => shown as = shown bs)
      ((c.batching on).dispatch index requests) ((c.batching off).dispatch index requests) :=
  (dispatch_puts (c := c.batching on) hc index requests).alike
    (dispatch_puts (c := c.batching off) hc index requests)

theorem runPlan_alike (index : String) {plan : SearchPlan}
    (hmain : plan.main.untagged = plan.main) :
    Action.Alike (World.Level view w₀ v₀) (· = ·)
      ((c.batching on).runPlan index plan) ((c.batching off).runPlan index plan) := by
  unfold runPlan
  split
  · refine (Action.alike_count _ fun _ _ hS => hS.counted _).bind fun _ _ _ => ?_
    refine (dispatch_alike hc index _).bind fun as bs h => ?_
    cases as with
    | nil =>
      obtain rfl : bs = [] := List.map_eq_nil_iff.mp h.symm
      exact Action.alike_ofExcept (x := .error _) (.error _)
    | cons main companions =>
      obtain ⟨main', companions', rfl, hm, hcs⟩ := List.map_eq_cons_iff.mp h.symm
      refine Action.alike_pure ?_
      have hcs : shown companions = shown companions' := hcs.symm
      rw [SearchResults.merge_eq, SearchResults.merge_eq, hm, hcs]
  · exact (searchOne_alike hc index hmain).map fun _ _ h => h

theorem searchInOrder_alike (q : Query) :
    Action.Alike (World.Level view w₀ v₀) (· = ·)
      ((c.batching on).searchInOrder q) ((c.batching off).searchInOrder q) := by
  refine (Action.alike_ofExcept (Both.self _)).bind fun plan plan' h => ?_
  obtain ⟨rfl, hplan⟩ := h
  exact account_alike (runPlan_alike hc q.index (SearchPlan.main_untagged hplan))

theorem sample_alike (q : Query) :
    Action.Alike (World.Level view w₀ v₀) (· = ·)
      ((c.batching on).sample q) ((c.batching off).sample q) := by
  refine (Action.alike_ofExcept (Both.self _)).bind fun filter filter' h => ?_
  obtain ⟨rfl, -⟩ := h
  refine (searchOne_alike hc q.index rfl).bind fun probe probe' hprobe => ?_
  have htotal : probe.total = probe'.total := congrArg (·.total.getD 0) hprobe
  have hdraw : ∀ b, (c.batching b).draw = c.draw := fun _ => rfl
  rw [htotal, hdraw, hdraw]
  refine (Action.alike_ofExcept (Both.self _)).bind fun _ _ _ => ?_
  cases c.draw probe'.total.toNat q.limit.toNat with
  | none => exact Action.alike_stall
  | some offsets =>
    refine (dispatch_alike hc q.index _).bind fun points points' hpoints => ?_
    refine (Action.alike_count _ fun _ _ hS => hS.counted _).bind fun _ _ _ => ?_
    have hpoints : shown points = shown points' := hpoints
    have htime : totalTime (probe :: points) = totalTime (probe' :: points') :=
      totalTime_congr (congrArg₂ List.cons hprobe hpoints)
    rw [sampleTime_eq, sampleTime_eq, htime]
    refine (Action.alike_word _).bind fun time time' h => Action.alike_pure ?_
    rw [Sample.results_eq, Sample.results_eq, hprobe, hpoints, h]

theorem searchAtRandom_alike (q : Query) :
    Action.Alike (World.Level view w₀ v₀) (· = ·)
      ((c.batching on).searchAtRandom q) ((c.batching off).searchAtRandom q) := by
  unfold searchAtRandom
  split
  · exact Action.alike_pure rfl
  · exact account_alike (sample_alike hc q)

theorem search_alike (q : Query) :
    Action.Alike (World.Level view w₀ v₀) (· = ·)
      ((c.batching on).search q) ((c.batching off).search q) := by
  unfold search
  split
  · exact searchAtRandom_alike hc q
  · exact searchInOrder_alike hc q

end Client

/-- From worlds in which the engine is in the same state, the two actions come to the same and ask for
the same searches. -/
def Action.Interchangeable (view : σ → τ) (a b : Action σ α) : Prop :=
  ∀ w v, view w.line = view v.line →
    (a.run.run w).1 = (b.run.run v).1 ∧
      ∃ asked, (a.run.run w).2.searches = w.searches ++ asked ∧
        (b.run.run v).2.searches = v.searches ++ asked

theorem Action.interchangeable_of_alike {view : σ → τ} {a b : Action σ α}
    (h : ∀ w v, Action.Alike (World.Level view w v) (· = ·) a b) :
    Action.Interchangeable view a b := by
  intro w v hview
  obtain ⟨hends, -, hasked⟩ := h w v w v ⟨hview, [], by simp⟩
  exact ⟨hends.eq, hasked⟩

/-- Sending searches together or one by one makes no difference to a query, nor to a sample, nor to what
the engine is asked. -/
theorem Client.search_batching {c : Client σ} {view : σ → τ} {e : Evaluator τ}
    (hc : EvaluatesSearches c.session.transport view e) (q : Query) :
    Action.Interchangeable view ((c.batching true).search q) ((c.batching false).search q) ∧
      Action.Interchangeable view ((c.batching true).searchAtRandom q)
        ((c.batching false).searchAtRandom q) :=
  ⟨Action.interchangeable_of_alike fun _ _ => search_alike hc q,
    Action.interchangeable_of_alike fun _ _ => searchAtRandom_alike hc q⟩

/-! ### Engines without a state

Such an engine is a function of the request, and its transport answers at once.  The name of the index
makes no difference to it. -/

namespace Stateless

variable (respond : SearchRequest → SearchResponse) (body : SearchRequest → Json)

/-- What the engine answers to a body. -/
def answer (search : Search) : SearchResponse :=
  match SearchRequest.ofJson search.body with
  | .ok r => respond r
  | .error _ => default

def evaluator : Evaluator Unit := fun search state => (answer respond search, state)

/-- The transport of the engine. -/
def transport : Transport Unit where
  depart _ _ := (some 0, ())
  arrive request _ :=
    (.ok (match request.endpoint, request.body with
      | .search _, some j =>
        match SearchRequest.ofJson j with
        | .ok r => ⟨200, body r⟩
        | .error _ => ⟨400, .null⟩
      | .multiSearch, some j =>
        match MultiSearchRequest.ofJson j with
        | .ok m => ⟨200, .obj [("results", .arr (m.queries.map body))]⟩
        | .error _ => ⟨400, .null⟩
      | _, _ => ⟨404, .null⟩), ())

theorem answer_toJson (index : Option String) (r : SearchRequest) :
    answer respond ⟨index, r.toJson⟩ = respond r := by
  rw [answer, SearchRequest.ofJson_toJson]

theorem all_evaluator (searches : List Search) :
    (evaluator respond).all searches () = (searches.map (answer respond), ()) := by
  induction searches with
  | nil => rfl
  | cons search searches ih =>
    simp only [Evaluator.all, evaluator] at ih ⊢
    rw [ih, List.map_cons]

/-- If the body of every answer is read back, the transport evaluates searches. -/
theorem evaluates (hbody : ∀ r, SearchResponse.ofJson (body r) = .ok (respond r))
    (hindex : ∀ r index, respond (r.forIndex index) = respond r) :
    EvaluatesSearches (transport body) id (evaluator respond) where
  alone index r _ := by
    intro line
    refine ⟨0, ⟨200, body r⟩, (), respond r, ⟨(), rfl, ?_⟩, rfl, hbody r, ?_, rfl⟩
    · simp only [SearchRequest.alone, transport, SearchRequest.ofJson_toJson]
    · exact congrArg (fun a => shown [a]) (answer_toJson respond (some index) r).symm
  together requests h := by
    intro line
    -- the entries are the requests under their indexes
    have hanswers : (SearchRequest.together requests).searches.map (answer respond) =
        requests.map respond := by
      show ((requests.map SearchRequest.toJson).map Search.ofEntry).map (answer respond) = _
      rw [List.map_map, List.map_map]
      refine List.map_congr_left fun r hr => ?_
      obtain ⟨index, hindexed⟩ := Option.isSome_iff_exists.mp (h r hr)
      have htagged : r = r.untagged.forIndex index := by
        rw [SearchRequest.untagged, SearchRequest.forIndex, ← hindexed]
      show answer respond (Search.ofEntry r.toJson) = _
      rw [htagged, SearchRequest.ofEntry_forIndex, SearchRequest.search, answer_toJson, hindex]
      rfl
    refine ⟨0, ⟨200, .obj [("results", .arr (requests.map body))]⟩, (), _, ⟨(), rfl, ?_⟩, rfl,
      MultiSearchResponse.ofJson_results fun r _ => hbody r, ?_, rfl⟩
    · simp only [SearchRequest.together, transport, MultiSearchRequest.ofJson_toJson]
    · show shown (requests.map respond) = shown ((evaluator respond).all _ ()).1
      rw [all_evaluator, hanswers]

end Stateless

/-! ### A counting engine -/

namespace FilterCount

/-- What the engine answers to a body. -/
def answer (search : Search) : SearchResponse :=
  match SearchRequest.ofJson search.body with
  | .ok r => engine.respond "" r
  | .error _ => default

def evaluator : Evaluator Unit := fun search state => (answer search, state)

theorem evaluates : EvaluatesSearches transport id evaluator :=
  Stateless.evaluates (engine.respond "") body (ofJson_body "") fun _ _ => rfl

/-- The two clients agree on a query with a facet-blind group, and on a sample of its matches. -/
theorem search_batching_blackPhones :
    Action.Interchangeable id ((client true .membership).search blackPhones)
        ((client false .membership).search blackPhones) ∧
      Action.Interchangeable id ((client true .membership).searchAtRandom blackPhones)
        ((client false .membership).searchAtRandom blackPhones) :=
  Client.search_batching (c := client true .membership) evaluates blackPhones

end FilterCount

end SearchClient
