/-
SearchClient/Proofs/Search/Paging.lean

One way of paging for every search.  A request has fields for a window of the hits and for a page of them,
and it has a paging if both fields of the one are set and none of the other (`SearchRequest.paging?`).
Choosing one way clears the other, so whatever a request had before, the last choice decides
(`SearchRequest.paging?_adjust`).

What reaches the transport is read back from the bodies of the requests (`Request.decoded`).  These are the
searches that were planned, in their order, whichever way they are sent (`Dispatched.asks`); so it is
enough to know the paging of each where it is made.

Main result: `Client.searches_paged`.
-/
import SearchClient.Proofs.Search.Course
import SearchClient.Proofs.Search.Several

namespace SearchClient

variable {σ α : Type}

/-! ### Pagings -/

/-- A window of the hits, or a page of them. -/
inductive Paging where
  | window (offset limit : UInt64)
  | page (number perPage : UInt64)
deriving DecidableEq

/-- What a query asks for: its page, if it has one. -/
def Query.paging (q : Query) : Paging :=
  match q.page with
  | some number => .page number (q.hitsPerPage.getD q.limit)
  | none => .window q.offset q.limit

namespace SearchRequest

/-- The paging of a request that has both fields of one and none of the other. -/
def paging? (r : SearchRequest) : Option Paging :=
  match r.offset, r.limit, r.page, r.hitsPerPage with
  | some offset, some limit, none, none => some (.window offset limit)
  | none, none, some number, some perPage => some (.page number perPage)
  | _, _, _, _ => none

/-- The request for the hits of a query has the paging of the query. -/
theorem paging?_ofQuery (q : Query) (filter : List String) :
    (ofQuery q filter).paging? = some q.paging := by
  rw [Query.paging, ofQuery]
  cases q.page with
  | none => rfl
  | some number => rfl

/-! ### Adjustments -/

/-- The request without its paging and the name of the index. -/
def matter (r : SearchRequest) : SearchRequest :=
  { r with indexUid := none, limit := none, offset := none, page := none, hitsPerPage := none }

/-- A step that chooses the paging of a request, or names the index. -/
inductive Adjustment where
  | window (offset limit : UInt64)
  | paged (number perPage : UInt64)
  | forIndex (index : String)

def Adjustment.apply (r : SearchRequest) : Adjustment → SearchRequest
  | .window offset limit => r.window offset limit
  | .paged number perPage => r.paged number perPage
  | .forIndex index => r.forIndex index

/-- What a step chooses. -/
def Adjustment.paging? : Adjustment → Option Paging
  | .window offset limit => some (.window offset limit)
  | .paged number perPage => some (.page number perPage)
  | .forIndex _ => none

/-- The request after some steps. -/
def adjust (r : SearchRequest) (steps : List Adjustment) : SearchRequest :=
  steps.foldl Adjustment.apply r

/-- A step that chooses decides, and one that does not choose leaves the paging alone. -/
theorem paging?_apply (r : SearchRequest) (step : Adjustment) :
    (step.apply r).paging? = step.paging?.or r.paging? := by
  cases step with
  | window offset limit => rfl
  | paged number perPage => rfl
  | forIndex index => rfl

/-- The last step that chooses decides. -/
theorem paging?_adjust (r : SearchRequest) (steps : List Adjustment) :
    (r.adjust steps).paging? = (steps.filterMap Adjustment.paging?).getLast?.or r.paging? := by
  induction steps generalizing r with
  | nil => rfl
  | cons step steps ih =>
    have hchosen : (step :: steps).filterMap Adjustment.paging? =
        step.paging?.toList ++ steps.filterMap Adjustment.paging? := by
      rw [List.filterMap_cons]
      cases step.paging? <;> rfl
    have hlast : step.paging?.toList.getLast? = step.paging? := by
      cases step.paging? <;> rfl
    calc (r.adjust (step :: steps)).paging?
        = ((step.apply r).adjust steps).paging? := rfl
      _ = (steps.filterMap Adjustment.paging?).getLast?.or (step.apply r).paging? := ih _
      _ = (steps.filterMap Adjustment.paging?).getLast?.or (step.paging?.or r.paging?) := by
          rw [paging?_apply]
      _ = ((step :: steps).filterMap Adjustment.paging?).getLast?.or r.paging? := by
          rw [hchosen, List.getLast?_append, hlast, Option.or_assoc]

/-- A request with all four fields has no paging until one is chosen. -/
example :
    let r : SearchRequest := { limit := some 1, offset := some 2, page := some 3, hitsPerPage := some 4 }
    (r.adjust [.forIndex "phones"]).paging? = none ∧
      (r.adjust [.window 5 6, .paged 0 7, .forIndex "phones"]).paging? = some (.page 0 7) := by
  decide

/-- No step changes anything else. -/
theorem matter_adjust (r : SearchRequest) (steps : List Adjustment) :
    (r.adjust steps).matter = r.matter := by
  induction steps generalizing r with
  | nil => rfl
  | cons step steps ih =>
    have hstep : (step.apply r).matter = r.matter := by
      cases step <;> rfl
    show ((step.apply r).adjust steps).matter = r.matter
    rw [ih, hstep]

end SearchRequest

/-! ### What reaches the transport -/

/-- The searches that a request carries, read back from its body. -/
def Request.decoded (request : Request) : List SearchRequest :=
  match request.endpoint, request.body with
  | .search _, some body => (SearchRequest.ofJson body).toOption.toList
  | .multiSearch, some body =>
    ((MultiSearchRequest.ofJson body).toOption.map MultiSearchRequest.queries).getD []
  | _, _ => []

theorem SearchRequest.decoded_alone (r : SearchRequest) (index : String) :
    (r.alone index).decoded = [r] := by
  show (SearchRequest.ofJson r.toJson).toOption.toList = [r]
  rw [SearchRequest.ofJson_toJson]
  rfl

theorem SearchRequest.decoded_together (requests : List SearchRequest) :
    (SearchRequest.together requests).decoded = requests := by
  show ((MultiSearchRequest.ofJson (MultiSearchRequest.mk requests).toJson).toOption.map
    MultiSearchRequest.queries).getD [] = requests
  rw [MultiSearchRequest.ofJson_toJson]
  rfl

/-- A search without the name of the index, and its paging. -/
def SearchRequest.posed (r : SearchRequest) : SearchRequest × Option Paging := (r.untagged, r.paging?)

/-- The searches that some requests carry, with their pagings. -/
def posed (sent : List Request) : List (SearchRequest × Option Paging) :=
  (sent.flatMap Request.decoded).map SearchRequest.posed

theorem posed_append (sent more : List Request) : posed (sent ++ more) = posed sent ++ posed more := by
  rw [posed, List.flatMap_append, List.map_append]
  rfl

/-- The requests carry the first of some searches, in their order and each with its paging, and all of
them if they are complete. -/
structure Asks (searches : List (SearchRequest × Paging)) (complete : Prop) (sent : List Request) :
    Prop where
  /-- Every request can be read back. -/
  decoded : ∀ request ∈ sent, request.decoded ≠ []
  first : posed sent <+: searches.map fun s => (s.1, some s.2)
  all : complete → posed sent = searches.map fun s => (s.1, some s.2)

section Asks

variable {searches : List (SearchRequest × Paging)} {complete : Prop} {sent : List Request}

theorem Asks.mono {complete' : Prop} (h : Asks searches complete sent)
    (hcomplete : complete' → complete) : Asks searches complete' sent where
  decoded := h.decoded
  first := h.first
  all := fun hc => h.all (hcomplete hc)

theorem asks_nil (hincomplete : ¬ complete) : Asks searches complete [] where
  decoded := by simp
  first := List.nil_prefix
  all := fun hc => absurd hc hincomplete

/-- One search alone, and then others. -/
theorem Asks.cons (h : Asks searches complete sent) {r : SearchRequest} {p : Paging} (index : String)
    (hr : r.posed = (r, some p)) : Asks ((r, p) :: searches) complete (r.alone index :: sent) := by
  have hposed : posed (r.alone index :: sent) = (r, some p) :: posed sent := by
    rw [posed, List.flatMap_cons, r.decoded_alone, List.singleton_append, List.map_cons, hr]
    rfl
  refine ⟨?_, ?_, ?_⟩
  · intro request hrequest
    rcases List.mem_cons.mp hrequest with rfl | hrequest
    · rw [r.decoded_alone]
      exact List.cons_ne_nil r []
    · exact h.decoded request hrequest
  · rw [hposed]
    exact List.cons_prefix_cons.mpr ⟨rfl, h.first⟩
  · intro hc
    rw [hposed, h.all hc]
    rfl

theorem asks_together {requests : List SearchRequest} (hsome : requests ≠ [])
    (hposed : requests.map SearchRequest.posed = searches.map fun s => (s.1, some s.2)) :
    Asks searches complete [SearchRequest.together requests] := by
  have hall : posed [SearchRequest.together requests] = searches.map fun s => (s.1, some s.2) := by
    rw [posed, List.flatMap_singleton, SearchRequest.decoded_together, hposed]
  refine ⟨?_, ?_, ?_⟩
  · intro request hrequest
    obtain rfl := List.mem_singleton.mp hrequest
    rwa [SearchRequest.decoded_together]
  · rw [hall]
  · intro _
    exact hall

/-- Whichever way the searches are sent. -/
theorem Dispatched.asks {index : String} {requests : List SearchRequest} {together : Bool}
    {answers : List (Request × Except String Reply)} {result : Except Stop (List SearchResponse)}
    (h : Dispatched index requests together sent answers result)
    (hsome : together = true → requests ≠ [])
    (hposed : requests.map SearchRequest.posed = searches.map fun s => (s.1, some s.2)) :
    Asks searches (result.isOk = true) sent := by
  cases h with
  | together final =>
    apply asks_together
    · intro hnone
      exact hsome rfl (List.map_eq_nil_iff.mp hnone)
    · rw [← hposed, List.map_map]
      rfl
  | inTurn h =>
    have hall : posed (requests.map fun r => r.untagged.alone index) =
        searches.map fun s => (s.1, some s.2) := by
      rw [← hposed, posed, List.flatMap_map]
      simp only [SearchRequest.decoded_alone]
      rw [← List.map_eq_flatMap, List.map_map]
      rfl
    obtain ⟨rest, hrest⟩ := h.sent_prefix
    refine ⟨?_, ?_, ?_⟩
    · intro request hrequest
      have hmem : request ∈ requests.map fun r => r.untagged.alone index :=
        hrest ▸ List.mem_append_left rest hrequest
      obtain ⟨r, -, rfl⟩ := List.mem_map.mp hmem
      rw [SearchRequest.decoded_alone]
      exact List.cons_ne_nil _ _
    · rw [← hall, ← hrest, posed_append]
      exact List.prefix_append _ _
    · intro hok
      cases result with
      | error stop => cases hok
      | ok responses => rw [(h.of_ok rfl).1, hall]

end Asks

/-! ### The sites -/

/-- The searches of a plan: the main one with a paging, and the companions, which are for one hit. -/
def SearchPlan.paged (plan : SearchPlan) (p : Paging) : List (SearchRequest × Paging) :=
  (plan.main, p) :: plan.companions.map fun k => (k.request, .window 0 1)

/-- The main request has the paging of the query, and every companion is for one hit. -/
theorem SearchPlan.posed_of_ofQuery {r : ListRendering} {q : Query} {plan : SearchPlan}
    (h : ofQuery r q = .ok plan) : plan.main.posed = (plan.main, some q.paging) ∧
      ∀ k ∈ plan.companions, k.request.posed = (k.request, some (.window 0 1)) := by
  have hmain : plan.main.paging? = some q.paging := by
    obtain ⟨filters, -, h⟩ := bind_eq_ok.mp h
    split at h
    · obtain rfl := Except.ok.inj h
      exact SearchRequest.paging?_ofQuery q filters.texts
    · obtain ⟨companions, -, h⟩ := bind_eq_ok.mp h
      obtain rfl := Except.ok.inj h
      exact SearchRequest.paging?_ofQuery q filters.texts
  refine ⟨Prod.ext (main_untagged h) hmain, ?_⟩
  intro k hk
  obtain ⟨filters, -, h⟩ := bind_eq_ok.mp h
  split at h
  · obtain rfl := Except.ok.inj h
    cases hk
  · obtain ⟨companions, hcompanions, h⟩ := bind_eq_ok.mp h
    obtain rfl := Except.ok.inj h
    obtain ⟨column, -, hcompanion⟩ := mem_of_mapM_eq_ok hcompanions hk
    obtain ⟨filters', -, hk⟩ := bind_eq_ok.mp hcompanion
    obtain rfl := Except.ok.inj hk
    rfl

/-- A plan asks for its searches, whatever it comes to. -/
theorem Planned.asks {c : Client σ} {index : String} {plan : SearchPlan}
    {result : Except Stop SearchResults} {events : List Event} {r : ListRendering} {q : Query}
    (h : Planned c index plan result events) (hplan : SearchPlan.ofQuery r q = .ok plan) :
    Asks (plan.paged q.paging) (result.isOk = true) (events.filterMap Event.sent?) := by
  obtain ⟨hmain, hcompanions⟩ := SearchPlan.posed_of_ofQuery hplan
  have hposed : (plan.requestsFor index).map SearchRequest.posed =
      (plan.paged q.paging).map fun s => (s.1, some s.2) := by
    have hindex : ∀ s : SearchRequest, (s.forIndex index).posed = s.posed := fun _ => rfl
    rw [SearchPlan.requestsFor, SearchPlan.paged, List.map_map, List.map_cons, List.map_cons,
      List.map_map, List.map_map]
    congr 1
    apply List.map_congr_left
    intro k hk
    exact hcompanions k hk
  cases h with
  | @run sent answers outcome _ events htells hdispatched hmerged =>
    have hsent : (plan.announced ++ events).filterMap Event.sent? = sent :=
      (plan.tells_announced.append htells).sent
    rw [hsent]
    refine (hdispatched.asks (fun _ => List.cons_ne_nil _ _) hposed).mono ?_
    intro hok
    cases hmerged with
    | ok _ => rfl
    | error _ => cases hok

/-- The searches of a sample: the probe for one page, and a window of one hit at each offset. -/
def Query.sampled (q : Query) (filter : List String) (offsets : List Nat) :
    List (SearchRequest × Paging) :=
  (Sample.probe q filter, .page 1 1) :: offsets.map fun offset =>
    ((SearchRequest.ofFilter q filter).window (.ofNat offset) 1, .window (.ofNat offset) 1)

theorem Sampling.asks {c : Client σ} {q : Query} {filter : List String} {sent : List Request}
    {answers : List (Request × Except String Reply)} {accounts : List Metric}
    {result : Except Stop SearchResults}
    (h : Sampling c q filter sent answers accounts result) :
    ∃ offsets, Asks (q.sampled filter offsets) (result.isOk = true) sent := by
  have hprobe : (Sample.probe q filter).posed = (Sample.probe q filter, some (.page 1 1)) := rfl
  cases h with
  | unprobed => exact ⟨[], (asks_nil Bool.false_ne_true).cons q.index hprobe⟩
  | undrawn => exact ⟨[], (asks_nil Bool.false_ne_true).cons q.index hprobe⟩
  | @drawn _ probe offsets sent answers outcome _ _ _ hdispatched =>
    have hpoints : (Sample.points q filter offsets).map SearchRequest.posed =
        (offsets.map fun offset => ((SearchRequest.ofFilter q filter).window (.ofNat offset) 1,
          Paging.window (.ofNat offset) 1)).map fun s => (s.1, some s.2) := by
      rw [Sample.points, List.map_map, List.map_map]
      rfl
    refine ⟨offsets, ((hdispatched.asks ?_ hpoints).cons q.index hprobe).mono ?_⟩
    · rintro hseveral hnone
      obtain rfl : offsets = [] := List.map_eq_nil_iff.mp hnone
      simp at hseveral
    · intro hok
      cases outcome with
      | error stop => cases hok
      | ok responses => rfl

namespace Client

variable (c : Client σ)

/-- What is counted at the end is no request. -/
theorem sent_closing (kind : SearchKind) (result : Except Stop α) (before : List Event) :
    (before ++ (closing kind result).map Event.counted).filterMap Event.sent? =
      before.filterMap Event.sent? := by
  rw [List.filterMap_append, (tells_closing kind result).sent, List.append_nil]

/-- **Every search has one paging.**  The requests of a built query, of a page of it, of a sample, and of
several queries in one call, carry the searches that are made for them, in their order, and each has both
fields of one way of paging and none of the other: the main request has the page of its query, if it has
one, and else the window of it; the probe of a sample is for a page; companions and points are for a window.
Of any steps that adjust a request, whatever fields it had, the last one that chooses a paging decides, and
nothing else is changed but the name of the index. -/
theorem searches_paged (w : World σ) :
    (∀ q : Query, q.Built →
      (q.randomOrder = false → ∃ plan, SearchPlan.ofQuery c.config.listRendering q = .ok plan ∧
        (c.search q).Records w fun result events _ =>
          Asks (plan.paged q.paging) (result.isOk = true) (events.filterMap Event.sent?)) ∧
      (q.randomOrder = true → c.search q = c.searchAtRandom q) ∧
      (q.limit = 0 → (c.searchAtRandom q).run.run w = (.ok {}, w)) ∧
      (q.limit ≠ 0 → (c.searchAtRandom q).Records w fun result events _ => ∃ offsets,
        Asks (q.sampled (q.fullFilters c.config.listRendering).texts offsets) (result.isOk = true)
          (events.filterMap Event.sent?)) ∧
      ∀ number perPage, ∃ plan,
        SearchPlan.ofQuery c.config.listRendering (q.onPage (max number 1) perPage) = .ok plan ∧
        (c.paginate q number perPage).Records w fun result events _ =>
          Asks (plan.paged (.page (max number 1) perPage)) (result.isOk = true)
            (events.filterMap Event.sent?)) ∧
    (∀ qs : List Query, (∀ q ∈ qs, q.Built) → (c.multiSearch qs).Records w fun result events _ =>
      Asks (qs.map fun q =>
          (SearchRequest.ofQuery q (q.fullFilters c.config.listRendering).texts, q.paging))
        (result.isOk = true) (events.filterMap Event.sent?)) ∧
    ∀ (r : SearchRequest) (steps : List SearchRequest.Adjustment),
      (r.adjust steps).paging? =
          (steps.filterMap SearchRequest.Adjustment.paging?).getLast?.or r.paging? ∧
        (r.adjust steps).matter = r.matter := by
  refine ⟨?_, ?_, ?_⟩
  · intro q hbuilt
    refine ⟨?_, ?_, ?_, ?_, ?_⟩
    · intro horder
      obtain ⟨plan, hplan, hsearch⟩ := c.search_planned hbuilt horder w
      refine ⟨plan, hplan, hsearch.mono ?_⟩
      rintro result events - - ⟨before, hplanned, rfl⟩
      rw [sent_closing]
      exact hplanned.asks hplan
    · intro horder
      rw [search, if_pos horder]
    · intro hnone
      rw [searchAtRandom, if_pos hnone]
      rfl
    · intro hsome
      refine (c.searchAtRandom_sampling hbuilt hsome w).mono ?_
      rintro result events - - ⟨before, ⟨sent, answers, accounts, htells, hsampling⟩, rfl⟩
      rw [sent_closing, htells.sent]
      exact hsampling.asks
    · intro number perPage
      obtain ⟨plan, hplan, hpage⟩ := c.paginate_planned hbuilt number perPage w
      refine ⟨plan, hplan, hpage.mono ?_⟩
      rintro result events - - ⟨results, page, before, hplanned, rfl, rfl⟩
      rw [sent_closing]
      refine (hplanned.asks hplan).mono ?_
      intro hok
      cases results with
      | error stop => cases hok
      | ok results => rfl
  · intro qs hbuilt
    by_cases hnone : qs = []
    · subst hnone
      exact Action.records_pure ⟨by simp, List.prefix_rfl, fun _ => rfl⟩
    · refine (c.multiSearch_tells hnone hbuilt w).mono ?_
      rintro result events - - ⟨before, answers, htells, -, rfl⟩
      rw [sent_closing, htells.sent]
      apply asks_together
      · intro hempty
        exact hnone (List.map_eq_nil_iff.mp hempty)
      · rw [List.map_map, List.map_map]
        apply List.map_congr_left
        intro q _
        apply Prod.ext
        · show (SearchRequest.ofQuery q _).untagged = SearchRequest.ofQuery q _
          rw [SearchRequest.untagged, ← SearchRequest.indexUid_ofQuery q]
        · exact SearchRequest.paging?_ofQuery q _
  · intro r steps
    exact ⟨r.paging?_adjust steps, r.matter_adjust steps⟩

/-- Black phones have no page and take a window; a sample of two phones is probed by a page; and of
queries in one call, the one with a page is asked by it. -/
theorem searches_paged_blackPhones :
    (∃ plan, SearchPlan.ofQuery .membership blackPhones = .ok plan ∧
      ((FilterCount.client false .membership).search blackPhones).Records { line := () }
        fun result events _ =>
          Asks (plan.paged (.window 0 20)) (result.isOk = true) (events.filterMap Event.sent?)) ∧
    (((OneList.client [.int 1, .int 2, .int 3] 0 true 7).searchAtRandom (OneList.anyPhones 2)).Records
      { line := () } fun result events _ => ∃ offsets,
        Asks ((OneList.anyPhones 2).sampled ["'category' IN ['phones']"] offsets) (result.isOk = true)
          (events.filterMap Event.sent?)) ∧
    (tallyClient.multiSearch phonesAndBooks).Records { line := 4 } fun result events _ =>
      ∃ searches, searches.map Prod.snd = [.window 10 5, .page 2 3, .window 10 5] ∧
        Asks searches (result.isOk = true) (events.filterMap Event.sent?) := by
  refine ⟨?_, ?_, ?_⟩
  · obtain ⟨hphones, -⟩ :=
      ((FilterCount.client false .membership).searches_paged { line := () }).1 blackPhones
        blackPhones_built
    exact hphones rfl
  · obtain ⟨-, -, -, hsample, -⟩ :=
      ((OneList.client [.int 1, .int 2, .int 3] 0 true 7).searches_paged { line := () }).1
        (OneList.anyPhones 2) (OneList.anyPhones_built 2)
    have hfilter : ((OneList.anyPhones 2).fullFilters .membership).texts =
        ["'category' IN ['phones']"] := by
      decide +kernel
    rw [← hfilter]
    exact hsample (by decide)
  · have hmulti := (tallyClient.searches_paged { line := 4 }).2.1 phonesAndBooks fun q hq =>
      (phonesAndBooks_plain q hq).built
    refine hmulti.mono ?_
    intro result events _ _ hasks
    exact ⟨_, rfl, hasks⟩

end Client

end SearchClient
