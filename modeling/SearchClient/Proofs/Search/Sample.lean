/-
SearchClient/Proofs/Search/Sample.lean

What a random sample is.  An engine `Lists` its matches when the words, the filters and the attributes of
a search determine a list of documents, of which a page tells the exact length and a window gives a part.
A sample then asks for the length once, and for the document at each offset that was drawn.

The offsets of a draw that finishes are distinct places of the list (`gives_drawOffsets`), each window of
one document gives the document at its place (`Evaluator.Lists.points`), and the answers come back in the
order of the requests whichever way these are sent (`Client.dispatch_puts`).  With all answers there, the
sample still has to add up the times that the engine tells, and breaks off if the sum has no room in a word
(`OneList.searchAtRandom_overflows`).

Main result: `Client.searchAtRandom_samples`.
-/
import SearchClient.Proofs.Sample.Draw
import SearchClient.Proofs.Search.Batching
import SearchClient.Sample.SplitMix

namespace SearchClient

open Sample

variable {σ τ γ : Type}

/-! ### Engines that list their matches -/

/-- The documents of an index that match some words, under filters, in some attributes. -/
abbrev Matching :=
  (index words : String) → (filter : List String) → Option (List String) → List Json

/-- What a request looks for. -/
def SearchRequest.matches (r : SearchRequest) (found : Matching) (index : String) : List Json :=
  found index r.q r.filter r.attributes

/-- The engine answers from the list of what is looked for, whatever its state. -/
structure Evaluator.Lists (e : Evaluator τ) (found : Matching) : Prop where
  total : ∀ index (r : SearchRequest) state, r.page.isSome →
    (e (r.search index) state).1.total.toNat = (r.matches found index).length
  slice : ∀ index (r : SearchRequest) state offset limit, r.page = none →
    r.offset = some offset → r.limit = some limit →
    (e (r.search index) state).1.hits =
      ((r.matches found index).drop offset.toNat).take limit.toNat

/-- What a built query looks for. -/
def Query.matches (q : Query) (found : Matching) (r : ListRendering) : List Json :=
  found q.index q.search (q.fullFilters r).texts q.attributes

theorem Query.Built.filterTexts {q : Query} (h : q.Built) (r : ListRendering) :
    q.filterTexts r = .ok (q.fullFilters r).texts := by
  rw [Query.filterTexts, (h.filters r).1, ok_map]

/-- The main request of a built query. -/
theorem Client.mainRequest_built {q : Query} (h : q.Built) (r : ListRendering) :
    Client.mainRequest r q =
      .ok ((SearchRequest.ofQuery q (q.fullFilters r).texts).forIndex q.index) := by
  rw [Client.mainRequest, h.filterTexts, ok_bind]

/-- The hits are the documents at the places, in the order of these. -/
def HitsAt (documents : List Json) (places : List Nat) (hits : List Json) : Prop :=
  List.Forall₂ (fun place hit => documents[place]? = some hit) places hits

theorem Evaluator.Lists.probe {e : Evaluator τ} {found : Matching} (h : e.Lists found) (q : Query)
    (r : ListRendering) (state : τ) :
    (e ((Sample.probe q (q.fullFilters r).texts).search q.index) state).1.total.toNat =
      (q.matches found r).length :=
  h.total _ _ _ rfl

/-- A window of one hit at each place shows the documents there. -/
theorem Evaluator.Lists.points {e : Evaluator τ} {found : Matching} (h : e.Lists found) (q : Query)
    (r : ListRendering) {places : List Nat} (hlt : ∀ o ∈ places, o < (q.matches found r).length)
    (hsize : (q.matches found r).length < UInt64.size) (state : τ) :
    HitsAt (q.matches found r) places
      ((e.all ((Sample.points q (q.fullFilters r).texts places).map
        (SearchRequest.search q.index)) state).1.flatMap SearchResponse.hits) := by
  induction places generalizing state with
  | nil => exact .nil
  | cons place places ih =>
    have hplace : place < (q.matches found r).length := hlt place (by simp)
    have hoffset : (UInt64.ofNat place).toNat = place := UInt64.toNat_ofNat_of_lt (by omega)
    have hhit : (e (((SearchRequest.ofFilter q (q.fullFilters r).texts).window (.ofNat place) 1).search
        q.index) state).1.hits = [(q.matches found r)[place]] := by
      rw [h.slice _ _ _ (.ofNat place) 1 rfl rfl rfl, hoffset]
      show ((q.matches found r).drop place).take 1 = _
      rw [List.drop_eq_getElem_cons hplace]
      rfl
    show HitsAt _ _ ((e _ state).1.hits ++ _)
    rw [hhit]
    exact .cons (List.getElem?_eq_getElem hplace) (ih (fun o ho => hlt o (by simp [ho])) _)

/-! ### Samples -/

/-- The hits are the documents at the places, and of the answers only the number of documents is told. -/
structure SearchResults.IsSample (documents : List Json) (places : List Nat)
    (results : SearchResults) : Prop where
  hits : HitsAt documents places results.hits
  total : results.total.map UInt64.toNat = some documents.length
  pagination : results.pagination = none
  facets : results.facets = .empty

/-- What an engine is asked for a sample: the number of documents, and the one at each place. -/
def Query.probed (q : Query) (r : ListRendering) (places : List Nat) : List Search :=
  (Sample.probe q (q.fullFilters r).texts :: Sample.points q (q.fullFilters r).texts places).map
    (SearchRequest.search q.index)

theorem World.sends_counted_all (w : World σ) (metrics : List Metric) :
    (metrics.foldl counted w).sends = w.sends := by
  induction metrics generalizing w with
  | nil => rfl
  | cons m metrics ih => rw [List.foldl_cons, ih, sends_counted]

theorem World.searches_counted_all (w : World σ) (metrics : List Metric) :
    (metrics.foldl counted w).searches = w.searches := by
  induction metrics generalizing w with
  | nil => rfl
  | cons m metrics ih => rw [List.foldl_cons, ih, searches_counted]

namespace Client

variable {c : Client σ} {view : σ → τ} {e : Evaluator τ} {found : Matching}

/-- A sample of something is counted, whatever it comes to. -/
theorem searchAtRandom_run {q : Query} (hsome : q.limit ≠ 0) {result : Except Stop SearchResults}
    {w w' : World σ} (h : (c.sample q).run.run w = (result, w')) :
    (c.searchAtRandom q).run.run w = (result, (closing .random result).foldl World.counted w') := by
  rw [searchAtRandom, if_neg hsome, account_run, h]

section

variable (hc : EvaluatesSearches c.session.transport view e) (hfound : e.Lists found)

include hc hfound

/-- The probe is one request, which tells the number of documents. -/
theorem probe_run (q : Query) (r : ListRendering) (w : World σ) :
    ∃ probe w', (c.searchOne q.index (Sample.probe q (q.fullFilters r).texts)).run.run w =
        (.ok probe, w') ∧
      probe.total.toNat = (q.matches found r).length ∧
      w'.sends = w.sends ++ [(Sample.probe q (q.fullFilters r).texts).alone q.index] ∧
      w'.searches = w.searches ++ [(Sample.probe q (q.fullFilters r).texts).search q.index] ∧
      shown [probe] = shown [(e ((Sample.probe q (q.fullFilters r).texts).search q.index)
        (view w.line)).1] ∧
      view w'.line = (e ((Sample.probe q (q.fullFilters r).texts).search q.index)
        (view w.line)).2 := by
  obtain ⟨latency, reply, line, probe, hanswers, hs, hprobe, hshown, hview⟩ :=
    hc.alone q.index (Sample.probe q (q.fullFilters r).texts) rfl w.line
  refine ⟨probe, _, call_run_ok hanswers hs hprobe, ?_, World.sends_exchanged ..,
    World.searches_exchanged .., hshown, hview⟩
  have htotal : probe.total = (e ((Sample.probe q (q.fullFilters r).texts).search q.index)
      (view w.line)).1.total := by
    have hsame := List.head_eq_of_cons_eq hshown
    exact congrArg (·.total.getD 0) hsame
  rw [htotal, hfound.probe]

/-- Too few documents: the probe was all. -/
theorem sample_run_few {q : Query} (hbuilt : q.Built)
    (hfew : (q.matches found c.config.listRendering).length < q.limit.toNat) (w : World σ) :
    ∃ total w', (c.sample q).run.run w =
        (.error (.failed (.tooFewDocuments total q.limit)), w') ∧
      total.toNat = (q.matches found c.config.listRendering).length ∧
      w'.sends = w.sends ++ [(Sample.probe q
        (q.fullFilters c.config.listRendering).texts).alone q.index] := by
  obtain ⟨probe, w', hprobe, htotal, hsends, -, -, -⟩ :=
    probe_run hc hfound q c.config.listRendering w
  have hensure : ensureEnough probe.total q.limit =
      .error (.tooFewDocuments probe.total q.limit) := by
    rw [ensureEnough, if_pos (UInt64.lt_iff_toNat_lt.mpr (htotal ▸ hfew))]
  refine ⟨probe.total, w', ?_, htotal, hsends⟩
  -- the filters compile and the probe is answered, so it is the check that fails
  rw [sample, hbuilt.filterTexts, Action.run_bind_ok (Action.run_ofExcept (.ok _) w),
    Action.run_bind_ok hprobe, hensure]
  exact Action.run_bind_error (Action.run_ofExcept (.error _) w')

/-- Enough documents: the answers are those at the offsets of the draw, and the sample is what they add
up to. -/
theorem sample_run_enough {q : Query} (hbuilt : q.Built) {offsets : List Nat}
    (henough : q.limit.toNat ≤ (q.matches found c.config.listRendering).length)
    (hdraw : c.draw (q.matches found c.config.listRendering).length q.limit.toNat = some offsets)
    (hoffsets : ∀ o ∈ offsets, o < (q.matches found c.config.listRendering).length) (w : World σ) :
    ∃ probe points w', (c.sample q).run.run w = (sampled probe points, w') ∧
      shown (probe :: points) =
        shown (e.all (q.probed c.config.listRendering offsets) (view w.line)).1 ∧
      w'.searches = w.searches ++ q.probed c.config.listRendering offsets ∧
      probe.total.toNat = (q.matches found c.config.listRendering).length ∧
      HitsAt (q.matches found c.config.listRendering) offsets
        (points.flatMap SearchResponse.hits) := by
  obtain ⟨probe, w₁, hprobe, htotal, -, hasked₁, hshown₁, hview₁⟩ :=
    probe_run hc hfound q c.config.listRendering w
  have hensure : ensureEnough probe.total q.limit = .ok () := by
    have hnot : ¬ probe.total < q.limit := by
      rw [UInt64.lt_iff_toNat_lt, htotal]
      omega
    rw [ensureEnough, if_neg hnot]
  -- the answers are those of the engine to the points, in their order
  obtain ⟨points, w₂, hpoints, hshown₂, -, hasked₂⟩ :=
    dispatch_puts (c := c) hc q.index (Sample.points q _ offsets) w₁
  have hrun : (c.sample q).run.run w =
      (sampled probe points, w₂.counted (.roundTrips (q.limit.toNat + 1))) := by
    rw [sample, hbuilt.filterTexts, Action.run_bind_ok (Action.run_ofExcept (.ok _) w),
      Action.run_bind_ok hprobe, hensure, htotal, hdraw,
      Action.run_bind_ok (Action.run_ofExcept (.ok ()) w₁)]
    exact (Action.run_bind_ok hpoints).trans (sampled_run probe points _)
  rw [hview₁] at hshown₂
  have hsize : (q.matches found c.config.listRendering).length < UInt64.size :=
    htotal ▸ probe.total.toNat_lt
  have hhits : points.flatMap SearchResponse.hits = (shown points).flatMap SearchResults.hits := by
    rw [shown, List.flatMap_map]
    rfl
  have hshown₂ : shown points = _ := hshown₂
  refine ⟨probe, points, _, hrun, congrArg₂ (· ++ ·) hshown₁ hshown₂, ?_, htotal, ?_⟩
  · rw [World.searches_counted, hasked₂, hasked₁, List.append_assoc]
    rfl
  · rw [hhits, hshown₂, shown, List.flatMap_map]
    exact hfound.points q _ hoffsets hsize _

/-- **A random sample is distinct documents.**  A sample of nothing sends nothing.  If there are fewer
documents than the query wants, the error tells both numbers, and one request was sent.  Otherwise, with
offsets from a draw that finishes, one search more is evaluated than the query wants documents; and if
the times that the engine tells have a sum with room in a word, the results are as many documents as the
query wants, from distinct places and in the order of the draw.  Without room the sample breaks off. -/
theorem searchAtRandom_samples {q : Query} (hbuilt : q.Built) (g : Generator γ) (rounds : Nat)
    (seed : γ) (hdraw : ∀ total requested,
      c.draw total requested = (drawOffsets g rounds total requested seed).map Prod.fst)
    (w : World σ) :
    let documents := q.matches found c.config.listRendering
    let probe := Sample.probe q (q.fullFilters c.config.listRendering).texts
    (q.limit = 0 → (c.searchAtRandom q).run.run w = (.ok {}, w)) ∧
    (q.limit ≠ 0 → documents.length < q.limit.toNat → ∃ total w',
      (c.searchAtRandom q).run.run w = (.error (.failed (.tooFewDocuments total q.limit)), w') ∧
        total.toNat = documents.length ∧ w'.sends = w.sends ++ [probe.alone q.index]) ∧
    (q.limit ≠ 0 → q.limit.toNat ≤ documents.length → ∀ offsets seed',
      drawOffsets g rounds documents.length q.limit.toNat seed = some (offsets, seed') →
      let asked := q.probed c.config.listRendering offsets
      let time := totalTime (e.all asked (view w.line)).1
      Distinct q.limit.toNat documents.length offsets ∧ asked.length = q.limit.toNat + 1 ∧
        ∃ result w', (c.searchAtRandom q).run.run w = (result, w') ∧
          w'.searches = w.searches ++ asked ∧
          (time < UInt64.size → ∃ results, result = .ok results ∧
            results.IsSample documents offsets ∧ results.hits.length = q.limit.toNat ∧
            results.processingTime.toNat = time) ∧
          (UInt64.size ≤ time → result = .error .overflowed)) := by
  intro documents probe
  refine ⟨fun hnone => ?_, fun hsome hfew => ?_, fun hsome henough offsets seed' hfinish => ?_⟩
  · rw [searchAtRandom, if_pos hnone]
    rfl
  · obtain ⟨total, w', hrun, htotal, hsends⟩ := sample_run_few hc hfound hbuilt hfew w
    refine ⟨total, _, searchAtRandom_run hsome hrun, htotal, ?_⟩
    rw [World.sends_counted_all, hsends]
  · intro asked time
    -- the number of offsets is the lesser of what is wanted and what there is
    have hdistinct : Distinct q.limit.toNat documents.length offsets := by
      have hdrawn := gives_drawOffsets g rounds documents.length q.limit.toNat seed _ _ hfinish
      rwa [Nat.min_eq_left henough] at hdrawn
    have hoffsets : c.draw documents.length q.limit.toNat = some offsets := by
      rw [hdraw, hfinish, Option.map_some]
    have hcount : asked.length = q.limit.toNat + 1 := by
      simp [asked, Query.probed, Sample.points, hdistinct.length]
    obtain ⟨first, points, w', hrun, hshown, hasked, htotal, hhits⟩ :=
      sample_run_enough hc hfound hbuilt henough hoffsets hdistinct.lt w
    have htime : totalTime (first :: points) = time := totalTime_congr hshown
    refine ⟨hdistinct, hcount, _, _, searchAtRandom_run hsome hrun, ?_, fun hroom => ?_,
      fun hover => ?_⟩
    · rw [World.searches_counted_all, hasked]
    · have hresults : sampled first points = .ok (Sample.results first points (.ofNat time)) := by
        rw [sampled, htime, if_pos hroom]
      have hlength : (points.flatMap SearchResponse.hits).length = q.limit.toNat := by
        rw [← hhits.length_eq, hdistinct.length]
      exact ⟨_, hresults, ⟨hhits, congrArg some htotal, rfl, rfl⟩, hlength,
        UInt64.toNat_ofNat_of_lt hroom⟩
    · exact sampled_eq_error.mpr ⟨rfl, htime ▸ hover⟩

end

end Client

/-! ### An engine for one list

An engine that finds the same documents whatever it is asked for, and shows a window or a page of them.  Each
answer takes the same time. -/

namespace OneList

variable (documents : List Json) (time : UInt64)

def total : UInt64 := .ofNat documents.length

/-- The hits and the paging of an answer. -/
def answer (hits : List Json) (pagination : Pagination) : SearchResponse :=
  { indexUid := none, hits, query := "", processingTime := time, facets := none, pagination }

def respond (r : SearchRequest) : SearchResponse :=
  match r.page with
  | some page =>
    let perPage := r.hitsPerPage.getD 20
    answer time ((documents.drop ((page.toNat - 1) * perPage.toNat)).take perPage.toNat)
      (.paged page perPage ((total documents + perPage - 1) / perPage) (total documents))
  | none =>
    let offset := r.offset.getD 0
    let limit := r.limit.getD 20
    answer time ((documents.drop offset.toNat).take limit.toNat)
      (.window offset limit (total documents))

/-- The members that tell the paging. -/
def pagingMembers : Pagination → List (String × Json)
  | .window offset limit total =>
    [("offset", .ofUInt64 offset), ("limit", .ofUInt64 limit),
     ("estimatedTotalHits", .ofUInt64 total)]
  | .paged page perPage pages total =>
    [("page", .ofUInt64 page), ("hitsPerPage", .ofUInt64 perPage),
     ("totalPages", .ofUInt64 pages), ("totalHits", .ofUInt64 total)]

/-- The body of an answer. -/
def body (a : SearchResponse) : Json :=
  .obj (("hits", .arr a.hits) :: ("processingTimeMs", .ofUInt64 a.processingTime) ::
    pagingMembers a.pagination)

theorem ofJson_body (hits : List Json) (pagination : Pagination) :
    SearchResponse.ofJson (body (answer time hits pagination)) =
      .ok (answer time hits pagination) := by
  obtain ⟨record, hrecord⟩ :
      ∃ record, (body (answer time hits pagination)).asRecord SearchResponse.fields = .ok record :=
    ⟨_, rfl⟩
  have hobj : record.positional = false := by
    obtain rfl := Except.ok.inj hrecord
    rfl
  have field : ∀ name, record.field? name =
      if name = "hits" then some (.arr hits) else
        if name = "processingTimeMs" then some (.ofUInt64 time) else
          (pagingMembers pagination).lookup name := by
    obtain rfl := Except.ok.inj hrecord
    intro name
    exact (Json.Record.field?_cons _ _ _ false name).trans
      (congrArg _ (Json.Record.field?_cons _ _ _ false name))
  have other : ∀ name, name ≠ "hits" → name ≠ "processingTimeMs" →
      record.field? name = (pagingMembers pagination).lookup name := fun name hhits htime => by
    rw [field, if_neg hhits, if_neg htime]
  have absent : ∀ name, name ≠ "hits" → name ≠ "processingTimeMs" →
      (pagingMembers pagination).lookup name = none → record.field? name = none :=
    fun name hhits htime h => (other name hhits htime).trans h
  have hhits : record.orElse "hits" [] (Json.asList .ok) = .ok hits := by
    have hread : hits.mapM (Except.ok : Json → Decoded Json) = .ok (hits.map id) :=
      mapM_ok fun _ _ => rfl
    rw [List.map_id] at hread
    rw [Json.Record.orElse, field, if_pos rfl]
    exact hread
  have htime : record.orElse "processingTimeMs" 0 Json.asUInt64 = .ok time := by
    rw [Json.Record.orElse, field, if_neg (by decide), if_pos rfl]
    exact Json.asUInt64_ofUInt64 time
  have number : ∀ (name : String) (n : Option UInt64), name ≠ "hits" → name ≠ "processingTimeMs" →
      (pagingMembers pagination).lookup name = n.map Json.ofUInt64 →
      record.nullable name Json.asUInt64 = .ok n := fun name n hhits htime h =>
    Json.Record.nullable_eq hobj Json.asUInt64_ofUInt64 (by simp [Json.ofUInt64])
      ((other name hhits htime).trans h)
  rw [SearchResponse.ofJson, hrecord, ok_bind,
    Json.Record.optional_absent
      (absent "indexUid" (by decide) (by decide) (by cases pagination <;> rfl)), ok_bind,
    hhits, ok_bind,
    Json.Record.orElse_absent
      (absent "query" (by decide) (by decide) (by cases pagination <;> rfl)), ok_bind,
    htime, ok_bind,
    Json.Record.optional_absent
      (absent "facetDistribution" (by decide) (by decide) (by cases pagination <;> rfl)), ok_bind]
  cases pagination with
  | window offset limit total =>
    rw [number "offset" (some offset) (by decide) (by decide) rfl, ok_bind,
      number "limit" (some limit) (by decide) (by decide) rfl, ok_bind,
      number "estimatedTotalHits" (some total) (by decide) (by decide) rfl, ok_bind,
      number "page" none (by decide) (by decide) rfl, ok_bind,
      number "hitsPerPage" none (by decide) (by decide) rfl, ok_bind,
      number "totalPages" none (by decide) (by decide) rfl, ok_bind,
      number "totalHits" none (by decide) (by decide) rfl]
    rfl
  | paged page perPage pages total =>
    rw [number "offset" none (by decide) (by decide) rfl, ok_bind,
      number "limit" none (by decide) (by decide) rfl, ok_bind,
      number "estimatedTotalHits" none (by decide) (by decide) rfl, ok_bind,
      number "page" (some page) (by decide) (by decide) rfl, ok_bind,
      number "hitsPerPage" (some perPage) (by decide) (by decide) rfl, ok_bind,
      number "totalPages" (some pages) (by decide) (by decide) rfl, ok_bind,
      number "totalHits" (some total) (by decide) (by decide) rfl]
    rfl

theorem evaluates : EvaluatesSearches (Stateless.transport fun r => body (respond documents time r)) id
    (Stateless.evaluator (respond documents time)) :=
  Stateless.evaluates _ _
    (fun r => by
      unfold respond
      split <;> exact ofJson_body _ _ _)
    fun _ _ => rfl

theorem lists (hsize : documents.length < UInt64.size) :
    (Stateless.evaluator (respond documents time)).Lists fun _ _ _ _ => documents where
  total index r state hpage := by
    obtain ⟨page, hpage⟩ := Option.isSome_iff_exists.mp hpage
    show (Stateless.answer _ _).total.toNat = _
    rw [SearchRequest.search, Stateless.answer_toJson, respond]
    show (match r.page with | some page => _ | none => _ : SearchResponse).total.toNat = _
    rw [hpage]
    exact UInt64.toNat_ofNat_of_lt hsize
  slice index r state offset limit hpage hoffset hlimit := by
    show (Stateless.answer _ _).hits = _
    rw [SearchRequest.search, Stateless.answer_toJson, respond]
    show (match r.page with | some page => _ | none => _ : SearchResponse).hits = _
    rw [hpage]
    show (documents.drop (r.offset.getD 0).toNat).take (r.limit.getD 20).toNat = _
    rw [hoffset, hlimit]
    rfl

/-- A client of the engine that draws with a seed. -/
def client (multiSearch : Bool) (seed : UInt64) : Client Unit :=
  { session := { transport := Stateless.transport fun r => body (respond documents time r), rounds := 1 }
    config := { multiSearch }
    draw := fun total requested => (drawOffsets splitMix 64 total requested seed).map Prod.fst }

/-- Phones in random order. -/
def anyPhones (limit : UInt64) : Query where
  index := "products"
  wheres := [.leaf { column := "category", operator := .list .isIn, operand := .list [.text "phones"] }]
  limit := limit
  randomOrder := true

theorem anyPhones_built (limit : UInt64) : (anyPhones limit).Built :=
  ⟨"products", [.clause (.list "category" .isIn [.text "phones"]), .random, .limit limit], _, rfl, rfl⟩

/-- Two of three phones can be had. -/
theorem exists_sample_phones : ∃ results, (((client [.int 1, .int 2, .int 3] 0 true 7).searchAtRandom
    (anyPhones 2)).run.run { line := () }).1 = .ok results := by
  have hoffsets : (client [.int 1, .int 2, .int 3] 0 true 7).draw 3 2 = some [0, 2] := by
    decide +kernel
  obtain ⟨probe, points, w', hrun, hshown, -⟩ :=
    Client.sample_run_enough (c := client [.int 1, .int 2, .int 3] 0 true 7) (evaluates _ 0)
      (lists [.int 1, .int 2, .int 3] 0 (by decide)) (anyPhones_built 2) (by decide) hoffsets
      (by decide) { line := () }
  have htime : totalTime (probe :: points) = 0 := by
    rw [totalTime_congr hshown]
    decide +kernel
  rw [Client.searchAtRandom_run (by decide) hrun]
  exact ⟨_, if_pos (htime ▸ by decide)⟩

/-- Of three documents the seed draws the first and the last, and four cannot be had. -/
theorem searchAtRandom_samples_phones :
    let phones := [.int 1, .int 2, .int 3]
    (∃ results w', ((client phones 0 true 7).searchAtRandom (anyPhones 2)).run.run { line := () } =
        (.ok results, w') ∧ HitsAt phones [0, 2] results.hits ∧ w'.searches.length = 3) ∧
      ∃ total w', ((client phones 0 true 7).searchAtRandom (anyPhones 4)).run.run { line := () } =
        (.error (.failed (.tooFewDocuments total 4)), w') ∧ total.toNat = 3 ∧
          w'.sends.length = 1 := by
  intro phones
  have hsamples (limit : UInt64) := Client.searchAtRandom_samples (c := client phones 0 true 7)
    (evaluates phones 0) (lists phones 0 (by decide)) (anyPhones_built limit) splitMix 64 7
    (fun _ _ => rfl) { line := () }
  constructor
  · have hdraw : drawOffsets splitMix 64 3 2 7 = some ([0, 2], 15755400384260043846) := by
      decide +kernel
    obtain ⟨-, hcount, result, w', hrun, hasked, hroom, -⟩ :=
      (hsamples 2).2.2 (by decide) (by decide) _ _ hdraw
    obtain ⟨results, rfl, hsample, -, -⟩ := hroom (by decide +kernel)
    refine ⟨results, w', hrun, hsample.hits, ?_⟩
    rw [hasked, List.length_append, hcount]
    rfl
  · obtain ⟨total, w', hrun, htotal, hsends⟩ := (hsamples 4).2.1 (by decide) (by decide)
    refine ⟨total, w', hrun, htotal, ?_⟩
    rw [hsends]
    rfl

/-! ### A sample that breaks off -/

/-- A client that samples one document, with answers that take half of the number of words each. -/
def lone : Client Unit := client [.int 1] 9223372036854775808 true 7

theorem lone_draw : lone.draw 1 1 = some [0] := by
  have hdraw : drawOffsets splitMix 64 1 1 7 = some ([0], 11400714819323198492) := by
    decide +kernel
  exact congrArg (Option.map Prod.fst) hdraw

theorem lone_lists :
    (Stateless.evaluator (respond [.int 1] 9223372036854775808)).Lists fun _ _ _ _ => [.int 1] :=
  lists [.int 1] _ (by decide)

/-- The document is drawn and shown, but the two times are too much to be added up. -/
theorem lone_overflows :
    ((lone.searchAtRandom (anyPhones 1)).run.run { line := () }).1 = .error .overflowed := by
  obtain ⟨probe, points, w', hrun, hshown, -⟩ :=
    Client.sample_run_enough (c := lone) (evaluates _ _) lone_lists (anyPhones_built 1)
      (by decide) lone_draw (by decide) { line := () }
  have htime : totalTime (probe :: points) = UInt64.size := by
    rw [totalTime_congr hshown]
    decide +kernel
  rw [Client.searchAtRandom_run (by decide) hrun]
  exact Client.sampled_eq_error.mpr ⟨rfl, Nat.le_of_eq htime.symm⟩

/-- **A sample that there is may not be had.**  There is one document, as many as the query wants, and the
draw finishes, but the sample has no result. -/
theorem searchAtRandom_overflows :
    EvaluatesSearches lone.session.transport id
        (Stateless.evaluator (respond [.int 1] 9223372036854775808)) ∧
      ((Stateless.evaluator (respond [.int 1] 9223372036854775808)).Lists
        fun _ _ _ _ => [.int 1]) ∧
      (anyPhones 1).Built ∧ (anyPhones 1).limit = 1 ∧ lone.draw 1 1 = some [0] ∧
      ((lone.searchAtRandom (anyPhones 1)).run.run { line := () }).1 = .error .overflowed :=
  ⟨evaluates _ _, lone_lists, anyPhones_built 1, rfl, lone_draw, lone_overflows⟩

end OneList

end SearchClient
