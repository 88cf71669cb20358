/-
SearchClient/Search/Run.lean

Running queries.  A query goes out as the requests of its plan; requests that belong together are
sent in one call if the client is set so and there are at least two of them, else one by one, and
their answers come back in the order of the requests.  A query in random order is a sample.

Every search is counted once, with the way it was carried out and whether it succeeded.
-/
import SearchClient.Client.Basic
import SearchClient.Search.Plan
import SearchClient.Sample.Basic

namespace SearchClient

/-- A page of the matches of a query. -/
structure Page where
  items : List Json
  number : UInt64
  perPage : UInt64
  total : UInt64
  totalPages : UInt64
deriving DecidableEq

def Page.hasMore (p : Page) : Bool := p.number < p.totalPages

namespace Client

variable {σ α : Type} (c : Client σ)

/-! ### Requests -/

/-- Sends one search. -/
def searchOne (index : String) (request : SearchRequest) : Action σ SearchResponse :=
  c.call .search
    { method := .post, endpoint := .search index, body := some request.toJson }
    SearchResponse.ofJson

/-- Sends searches in one call; there must be an answer to each. -/
def searchTogether (requests : List SearchRequest) : Action σ (List SearchResponse) := do
  let body := (MultiSearchRequest.mk requests).toJson
  let answer ← c.call .multiSearch
    { method := .post, endpoint := .multiSearch, body := some body } MultiSearchResponse.ofJson
  if answer.results.length ≠ requests.length then
    Action.fail (.decode (.resultCount answer.results.length requests.length))
  return answer.results

/-- Sends searches to one index, together or one by one. -/
def dispatch (index : String) (requests : List SearchRequest) : Action σ (List SearchResponse) :=
  if c.config.multiSearch && 1 < requests.length then
    c.searchTogether (requests.map fun r => r.forIndex index)
  else
    requests.mapM fun r => c.searchOne index r.untagged

/-- Carries out a search, and counts it when it has come to its end.  A search that breaks off is
timed, but not counted. -/
def account (kind : SearchKind) (search : Action σ α) : Action σ α := do
  let result ← Action.attempt (search.unwinding (Action.count (.searchTimed kind)))
  Action.count (.searched kind result.isOk)
  Action.count (.searchTimed kind)
  Action.ofExcept result

/-! ### One query -/

/-- The results of a planned query. -/
def runPlan (index : String) (plan : SearchPlan) : Action σ SearchResults :=
  if plan.isSplit then do
    Action.count (.companions plan.companions.length)
    match ← c.dispatch index (plan.requestsFor index) with
    | [] => Action.fail (.decode (.missing "results"))
    | main :: companions => return .merge main companions
  else SearchResults.ofResponse <$> c.searchOne index plan.main

/-- Runs a query in its order. -/
def searchInOrder (q : Query) : Action σ SearchResults := do
  let plan ← Action.ofExcept (SearchPlan.ofQuery c.config.listRendering q)
  account (if plan.isSplit then .split else .single) (c.runPlan q.index plan)

/-- The time of a probe, to which the times of the points are added one after the other. -/
def sampleTime (probe : SearchResponse) (points : List SearchResponse) : Action σ UInt64 :=
  points.foldlM (fun time r => Action.word (time.toNat + r.processingTime.toNat))
    probe.processingTime

/-- A random sample of the matches, as many as the limit of the query. -/
def sample (q : Query) : Action σ SearchResults := do
  let filter ← Action.ofExcept (q.filterTexts c.config.listRendering)
  let probe ← c.searchOne q.index (Sample.probe q filter)
  Action.ofExcept (Sample.ensureEnough probe.total q.limit)
  match c.draw probe.total.toNat q.limit.toNat with
  | none => Action.stall
  | some offsets => do
    let points ← c.dispatch q.index (Sample.points q filter offsets)
    Action.count (.roundTrips (q.limit.toNat + 1))
    return Sample.results probe points (← sampleTime probe points)

/-- Runs a query in random order.  A sample of nothing takes no request and is not counted. -/
def searchAtRandom (q : Query) : Action σ SearchResults :=
  if q.limit = 0 then return {} else account .random (c.sample q)

/-- Runs a query. -/
def search (q : Query) : Action σ SearchResults :=
  if q.randomOrder then c.searchAtRandom q else c.searchInOrder q

/-- One page of a query, counted from 1, with exact totals. -/
def paginate (q : Query) (page perPage : UInt64) : Action σ Page := do
  let number := max page 1
  let results ← c.search
    { q with page := some number, hitsPerPage := some perPage, randomOrder := false }
  return match results.pagination with
    | some (.paged page hitsPerPage totalPages total) =>
      ⟨results.hits, page, hitsPerPage, total, totalPages⟩
    | _ => ⟨results.hits, number, perPage, results.total.getD 0, 0⟩

/-! ### Several queries -/

/-- The main request of a query, with its index. -/
def mainRequest (r : ListRendering) (q : Query) : Except ClientError SearchRequest := do
  let filter ← q.filterTexts r
  .ok ((SearchRequest.ofQuery q filter).forIndex q.index)

/-- Runs queries in one call, each by its main request alone. -/
def multiSearch (queries : List Query) : Action σ (List SearchResults) :=
  if queries.isEmpty then return []
  else match queries.mapM (mainRequest c.config.listRendering) with
    | .error e => do
      Action.count (.searchTimed .multi)
      Action.fail e
    | .ok requests => do
      let answers ← account .multi (c.searchTogether requests)
      return answers.map SearchResults.ofResponse

/-- The values of a facet that match a text. -/
def facetSearch (index facet text : String) : Action σ (List FacetHit) := do
  let body := (FacetSearchRequest.mk facet text).toJson
  let answer ← account .facet (c.call .facetSearch
    { method := .post, endpoint := .facetSearch index, body := some body }
    FacetSearchResponse.ofJson)
  return answer.hits

end Client

end SearchClient
