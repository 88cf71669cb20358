/-
SearchClient/Search/Response.lean

Answers to searches, and the results made of them.  An answer tells its way of paging by whether
it has a page number; where the engine leaves a number out, the count of hits or zero stands for
it.  Facet counts are tables by facet and, in each facet, by value; laying one distribution over
another replaces whole facets.
-/
import SearchClient.Search.Request
import SearchClient.Table

namespace SearchClient

/-! ### Facets -/

/-- How many documents have each value of a facet. -/
abbrev FacetCounts := OrderedTable UInt64

/-- The counts of each facet. -/
abbrev FacetDistribution := OrderedTable FacetCounts

namespace FacetDistribution

def toJson (d : FacetDistribution) : Json :=
  .obj (d.pairs.map fun f => (f.1, .obj (f.2.pairs.map fun v => (v.1, Json.ofUInt64 v.2))))

def ofJson (j : Json) : Decoded FacetDistribution :=
  .ofList <$> j.asMembers fun counts => .ofList <$> counts.asMembers Json.asUInt64

end FacetDistribution

/-! ### Paging -/

/-- Where in the matches the hits of an answer lie. -/
inductive Pagination where
  /-- The total is an estimate. -/
  | window (offset limit estimatedTotal : UInt64)
  /-- The total is exact. -/
  | paged (page hitsPerPage totalPages total : UInt64)
deriving DecidableEq, Inhabited

namespace Pagination

def total : Pagination → UInt64
  | .window _ _ estimatedTotal => estimatedTotal
  | .paged _ _ _ total => total

/-- Only pages are known to have a successor. -/
def hasNextPage : Pagination → Bool
  | .window .. => false
  | .paged page _ totalPages _ => page < totalPages

end Pagination

/-! ### Answers -/

/-- The answer to one search. -/
structure SearchResponse where
  indexUid : Option String
  hits : List Json
  query : String
  processingTime : UInt64
  facets : Option FacetDistribution
  pagination : Pagination
deriving DecidableEq, Inhabited

namespace SearchResponse

def total (r : SearchResponse) : UInt64 := r.pagination.total

def fields : List String :=
  ["indexUid", "hits", "query", "processingTimeMs", "facetDistribution", "offset", "limit",
   "estimatedTotalHits", "page", "hitsPerPage", "totalPages", "totalHits"]

def ofJson (j : Json) : Decoded SearchResponse := do
  let r ← j.asRecord fields
  let indexUid ← r.optional "indexUid" Json.asText
  let hits ← r.orElse "hits" [] (Json.asList .ok)
  let query ← r.orElse "query" "" Json.asText
  let processingTime ← r.orElse "processingTimeMs" 0 Json.asUInt64
  let facets ← r.optional "facetDistribution" FacetDistribution.ofJson
  let offset ← r.nullable "offset" Json.asUInt64
  let limit ← r.nullable "limit" Json.asUInt64
  let estimatedTotal ← r.nullable "estimatedTotalHits" Json.asUInt64
  let page ← r.nullable "page" Json.asUInt64
  let hitsPerPage ← r.nullable "hitsPerPage" Json.asUInt64
  let totalPages ← r.nullable "totalPages" Json.asUInt64
  let total ← r.nullable "totalHits" Json.asUInt64
  let count := UInt64.ofNat hits.length
  let pagination := match page with
    | some page =>
      .paged page (hitsPerPage.getD count) (totalPages.getD 0) ((total.or estimatedTotal).getD 0)
    | none => .window (offset.getD 0) (limit.getD count) ((estimatedTotal.or total).getD 0)
  .ok { indexUid, hits, query, processingTime, facets, pagination }

end SearchResponse

/-- The answers to searches that went out in one call. -/
structure MultiSearchResponse where
  results : List SearchResponse
deriving DecidableEq

def MultiSearchResponse.ofJson (j : Json) : Decoded MultiSearchResponse := do
  let r ← j.asRecord ["results"]
  .mk <$> r.required "results" (Json.asList SearchResponse.ofJson)

/-- A value of a facet, with its count. -/
structure FacetHit where
  value : String
  count : UInt64
deriving DecidableEq, Inhabited

def FacetHit.ofJson (j : Json) : Decoded FacetHit := do
  let r ← j.asRecord ["value", "count"]
  let value ← r.required "value" Json.asText
  let count ← r.required "count" Json.asUInt64
  .ok { value, count }

/-- The answer to a search among the values of a facet. -/
structure FacetSearchResponse where
  hits : List FacetHit
  query : Option String
  processingTime : UInt64
deriving DecidableEq

def FacetSearchResponse.ofJson (j : Json) : Decoded FacetSearchResponse := do
  let r ← j.asRecord ["facetHits", "facetQuery", "processingTimeMs"]
  let hits ← r.required "facetHits" (Json.asList FacetHit.ofJson)
  let query ← r.optional "facetQuery" Json.asText
  let processingTime ← r.orElse "processingTimeMs" 0 Json.asUInt64
  .ok { hits, query, processingTime }

/-! ### Results -/

/-- What a search comes to.  A random sample has no place in the matches. -/
structure SearchResults where
  hits : List Json := []
  total : Option UInt64 := none
  pagination : Option Pagination := none
  facets : FacetDistribution := .empty
  processingTime : UInt64 := 0
deriving DecidableEq, Inhabited

namespace SearchResults

def ofResponse (r : SearchResponse) : SearchResults :=
  { hits := r.hits
    total := some r.total
    pagination := some r.pagination
    facets := r.facets.getD .empty
    processingTime := r.processingTime }

def hasNextPage (r : SearchResults) : Bool :=
  match r.pagination with
  | some p => p.hasNextPage
  | none => false

/-- Lays a distribution over the facets. -/
def mergeFacets (r : SearchResults) (d : FacetDistribution) : SearchResults :=
  { r with facets := r.facets.overlay d }

/-- The results of a main answer, with the facets of the companions laid over its own in turn. -/
def merge (main : SearchResponse) (companions : List SearchResponse) : SearchResults :=
  companions.foldl (fun r companion => r.mergeFacets (companion.facets.getD .empty)) (ofResponse main)

/-- The hits, each decoded. -/
def hitsAs (r : SearchResults) (decode : Json → Decoded α) : Decoded (List α) :=
  r.hits.mapM decode

end SearchResults

end SearchClient
