/-
SearchClient/Search/Request.lean

Search requests as the engine takes them.  A request names a window of the hits (offset and limit)
or a page of them (page and hits per page); both pairs are optional fields, and choosing one way
of paging clears the other.  In a request that goes out with others, the index is named too.

Lists that are empty and fields that are absent are not written, except that a list of attributes
to search in is written whenever it is given.
-/
import SearchClient.Query.Basic

namespace SearchClient

/-- One search. -/
structure SearchRequest where
  indexUid : Option String := none
  q : String := ""
  filter : List String := []
  sort : List String := []
  facets : List String := []
  limit : Option UInt64 := none
  offset : Option UInt64 := none
  page : Option UInt64 := none
  hitsPerPage : Option UInt64 := none
  attributes : Option (List String) := none
deriving DecidableEq, Inhabited

namespace SearchRequest

/-! ### Paging -/

def window (r : SearchRequest) (offset limit : UInt64) : SearchRequest :=
  { r with offset := some offset, limit := some limit, page := none, hitsPerPage := none }

def paged (r : SearchRequest) (page hitsPerPage : UInt64) : SearchRequest :=
  { r with page := some page, hitsPerPage := some hitsPerPage, offset := none, limit := none }

def forIndex (r : SearchRequest) (index : String) : SearchRequest :=
  { r with indexUid := some index }

/-- The request without the name of the index. -/
def untagged (r : SearchRequest) : SearchRequest := { r with indexUid := none }

/-! ### Requests for a query -/

/-- What every request for a query asks: its words, under some filters, in its attributes. -/
def ofFilter (q : Query) (filter : List String) : SearchRequest :=
  { q := q.search, filter, attributes := q.attributes }

/-- The request for the hits of a query. -/
def ofQuery (q : Query) (filter : List String) : SearchRequest :=
  let r := { ofFilter q filter with sort := q.sort, facets := q.facets }
  match q.page with
  | some page => r.paged page (q.hitsPerPage.getD q.limit)
  | none => r.window q.offset q.limit

/-! ### JSON -/

/-- A list that is written when it has an item. -/
def listJson (items : List String) : Option Json :=
  if items.isEmpty then none else some (Json.texts items)

def toJson (r : SearchRequest) : Json :=
  Json.present [
    ("indexUid", r.indexUid.map .str),
    ("q", some (.str r.q)),
    ("filter", listJson r.filter),
    ("sort", listJson r.sort),
    ("facets", listJson r.facets),
    ("limit", r.limit.map Json.ofUInt64),
    ("offset", r.offset.map Json.ofUInt64),
    ("page", r.page.map Json.ofUInt64),
    ("hitsPerPage", r.hitsPerPage.map Json.ofUInt64),
    ("attributesToSearchOn", r.attributes.map Json.texts)]

def fields : List String :=
  ["indexUid", "q", "filter", "sort", "facets", "limit", "offset", "page", "hitsPerPage",
   "attributesToSearchOn"]

def ofJson (j : Json) : Decoded SearchRequest := do
  let r ← j.asRecord fields
  let indexUid ← r.nullable "indexUid" Json.asText
  let q ← r.required "q" Json.asText
  let filter ← r.orElse "filter" [] (Json.asList Json.asText)
  let sort ← r.orElse "sort" [] (Json.asList Json.asText)
  let facets ← r.orElse "facets" [] (Json.asList Json.asText)
  let limit ← r.nullable "limit" Json.asUInt64
  let offset ← r.nullable "offset" Json.asUInt64
  let page ← r.nullable "page" Json.asUInt64
  let hitsPerPage ← r.nullable "hitsPerPage" Json.asUInt64
  let attributes ← r.nullable "attributesToSearchOn" (Json.asList Json.asText)
  .ok { indexUid, q, filter, sort, facets, limit, offset, page, hitsPerPage, attributes }

end SearchRequest

/-! ### Several searches at once -/

/-- Searches that go out in one call. -/
structure MultiSearchRequest where
  queries : List SearchRequest
deriving DecidableEq

namespace MultiSearchRequest

def toJson (r : MultiSearchRequest) : Json :=
  .obj [("queries", .arr (r.queries.map SearchRequest.toJson))]

def ofJson (j : Json) : Decoded MultiSearchRequest := do
  let r ← j.asRecord ["queries"]
  .mk <$> r.required "queries" (Json.asList SearchRequest.ofJson)

end MultiSearchRequest

/-! ### Facet values -/

/-- A search among the values of a facet. -/
structure FacetSearchRequest where
  facetName : String
  facetQuery : String
deriving DecidableEq

namespace FacetSearchRequest

def toJson (r : FacetSearchRequest) : Json :=
  .obj [("facetName", .str r.facetName), ("facetQuery", .str r.facetQuery)]

def ofJson (j : Json) : Decoded FacetSearchRequest := do
  let r ← j.asRecord ["facetName", "facetQuery"]
  let facetName ← r.required "facetName" Json.asText
  let facetQuery ← r.required "facetQuery" Json.asText
  .ok { facetName, facetQuery }

end FacetSearchRequest

end SearchClient
