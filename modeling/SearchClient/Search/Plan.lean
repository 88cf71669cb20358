/-
SearchClient/Search/Plan.lean

The requests behind one query.  A query with facet-blind groups cannot have its hits and its facet
counts from one request, because the engine counts facets under the filters of the request.  Its
plan has a main request for the hits and, for every column in its filters, a companion whose
filters leave that column out and which asks for that one facet.  A facet that only facet-blind
groups filter on is left to its companion.
-/
import SearchClient.Search.Response

namespace SearchClient

/-- The request for the facet of one column. -/
structure Companion where
  column : String
  request : SearchRequest
deriving DecidableEq, Inhabited

structure SearchPlan where
  main : SearchRequest
  companions : List Companion
deriving DecidableEq, Inhabited

namespace SearchPlan

def isSplit (p : SearchPlan) : Bool := !p.companions.isEmpty

/-- How many requests there are. -/
def size (p : SearchPlan) : Nat := 1 + p.companions.length

/-- All requests, the main one first, each with the index it goes to. -/
def requestsFor (p : SearchPlan) (index : String) : List SearchRequest :=
  (p.main :: p.companions.map Companion.request).map fun r => r.forIndex index

/-- The companion of a column. -/
def companion (r : ListRendering) (q : Query) (column : String) : Except ClientError Companion := do
  let filters ← q.filters r (.without column)
  let request := { SearchRequest.ofFilter q filters.texts with
    sort := q.sort
    facets := [column] }
  .ok { column, request := request.window 0 1 }

def ofQuery (r : ListRendering) (q : Query) : Except ClientError SearchPlan := do
  let filters ← q.filters r .full
  let main := SearchRequest.ofQuery q filters.texts
  if !q.facetSplit then .ok { main, companions := [] }
  else do
    let blindOnly := filters.columns.blindOnly
    let companions ← filters.columns.all.mapM (companion r q)
    .ok { main := { main with facets := main.facets.filter fun f => !blindOnly.contains f }
          companions }

end SearchPlan

end SearchClient
