/-
SearchClient/Sample/Basic.lean

A random sample of the matches of a query.  The engine has no random order, so a sample of `n`
hits takes a probe, which learns the exact number of matches by asking for a page, and then one
request with a window of one hit for every offset drawn.
-/
import SearchClient.Search.Response

namespace SearchClient.Sample

/-- Asks for the exact number of matches. -/
def probe (q : Query) (filter : List String) : SearchRequest :=
  (SearchRequest.ofFilter q filter).paged 1 1

/-- Whether there are as many matches as are requested. -/
def ensureEnough (found requested : UInt64) : Except ClientError Unit :=
  if found < requested then .error (.tooFewDocuments found requested) else .ok ()

/-- One request for the hit at each offset. -/
def points (q : Query) (filter : List String) (offsets : List Nat) : List SearchRequest :=
  offsets.map fun offset => (SearchRequest.ofFilter q filter).window (.ofNat offset) 1

/-- The sample made of the answers, and of the time that it took. -/
def results (probe : SearchResponse) (points : List SearchResponse) (time : UInt64) :
    SearchResults :=
  { hits := points.flatMap SearchResponse.hits
    total := some probe.total
    processingTime := time }

end SearchClient.Sample
