/-
SearchClient/Engine/Endpoint.lean

The endpoints of the engine and their paths.
-/
import SearchClient.Engine.Setting

namespace SearchClient

inductive Endpoint where
  | health | version | stats
  | tasks
  | task (uid : UInt64)
  | indexes | swapIndexes
  | index (uid : String)
  | indexStats (uid : String)
  | listSetting (uid : String) (setting : ListSetting)
  | limitSetting (uid : String) (setting : LimitSetting)
  | multiSearch
  | search (uid : String)
  | facetSearch (uid : String)
  | documents (uid : String)
  | document (uid id : String)
  | fetchDocuments (uid : String)
  | deleteBatch (uid : String)
  | deleteByFilter (uid : String)
  /-- Any other path. -/
  | other (path : String)
deriving DecidableEq, Inhabited

namespace Endpoint

/-- The path of something that belongs to an index. -/
def under (uid part : String) : String := "indexes/" ++ uid ++ "/" ++ part

def path : Endpoint → String
  | .health => "health"
  | .version => "version"
  | .stats => "stats"
  | .tasks => "tasks"
  | .task uid => "tasks/" ++ toString uid
  | .indexes => "indexes"
  | .swapIndexes => "swap-indexes"
  | .index uid => "indexes/" ++ uid
  | .indexStats uid => under uid "stats"
  | .listSetting uid setting => under uid ("settings/" ++ setting.path)
  | .limitSetting uid setting => under uid ("settings/" ++ setting.path)
  | .multiSearch => "multi-search"
  | .search uid => under uid "search"
  | .facetSearch uid => under uid "facet-search"
  | .documents uid => under uid "documents"
  | .document uid id => under uid ("documents/" ++ id)
  | .fetchDocuments uid => under uid "documents/fetch"
  | .deleteBatch uid => under uid "documents/delete-batch"
  | .deleteByFilter uid => under uid "documents/delete"
  | .other path => path

end Endpoint

end SearchClient
