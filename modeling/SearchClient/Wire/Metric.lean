/-
SearchClient/Wire/Metric.lean

What is counted while the client works, and the report of it.  A counter adds up, a histogram
keeps every value recorded; both are known by a name and by labels.  Of the times that searches
take, only their number is kept.
-/
import SearchClient.Json.Basic
import SearchClient.Table
import SearchClient.Text.Commas

namespace SearchClient

/-- The endpoint that a call belongs to. -/
inductive Operation where
  | search | multiSearch | facetSearch
  | listIndexes | getIndex | createIndex | deleteIndex | swapIndexes
  | addDocuments | getDocuments | getDocument | deleteDocument | deleteDocuments | deleteByQuery
  | getSettings | updateSettings
  | health | version | stats
  | listTasks | getTask
deriving DecidableEq, Inhabited

def Operation.text : Operation → String
  | .search => "search"
  | .multiSearch => "multi_search"
  | .facetSearch => "facet_search"
  | .listIndexes => "list_indexes"
  | .getIndex => "get_index"
  | .createIndex => "create_index"
  | .deleteIndex => "delete_index"
  | .swapIndexes => "swap_indexes"
  | .addDocuments => "add_documents"
  | .getDocuments => "get_documents"
  | .getDocument => "get_document"
  | .deleteDocument => "delete_document"
  | .deleteDocuments => "delete_documents"
  | .deleteByQuery => "delete_by_query"
  | .getSettings => "get_settings"
  | .updateSettings => "update_settings"
  | .health => "health"
  | .version => "version"
  | .stats => "stats"
  | .listTasks => "list_tasks"
  | .getTask => "get_task"

/-- How a search is carried out. -/
inductive SearchKind where
  | single | split | random | multi | facet
deriving DecidableEq, Inhabited

def SearchKind.text : SearchKind → String
  | .single => "single"
  | .split => "split"
  | .random => "random"
  | .multi => "multi"
  | .facet => "facet"

/-- How polling a task ends. -/
inductive PollEnding where
  | succeeded | failed | canceled | timedOut | cancelled
deriving DecidableEq, Inhabited

def PollEnding.text : PollEnding → String
  | .succeeded => "succeeded"
  | .failed => "failed"
  | .canceled => "canceled"
  | .timedOut => "timed_out"
  | .cancelled => "cancelled"

/-- One thing counted. -/
inductive Metric where
  | searched (kind : SearchKind) (succeeded : Bool)
  | searchTimed (kind : SearchKind)
  | companions (count : Nat)
  | roundTrips (count : Nat)
  | polled (ending : PollEnding) (checks : Nat)
  | apiError (operation : Operation) (code : String)
  | retried (operation : Operation)
deriving DecidableEq, Inhabited

namespace Metric

/-! ### The report -/

/-- What stands under a name and labels. -/
inductive Reading where
  | counter (total : Nat)
  | histogram (values : List Nat)
  /-- The number of values recorded. -/
  | timings (count : Nat)
deriving DecidableEq

/-- Two readings of one instrument together. -/
def Reading.add : Reading → Reading → Reading
  | .counter m, .counter n => .counter (m + n)
  | .histogram xs, .histogram ys => .histogram (xs ++ ys)
  | .timings m, .timings n => .timings (m + n)
  | _, r => r

def Reading.toJson : Reading → Json
  | .counter n => Json.ofNat n
  | .histogram values => .arr (values.map Json.ofNat)
  | .timings n => Json.ofNat n

/-- The name of an instrument with its labels in order. -/
def key (name : String) (labels : List (String × String)) : String :=
  "meili_connector_" ++ name ++ "\x7b" ++
    Text.commaJoin (labels.map fun l => l.1 ++ "=" ++ l.2) ++ "\x7d"

/-- The instruments that a metric goes to. -/
def readings : Metric → List (String × Reading)
  | .searched kind succeeded =>
    [(key "search_requests_total"
      [("kind", kind.text), ("status", if succeeded then "success" else "error")], .counter 1)]
  | .searchTimed kind => [(key "search_seconds" [("kind", kind.text)], .timings 1)]
  | .companions count => [(key "companion_queries_total" [], .counter count)]
  | .roundTrips count => [(key "random_sample_round_trips" [], .histogram [count])]
  | .polled ending checks =>
    [(key "task_polls_total" [("outcome", ending.text)], .counter 1),
     (key "task_poll_checks" [], .histogram [checks])]
  | .apiError operation code =>
    [(key "api_errors_total" [("code", code), ("operation", operation.text)], .counter 1)]
  | .retried operation => [(key "retries_total" [("operation", operation.text)], .counter 1)]

/-- Adds a reading to a report. -/
def record (report : Table Reading) (entry : String × Reading) : Table Reading :=
  match report.get? entry.1 with
  | some r => report.put entry.1 (r.add entry.2)
  | none => report.put entry.1 entry.2

/-- What some metrics add up to. -/
def report (metrics : List Metric) : Table Reading :=
  (metrics.flatMap readings).foldl record []

end Metric

end SearchClient
