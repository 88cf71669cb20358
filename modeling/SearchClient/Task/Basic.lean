/-
SearchClient/Task/Basic.lean

Tasks of the engine.  A write is queued and answered with a task, which is looked up until its
status is terminal.  A task is read from its summary, which names it `taskUid`, and from its full
form, which names it `uid`, and is written in full.  A status that is not known is neither success
nor failure, and never terminal.
-/
import SearchClient.Json.Decode
import SearchClient.Text.Commas

namespace SearchClient

/-! ### Status -/

inductive TaskStatus where
  | enqueued | processing | succeeded | failed | canceled
  | unknown
deriving DecidableEq, Inhabited

namespace TaskStatus

def text : TaskStatus → String
  | .enqueued => "enqueued"
  | .processing => "processing"
  | .succeeded => "succeeded"
  | .failed => "failed"
  | .canceled => "canceled"
  | .unknown => "unknown"

def isTerminal : TaskStatus → Bool
  | .succeeded | .failed | .canceled => true
  | _ => false

/-- The status of a name; `unknown` for any name that is not one. -/
def ofText (name : String) : TaskStatus :=
  ([enqueued, processing, succeeded, failed, canceled].find? fun s => s.text = name).getD unknown

def toJson (s : TaskStatus) : Json := .str s.text

def ofJson (j : Json) : Decoded TaskStatus := ofText <$> j.asName

end TaskStatus

/-! ### Tasks -/

/-- Why a task failed. -/
structure TaskFailure where
  code : String
  message : String := ""
  kind : Option String := none
  link : Option String := none
deriving DecidableEq, Inhabited

namespace TaskFailure

def toJson (f : TaskFailure) : Json :=
  .obj [("code", .str f.code), ("message", .str f.message),
    ("type", Json.orNull .str f.kind), ("link", Json.orNull .str f.link)]

def ofJson (j : Json) : Decoded TaskFailure := do
  let r ← j.asRecord ["code", "message", "type", "link"]
  let code ← r.required "code" Json.asText
  let message ← r.orElse "message" "" Json.asText
  let kind ← r.optional "type" Json.asText
  let link ← r.optional "link" Json.asText
  .ok { code, message, kind, link }

end TaskFailure

/-- A task as it was last seen. -/
structure Task where
  uid : UInt64
  indexUid : Option String := none
  status : TaskStatus
  kind : String := ""
  details : Option Json := none
  failure : Option TaskFailure := none
  duration : Option String := none
  enqueuedAt : Option String := none
  startedAt : Option String := none
  finishedAt : Option String := none
deriving DecidableEq, Inhabited

namespace Task

def toJson (t : Task) : Json :=
  .obj [("uid", Json.ofUInt64 t.uid),
    ("indexUid", Json.orNull .str t.indexUid),
    ("status", t.status.toJson),
    ("type", .str t.kind),
    ("details", t.details.getD .null),
    ("error", Json.orNull TaskFailure.toJson t.failure),
    ("duration", Json.orNull .str t.duration),
    ("enqueuedAt", Json.orNull .str t.enqueuedAt),
    ("startedAt", Json.orNull .str t.startedAt),
    ("finishedAt", Json.orNull .str t.finishedAt)]

def fields : List String :=
  ["uid", "indexUid", "status", "type", "details", "error", "duration", "enqueuedAt", "startedAt",
   "finishedAt"]

def ofJson (j : Json) : Decoded Task := do
  let r ← j.asRecord fields
  let uid ← match ← r.underEither "uid" "taskUid" with
    | some uid => uid.asUInt64
    | none => .error (.missing "uid")
  let indexUid ← r.optional "indexUid" Json.asText
  let status ← r.required "status" TaskStatus.ofJson
  let kind ← r.orElse "type" "" Json.asText
  let details ← r.optional "details" .ok
  let failure ← r.optional "error" TaskFailure.ofJson
  let duration ← r.optional "duration" Json.asText
  let enqueuedAt ← r.optional "enqueuedAt" Json.asText
  let startedAt ← r.optional "startedAt" Json.asText
  let finishedAt ← r.optional "finishedAt" Json.asText
  .ok { uid, indexUid, status, kind, details, failure, duration, enqueuedAt, startedAt, finishedAt }

end Task

/-! ### Lists of tasks -/

/-- A page of the list of tasks. -/
structure TaskList where
  results : List Task
  limit : Option UInt64 := none
  start : Option UInt64 := none
  next : Option UInt64 := none
  total : Option UInt64 := none
deriving DecidableEq, Inhabited

def TaskList.ofJson (j : Json) : Decoded TaskList := do
  let r ← j.asRecord ["results", "limit", "from", "next", "total"]
  let results ← r.required "results" (Json.asList Task.ofJson)
  let limit ← r.optional "limit" Json.asUInt64
  let start ← r.optional "from" Json.asUInt64
  let next ← r.optional "next" Json.asUInt64
  let total ← r.optional "total" Json.asUInt64
  .ok { results, limit, start, next, total }

/-- Which tasks to list: those of some indexes, with some status, from one uid downwards. -/
structure TaskFilter where
  indexUids : List String := []
  statuses : List TaskStatus := []
  limit : Option UInt64 := none
  start : Option UInt64 := none
deriving DecidableEq, Inhabited

/-- The filter as query pairs, lists with commas between their items.  What is empty or absent has
no pair. -/
def TaskFilter.toQuery (f : TaskFilter) : List (String × String) :=
  (if f.indexUids.isEmpty then [] else [("indexUids", Text.commaJoin f.indexUids)]) ++
  (if f.statuses.isEmpty then [] else
    [("statuses", Text.commaJoin (f.statuses.map TaskStatus.text))]) ++
  (f.limit.map fun n => ("limit", toString n)).toList ++
  (f.start.map fun n => ("from", toString n)).toList

end SearchClient
