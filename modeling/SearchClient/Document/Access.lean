/-
SearchClient/Document/Access.lean

The documents of an index: adding, browsing, fetching and deleting them.  A refusal of what was
asked of a browse is an error of its parameters, unless the refusal has a cause of its own.
-/
import SearchClient.Task.Follow

namespace SearchClient

/-! ### Browsing -/

/-- Which documents to browse, and which of their fields. -/
structure DocumentsQuery where
  offset : Option UInt64 := none
  limit : Option UInt64 := none
  fields : Option (List String) := none
  filter : List String := []
deriving DecidableEq, Inhabited

namespace DocumentsQuery

def window (offset limit : UInt64) : DocumentsQuery :=
  { offset := some offset, limit := some limit }

def toJson (q : DocumentsQuery) : Json :=
  Json.present [
    ("offset", q.offset.map Json.ofUInt64),
    ("limit", q.limit.map Json.ofUInt64),
    ("fields", q.fields.map Json.texts),
    ("filter", if q.filter.isEmpty then none else some (Json.texts q.filter))]

end DocumentsQuery

structure DocumentsPage where
  results : List Json
  offset : UInt64 := 0
  limit : UInt64 := 0
  total : UInt64 := 0
deriving DecidableEq, Inhabited

def DocumentsPage.ofJson (j : Json) : Decoded DocumentsPage := do
  let r ← j.asRecord ["results", "offset", "limit", "total"]
  let results ← r.required "results" (Json.asList .ok)
  let offset ← r.orElse "offset" 0 Json.asUInt64
  let limit ← r.orElse "limit" 0 Json.asUInt64
  let total ← r.orElse "total" 0 Json.asUInt64
  .ok { results, offset, limit, total }

/-- The error of a browse. -/
def ClientError.ofBrowse : ClientError → ClientError
  | .api status code message =>
    if 400 ≤ status ∧ status < 500 then .invalidParameter message else .api status code message
  | e => e

namespace Client

variable {σ α : Type} (c : Client σ)

def getDocuments (index : String) (query : DocumentsQuery) : Action σ DocumentsPage := do
  let answer ← Action.attempt (c.send .getDocuments
    { method := .post, endpoint := .fetchDocuments index, body := some query.toJson })
  let reply ← Action.ofExcept (answer.mapError ClientError.ofBrowse)
  Action.ofExcept (reply.decode DocumentsPage.ofJson)

def getDocument (index id : String) (read : Json → Decoded α) : Action σ α :=
  c.call .getDocument (.read (.document index id)) read

/-! ### Writing -/

def addDocuments (index : String) (documents : List Json) : Action σ Task :=
  c.enqueue .addDocuments .post (.documents index) (some (.arr documents))

def deleteDocument (index id : String) : Action σ Task :=
  c.enqueue .deleteDocument .delete (.document index id) none

def deleteDocuments (index : String) (ids : List Json) : Action σ Task :=
  c.enqueue .deleteDocuments .post (.deleteBatch index) (some (.arr ids))

/-- Deletes every document that the filters of a query let through. -/
def deleteByQuery (q : Query) : Action σ Task := do
  let filter ← Action.ofExcept (q.filterTexts c.config.listRendering)
  c.enqueue .deleteByQuery .post (.deleteByFilter q.index)
    (some (.obj [("filter", Json.texts filter)]))

end Client

end SearchClient
