/-
SearchClient/Index/Catalogue.lean

The indexes of the engine: listing them page by page, looking one up, creating, deleting and
swapping.
-/
import SearchClient.Task.Follow

namespace SearchClient

/-- What the engine tells about an index. -/
structure IndexInfo where
  uid : String
  primaryKey : Option String := none
  createdAt : Option String := none
  updatedAt : Option String := none
deriving DecidableEq, Inhabited

namespace IndexInfo

def toJson (i : IndexInfo) : Json :=
  .obj [("uid", .str i.uid), ("primaryKey", Json.orNull .str i.primaryKey),
    ("createdAt", Json.orNull .str i.createdAt), ("updatedAt", Json.orNull .str i.updatedAt)]

def ofJson (j : Json) : Decoded IndexInfo := do
  let r ← j.asRecord ["uid", "primaryKey", "createdAt", "updatedAt"]
  let uid ← r.required "uid" Json.asText
  let primaryKey ← r.optional "primaryKey" Json.asText
  let createdAt ← r.optional "createdAt" Json.asText
  let updatedAt ← r.optional "updatedAt" Json.asText
  .ok { uid, primaryKey, createdAt, updatedAt }

end IndexInfo

/-- A page of the list of indexes. -/
structure IndexPage where
  results : List IndexInfo
  offset : UInt64 := 0
  limit : UInt64 := 0
  total : UInt64 := 0
deriving DecidableEq, Inhabited

namespace IndexPage

def ofJson (j : Json) : Decoded IndexPage := do
  let r ← j.asRecord ["results", "offset", "limit", "total"]
  let results ← r.required "results" (Json.asList IndexInfo.ofJson)
  let offset ← r.orElse "offset" 0 Json.asUInt64
  let limit ← r.orElse "limit" 0 Json.asUInt64
  let total ← r.orElse "total" 0 Json.asUInt64
  .ok { results, offset, limit, total }

/-- Where the next page starts. -/
def next (p : IndexPage) : Nat := p.offset.toNat + p.results.length

/-- Whether the list ends with this page. -/
def isLast (p : IndexPage) : Bool := p.results.isEmpty || p.total.toNat ≤ p.next || p.limit = 0

/-- How many indexes are asked for at a time. -/
def size : UInt64 := 100

/-- The request for the page that starts at an offset. -/
def request (offset : UInt64) : Request :=
  { method := .get
    endpoint := .indexes
    query := [("offset", toString offset), ("limit", toString size)] }

end IndexPage

namespace Client

variable {σ : Type} (c : Client σ)

/-- The indexes from an offset on, after those already found. -/
def listIndexesFrom : Nat → UInt64 → List IndexInfo → Action σ (List IndexInfo)
  | 0, _, _ => Action.stall
  | n + 1, offset, found => do
    let page ← c.call .listIndexes (IndexPage.request offset) IndexPage.ofJson
    let found := found ++ page.results
    let next ← Action.word page.next
    if page.isLast then return found else listIndexesFrom n next found

/-- Every index. -/
def listIndexes : Action σ (List IndexInfo) := c.listIndexesFrom c.session.rounds 0 []

def getIndex (index : String) : Action σ IndexInfo :=
  c.call .getIndex (.read (.index index)) IndexInfo.ofJson

/-- Whether there is such an index: only the engine's word that it was not found means no. -/
def indexExists (index : String) : Action σ Bool := do
  match ← Action.attempt (c.getIndex index) with
  | .ok _ => return true
  | .error (.indexNotFound _) => return false
  | .error e => Action.fail e

def createIndex (index primaryKey : String) : Action σ Task :=
  c.enqueue .createIndex .post .indexes
    (some (.obj [("uid", .str index), ("primaryKey", .str primaryKey)]))

def deleteIndex (index : String) : Action σ Task :=
  c.enqueue .deleteIndex .delete (.index index) none

/-- Exchanges the contents of two indexes. -/
def swapIndexes (first second : String) : Action σ Task :=
  c.enqueue .swapIndexes .post .swapIndexes
    (some (.arr [.obj [("indexes", Json.texts [first, second])]]))

end Client

end SearchClient
