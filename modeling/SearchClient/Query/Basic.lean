/-
SearchClient/Query/Basic.lean

A search query: the index it goes to, the words searched for, filter trees that must all hold, an
order, the facets to be counted, and a window or a page of the hits.  A page takes precedence over
the window.  A query may ask for a random sample instead of an order, and it may ask for facets
to be counted as if its facet-blind groups were absent.
-/
import SearchClient.Filter.Compile

namespace SearchClient

/-! ### Order -/

inductive Direction where
  | asc | desc
deriving DecidableEq, Inhabited

namespace Direction

def text : Direction → String
  | .asc => "asc"
  | .desc => "desc"

def all : List Direction := [.asc, .desc]

/-- The loose reading: without the blanks around it and in lower case, the text is the word. -/
def ofText? (s : String) : Option Direction :=
  let spelled := Text.lower (Text.trim s.toList)
  all.find? fun d => d.text.toList = spelled

def toJson (d : Direction) : Json := .str d.text

def ofJson (j : Json) : Decoded Direction := do
  let name ← j.asName
  match all.find? fun d => d.text = name with
  | some d => .ok d
  | none => .error (.unknownName name)

end Direction

/-- A field to order by. -/
structure OrderEntry where
  field : String
  direction : Direction
deriving DecidableEq, Inhabited

def OrderEntry.text (e : OrderEntry) : String := e.field ++ ":" ++ e.direction.text

/-! ### Queries -/

structure Query where
  index : String
  search : String := ""
  /-- Trees that must all hold. -/
  wheres : List Node := []
  order : List OrderEntry := []
  facets : List String := []
  limit : UInt64 := 20
  offset : UInt64 := 0
  page : Option UInt64 := none
  hitsPerPage : Option UInt64 := none
  /-- Whether `limit` hits are to be drawn at random. -/
  randomOrder : Bool := false
  /-- Whether facets are counted apart from facet-blind groups. -/
  facetSplit : Bool := false
  /-- The attributes to search in; all if absent. -/
  attributes : Option (List String) := none
deriving Inhabited

namespace Query

/-- The filters that one pass over the trees leaves. -/
def filters (q : Query) (r : ListRendering) (pass : Pass) : Except ClientError Filters :=
  Filters.compile r pass q.wheres

/-- The texts of all filters. -/
def filterTexts (q : Query) (r : ListRendering) : Except ClientError (List String) :=
  Filters.texts <$> q.filters r .full

/-- The order as the engine takes it. -/
def sort (q : Query) : List String := q.order.map OrderEntry.text

end Query

end SearchClient
