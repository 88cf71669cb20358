/-
SearchClient/Index/Settings.lean

The settings that are wanted of an index, and reading and writing the settings it has.  A setting
that is already as wanted is not written again.
-/
import SearchClient.Task.Follow

namespace SearchClient

/-! ### Wanted settings -/

structure IndexSettings where
  primaryKey : String := "id"
  search : List String := []
  filters : List String := []
  sortable : List String := []
  ranking : List String := ["words", "typo", "proximity", "attribute", "sort", "exactness"]
  maxTotalHits : UInt64 := 10000
  maxValuesPerFacet : UInt64 := 1000
deriving DecidableEq, Inhabited

namespace IndexSettings

def toJson (s : IndexSettings) : Json :=
  .obj [("primary_key", .str s.primaryKey), ("search", Json.texts s.search),
    ("filters", Json.texts s.filters), ("sortable", Json.texts s.sortable),
    ("ranking", Json.texts s.ranking), ("max_total_hits", Json.ofUInt64 s.maxTotalHits),
    ("max_values_per_facet", Json.ofUInt64 s.maxValuesPerFacet)]

def fields : List String :=
  ["primary_key", "search", "filters", "sortable", "ranking", "max_total_hits",
   "max_values_per_facet"]

def ofJson (j : Json) : Decoded IndexSettings := do
  let r ← j.asRecord fields
  let absent : IndexSettings := {}
  let primaryKey ← match ← r.underEither "primary_key" "primaryKey" with
    | some key => key.asText
    | none => .ok absent.primaryKey
  let search ← r.orElse "search" absent.search (Json.asList Json.asText)
  let filters ← r.orElse "filters" absent.filters (Json.asList Json.asText)
  let sortable ← r.orElse "sortable" absent.sortable (Json.asList Json.asText)
  let ranking ← r.orElse "ranking" absent.ranking (Json.asList Json.asText)
  let maxTotalHits ← r.orElse "max_total_hits" absent.maxTotalHits Json.asUInt64
  let maxValuesPerFacet ← r.orElse "max_values_per_facet" absent.maxValuesPerFacet Json.asUInt64
  .ok { primaryKey, search, filters, sortable, ranking, maxTotalHits, maxValuesPerFacet }

end IndexSettings

/-- The list that is wanted. -/
def ListSetting.wanted (settings : IndexSettings) : ListSetting → List String
  | .filterable => settings.filters
  | .searchable => settings.search
  | .sortable => settings.sortable
  | .ranking => settings.ranking

/-- The number that is wanted. -/
def LimitSetting.wanted (settings : IndexSettings) : LimitSetting → UInt64
  | .totalHits => settings.maxTotalHits
  | .valuesPerFacet => settings.maxValuesPerFacet

/-! ### Reading and writing -/

namespace Client

variable {σ : Type} (c : Client σ)

def getList (index : String) (s : ListSetting) : Action σ (List String) :=
  c.call .getSettings (.read (.listSetting index s)) (Json.asList Json.asText)

def putList (index : String) (s : ListSetting) (values : List String) : Action σ Task :=
  c.enqueue .updateSettings .put (.listSetting index s)
    (some (Json.texts (s.normalize values)))

/-- Writes a list if it is not set already. -/
def syncList (index : String) (s : ListSetting) (values : List String) :
    Action σ (Option Task) := do
  let desired := s.normalize values
  let current ← c.getList index s
  if s.same current desired then return none
  else some <$> c.putList index s desired

def getLimit (index : String) (s : LimitSetting) : Action σ UInt64 :=
  c.call .getSettings (.read (.limitSetting index s)) s.ofJson

def setLimit (index : String) (s : LimitSetting) (value : UInt64) : Action σ Task :=
  c.enqueue .updateSettings .patch (.limitSetting index s) (some (s.toJson value))

/-- Writes a limit if it is not set already. -/
def syncLimit (index : String) (s : LimitSetting) (value : UInt64) : Action σ (Option Task) := do
  let current ← c.getLimit index s
  if current = value then return none
  else some <$> c.setLimit index s value

end Client

end SearchClient
