/-
SearchClient/Engine/Setting.lean

The settings that the engine keeps for each index: four lists of texts and two limits.  Three of
the lists are sets, the ranking rules are a sequence.  The engine keeps the searchable attributes
`["*"]` when they are all of them, which is what an empty list asks for.
-/
import SearchClient.Json.Decode

namespace SearchClient

/-! ### Lists -/

/-- A setting that is a list of texts. -/
inductive ListSetting where
  | filterable | searchable | sortable | ranking
deriving DecidableEq, Inhabited

namespace ListSetting

def all : List ListSetting := [.filterable, .searchable, .sortable, .ranking]

def path : ListSetting → String
  | .filterable => "filterable-attributes"
  | .searchable => "searchable-attributes"
  | .sortable => "sortable-attributes"
  | .ranking => "ranking-rules"

/-- The list as the engine keeps it. -/
def normalize (s : ListSetting) (values : List String) : List String :=
  if s = .searchable ∧ values = [] then ["*"] else values

/-- Whether two lists set the same: in order for the ranking rules, as sets for the others. -/
def same (s : ListSetting) (current desired : List String) : Bool :=
  if s = .ranking then current == desired
  else current.all desired.contains && desired.all current.contains

end ListSetting

/-! ### Limits -/

/-- A setting that is a number. -/
inductive LimitSetting where
  | totalHits | valuesPerFacet
deriving DecidableEq, Inhabited

namespace LimitSetting

def all : List LimitSetting := [.totalHits, .valuesPerFacet]

def path : LimitSetting → String
  | .totalHits => "pagination"
  | .valuesPerFacet => "faceting"

/-- The name of the number among the settings of its path. -/
def field : LimitSetting → String
  | .totalHits => "maxTotalHits"
  | .valuesPerFacet => "maxValuesPerFacet"

def toJson (s : LimitSetting) (value : UInt64) : Json := .obj [(s.field, Json.ofUInt64 value)]

def ofJson (s : LimitSetting) (j : Json) : Decoded UInt64 := do
  let r ← j.asRecord [s.field]
  r.required s.field Json.asUInt64

end LimitSetting

end SearchClient
