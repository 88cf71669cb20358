/-
SearchClient/Index/Apply.lean

Bringing an index in line with wanted settings, and making a new index like another one.

Applying settings writes only what differs, one write at a time: no write is sent before the task
of the one before it has succeeded.  Copying reads everything first, creates the target, queues all
six settings and then waits for them.
-/
import SearchClient.Index.Settings
import SearchClient.Index.Catalogue

namespace SearchClient.Client

variable {σ : Type} (c : Client σ)

/-- Creates an index that is missing. -/
def ensureIndex (index primaryKey : String) : Action σ (Option Task) := do
  if ← c.indexExists index then return none
  else some <$> c.createIndex index primaryKey

/-- The writes that may be needed, in the order in which they are made. -/
def settingSteps (index : String) (settings : IndexSettings) : List (Action σ (Option Task)) :=
  c.ensureIndex index settings.primaryKey ::
    (ListSetting.all.map fun s =>
      c.syncList index s (s.wanted settings)) ++
    (LimitSetting.all.map fun s =>
      c.syncLimit index s (s.wanted settings))

/-- Brings an index in line with settings; gives the tasks of the writes. -/
def applySettings (index : String) (settings : IndexSettings) (policy : PollPolicy) :
    Action σ (List Task) :=
  c.settleEach policy (c.settingSteps index settings)

/-- Creates an index with the primary key and the settings of another one, without its documents;
gives the tasks of the writes. -/
def copyIndex (source target : String) (policy : PollPolicy) : Action σ (List Task) := do
  let info ← c.getIndex source
  let filterable ← c.getList source .filterable
  let searchable ← c.getList source .searchable
  let sortable ← c.getList source .sortable
  let ranking ← c.getList source .ranking
  let totalHits ← c.getLimit source .totalHits
  let valuesPerFacet ← c.getLimit source .valuesPerFacet
  let creation ← c.createIndex target (info.primaryKey.getD "id")
  let created ← c.settle policy creation
  let queued ← [c.putList target .filterable filterable,
    c.putList target .searchable searchable,
    c.putList target .sortable sortable,
    c.putList target .ranking ranking,
    c.setLimit target .totalHits totalHits,
    c.setLimit target .valuesPerFacet valuesPerFacet].mapM id
  let settled ← queued.mapM (c.settle policy)
  return created :: settled

end SearchClient.Client
