/-
SearchClient/Proofs/Index/Engine.lean

An engine that keeps indexes.  Its store maps the uid of an index to a record of what is kept about it,
and counts the tasks that were queued.  It answers reads from the store; a write changes the store at
once, is answered with the task that it was queued as, and that task is told to have succeeded
whenever it is looked up.

Which change a request asks for is read out of the request (`Request.change?`), as an engine would
read it, so that a client that writes something else than it should changes the store otherwise
than it should.  `Change.change?_request` is the agreement of the two.

Two things are left open: what a new index has in its settings, and how the engine words that there
is no such index, apart from the one wording that means something else to the client.
-/
import SearchClient.Index.Apply
import SearchClient.Proofs.Search.Codec
import SearchClient.Proofs.Task.Settle

namespace SearchClient

/-! ### The store -/

/-- What is kept about an index. -/
structure IndexRecord where
  primaryKey : Option String
  lists : ListSetting → List String
  limits : LimitSetting → UInt64

/-- The indexes, and the uid of the next task. -/
structure IndexStore where
  indexes : String → Option IndexRecord
  nextTask : UInt64

/-- A change of an index. -/
inductive Change where
  | create (primaryKey : String)
  | list (setting : ListSetting) (values : List String)
  | limit (setting : LimitSetting) (value : UInt64)
deriving DecidableEq

/-- The record with the new value of a setting. -/
def IndexRecord.change (record : IndexRecord) : Change → IndexRecord
  | .create _ => record
  | .list s values => { record with lists := fun t => if t = s then values else record.lists t }
  | .limit s value => { record with limits := fun t => if t = s then value else record.limits t }

theorem IndexRecord.primaryKey_change (record : IndexRecord) (change : Change) :
    (record.change change).primaryKey = record.primaryKey := by cases change <;> rfl

theorem IndexRecord.primaryKey_foldl (record : IndexRecord) (changes : List Change) :
    (changes.foldl IndexRecord.change record).primaryKey = record.primaryKey := by
  induction changes generalizing record with
  | nil => rfl
  | cons change rest ih => rw [List.foldl_cons, ih, record.primaryKey_change]

namespace IndexStore

def put (store : IndexStore) (index : String) (record : IndexRecord) : IndexStore :=
  { store with indexes := fun other => if other = index then some record else store.indexes other }

@[simp] theorem put_self (store : IndexStore) (index : String) (record : IndexRecord) :
    (store.put index record).indexes index = some record := if_pos rfl

theorem put_other (store : IndexStore) {index other : String} (record : IndexRecord)
    (h : other ≠ index) : (store.put index record).indexes other = store.indexes other := if_neg h

end IndexStore

/-! ### Requests -/

/-- The name by which the engine tells a limit. -/
def LimitSetting.member : LimitSetting → String
  | .totalHits => "maxTotalHits"
  | .valuesPerFacet => "maxValuesPerFacet"

/-- A limit as it is written and told. -/
def LimitSetting.told (s : LimitSetting) (value : UInt64) : Json :=
  .obj [(s.member, Json.ofUInt64 value)]

/-- The request that asks for a change of an index. -/
def Change.request (index : String) : Change → Request
  | .create primaryKey =>
    { method := .post
      endpoint := .indexes
      body := some (.obj [("uid", .str index), ("primaryKey", .str primaryKey)]) }
  | .list s values =>
    { method := .put, endpoint := .listSetting index s, body := some (Json.texts values) }
  | .limit s value =>
    { method := .patch, endpoint := .limitSetting index s, body := some (s.told value) }

/-- The uid and the primary key of an index that is to be created. -/
def readCreation (j : Json) : Decoded (String × String) := do
  let r ← j.asRecord ["uid", "primaryKey"]
  let uid ← r.required "uid" Json.asText
  let primaryKey ← r.required "primaryKey" Json.asText
  .ok (uid, primaryKey)

/-- The value of a limit that is to be written. -/
def readLimit (s : LimitSetting) (j : Json) : Decoded UInt64 := do
  let r ← j.asRecord [s.member]
  r.required s.member Json.asUInt64

/-- The change that a request asks for, and of which index. -/
def Request.change? (r : Request) : Option (String × Change) :=
  match r.method, r.endpoint, r.body with
  | .post, .indexes, some j => (readCreation j).toOption.map fun c => (c.1, .create c.2)
  | .put, .listSetting index s, some j =>
    (j.asList Json.asText).toOption.map fun values => (index, .list s values)
  | .patch, .limitSetting index s, some j =>
    (readLimit s j).toOption.map fun value => (index, .limit s value)
  | _, _, _ => none

/-- Client and engine name the limits alike. -/
theorem LimitSetting.field_eq (s : LimitSetting) : s.field = s.member := by cases s <;> rfl

theorem LimitSetting.toJson_eq (s : LimitSetting) (value : UInt64) : s.toJson value = s.told value := by
  rw [toJson, field_eq, told]

theorem readLimit_told (s : LimitSetting) (value : UInt64) : readLimit s (s.told value) = .ok value := by
  have hfield : Json.Record.field? ⟨[(s.member, Json.ofUInt64 value)], false⟩ s.member =
      some (Json.ofUInt64 value) := List.lookup_cons_self
  rw [readLimit, LimitSetting.told, Json.asRecord, ok_bind, Json.Record.required_eq hfield,
    Json.asUInt64_ofUInt64]

theorem LimitSetting.ofJson_told (s : LimitSetting) (value : UInt64) :
    s.ofJson (s.told value) = .ok value := by
  rw [ofJson, field_eq]
  exact readLimit_told s value

/-- What a request asks for is what it was made for. -/
theorem Change.change?_request (index : String) (change : Change) :
    (change.request index).change? = some (index, change) := by
  cases change with
  | create primaryKey => rfl
  | list s values =>
    simp only [request, Request.change?, Json.asList_texts]
    rfl
  | limit s value =>
    simp only [request, Request.change?, readLimit_told]
    rfl

/-! ### Answers -/

/-- A task of which only the uid and the status are told. -/
theorem Task.ofJson_brief {key name : String} {status : TaskStatus} (uid : UInt64)
    (hkey : key = "uid" ∨ key = "taskUid") (hstatus : TaskStatus.ofText name = status) :
    Task.ofJson (.obj [(key, Json.ofUInt64 uid), ("status", .str name)]) =
      .ok { uid, status } := by
  -- the record is a variable from here on, as the uid in it must not be computed with
  obtain ⟨record, hrecord⟩ : ∃ record : Json.Record,
      record = ⟨[(key, Json.ofUInt64 uid), ("status", .str name)], false⟩ := ⟨_, rfl⟩
  have hread : Json.asRecord Task.fields (.obj [(key, Json.ofUInt64 uid), ("status", .str name)]) =
      .ok record := by rw [hrecord]; rfl
  have hkeyStatus : key ≠ "status" := by
    rcases hkey with rfl | rfl <;> decide
  have hid : record.underEither "uid" "taskUid" = .ok (some (Json.ofUInt64 uid)) := by
    rw [hrecord]
    rcases hkey with rfl | rfl <;> rfl
  have hname : record.required "status" TaskStatus.ofJson = .ok status := by
    have hfield : record.field? "status" = some (.str name) := by
      simp [hrecord, Json.Record.field?_cons, hkeyStatus.symm]
    rw [Json.Record.required_eq hfield, ← hstatus]
    rfl
  have absent : ∀ other, other ∉ ["uid", "taskUid", "status"] → record.field? other = none := by
    intro other hother
    have hne : other ≠ key := by
      rintro rfl
      rcases hkey with rfl | rfl <;> simp at hother
    have hne' : other ≠ "status" := by
      rintro rfl
      simp at hother
    rw [hrecord, Json.Record.field?_cons, if_neg hne, Json.Record.field?_cons, if_neg hne']
    rfl
  have text : ∀ other, other ∉ ["uid", "taskUid", "status"] →
      record.optional other Json.asText = .ok none :=
    fun other hother => Json.Record.optional_absent (absent other hother)
  rw [Task.ofJson, hread, ok_bind, hid, ok_bind]
  simp only [Json.asUInt64_ofUInt64, ok_bind]
  rw [text "indexUid" (by decide), ok_bind, hname, ok_bind,
    Json.Record.orElse_absent (absent "type" (by decide)), ok_bind,
    Json.Record.optional_absent (absent "details" (by decide)), ok_bind,
    Json.Record.optional_absent (absent "error" (by decide)), ok_bind,
    text "duration" (by decide), ok_bind, text "enqueuedAt" (by decide), ok_bind,
    text "startedAt" (by decide), ok_bind, text "finishedAt" (by decide), ok_bind]

/-- Succeeded tasks, as many as wanted, with the uids from one on. -/
def Task.succeededFrom (uid : UInt64) : Nat → List Task
  | 0 => []
  | n + 1 => { uid, status := .succeeded } :: Task.succeededFrom (uid + 1) n

theorem IndexInfo.ofJson_described (index : String) (primaryKey : Option String) :
    IndexInfo.ofJson (.obj [("uid", .str index), ("primaryKey", Json.orNull .str primaryKey)]) =
      .ok { uid := index, primaryKey } := by
  cases primaryKey <;> rfl

/-- What the engine does that the store does not say. -/
structure IndexEngine where
  /-- The lists of a new index. -/
  lists : ListSetting → List String
  /-- The limits of a new index. -/
  limits : LimitSetting → UInt64
  /-- How the engine words that there is no such index. -/
  missing : String → String
  missing_plain : ∀ index, ClientError.ofAttributeMessage? (missing index) = none

namespace IndexEngine

variable (e : IndexEngine)

/-- A new index. -/
def blank (primaryKey : String) : IndexRecord := ⟨some primaryKey, e.lists, e.limits⟩

/-- The store after a change of an index.  Only an index that is there is changed otherwise than by
creating it. -/
def perform (index : String) (change : Change) (store : IndexStore) : IndexStore :=
  let changed := match change, store.indexes index with
    | .create primaryKey, none => store.put index (e.blank primaryKey)
    | change, some record => store.put index (record.change change)
    | _, none => store
  { changed with nextTask := store.nextTask + 1 }

theorem perform_create {index : String} {store : IndexStore} (primaryKey : String)
    (h : store.indexes index = none) :
    e.perform index (.create primaryKey) store =
      { store.put index (e.blank primaryKey) with nextTask := store.nextTask + 1 } := by
  simp only [perform, h]

theorem perform_present {index : String} {store : IndexStore} {record : IndexRecord}
    (change : Change) (h : store.indexes index = some record) :
    e.perform index change store =
      { store.put index (record.change change) with nextTask := store.nextTask + 1 } := by
  cases change <;> simp only [perform, h]

theorem perform_create_self {index : String} {store : IndexStore} (primaryKey : String)
    (h : store.indexes index = none) :
    (e.perform index (.create primaryKey) store).indexes index = some (e.blank primaryKey) := by
  rw [e.perform_create primaryKey h]
  exact store.put_self index _

theorem perform_present_self {index : String} {store : IndexStore} {record : IndexRecord}
    (change : Change) (h : store.indexes index = some record) :
    (e.perform index change store).indexes index = some (record.change change) := by
  rw [e.perform_present change h]
  exact store.put_self index _

/-- A change of one index leaves the others as they are. -/
theorem perform_other {index other : String} (change : Change) (store : IndexStore)
    (h : other ≠ index) : (e.perform index change store).indexes other = store.indexes other := by
  rcases hrecord : store.indexes index with - | record
  · cases change with
    | create primaryKey =>
      rw [e.perform_create primaryKey hrecord]
      exact store.put_other _ h
    | list s values => simp only [perform, hrecord]
    | limit s value => simp only [perform, hrecord]
  · rw [e.perform_present change hrecord]
    exact store.put_other _ h

/-- The store after changes of an index, one after the other. -/
def performAll (index : String) (changes : List Change) (store : IndexStore) : IndexStore :=
  changes.foldl (fun store change => e.perform index change store) store

theorem performAll_self {index : String} {store : IndexStore} {record : IndexRecord}
    (h : store.indexes index = some record) (changes : List Change) :
    (e.performAll index changes store).indexes index =
      some (changes.foldl IndexRecord.change record) := by
  induction changes generalizing store record with
  | nil => exact h
  | cons change rest ih => exact ih (e.perform_present_self change h)

theorem performAll_other {index other : String} (changes : List Change) (store : IndexStore)
    (h : other ≠ index) : (e.performAll index changes store).indexes other = store.indexes other := by
  induction changes generalizing store with
  | nil => rfl
  | cons change rest ih => exact (ih _).trans (e.perform_other change store h)

/-- The reply to a read of an index. -/
def describe (index : String) (store : IndexStore) (body : IndexRecord → Json) : Reply :=
  match store.indexes index with
  | some record => ⟨200, body record⟩
  | none =>
    ⟨404, .obj [("code", .str "index_not_found"), ("message", .str (e.missing index))]⟩

theorem describe_present {index : String} {store : IndexStore} {record : IndexRecord}
    (body : IndexRecord → Json) (h : store.indexes index = some record) :
    e.describe index store body = ⟨200, body record⟩ := by
  rw [describe, h]

theorem describe_missing {index : String} {store : IndexStore} (body : IndexRecord → Json)
    (h : store.indexes index = none) :
    e.describe index store body = ⟨404, .obj [("code", .str "index_not_found"),
      ("message", .str (e.missing index))]⟩ := by
  rw [describe, h]

/-- The engine's word that there is no such index is understood as that. -/
theorem error_missing (index : String) :
    Reply.error ⟨404, .obj [("code", .str "index_not_found"),
      ("message", .str (e.missing index))]⟩ = .indexNotFound (e.missing index) := by
  have hparts : Reply.failure ⟨404, .obj [("code", .str "index_not_found"),
      ("message", .str (e.missing index))]⟩ = ("index_not_found", e.missing index) := rfl
  simp only [Reply.error, hparts, e.missing_plain]
  rfl

/-- The engine answers a request. -/
def answer (r : Request) (store : IndexStore) : Reply × IndexStore :=
  match r.change? with
  | some (index, change) =>
    (⟨202, .obj [("taskUid", Json.ofUInt64 store.nextTask), ("status", .str "enqueued")]⟩,
      e.perform index change store)
  | none =>
    (match r.endpoint with
      | .index index => e.describe index store fun record =>
        .obj [("uid", .str index), ("primaryKey", Json.orNull .str record.primaryKey)]
      | .listSetting index s => e.describe index store fun record => Json.texts (record.lists s)
      | .limitSetting index s => e.describe index store fun record =>
        s.told (record.limits s)
      | .task uid => ⟨200, .obj [("uid", Json.ofUInt64 uid), ("status", .str "succeeded")]⟩
      | _ => ⟨400, .obj [("code", .str "bad_request"), ("message", .str "Bad request.")]⟩, store)

/-- A write is queued, and done. -/
theorem answer_request (index : String) (change : Change) (store : IndexStore) :
    e.answer (change.request index) store =
      (⟨202, .obj [("taskUid", Json.ofUInt64 store.nextTask), ("status", .str "enqueued")]⟩,
        e.perform index change store) := by
  rw [answer, Change.change?_request]

/-! ### Transports -/

/-- The transport hosts the engine: the store is part of its state, and every request comes to the
answer of the engine.  The answers to look-ups of tasks take no longer than a limit. -/
def Hosts {σ : Type} (t : Transport σ) (view : σ → IndexStore) (limit : Duration) : Prop :=
  ∀ request line, ∃ latency line',
    t.Answers request line latency (.ok (e.answer request (view line)).1) line' ∧
      view line' = (e.answer request (view line)).2 ∧
      ((∃ uid, request = .read (.task uid)) → latency ≤ limit)

/-- A transport that is the store, and answers at once. -/
def transport : Transport IndexStore where
  depart _ store := (some 0, store)
  arrive request store := (.ok (e.answer request store).1, (e.answer request store).2)

theorem hosts_transport (limit : Duration) : e.Hosts e.transport id limit :=
  fun request store => ⟨0, (e.answer request store).2, ⟨store, rfl, rfl⟩, rfl,
    fun _ => Nat.zero_le limit⟩

end IndexEngine

end SearchClient
