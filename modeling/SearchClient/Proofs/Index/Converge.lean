/-
SearchClient/Proofs/Index/Converge.lean

Applying settings, against an engine that keeps indexes.  The state that a step sees is the store of
the engine, and what it sends are the errands of the world, all but the look-ups of tasks; `Action.Does`
says of an action which value it gives, which errands it sends and which store it leaves, whatever else
the world is.

Every step of applying settings looks at one setting and writes it if it is not met.  A write of one
setting leaves the others as they are, so what a step finds is what was there at the start, and one
induction over the settings (`Client.settleEach_sync_does`) gives the errands and the store of all of
them.

Main result: `Client.applySettings_converges`.
-/
import SearchClient.Proofs.Index.Wanted

namespace SearchClient

/-! ### Errands -/

/-- Any request but the look-up of a task. -/
def Request.isErrand (r : Request) : Bool :=
  match r.endpoint with
  | .task _ => !r.method.isRead
  | _ => true

namespace World

variable {σ : Type} (w : World σ)

/-- The requests that were sent, but for look-ups of tasks, in order. -/
def errands : List Request := w.sends.filter Request.isErrand

/-- The writes that were sent, in order. -/
def writes : List Request := w.sends.filter fun r => !r.method.isRead

/-- A write is an errand. -/
theorem writes_eq_errands : w.writes = w.errands.filter fun r => !r.method.isRead := by
  rw [writes, errands, List.filter_filter]
  refine List.filter_congr fun r _ => ?_
  rcases r with ⟨method, endpoint, query, body⟩
  cases endpoint <;> simp [Request.isErrand]

theorem errands_exchanged (request : Request) (answer : Except String Reply) (line : σ)
    (now : Duration) : (w.exchanged request answer line now).errands =
      w.errands ++ [request].filter Request.isErrand := by
  rw [errands, sends_exchanged, List.filter_append]
  rfl

theorem errands_counted (m : Metric) : (w.counted m).errands = w.errands := by
  rw [errands, sends_counted]
  rfl

theorem writes_of_errands {w w' : World σ} {errands : List Request}
    (h : w'.errands = w.errands ++ errands) :
    w'.writes = w.writes ++ errands.filter fun r => !r.method.isRead := by
  rw [writes_eq_errands, writes_eq_errands, h, List.filter_append]

end World

/-! ### Actions on the store -/

namespace Action

variable {σ α β : Type} {view : σ → IndexStore}

/-- In every world with this store, the action gives the value, sends the errands, and leaves the other
store. -/
def Does (view : σ → IndexStore) (a : Action σ α) (store : IndexStore) (x : α)
    (errands : List Request) (store' : IndexStore) : Prop :=
  ∀ w : World σ, view w.line = store →
    ∃ w', a.run.run w = (.ok x, w') ∧ view w'.line = store' ∧ w'.errands = w.errands ++ errands

theorem does_pure (x : α) (store : IndexStore) :
    (pure x : Action σ α).Does view store x [] store :=
  fun w hw => ⟨w, rfl, hw, (List.append_nil _).symm⟩

theorem Does.bind {a : Action σ α} {f : α → Action σ β} {x : α} {y : β}
    {store store₁ store₂ : IndexStore} {errands errands' : List Request}
    (h : a.Does view store x errands store₁) (hf : (f x).Does view store₁ y errands' store₂) :
    (a >>= f).Does view store y (errands ++ errands') store₂ := by
  intro w hw
  obtain ⟨w₁, hrun₁, hview₁, herrands₁⟩ := h w hw
  obtain ⟨w₂, hrun₂, hview₂, herrands₂⟩ := hf w₁ hview₁
  refine ⟨w₂, ?_, hview₂, ?_⟩
  · rw [run_bind_ok hrun₁, hrun₂]
  · rw [herrands₂, herrands₁, List.append_assoc]

theorem Does.map {a : Action σ α} (f : α → β) {x : α} {store store' : IndexStore}
    {errands : List Request} (h : a.Does view store x errands store') :
    (f <$> a).Does view store (f x) errands store' := by
  intro w hw
  obtain ⟨w', hrun, hview, herrands⟩ := h w hw
  exact ⟨w', by rw [run_map, hrun], hview, herrands⟩

theorem Does.attempt {a : Action σ α} {x : α} {store store' : IndexStore} {errands : List Request}
    (h : a.Does view store x errands store') :
    (attempt a).Does view store (.ok x) errands store' := by
  intro w hw
  obtain ⟨w', hrun, hview, herrands⟩ := h w hw
  exact ⟨w', by rw [run_attempt, hrun], hview, herrands⟩

end Action

/-! ### Calls to the engine -/

namespace Client

variable {σ α : Type} {c : Client σ} {e : IndexEngine} {view : σ → IndexStore} {limit : Duration}

/-- A call that the engine answers with success. -/
theorem call_does (hosts : e.Hosts c.session.transport view limit) (operation : Operation)
    {request : Request} {read : Json → Decoded α} {store store' : IndexStore} {reply : Reply} {x : α}
    (hreply : e.answer request store = (reply, store')) (hs : reply.isSuccess = true)
    (hx : read reply.body = .ok x) :
    (c.call operation request read).Does view store x ([request].filter Request.isErrand) store' := by
  intro w hw
  obtain ⟨latency, line, hanswers, hview, -⟩ := hosts request w.line
  rw [hw, hreply] at hanswers hview
  exact ⟨_, call_run_ok hanswers hs hx, hview, w.errands_exchanged _ _ _ _⟩

/-- A call that the engine answers with a failure that will not pass. -/
theorem attempt_call_does (hosts : e.Hosts c.session.transport view limit) (operation : Operation)
    {request : Request} {read : Json → Decoded α} {store store' : IndexStore} {reply : Reply}
    (hreply : e.answer request store = (reply, store')) (hs : reply.isSuccess = false)
    (hfinal : reply.error.isTransient = false) :
    (Action.attempt (c.call operation request read)).Does view store (.error reply.error)
      ([request].filter Request.isErrand) store' := by
  intro w hw
  obtain ⟨latency, line, hanswers, hview, -⟩ := hosts request w.line
  rw [hw, hreply] at hanswers hview
  have hcall : (c.call operation request read).run.run w = (.error (.failed reply.error), _) :=
    call_run_error hanswers hs hfinal
  refine ⟨_, by rw [Action.run_attempt, hcall], hview, ?_⟩
  rw [World.errands_counted, World.errands_exchanged]

/-- A write is queued, and done. -/
theorem enqueue_does (hosts : e.Hosts c.session.transport view limit) (operation : Operation)
    (index : String) (change : Change) (store : IndexStore) :
    (c.call operation (change.request index) Task.ofJson).Does view store
      { uid := store.nextTask, status := .enqueued } [change.request index]
      (e.perform index change store) := by
  have herrand : [change.request index].filter Request.isErrand = [change.request index] := by
    cases change <;> rfl
  rw [← herrand]
  exact call_does hosts operation (e.answer_request index change store) rfl
    (Task.ofJson_brief _ (.inr rfl) rfl)

/-- The task of a write has succeeded when it is looked up. -/
theorem settle_does (hosts : e.Hosts c.session.transport view limit) {policy : PollPolicy}
    (hlimit : limit ≤ policy.maxWait) (hrounds : 0 < c.session.rounds) (queued : Task)
    (store : IndexStore) :
    (c.settle policy queued).Does view store { uid := queued.uid, status := .succeeded } []
      store := by
  intro w hw
  obtain ⟨latency, line, hanswers, hview, hprompt⟩ := hosts (.read (.task queued.uid)) w.line
  rw [hw] at hview
  have hrun : (c.settle policy queued).run.run w = _ := settle_run hrounds hanswers
    (Nat.le_trans (hprompt ⟨queued.uid, rfl⟩) hlimit) rfl (Task.ofJson_brief _ (.inl rfl) rfl) rfl
  refine ⟨_, hrun, hview, ?_⟩
  rw [World.errands_counted, World.errands_exchanged]
  rfl

/-! ### Looking an index up -/

variable {index : String} {store : IndexStore} {record : IndexRecord}

/-- What is read of an index that is there. -/
theorem read_does (hosts : e.Hosts c.session.transport view limit)
    (h : store.indexes index = some record) (operation : Operation) {endpoint : Endpoint}
    {body : IndexRecord → Json} {read : Json → Decoded α} {x : α}
    (hanswer : e.answer (.read endpoint) store = (e.describe index store body, store))
    (hx : read (body record) = .ok x) :
    (c.call operation (.read endpoint) read).Does view store x
      ([.read endpoint].filter Request.isErrand) store := by
  rw [e.describe_present body h] at hanswer
  exact call_does hosts operation hanswer rfl hx

theorem getIndex_does (hosts : e.Hosts c.session.transport view limit)
    (h : store.indexes index = some record) :
    (c.getIndex index).Does view store { uid := index, primaryKey := record.primaryKey }
      [.read (.index index)] store :=
  read_does hosts h .getIndex rfl (IndexInfo.ofJson_described index record.primaryKey)

theorem indexExists_does_true (hosts : e.Hosts c.session.transport view limit)
    (h : store.indexes index = some record) :
    (c.indexExists index).Does view store true [.read (.index index)] store :=
  (getIndex_does hosts h).attempt.bind (Action.does_pure true store)

theorem indexExists_does_false (hosts : e.Hosts c.session.transport view limit)
    (h : store.indexes index = none) :
    (c.indexExists index).Does view store false [.read (.index index)] store := by
  have hreply : e.answer (.read (.index index)) store = (⟨404, .obj [("code",
      .str "index_not_found"), ("message", .str (e.missing index))]⟩, store) := by
    rw [← e.describe_missing _ h]
    rfl
  have hget : (Action.attempt (c.getIndex index)).Does view store
      (.error (.indexNotFound (e.missing index))) [.read (.index index)] store := by
    rw [← e.error_missing index]
    exact attempt_call_does hosts .getIndex hreply rfl (by rw [e.error_missing]; rfl)
  exact hget.bind (Action.does_pure false store)

theorem ensureIndex_does_present (hosts : e.Hosts c.session.transport view limit)
    (primaryKey : String) (h : store.indexes index = some record) :
    (c.ensureIndex index primaryKey).Does view store none [.read (.index index)] store :=
  (indexExists_does_true hosts h).bind (Action.does_pure none store)

theorem ensureIndex_does_missing (hosts : e.Hosts c.session.transport view limit)
    (primaryKey : String) (h : store.indexes index = none) :
    (c.ensureIndex index primaryKey).Does view store
      (some { uid := store.nextTask, status := .enqueued })
      [.read (.index index), (Change.create primaryKey).request index]
      (e.perform index (.create primaryKey) store) := by
  have hcreate := (enqueue_does hosts .createIndex index (.create primaryKey) store).map some
  exact (indexExists_does_false hosts h).bind hcreate

/-! ### One setting -/

/-- Looks at a setting, and writes it if it is not as wanted. -/
def sync (c : Client σ) (index : String) (settings : IndexSettings) :
    Setting → Action σ (Option Task)
  | .list s => c.syncList index s (s.wanted settings)
  | .limit s => c.syncLimit index s (s.wanted settings)

theorem settingSteps_eq (c : Client σ) (index : String) (settings : IndexSettings) :
    c.settingSteps index settings =
      c.ensureIndex index settings.primaryKey :: Setting.all.map (c.sync index settings) := rfl

theorem getList_does (hosts : e.Hosts c.session.transport view limit)
    (h : store.indexes index = some record) (s : ListSetting) :
    (c.getList index s).Does view store (record.lists s) [(Setting.list s).read index] store :=
  read_does hosts h .getSettings rfl (Json.asList_texts _)

theorem getLimit_does (hosts : e.Hosts c.session.transport view limit)
    (h : store.indexes index = some record) (s : LimitSetting) :
    (c.getLimit index s).Does view store (record.limits s) [(Setting.limit s).read index] store :=
  read_does hosts h .getSettings rfl (s.ofJson_told _)

variable {settings : IndexSettings} {t : Setting}

/-- A setting that is met is not written. -/
theorem sync_does_met (hosts : e.Hosts c.session.transport view limit)
    (h : store.indexes index = some record) (hmet : t.Met settings record) :
    (c.sync index settings t).Does view store none [t.read index] store := by
  cases t with
  | list s =>
    have hsame := (Setting.same_iff_met settings record s).mpr hmet
    refine (getList_does hosts h s).bind ?_
    rw [if_pos hsame]
    exact Action.does_pure none store
  | limit s =>
    have hsame : record.limits s = s.wanted settings := hmet
    refine (getLimit_does hosts h s).bind ?_
    rw [if_pos hsame]
    exact Action.does_pure none store

/-- A setting that is not met is written. -/
theorem sync_does_needed (hosts : e.Hosts c.session.transport view limit)
    (h : store.indexes index = some record) (hmet : ¬ t.Met settings record) :
    (c.sync index settings t).Does view store (some { uid := store.nextTask, status := .enqueued })
      [t.read index, (t.change settings).request index]
      (e.perform index (t.change settings) store) := by
  have hwrite := (enqueue_does hosts .updateSettings index (t.change settings) store).map some
  cases t with
  | list s =>
    have hsame : ¬ s.same (record.lists s) (s.normalize (s.wanted settings)) = true :=
      fun hs => hmet ((Setting.same_iff_met settings record s).mp hs)
    refine (getList_does hosts h s).bind ?_
    -- the list is normalized to be compared, and once more to be written
    rw [if_neg hsame, putList, s.normalize_normalize]
    exact hwrite
  | limit s =>
    have hsame : ¬ record.limits s = s.wanted settings := hmet
    refine (getLimit_does hosts h s).bind ?_
    rw [if_neg hsame, setLimit, s.toJson_eq]
    exact hwrite

/-! ### All settings -/

section SettleEach

variable {policy : PollPolicy} {step : Action σ (Option Task)} {rest : List (Action σ (Option Task))}
  {queued : Task} {tasks : List Task} {errands errands' : List Request}
  {store₁ store₂ : IndexStore}

/-- A step that writes nothing. -/
theorem settleEach_cons_none (hstep : step.Does view store none errands store₁)
    (hrest : (c.settleEach policy rest).Does view store₁ tasks errands' store₂) :
    (c.settleEach policy (step :: rest)).Does view store tasks (errands ++ errands') store₂ :=
  hstep.bind hrest

/-- A step whose write succeeds before the next step. -/
theorem settleEach_cons_some (hosts : e.Hosts c.session.transport view policy.maxWait)
    (hrounds : 0 < c.session.rounds) (hstep : step.Does view store (some queued) errands store₁)
    (hrest : (c.settleEach policy rest).Does view store₁ tasks errands' store₂) :
    (c.settleEach policy (step :: rest)).Does view store
      ({ uid := queued.uid, status := .succeeded } :: tasks) (errands ++ errands') store₂ := by
  have hsettle := settle_does hosts (Nat.le_refl policy.maxWait) hrounds queued store₁
  refine hstep.bind (hsettle.bind ?_)
  have hpure : (pure ({ uid := queued.uid, status := .succeeded } :: tasks) :
      Action σ (List Task)).Does view store₂ _ [] store₂ := Action.does_pure _ store₂
  rw [← List.append_nil errands']
  exact hrest.bind hpure

end SettleEach

/-- Induction over the settings: each step finds what was there at the start, since the steps before
it are about other settings. -/
theorem settleEach_sync_does {policy : PollPolicy}
    (hosts : e.Hosts c.session.transport view policy.maxWait) (hrounds : 0 < c.session.rounds)
    (settings : IndexSettings) {ts : List Setting} (hnodup : ts.Nodup)
    (h : store.indexes index = some record) :
    (c.settleEach policy (ts.map (c.sync index settings))).Does view store
      (Task.succeededFrom store.nextTask (Setting.needed settings record ts).length)
      (Setting.errands settings index record ts)
      (e.performAll index (Setting.needed settings record ts) store) := by
  induction ts generalizing store record with
  | nil => exact Action.does_pure [] store
  | cons t rest ih =>
    obtain ⟨hfresh, hnodup⟩ := List.nodup_cons.mp hnodup
    by_cases hmet : t.Met settings record
    · rw [Setting.needed_cons_of_met settings rest hmet,
        Setting.errands_cons_of_met settings index rest hmet]
      exact settleEach_cons_none (sync_does_met hosts h hmet) (ih hnodup h)
    · -- the record changes under the rest, but not what the rest needs
      rw [Setting.needed_cons_of_not_met settings hmet hfresh,
        Setting.errands_cons_of_not_met settings index hmet hfresh]
      have hwritten := e.perform_present_self (t.change settings) h
      exact settleEach_cons_some hosts hrounds (sync_does_needed hosts h hmet)
        (ih hnodup hwritten)

/-- Applying settings makes the changes that are due, in order. -/
theorem applySettings_does {policy : PollPolicy}
    (hosts : e.Hosts c.session.transport view policy.maxWait) (hrounds : 0 < c.session.rounds)
    (index : String) (settings : IndexSettings) (store : IndexStore) :
    (c.applySettings index settings policy).Does view store
      (Task.succeededFrom store.nextTask (e.due index settings store).length)
      (e.errands index settings store)
      (e.performAll index (e.due index settings store) store) := by
  rw [applySettings, settingSteps_eq]
  rcases h : store.indexes index with - | record
  · have hdue : e.due index settings store = .create settings.primaryKey ::
        Setting.needed settings (e.blank settings.primaryKey) Setting.all := by
      rw [IndexEngine.due, h]
    have herrands : e.errands index settings store =
        [.read (.index index), (Change.create settings.primaryKey).request index] ++
          Setting.errands settings index (e.blank settings.primaryKey) Setting.all := by
      rw [IndexEngine.errands, h]
      rfl
    -- the settings are compared with those of the new index
    have hcreated := e.perform_create_self settings.primaryKey h
    rw [hdue, herrands]
    exact settleEach_cons_some hosts hrounds
      (ensureIndex_does_missing hosts settings.primaryKey h)
      (settleEach_sync_does hosts hrounds settings Setting.nodup_all hcreated)
  · have hdue : e.due index settings store = Setting.needed settings record Setting.all := by
      rw [IndexEngine.due, h]
    have herrands : e.errands index settings store =
        [.read (.index index)] ++ Setting.errands settings index record Setting.all := by
      rw [IndexEngine.errands, h]
      rfl
    rw [hdue, herrands]
    exact settleEach_cons_none (ensureIndex_does_present hosts settings.primaryKey h)
      (settleEach_sync_does hosts hrounds settings Setting.nodup_all h)

/-- **Applying settings converges.**  Whatever an engine keeps about an index, and whether or not the
index is there, applying settings to it gives the tasks of the changes that are due, all succeeded.
These are the only writes that are sent, in order; they leave the index with the wanted settings and
every other index as it was.  By method and path, and but for the look-ups of tasks, the requests are the
look-up of the index, its creation if it was missing, and for each setting a read and, if it differed, a
write.  In every world with that store, applying the settings once more gives no task, sends no write and
leaves the store. -/
theorem applySettings_converges (policy : PollPolicy)
    (hosts : e.Hosts c.session.transport view policy.maxWait) (hrounds : 0 < c.session.rounds)
    (index : String) (settings : IndexSettings) (w : World σ) :
    let start := ((view w.line).indexes index).getD (e.blank settings.primaryKey)
    ∃ tasks w' record,
      (c.applySettings index settings policy).run.run w = (.ok tasks, w') ∧
      (view w'.line).indexes index = some record ∧ record.Meets settings ∧
      record.primaryKey = start.primaryKey ∧
      (∀ other, other ≠ index →
        (view w'.line).indexes other = (view w.line).indexes other) ∧
      w'.writes = w.writes ++ (e.due index settings (view w.line)).map (Change.request index) ∧
      w'.errands.map Request.label = w.errands.map Request.label ++ ("GET indexes/" ++ index) ::
        ((if ((view w.line).indexes index).isNone then ["POST indexes"] else []) ++
          Setting.all.flatMap fun t => ("GET " ++ t.place index) ::
            if t.Met settings start then [] else [t.writing ++ " " ++ t.place index]) ∧
      tasks = Task.succeededFrom (view w.line).nextTask (e.due index settings (view w.line)).length ∧
      ∀ v : World σ, view v.line = view w'.line →
        ∃ v', (c.applySettings index settings policy).run.run v = (.ok [], v') ∧
          view v'.line = view v.line ∧ v'.writes = v.writes := by
  intro start
  obtain ⟨w', hrun, hview, herrands⟩ :=
    applySettings_does hosts hrounds index settings (view w.line) w rfl
  obtain ⟨record, hrecord, hmeets, hprimary⟩ := e.performAll_due index settings
    (view w.line)
  rw [← hview] at hrecord
  have hothers : ∀ other, other ≠ index →
      (view w'.line).indexes other = (view w.line).indexes other := by
    intro other hne
    rw [hview]
    exact e.performAll_other _ _ hne
  have hwrites := World.writes_of_errands herrands
  rw [e.filter_errands] at hwrites
  have hlabels := congrArg (List.map Request.label) herrands
  rw [List.map_append, e.label_errands] at hlabels
  refine ⟨_, w', record, hrun, hrecord, hmeets, hprimary, hothers, hwrites, hlabels, rfl, ?_⟩
  -- nothing is due any more
  intro v hv
  obtain ⟨v', hagain, hview', herrands'⟩ :=
    applySettings_does hosts hrounds index settings (view w'.line) v hv
  have hwrites' := World.writes_of_errands herrands'
  rw [e.filter_errands, e.due_of_meets hrecord hmeets, List.map_nil, List.append_nil] at hwrites'
  rw [e.due_of_meets hrecord hmeets] at hagain hview'
  exact ⟨v', hagain, hview'.trans hv.symm, hwrites'⟩

end Client

/-! ### A shelf of indexes -/

namespace IndexEngine

/-- The message about an index that is missing. -/
def notFound (index : String) : String :=
  let text := "Index `" ++ index ++ "` not found."
  -- a uid may itself be the message about an attribute
  if ClientError.ofAttributeMessage? text = none then text else "Index not found."

/-- An engine that lets new indexes be searched in everything. -/
def shelf : IndexEngine where
  lists s := if s = .searchable then ["*"] else
    if s = .ranking then ["words", "typo", "proximity", "attribute", "sort", "exactness"] else []
  limits
    | .totalHits => 1000
    | .valuesPerFacet => 100
  missing := notFound
  missing_plain index := by
    dsimp only [notFound]
    split
    · next h => exact h
    · decide

/-- A client of an engine. -/
def client (e : IndexEngine) : Client IndexStore :=
  { session := { transport := e.transport, rounds := 1 } }

end IndexEngine

/-- What is wanted of an index of phones. -/
def phoneSettings : IndexSettings := { search := ["title"], filters := ["color", "brand"] }

/-- A new index of phones: its sortable attributes and its ranking rules are as wanted. -/
theorem Client.applySettings_converges_phones : ∃ tasks w' record,
    (IndexEngine.shelf.client.applySettings "phones" phoneSettings {}).run.run
        { line := ⟨fun _ => none, 7⟩ } = (.ok tasks, w') ∧
      w'.line.indexes "phones" = some record ∧ record.Meets phoneSettings ∧
      record.primaryKey = some "id" ∧
      w'.writes = [.create "id", .list .filterable ["color", "brand"], .list .searchable ["title"],
        .limit .totalHits 10000, .limit .valuesPerFacet 1000].map (Change.request "phones") ∧
      w'.errands.map Request.label =
        ["GET indexes/phones", "POST indexes",
          "GET indexes/phones/settings/filterable-attributes",
          "PUT indexes/phones/settings/filterable-attributes",
          "GET indexes/phones/settings/searchable-attributes",
          "PUT indexes/phones/settings/searchable-attributes",
          "GET indexes/phones/settings/sortable-attributes",
          "GET indexes/phones/settings/ranking-rules",
          "GET indexes/phones/settings/pagination", "PATCH indexes/phones/settings/pagination",
          "GET indexes/phones/settings/faceting", "PATCH indexes/phones/settings/faceting"] ∧
      tasks = [7, 8, 9, 10, 11].map fun uid => { uid, status := .succeeded } := by
  obtain ⟨tasks, w', record, hrun, hrecord, hmeets, hprimary, -, hwrites, hlabels, htasks, -⟩ :=
    Client.applySettings_converges (c := IndexEngine.shelf.client) {}
      (IndexEngine.shelf.hosts_transport _) Nat.one_pos "phones" phoneSettings
      { line := ⟨fun _ => none, 7⟩ }
  exact ⟨tasks, w', record, hrun, hrecord, hmeets, hprimary, hwrites, hlabels, htasks⟩

end SearchClient
