/-
SearchClient/Proofs/Index/Copy.lean

Copying an index, against an engine that keeps indexes.  What is read of the source are the changes that a
new index has to undergo to be like it (`IndexRecord.copied`), so a copy is a creation, waited for, and
then these changes, all queued before any of them is waited for (`Client.copyIndex_eq`).

That an action only adds to the history (`Action.Grows`) turns what it does to the store into what it adds
to the history, and so places the writes of the settings after the creation was seen to have succeeded.  By
their paths, which tell the index, they are no writes of the source.

Main result: `Client.copyIndex_replays`.
-/
import SearchClient.Proofs.Index.Sequence

namespace SearchClient

variable {σ α β : Type}

/-! ### Changes that make a copy -/

namespace IndexRecord

/-- The changes that make a new index like this one.  To search in nothing is to search in everything. -/
def copied (record : IndexRecord) : List Change :=
  [.list .filterable (record.lists .filterable),
    .list .searchable
      (if record.lists .searchable = [] then ["*"] else record.lists .searchable),
    .list .sortable (record.lists .sortable),
    .list .ranking (record.lists .ranking),
    .limit .totalHits (record.limits .totalHits),
    .limit .valuesPerFacet (record.limits .valuesPerFacet)]

/-- The primary key is that of the record or else `id`, and the settings are those of the record. -/
structure IsCopyOf (copy record : IndexRecord) : Prop where
  primaryKey : copy.primaryKey = some (record.primaryKey.getD "id")
  filterable : copy.lists .filterable = record.lists .filterable
  /-- To search in nothing is to search in everything. -/
  searchable : copy.lists .searchable =
    if record.lists .searchable = [] then ["*"] else record.lists .searchable
  sortable : copy.lists .sortable = record.lists .sortable
  ranking : copy.lists .ranking = record.lists .ranking
  totalHits : copy.limits .totalHits = record.limits .totalHits
  valuesPerFacet : copy.limits .valuesPerFacet = record.limits .valuesPerFacet

/-- The changes are about every setting, so nothing of a new index stays but its primary key. -/
theorem isCopyOf_foldl {record blank : IndexRecord}
    (h : blank.primaryKey = some (record.primaryKey.getD "id")) :
    (record.copied.foldl change blank).IsCopyOf record where
  primaryKey := h
  filterable := rfl
  searchable := rfl
  sortable := rfl
  ranking := rfl
  totalHits := rfl
  valuesPerFacet := rfl

/-- They are written in the order of the settings. -/
theorem label_copied (record : IndexRecord) (index : String) :
    (record.copied.map (Change.request index)).map Request.label =
      Setting.all.map fun t => t.writing ++ " " ++ t.place index := by
  have hwrite : ∀ (t : Setting) (r : Request), r.method.text = t.writing →
      r.endpoint = t.endpoint index → r.label = t.writing ++ " " ++ t.place index := by
    intro t r hmethod hendpoint
    rw [Request.label, hmethod, hendpoint, t.path_endpoint]
  simp only [copied, Setting.all, ListSetting.all, LimitSetting.all, List.map_cons, List.map_nil,
    List.cons_append, List.nil_append]
  rw [hwrite (.list .filterable) _ rfl rfl, hwrite (.list .searchable) _ rfl rfl,
    hwrite (.list .sortable) _ rfl rfl, hwrite (.list .ranking) _ rfl rfl,
    hwrite (.limit .totalHits) _ rfl rfl, hwrite (.limit .valuesPerFacet) _ rfl rfl]

end IndexRecord

/-- The changes bring a new index with the right primary key in line. -/
theorem IndexEngine.performAll_copied (e : IndexEngine) {record : IndexRecord} {store : IndexStore}
    {index : String} (h : store.indexes index = some (e.blank (record.primaryKey.getD "id"))) :
    ∃ copy, (e.performAll index record.copied store).indexes index = some copy ∧
      copy.IsCopyOf record :=
  ⟨_, e.performAll_self h record.copied, IndexRecord.isCopyOf_foldl rfl⟩

/-! ### Adding to the history -/

/-- The errands among some events. -/
def errandsOf (events : List Event) : List Request :=
  (events.filterMap Event.sent?).filter Request.isErrand

/-- The writes are the errands that are no reads. -/
theorem map_writesOf (events : List Event) :
    (writesOf events).map Prod.fst = (errandsOf events).filter fun r => !r.method.isRead := by
  induction events with
  | nil => rfl
  | cons event events ih =>
    cases event with
    | sent request =>
      have hsent : errandsOf (.sent request :: events) =
          [request].filter Request.isErrand ++ errandsOf events := by
        rw [errandsOf, errandsOf, ← List.filter_append]
        rfl
      have hwrite : ([request].filter Request.isErrand).filter (fun r => !r.method.isRead) =
          if request.method.isRead then [] else [request] := by
        rcases request with ⟨method, endpoint, query, body⟩
        cases method <;> cases endpoint <;> rfl
      rw [hsent, List.filter_append, hwrite, ← ih, writesOf]
      split <;> rfl
    | _ => exact ih

theorem World.errands_of_history {w w' : World σ} {events : List Event}
    (h : w'.history = w.history ++ events) : w'.errands = w.errands ++ errandsOf events := by
  rw [errands, sends, h, List.filterMap_append, List.filter_append]
  rfl

namespace Action

/-- Nothing is taken back from the history. -/
def Grows (a : Action σ α) : Prop := ∀ w, w.history <+: (a.run.run w).2.history

theorem grows_of_records {a : Action σ α} {P : World σ → Except Stop α → List Event → World σ → Prop}
    (h : ∀ w, a.Records w (P w)) : a.Grows := by
  intro w
  obtain ⟨events, hevents, -⟩ := h w
  exact ⟨events, hevents.symm⟩

theorem grows_pure (x : α) : (pure x : Action σ α).Grows := fun _ => List.prefix_rfl

theorem Grows.bind {a : Action σ α} {f : α → Action σ β} (h : a.Grows) (hf : ∀ x, (f x).Grows) :
    (a >>= f).Grows := by
  intro w
  have hfirst := h w
  rw [run_bind]
  rcases hrun : a.run.run w with ⟨e | x, w'⟩
  · rw [hrun] at hfirst
    exact hfirst
  · rw [hrun] at hfirst
    exact hfirst.trans (hf x w')

theorem grows_mapM {f : α → Action σ β} (hf : ∀ x, (f x).Grows) (items : List α) :
    (items.mapM f).Grows := by
  induction items with
  | nil => exact grows_pure []
  | cons x items ih =>
    rw [List.mapM_cons]
    exact (hf x).bind fun _ => ih.bind fun _ => grows_pure _

variable {view : σ → IndexStore}

/-- What an action does is in the events that it adds. -/
theorem Does.events {a : Action σ α} {x : α} {store store' : IndexStore} {errands : List Request}
    (h : a.Does view store x errands store') (hgrows : a.Grows) {w : World σ}
    (hw : view w.line = store) :
    ∃ w' events, a.run.run w = (.ok x, w') ∧ view w'.line = store' ∧
      w'.history = w.history ++ events ∧ errandsOf events = errands := by
  obtain ⟨w', hrun, hview, herrands⟩ := h w hw
  obtain ⟨events, hevents⟩ := hgrows w
  rw [hrun] at hevents
  have hadded := World.errands_of_history hevents.symm
  exact ⟨w', events, hrun, hview, hevents.symm,
    List.append_cancel_left (hadded.symm.trans herrands)⟩

end Action

namespace Client

variable (c : Client σ)

theorem call_grows (operation : Operation) (request : Request) (read : Json → Decoded α) :
    (c.call operation request read).Grows :=
  Action.grows_of_records fun w => c.call_records operation request read w

theorem settle_grows (policy : PollPolicy) (task : Task) : (c.settle policy task).Grows :=
  (Action.grows_of_records fun w => c.session.poll_records policy {} task w).bind fun _ =>
    Action.grows_of_records (P := fun _ _ _ _ => True) fun _ => Action.records_ofExcept trivial

/-! ### A copy in steps -/

/-- The primary key of a copy, and the changes that make it one. -/
def readChanges (source : String) : Action σ (String × List Change) := do
  let info ← c.getIndex source
  let filterable ← c.getList source .filterable
  let searchable ← c.getList source .searchable
  let sortable ← c.getList source .sortable
  let ranking ← c.getList source .ranking
  let totalHits ← c.getLimit source .totalHits
  let valuesPerFacet ← c.getLimit source .valuesPerFacet
  return (info.primaryKey.getD "id",
    [.list .filterable filterable,
      .list .searchable (if searchable = [] then ["*"] else searchable),
      .list .sortable sortable, .list .ranking ranking,
      .limit .totalHits totalHits, .limit .valuesPerFacet valuesPerFacet])

/-- Queues changes of settings, and then waits for all of them. -/
def makeChanges (index : String) (policy : PollPolicy) (changes : List Change) :
    Action σ (List Task) := do
  let queued ← changes.mapM fun change =>
    c.call .updateSettings (change.request index) Task.ofJson
  queued.mapM (c.settle policy)

theorem copyIndex_eq (source target : String) (policy : PollPolicy) :
    c.copyIndex source target policy = do
      let (primaryKey, changes) ← c.readChanges source
      let created ← c.createIndex target primaryKey >>= c.settle policy
      let settled ← c.makeChanges target policy changes
      return created :: settled := by
  have hsearchable : ∀ values : List String, ListSetting.searchable.normalize values =
      if values = [] then ["*"] else values := fun values => by simp [ListSetting.normalize]
  simp only [copyIndex, readChanges, makeChanges, bind_assoc, pure_bind, List.mapM_cons,
    List.mapM_nil, putList, setLimit, LimitSetting.toJson_eq, hsearchable]
  rfl

theorem readChanges_grows (source : String) : (c.readChanges source).Grows := by
  refine (c.call_grows _ _ _).bind fun _ => ?_
  refine (c.call_grows _ _ _).bind fun _ => (c.call_grows _ _ _).bind fun _ => ?_
  refine (c.call_grows _ _ _).bind fun _ => (c.call_grows _ _ _).bind fun _ => ?_
  exact (c.call_grows _ _ _).bind fun _ => (c.call_grows _ _ _).bind fun _ => Action.grows_pure _

theorem makeChanges_grows (index : String) (policy : PollPolicy) (changes : List Change) :
    (c.makeChanges index policy changes).Grows :=
  (Action.grows_mapM (fun _ => c.call_grows _ _ _) changes).bind
    (Action.grows_mapM (c.settle_grows policy))

variable {c} {e : IndexEngine} {view : σ → IndexStore} {store : IndexStore} {record : IndexRecord}

/-- What is read of an index to copy it. -/
def copyReads (source : String) : List Request :=
  .read (.index source) :: Setting.all.map (Setting.read source)

theorem label_copyReads (source : String) : (copyReads source).map Request.label =
    ("GET indexes/" ++ source) :: Setting.all.map fun t => "GET " ++ t.place source := by
  rw [copyReads, List.map_cons, Request.label_read_index, List.map_map]
  exact congrArg (_ :: ·) (List.map_congr_left fun t _ => t.label_read source)

theorem readChanges_does {limit : Duration} (hosts : e.Hosts c.session.transport view limit)
    {source : String} (h : store.indexes source = some record) :
    (c.readChanges source).Does view store (record.primaryKey.getD "id", record.copied)
      (copyReads source) store := by
  -- seven reads, none of which writes
  refine (getIndex_does hosts h).bind ((getList_does hosts h .filterable).bind ?_)
  refine (getList_does hosts h .searchable).bind ((getList_does hosts h .sortable).bind ?_)
  refine (getList_does hosts h .ranking).bind ((getLimit_does hosts h .totalHits).bind ?_)
  exact (getLimit_does hosts h .valuesPerFacet).bind (Action.does_pure _ store)

/-- Changes are queued one after the other, and each is made at once. -/
theorem queueChanges_does {limit : Duration} (hosts : e.Hosts c.session.transport view limit)
    (index : String) (changes : List Change) (store : IndexStore) :
    ∃ queued : List Task,
      (changes.mapM fun change =>
        c.call .updateSettings (change.request index) Task.ofJson).Does view store queued
          (changes.map (Change.request index)) (e.performAll index changes store) ∧
      queued.map (fun t => ({ uid := t.uid, status := .succeeded } : Task)) =
        Task.succeededFrom store.nextTask changes.length := by
  induction changes generalizing store with
  | nil => exact ⟨[], Action.does_pure [] store, rfl⟩
  | cons change changes ih =>
    obtain ⟨queued, hdoes, hqueued⟩ := ih (e.perform index change store)
    refine ⟨{ uid := store.nextTask, status := .enqueued } :: queued, ?_, ?_⟩
    · rw [List.mapM_cons]
      have hwrite := enqueue_does hosts .updateSettings index change store
      rw [List.map_cons, ← List.append_nil (List.map _ changes)]
      exact hwrite.bind (hdoes.bind (Action.does_pure _ _))
    · rw [List.map_cons, hqueued]
      rfl

/-- Tasks are waited for one after the other. -/
theorem settleAll_does {policy : PollPolicy}
    (hosts : e.Hosts c.session.transport view policy.maxWait) (hrounds : 0 < c.session.rounds)
    (queued : List Task) (store : IndexStore) :
    (queued.mapM (c.settle policy)).Does view store
      (queued.map fun t => { uid := t.uid, status := .succeeded }) [] store := by
  induction queued with
  | nil => exact Action.does_pure [] store
  | cons task queued ih =>
    rw [List.mapM_cons]
    have hsettle := settle_does hosts (Nat.le_refl policy.maxWait) hrounds task store
    exact hsettle.bind (ih.bind (Action.does_pure _ store))

theorem makeChanges_does {policy : PollPolicy}
    (hosts : e.Hosts c.session.transport view policy.maxWait) (hrounds : 0 < c.session.rounds)
    (index : String) (changes : List Change) (store : IndexStore) :
    (c.makeChanges index policy changes).Does view store
      (Task.succeededFrom store.nextTask changes.length) (changes.map (Change.request index))
      (e.performAll index changes store) := by
  obtain ⟨queued, hdoes, hqueued⟩ := queueChanges_does hosts index changes store
  have hall := hdoes.bind (settleAll_does hosts hrounds queued _)
  rw [hqueued, List.append_nil] at hall
  exact hall

/-- A write is answered with the task that it is queued as. -/
theorem enqueue_run {limit : Duration} (hosts : e.Hosts c.session.transport view limit)
    (operation : Operation) (index : String) (change : Change) (w : World σ) :
    ∃ w' answer, (c.call operation (change.request index) Task.ofJson).run.run w =
        (.ok { uid := (view w.line).nextTask, status := .enqueued }, w') ∧
      view w'.line = e.perform index change (view w.line) ∧
      w'.history = w.history ++
        [.sent (change.request index), .answered (change.request index) answer] ∧
      Reply.receivedAs Task.ofJson answer =
        .ok { uid := (view w.line).nextTask, status := .enqueued } := by
  obtain ⟨latency, line, hanswers, hview, -⟩ := hosts (change.request index) w.line
  rw [e.answer_request] at hanswers hview
  have hqueued : Task.ofJson (.obj [("taskUid", Json.ofUInt64 (view w.line).nextTask),
      ("status", .str "enqueued")]) = .ok { uid := (view w.line).nextTask, status := .enqueued } :=
    Task.ofJson_brief _ (.inr rfl) rfl
  exact ⟨_, _, call_run_ok hanswers rfl hqueued, hview, rfl, Reply.receivedAs_ok rfl hqueued⟩

/-- The task of a write is looked up, and has succeeded. -/
theorem settle_fetched {policy : PollPolicy}
    (hosts : e.Hosts c.session.transport view policy.maxWait) (hrounds : 0 < c.session.rounds)
    (queued : Task) (w : World σ) :
    ∃ w' answer more, (c.settle policy queued).run.run w =
        (.ok { uid := queued.uid, status := .succeeded }, w') ∧
      view w'.line = view w.line ∧
      w'.history = w.history ++ [.sent (.read (.task queued.uid)),
        .answered (.read (.task queued.uid)) answer, .counted more] ∧
      Reply.receivedAs Task.ofJson answer = .ok { uid := queued.uid, status := .succeeded } := by
  obtain ⟨latency, line, hanswers, hview, hprompt⟩ := hosts (.read (.task queued.uid)) w.line
  -- the reply, which must not be computed with
  obtain ⟨reply, hreply⟩ : ∃ reply : Reply, reply =
      ⟨200, .obj [("uid", Json.ofUInt64 queued.uid), ("status", .str "succeeded")]⟩ := ⟨_, rfl⟩
  have hanswer : e.answer (.read (.task queued.uid)) (view w.line) = (reply, view w.line) := by
    rw [hreply]
    rfl
  have hs : reply.isSuccess = true := by rw [hreply]; rfl
  have hdone : Task.ofJson reply.body = .ok { uid := queued.uid, status := .succeeded } := by
    rw [hreply]
    exact Task.ofJson_brief _ (.inl rfl) rfl
  rw [hanswer] at hanswers hview
  have hrun := settle_run hrounds hanswers (hprompt ⟨queued.uid, rfl⟩) hs hdone rfl
  refine ⟨_, .ok reply, .polled .succeeded 1, hrun, hview, ?_, Reply.receivedAs_ok hs hdone⟩
  show (w.history ++ _) ++ _ = _
  rw [List.append_assoc]
  rfl

/-- A creation that is waited for was carried out. -/
theorem create_carried {policy : PollPolicy}
    (hosts : e.Hosts c.session.transport view policy.maxWait) (hrounds : 0 < c.session.rounds)
    (index primaryKey : String) (w : World σ) :
    let created : Task := { uid := (view w.line).nextTask, status := .succeeded }
    ∃ w' events after,
      (c.createIndex index primaryKey >>= c.settle policy).run.run w = (.ok created, w') ∧
        view w'.line = e.perform index (.create primaryKey) (view w.line) ∧
        w'.history = w.history ++ events ∧
        errandsOf events = [(Change.create primaryKey).request index] ∧
        writesOf events = [((Change.create primaryKey).request index, after)] ∧
        Carried ((Change.create primaryKey).request index, after) created := by
  intro created
  obtain ⟨w₁, queued, hrun₁, hview₁, hhistory₁, hqueued⟩ :=
    enqueue_run hosts .createIndex index (.create primaryKey) w
  obtain ⟨w₂, check, more, hrun₂, hview₂, hhistory₂, hcheck⟩ := settle_fetched hosts hrounds
    { uid := (view w.line).nextTask, status := .enqueued } w₁
  rw [hhistory₁, List.append_assoc] at hhistory₂
  refine ⟨w₂, _, _, (Action.run_bind_ok hrun₁).trans hrun₂, hview₂.trans hview₁, hhistory₂, rfl,
    rfl, rfl, queued, { uid := (view w.line).nextTask, status := .enqueued }, _, check, rfl, hqueued, ?_,
    hcheck⟩
  simp

/-- **A copy replays the source.**  On an engine that has the source and not the target, copying gives
seven tasks that have succeeded, in the order in which they were queued.  The target is then a copy of the
source, and every other index, the source too, is as it was.  By method and path, and but for the look-ups
of tasks, seven reads of the source are followed by the creation of the target and six writes of its
settings, none of which is at a place of the source; and these only after the creation was fetched as
succeeded. -/
theorem copyIndex_replays {source target : String} (policy : PollPolicy)
    (hosts : e.Hosts c.session.transport view policy.maxWait) (hrounds : 0 < c.session.rounds)
    (hne : source ≠ target) (w : World σ)
    (hsource : (view w.line).indexes source = some record)
    (htarget : (view w.line).indexes target = none) :
    let creation := (Change.create (record.primaryKey.getD "id")).request target
    ∃ created settled w' copy before after,
      (c.copyIndex source target policy).run.run w = (.ok (created :: settled), w') ∧
      created :: settled = Task.succeededFrom (view w.line).nextTask 7 ∧
      (view w'.line).indexes target = some copy ∧ copy.IsCopyOf record ∧
      (view w'.line).indexes source = some record ∧
      (∀ other, other ≠ target →
        (view w'.line).indexes other = (view w.line).indexes other) ∧
      w'.writes = w.writes ++ creation :: record.copied.map (Change.request target) ∧
      w'.errands.map Request.label = w.errands.map Request.label ++ ("GET indexes/" ++ source) ::
        ((Setting.all.map fun t => "GET " ++ t.place source) ++ "POST indexes" ::
          Setting.all.map fun t => t.writing ++ " " ++ t.place target) ∧
      (∀ t u : Setting, t.place target ≠ u.place source) ∧
      w'.history = w.history ++ before ++ after ∧
      (writesOf before).map Prod.fst = [creation] ∧
      List.Forall₂ Carried (writesOf before) [created] ∧
      (writesOf after).map Prod.fst = record.copied.map (Change.request target) := by
  intro creation
  -- what is read, the creation with its task, and the changes with theirs
  obtain ⟨w₁, looked, hrun₁, hview₁, hhistory₁, hlooked⟩ :=
    (readChanges_does hosts hsource).events (c.readChanges_grows source) (w := w) rfl
  obtain ⟨w₂, made, more, hrun₂, hview₂, hhistory₂, hmade, hwrite, hcarried⟩ :=
    create_carried hosts hrounds target (record.primaryKey.getD "id") w₁
  rw [hview₁] at hrun₂ hview₂ hcarried
  obtain ⟨w₃, filled, hrun₃, hview₃, hhistory₃, hfilled⟩ :=
    (makeChanges_does hosts hrounds target record.copied _).events
      (c.makeChanges_grows target policy record.copied) hview₂
  have hrun : (c.copyIndex source target policy).run.run w =
      (.ok (Task.succeededFrom (view w.line).nextTask 7), w₃) := by
    rw [copyIndex_eq, Action.run_bind_ok hrun₁]
    show (c.createIndex target _ >>= c.settle policy >>= _ : Action σ (List Task)).run.run w₁ = _
    rw [Action.run_bind_ok hrun₂, Action.run_bind_ok hrun₃]
    rfl
  obtain ⟨copy, hcopy, hlike⟩ := e.performAll_copied (e.perform_create_self _ htarget)
  have hothers : ∀ other, other ≠ target →
      (view w₃.line).indexes other = (view w.line).indexes other := fun other hother => by
    rw [hview₃, e.performAll_other _ _ hother, e.perform_other _ _ hother]
  have hreads : writesOf looked = [] := by
    rw [← List.map_eq_nil_iff (f := Prod.fst), map_writesOf, hlooked]
    rfl
  have hbefore : writesOf (looked ++ made) = [(creation, more)] := by
    rw [writesOf_append, hreads, hwrite]
    rfl
  have hafter : (writesOf filled).map Prod.fst = record.copied.map (Change.request target) := by
    rw [map_writesOf, hfilled]
    rfl
  have hhistory : w₃.history = w.history ++ (looked ++ made) ++ filled := by
    rw [hhistory₃, hhistory₂, hhistory₁, List.append_assoc w.history]
  have herrands : w₃.errands = w.errands ++
      (copyReads source ++ creation :: record.copied.map (Change.request target)) := by
    rw [World.errands_of_history hhistory₃, World.errands_of_history hhistory₂,
      World.errands_of_history hhistory₁, hlooked, hmade, hfilled, List.append_assoc,
      List.append_assoc]
    rfl
  have hwrites : w₃.writes = w.writes ++ creation :: record.copied.map (Change.request target) :=
    World.writes_of_errands herrands
  have hlabels : w₃.errands.map Request.label = w.errands.map Request.label ++
      ("GET indexes/" ++ source) :: ((Setting.all.map fun t => "GET " ++ t.place source) ++
        "POST indexes" :: Setting.all.map fun t => t.writing ++ " " ++ t.place target) := by
    rw [herrands, List.map_append, List.map_append, List.map_cons, record.label_copied,
      label_copyReads]
    rfl
  have hplaces : ∀ t u : Setting, t.place target ≠ u.place source :=
    fun t u hplace => hne (Setting.place_inj.mp hplace).2.symm
  refine ⟨_, _, w₃, copy, looked ++ made, filled, hrun, rfl, hview₃ ▸ hcopy, hlike,
    (hothers source hne).trans hsource, hothers, hwrites, hlabels, hplaces, hhistory, ?_, ?_,
    hafter⟩
  · rw [hbefore]
    rfl
  · rw [hbefore]
    exact .cons hcarried .nil

end Client

/-- Phones by their colour, searched in everything and without a primary key. -/
def plainPhones : IndexRecord where
  primaryKey := none
  lists
    | .filterable => ["color"]
    | .searchable => []
    | .sortable => ["price"]
    | .ranking => ["words", "typo"]
  limits
    | .totalHits => 500
    | .valuesPerFacet => 20

/-- Cases of a stock, searched by their titles. -/
def titledCases : IndexRecord where
  primaryKey := some "sku"
  lists
    | .filterable => ["fits", "color"]
    | .searchable => ["title", "brand"]
    | .sortable => []
    | .ranking => ["typo"]
  limits
    | .totalHits => 7
    | .valuesPerFacet => 3

/-- A store with two indexes. -/
def plainStore : IndexStore :=
  ⟨fun index => if index = "phones" then some plainPhones else
    if index = "cases" then some titledCases else none, 7⟩

/-- The copy of the phones has the primary key that they lack, and is searched in everything by name; that of
the cases is searched in what they are searched in. -/
theorem Client.copyIndex_replays_phones :
    (∃ tasks w' copy,
      (IndexEngine.shelf.client.copyIndex "phones" "tablets" {}).run.run { line := plainStore } =
          (.ok tasks, w') ∧
        tasks = [7, 8, 9, 10, 11, 12, 13].map (fun uid => { uid, status := .succeeded }) ∧
        w'.line.indexes "tablets" = some copy ∧ copy.primaryKey = some "id" ∧
        copy.lists .searchable = ["*"] ∧ copy.lists .sortable = ["price"] ∧
        copy.limits .totalHits = 500 ∧ w'.line.indexes "phones" = some plainPhones ∧
        w'.writes = [.create "id", .list .filterable ["color"], .list .searchable ["*"],
          .list .sortable ["price"], .list .ranking ["words", "typo"], .limit .totalHits 500,
          .limit .valuesPerFacet 20].map (Change.request "tablets")) ∧
    ∃ tasks w' copy,
      (IndexEngine.shelf.client.copyIndex "cases" "covers" {}).run.run { line := plainStore } =
          (.ok tasks, w') ∧
        w'.line.indexes "covers" = some copy ∧ copy.primaryKey = some "sku" ∧
        copy.lists .filterable = ["fits", "color"] ∧ copy.lists .searchable = ["title", "brand"] ∧
        copy.lists .sortable = [] ∧ copy.lists .ranking = ["typo"] ∧
        copy.limits .totalHits = 7 ∧ copy.limits .valuesPerFacet = 3 ∧
        w'.errands.map Request.label =
          ["GET indexes/cases",
            "GET indexes/cases/settings/filterable-attributes",
            "GET indexes/cases/settings/searchable-attributes",
            "GET indexes/cases/settings/sortable-attributes",
            "GET indexes/cases/settings/ranking-rules",
            "GET indexes/cases/settings/pagination", "GET indexes/cases/settings/faceting",
            "POST indexes",
            "PUT indexes/covers/settings/filterable-attributes",
            "PUT indexes/covers/settings/searchable-attributes",
            "PUT indexes/covers/settings/sortable-attributes",
            "PUT indexes/covers/settings/ranking-rules",
            "PATCH indexes/covers/settings/pagination",
            "PATCH indexes/covers/settings/faceting"] := by
  constructor
  · obtain ⟨created, settled, w', copy, -, -, hrun, htasks, hcopy, hlike, hsame, -, hwrites, -⟩ :=
      Client.copyIndex_replays (c := IndexEngine.shelf.client) {}
        (IndexEngine.shelf.hosts_transport _) Nat.one_pos (by decide : "phones" ≠ "tablets")
        { line := plainStore } (rfl : plainStore.indexes "phones" = some plainPhones) rfl
    exact ⟨_, w', copy, hrun, htasks, hcopy, hlike.primaryKey, hlike.searchable, hlike.sortable,
      hlike.totalHits, hsame, hwrites⟩
  · obtain ⟨created, settled, w', copy, -, -, hrun, -, hcopy, hlike, -, -, -, hlabels, -⟩ :=
      Client.copyIndex_replays (c := IndexEngine.shelf.client) {}
        (IndexEngine.shelf.hosts_transport _) Nat.one_pos (by decide : "cases" ≠ "covers")
        { line := plainStore } (rfl : plainStore.indexes "cases" = some titledCases) rfl
    exact ⟨_, w', copy, hrun, hcopy, hlike.primaryKey, hlike.filterable, hlike.searchable,
      hlike.sortable, hlike.ranking, hlike.totalHits, hlike.valuesPerFacet, hlabels⟩

end SearchClient
