/-
SearchClient/Proofs/Index/Sequence.lean

The order of writes when settings are applied, whatever the transport does.  The history of a call is
followed step by step: `a.Leads past Q` says of the action `a`, if the events so far are `past`, that it
goes wrong with an event and sends nothing after it, or else that `Q` is true of its value and of the
history with its events.

Between two steps every write was carried out, and the settings that are still to come have not been
looked at (`Client.Standing`).  Looking at a setting, writing it and waiting for its task each keep that,
and so does one step after the other (`Client.settleEach_leads`).

Main result: `Client.applySettings_sequenced`.
-/
import SearchClient.Proofs.Index.Guard
import SearchClient.Proofs.Index.Converge

namespace SearchClient

variable {σ α β : Type} {attempts : Nat} {index : String} {past : List Event}

/-! ### Actions that lead from one history to another -/

/-- The history of an action that goes on, goes wrong or is stalled; it does not break off. -/
def Led (attempts : Nat) (index : String) (Q : α → List Event → Prop) :
    Except Stop α → List Event → Prop
  | .ok x, history => Q x history
  | .error (.failed e), history => Bad attempts index history e
  | .error .stalled, history => Good attempts index history
  | .error .overflowed, _ => False

/-- After the events so far, the action goes wrong, or else leads to what is said. -/
def Action.Leads (attempts : Nat) (index : String) (past : List Event) (a : Action σ α)
    (Q : α → List Event → Prop) : Prop :=
  ∀ w, a.Records w fun result events _ => Led attempts index Q result (past ++ events)

namespace Action

variable {a : Action σ α} {Q : α → List Event → Prop} {R : β → List Event → Prop}

theorem leads_pure {x : α} (h : Q x past) : (pure x : Action σ α).Leads attempts index past Q :=
  fun _ => records_pure (by rw [List.append_nil]; exact h)

theorem leads_fail {e : ClientError} (h : Bad attempts index past e) :
    (fail e : Action σ α).Leads attempts index past Q :=
  fun _ => records_of_run rfl (List.append_nil _).symm (by rw [List.append_nil]; exact h)

theorem leads_ofExcept {x : Except ClientError α}
    (h : Led attempts index Q (x.mapError .failed) past) :
    (ofExcept x : Action σ α).Leads attempts index past Q :=
  fun _ => records_ofExcept (by rw [List.append_nil]; exact h)

theorem Leads.bind {f : α → Action σ β} (h : a.Leads attempts index past Q)
    (hf : ∀ x history, Q x history → (f x).Leads attempts index history R) :
    (a >>= f).Leads attempts index past R := by
  intro w
  refine (h w).bind (fun x events w' _ hQ => ?_) fun e events w' he => ?_
  · refine (hf x _ hQ w').mono fun result more _ _ hR => ?_
    rwa [← List.append_assoc]
  · cases e <;> exact he

theorem Leads.map {f : α → β} (h : a.Leads attempts index past Q)
    (hf : ∀ x history, Q x history → R (f x) history) :
    (f <$> a).Leads attempts index past R := by
  rw [map_eq_pure_bind]
  exact h.bind fun x history hQ => leads_pure (hf x history hQ)

end Action

/-! ### Writes so far -/

theorem writesOf_append (history more : List Event) :
    writesOf (history ++ more) =
      (writesOf history).map (fun p => (p.1, p.2 ++ more)) ++ writesOf more := by
  induction history with
  | nil => rfl
  | cons event history ih =>
    cases event with
    | sent request =>
      rw [List.cons_append, writesOf, writesOf]
      split
      · exact ih
      · rw [ih, List.map_cons, List.cons_append]
    | _ => exact ih

theorem writesOf_reads {events : List Event}
    (h : ∀ request, .sent request ∈ events → request.method.isRead = true) :
    writesOf events = [] := by
  induction events with
  | nil => rfl
  | cons event events ih =>
    have hrest := ih fun request hrequest => h request (by simp [hrequest])
    cases event with
    | sent request => rw [writesOf, if_pos (h request (by simp)), hrest]
    | _ => exact hrest

/-- A write that was carried out stays so. -/
theorem Carried.append {write : Request × List Event} {t : Task} (h : Carried write t)
    (more : List Event) : Carried (write.1, write.2 ++ more) t := by
  obtain ⟨hstatus, answer, queued, after, check, hwrite, hqueued, hcheck, ht⟩ := h
  exact ⟨hstatus, answer, queued, after ++ more, check, by rw [hwrite, List.cons_append], hqueued,
    List.mem_append_left more hcheck, ht⟩

/-- Reads leave the writes as they are. -/
theorem carried_append {tasks : List Task} {events : List Event}
    (h : List.Forall₂ Carried (writesOf past) tasks)
    (hreads : ∀ request, .sent request ∈ events → request.method.isRead = true) :
    List.Forall₂ Carried (writesOf (past ++ events)) tasks := by
  rw [writesOf_append, writesOf_reads hreads, List.append_nil, List.forall₂_map_left_iff]
  exact h.imp fun _ _ hcarried => hcarried.append events

theorem exists_of_forall₂_mem {R : α → β → Prop} {xs : List α} {ys : List β}
    (h : List.Forall₂ R xs ys) {x : α} (hx : x ∈ xs) : ∃ y ∈ ys, R x y := by
  induction h with
  | nil => cases hx
  | @cons a b xs ys hab _ ih =>
    rcases List.mem_cons.mp hx with rfl | hx
    · exact ⟨b, by simp, hab⟩
    · obtain ⟨y, hy, hxy⟩ := ih hx
      exact ⟨y, by simp [hy], hxy⟩

/-- Calls for one request leave the count of answers to another one as it is. -/
theorem answersTo_append_of_isAbout {request other : Request} {events : List Event}
    (h : ∀ event ∈ events, event.IsAbout request) (hother : other ≠ request) :
    answersTo other (past ++ events) = answersTo other past := by
  have hnone : (answersOf events).countP (fun a => a.1 = other) = 0 := by
    refine List.countP_eq_zero.mpr fun a ha => ?_
    obtain ⟨event, hevent, hanswer⟩ := List.mem_filterMap.mp ha
    cases event with
    | answered sent answer =>
      obtain rfl := Option.some.inj hanswer
      have hsent : sent = request := h _ hevent
      simpa [hsent] using Ne.symm hother
    | _ => cases hanswer
  rw [answersTo, answersOf, List.filterMap_append, List.countP_append]
  exact congrArg _ hnone

theorem isRead_of_isAbout {request : Request} {events : List Event}
    (h : ∀ event ∈ events, event.IsAbout request) (hread : request.method.isRead = true) :
    ∀ sent, .sent sent ∈ events → sent.method.isRead = true := by
  intro sent hsent
  have hsame : sent = request := h _ hsent
  rw [hsame, hread]

namespace Client

/-- Every write was carried out, with these tasks, and some requests are yet to be made. -/
structure Standing (attempts : Nat) (index : String) (pending : List Request) (tasks : List Task)
    (history : List Event) : Prop where
  good : Good attempts index history
  carried : List.Forall₂ Carried (writesOf history) tasks
  fresh : ∀ request ∈ pending, request.isOnce = false ∧ answersTo request history = 0

/-- The same but for one more write, the last request, which was queued as a task. -/
structure Queued (attempts : Nat) (index : String) (pending : List Request) (tasks : List Task)
    (queued : Task) (history : List Event) : Prop where
  good : Good attempts index history
  last : lastTask history = some queued
  written : ∃ before request answer after,
    history = before ++ .sent request :: .answered request answer :: after ∧
      request.method.isRead = false ∧ Reply.receivedAs Task.ofJson answer = .ok queued ∧
        List.Forall₂ Carried (writesOf before) tasks ∧
          ∀ sent, .sent sent ∈ after → sent.method.isRead = true
  fresh : ∀ request ∈ pending, request.isOnce = false ∧ answersTo request history = 0

variable {pending : List Request} {tasks : List Task} (c : Client σ)

/-- A read that has not been made yet. -/
theorem call_records_read {operation : Operation} {request : Request} {read : Json → Decoded α}
    (honce : request.isOnce = false) (hother : request.endpoint ≠ .indexes)
    (hdecodes : ∀ body, request.decodes body = (fun _ => ()) <$> read body)
    (hgood : Good c.config.retryPolicy.attempts index past) (hfresh : answersTo request past = 0)
    (w : World σ) :
    (c.call operation request read).Records w fun result events _ =>
      (∀ event ∈ events, event.IsAbout request) ∧
        match result with
        | .ok _ | .error .stalled => Good c.config.retryPolicy.attempts index (past ++ events)
        | .error .overflowed => False
        | .error (.failed e) =>
          (¬ (request = .read (.index index) ∧ ∃ message, e = .indexNotFound message) →
            Bad c.config.retryPolicy.attempts index (past ++ events) e) ∧
          ((request = .read (.index index) ∧ ∃ message, e = .indexNotFound message) →
            Good c.config.retryPolicy.attempts index (past ++ events) ∧
              ∃ answer, lastAnswer (past ++ events) = some (request, answer) ∧
                Reply.receivedAs read answer = .error e) := by
  have hallowed : c.allowed request = c.config.retryPolicy.attempts := by
    rw [Request.isOnce, Bool.or_eq_false_iff] at honce
    rw [allowed, if_pos (by simpa using honce.1)]
  refine (c.call_records operation request read w).mono fun result events _ _ h => ?_
  obtain ⟨final, hattempts, rfl⟩ := h
  rw [hallowed] at hattempts
  obtain ⟨hnone, hsome⟩ := hattempts.good_read honce hother hgood hfresh
  refine ⟨hattempts.isAbout, ?_⟩
  cases final with
  | none => exact hnone rfl
  | some answer =>
    obtain ⟨hlast, hfine, hwrong⟩ := hsome answer rfl
    -- both readings of the answer end in the same errors
    have hread : Reply.receivedAs request.decodes answer =
        (fun _ => ()) <$> Reply.receivedAs read answer := by
      rw [← Reply.receivedAs_map]
      exact congrArg (Reply.receivedAs · answer) (funext hdecodes)
    rw [Attempts.result]
    rcases hanswer : Reply.receivedAs read answer with e | x
    · have herror : Reply.receivedAs request.decodes answer = .error e := by rw [hread, hanswer]; rfl
      refine ⟨hwrong e herror, fun hfound => ⟨hfine fun e' he' => ?_, answer, hlast, hanswer⟩⟩
      obtain rfl := Except.error.inj (herror.symm.trans he')
      exact hfound
    · refine hfine fun e he => ?_
      rw [hread, hanswer] at he
      cases he

/-- After a read, one less is yet to be made. -/
theorem Standing.read {request : Request} {events : List Event}
    (h : Standing attempts index (request :: pending) tasks past) (hpending : request ∉ pending)
    (hgood : Good attempts index (past ++ events))
    (habout : ∀ event ∈ events, event.IsAbout request) :
    Standing attempts index pending tasks (past ++ events) := by
  have hread : request.method.isRead = true := by
    have honce := (h.fresh request (by simp)).1
    rw [Request.isOnce, Bool.or_eq_false_iff] at honce
    simpa using honce.1
  refine ⟨hgood, carried_append h.carried (isRead_of_isAbout habout hread), fun other hmem => ?_⟩
  obtain ⟨honce, hfresh⟩ := h.fresh other (by simp [hmem])
  have hne : other ≠ request := fun heq => hpending (heq ▸ hmem)
  exact ⟨honce, by rw [answersTo_append_of_isAbout habout hne, hfresh]⟩

/-- Reading a setting. -/
theorem call_leads_read {operation : Operation} {request : Request} {read : Json → Decoded α}
    (hother : request.endpoint ≠ .indexes) (hindex : request ≠ .read (.index index))
    (hdecodes : ∀ body, request.decodes body = (fun _ => ()) <$> read body)
    (hpending : request ∉ pending)
    (h : Standing c.config.retryPolicy.attempts index (request :: pending) tasks past) :
    (c.call operation request read).Leads c.config.retryPolicy.attempts index past
      fun _ history => Standing c.config.retryPolicy.attempts index pending tasks history := by
  obtain ⟨honce, hfresh⟩ := h.fresh request (by simp)
  intro w
  refine (c.call_records_read honce hother hdecodes h.good hfresh w).mono ?_
  rintro (⟨e | - | -⟩ | x) events w' - ⟨habout, hend⟩
  · exact hend.1 fun hfound => hindex hfound.1
  · exact hend
  · exact hend
  · exact h.read hpending hend habout

/-- Sending a write. -/
theorem enqueue_leads {operation : Operation} {method : Method} {endpoint : Endpoint}
    {body : Option Json} (hwrite : method.isRead = false)
    (hcreate : endpoint = .indexes → Missing index past)
    (h : Standing attempts index pending tasks past) :
    (c.enqueue operation method endpoint body).Leads attempts index past
      fun queued history => Queued attempts index pending tasks queued history := by
  have hallowed : c.allowed { method, endpoint, body } = 1 := by
    rw [allowed, if_neg (by simp [hwrite])]
  have honce : Request.isOnce { method, endpoint, body } = true := by
    rw [Request.isOnce, hwrite]
    rfl
  have hmay : MaySend index past { method, endpoint, body } := by
    refine ⟨fun _ p hp => ?_, hcreate⟩
    obtain ⟨t, -, ht⟩ := exists_of_forall₂_mem h.carried hp
    exact ⟨t, ht⟩
  intro w
  refine (c.call_records operation _ Task.ofJson w).mono fun result events _ _ hcall => ?_
  obtain ⟨final, hattempts, rfl⟩ := hcall
  rw [hallowed] at hattempts
  obtain ⟨hnone, hsome⟩ := hattempts.good_write hwrite hmay h.good
  cases final with
  | none => exact hnone rfl
  | some answer =>
    obtain ⟨⟨asides, hevents, hasides⟩, hfine, hwrong⟩ := hsome answer rfl
    rw [Attempts.result]
    rcases hanswer : Reply.receivedAs Task.ofJson answer with e | queued
    · exact hwrong e hanswer
    · obtain ⟨hgood, hlast⟩ := hfine queued hanswer
      refine ⟨hgood, hlast, ⟨past, _, answer, asides, congrArg (past ++ ·) hevents, hwrite, hanswer,
        h.carried, fun _ hsent => by cases hasides _ hsent⟩, fun request hmem => ?_⟩
      obtain ⟨honce', hfresh⟩ := h.fresh request hmem
      have hne : request ≠ { method, endpoint, body } := by
        rintro rfl
        rw [honce] at honce'
        cases honce'
      exact ⟨honce', by rw [answersTo_append_of_isAbout hattempts.isAbout hne, hfresh]⟩

/-- A write whose task was fetched as succeeded. -/
theorem Queued.standing {queued t : Task} {events : List Event} {check : Except String Reply}
    (h : Queued attempts index pending tasks queued past)
    (hgood : Good attempts index (past ++ events)) (hstatus : t.status = .succeeded)
    (hcheck : .answered (.read (.task queued.uid)) check ∈ events)
    (hanswer : Reply.receivedAs Task.ofJson check = .ok t)
    (habout : ∀ event ∈ events, event.IsAbout (.read (.task queued.uid))) :
    Standing attempts index pending (tasks ++ [t]) (past ++ events) := by
  refine ⟨hgood, ?_, fun request hmem => ?_⟩
  · obtain ⟨before, request, answer, after, rfl, hwrite, hqueued, hcarried, hreads⟩ := h.written
    -- the last write is followed by reads only, so it is the one that the task is added for
    have hnone : writesOf (after ++ events) = [] := by
      refine writesOf_reads fun sent hsent => ?_
      rcases List.mem_append.mp hsent with h | h
      · exact hreads sent h
      · exact isRead_of_isAbout habout rfl sent h
    have hwrites : writesOf (.sent request :: .answered request answer :: (after ++ events)) =
        [(request, .answered request answer :: (after ++ events))] := by
      rw [writesOf, if_neg (by simp [hwrite]), writesOf, hnone]
      simp
    rw [List.append_assoc, List.cons_append, List.cons_append, writesOf_append, hwrites]
    refine List.rel_append ?_ (.cons ?_ .nil)
    · rw [List.forall₂_map_left_iff]
      exact hcarried.imp fun _ _ h => h.append _
    · exact ⟨hstatus, answer, queued, after ++ events, check, rfl, hqueued,
        List.mem_append_right after hcheck, hanswer⟩
  · obtain ⟨honce, hfresh⟩ := h.fresh request hmem
    have hne : request ≠ .read (.task queued.uid) := by
      rintro rfl
      cases honce
    exact ⟨honce, by rw [answersTo_append_of_isAbout habout hne, hfresh]⟩

/-- Polling a task that was queued. -/
theorem poll_leads {policy : PollPolicy} {queued : Task}
    (h : Queued attempts index pending tasks queued past) :
    (c.session.poll policy {} queued).Leads attempts index past fun outcome history =>
      Led attempts index (fun t => Standing attempts index pending (tasks ++ [t]))
        (outcome.result.mapError .failed) history := by
  intro w
  refine (c.session.poll_records policy {} queued w).mono fun result events w' _ hpoll => ?_
  obtain ⟨ending, rounds, hpolling, rfl, rfl⟩ := hpoll
  -- what is counted at the end does no harm, unless it is that polling was given up
  have hcounted : ∀ ending checks, ending ≠ .timedOut →
      ∀ event ∈ [Event.counted (.polled ending checks)], event.Inert := by
    intro ending checks hending event hevent
    obtain rfl := List.mem_singleton.mp hevent
    exact fun checks' h => hending (Metric.polled.inj h).1
  rw [← List.append_assoc]
  cases hpolling.good h.good h.last with
  | @succeeded t checks check hgood hstatus hcheck hanswer =>
    have hend := hgood.inert (hcounted .succeeded checks (nomatch ·))
    rw [List.append_assoc] at hend ⊢
    refine h.standing hend hstatus (List.mem_append_left _ hcheck) hanswer fun event hevent => ?_
    rcases List.mem_append.mp hevent with h | h
    · exact hpolling.isAbout event h
    · obtain rfl := List.mem_singleton.mp h
      exact trivial
  | failed hbad => exact hbad.inert (hcounted .failed _ (nomatch ·))
  | canceled hbad => exact hbad.inert (hcounted .canceled _ (nomatch ·))
  | timedOut hgood hlast => exact hgood.breaks (.timedOut hlast)
  | error hbad => exact hbad.inert (by simp)
  | stalled hgood => exact hgood.inert (by simp)

/-- Waiting for a task that was queued. -/
theorem settle_leads {policy : PollPolicy} {queued : Task}
    (h : Queued attempts index pending tasks queued past) :
    (c.settle policy queued).Leads attempts index past
      fun t history => Standing attempts index pending (tasks ++ [t]) history :=
  (c.poll_leads h).bind fun _ _ hend => Action.leads_ofExcept hend

/-! ### Steps -/

/-- What a step leaves: nothing was written, or a write is queued. -/
def Stepped (attempts : Nat) (index : String) (pending : List Request) (tasks : List Task) :
    Option Task → List Event → Prop
  | none => Standing attempts index pending tasks
  | some queued => Queued attempts index pending tasks queued

theorem read_injective (index : String) : Function.Injective (Setting.read index) := by
  intro t t' h
  have hplace := congrArg (fun r : Request => r.endpoint.path) h
  rw [Setting.read, Setting.read] at hplace
  exact (Setting.place_inj.mp ((t.path_endpoint index).symm.trans
    (hplace.trans (t'.path_endpoint index)))).1

/-- Looking at a setting, and writing it if it is not as wanted. -/
theorem sync_leads (settings : IndexSettings) {t : Setting} (hpending : t.read index ∉ pending)
    (h : Standing c.config.retryPolicy.attempts index (t.read index :: pending) tasks past) :
    (c.sync index settings t).Leads c.config.retryPolicy.attempts index past
      (Stepped c.config.retryPolicy.attempts index pending tasks) := by
  have hother : (t.read index).endpoint ≠ .indexes := by cases t <;> exact (nomatch ·)
  have hindex : t.read index ≠ .read (.index index) := by cases t <;> exact (nomatch ·)
  cases t with
  | list s =>
    have hget : (c.getList index s).Leads c.config.retryPolicy.attempts index past fun _ history =>
        Standing c.config.retryPolicy.attempts index pending tasks history :=
      c.call_leads_read hother hindex (fun _ => rfl) hpending h
    refine hget.bind fun current history hread => ?_
    split
    · exact Action.leads_pure hread
    · have hwrite : Endpoint.listSetting index s = .indexes → Missing index history := (nomatch ·)
      exact (c.enqueue_leads rfl hwrite hread).map fun _ _ hqueued => hqueued
  | limit s =>
    have hget : (c.getLimit index s).Leads c.config.retryPolicy.attempts index past fun _ history =>
        Standing c.config.retryPolicy.attempts index pending tasks history :=
      c.call_leads_read hother hindex (fun _ => rfl) hpending h
    refine hget.bind fun current history hread => ?_
    split
    · exact Action.leads_pure hread
    · have hwrite : Endpoint.limitSetting index s = .indexes → Missing index history := (nomatch ·)
      exact (c.enqueue_leads rfl hwrite hread).map fun _ _ hqueued => hqueued

/-- Only the word of the engine stands for an index that is not found. -/
theorem exists_reply_of_indexNotFound {read : Json → Decoded α} {answer : Except String Reply}
    {message : String} (h : Reply.receivedAs read answer = .error (.indexNotFound message)) :
    ∃ reply, answer = .ok reply ∧ reply.isSuccess = false ∧
      reply.error = .indexNotFound message := by
  rcases answer with failure | reply
  · cases h
  · cases hs : reply.isSuccess with
    | false =>
      simp only [Reply.receivedAs, Reply.received, hs] at h
      exact ⟨reply, rfl, hs, Except.error.inj h⟩
    | true =>
      simp only [Reply.receivedAs, Reply.received, hs, if_true, ok_bind, Reply.decode] at h
      cases hread : read reply.body with
      | ok x =>
        rw [hread] at h
        cases h
      | error cause =>
        rw [hread] at h
        cases h

/-- Looking the index up, before anything else. -/
theorem indexExists_leads (hpending : .read (.index index) ∉ pending)
    (h : Standing c.config.retryPolicy.attempts index (.read (.index index) :: pending) tasks []) :
    (c.indexExists index).Leads c.config.retryPolicy.attempts index [] fun found history =>
      Standing c.config.retryPolicy.attempts index pending tasks history ∧
        (found = false → Missing index history) := by
  obtain ⟨honce, hfresh⟩ := h.fresh _ List.mem_cons_self
  -- what the look-up comes to is a value, also when it is an error
  have hattempt : (Action.attempt (c.getIndex index)).Leads c.config.retryPolicy.attempts index []
      fun looked history =>
        ((∀ e, looked = .error e → ∃ message, e = .indexNotFound message) →
          Standing c.config.retryPolicy.attempts index pending tasks history) ∧
        ∀ e, looked = .error e →
          ((∃ message, e = .indexNotFound message) → Missing index history) ∧
          ((¬ ∃ message, e = .indexNotFound message) →
            Bad c.config.retryPolicy.attempts index history e) := by
    intro w
    refine Action.Records.attempt
      (c.call_records_read honce (nomatch ·) (fun _ => rfl) h.good hfresh w) ?_ ?_ ?_ ?_
    · rintro info events w' ⟨habout, hgood⟩
      exact ⟨fun _ => h.read hpending hgood habout, fun e he => nomatch he⟩
    · rintro e events w' ⟨habout, hwrong, hmissing⟩
      refine ⟨fun hfound => ?_, fun e' he' => ?_⟩
      · exact h.read hpending (hmissing ⟨rfl, hfound e rfl⟩).1 habout
      · obtain rfl := Except.error.inj he'
        refine ⟨fun hfound => ⟨fun sent hsent => habout _ hsent, ?_⟩,
          fun hfound => hwrong fun h => hfound h.2⟩
        obtain ⟨-, answer, hlast, hanswer⟩ := hmissing ⟨rfl, hfound⟩
        obtain ⟨message, rfl⟩ := hfound
        obtain ⟨reply, rfl, hs, herror⟩ := exists_reply_of_indexNotFound hanswer
        exact ⟨reply, message, hlast, hs, herror⟩
    · rintro events w' ⟨-, hgood⟩
      exact hgood
    · rintro events w' ⟨-, hover⟩
      exact hover
  refine hattempt.bind fun looked history ⟨hstanding, herror⟩ => ?_
  rcases looked with e | info
  · by_cases hfound : ∃ message, e = .indexNotFound message
    · have hmissing := (herror e rfl).1 hfound
      have hstands := hstanding fun e' he' => Except.error.inj he' ▸ hfound
      obtain ⟨message, rfl⟩ := hfound
      exact Action.leads_pure ⟨hstands, fun _ => hmissing⟩
    · have hbad := (herror e rfl).2 hfound
      split
      · next h => cases h
      · next message h =>
        cases h
        exact absurd ⟨message, rfl⟩ hfound
      · next h =>
        cases h
        exact Action.leads_fail hbad
  · exact Action.leads_pure ⟨hstanding fun _ => (nomatch ·), nofun⟩

theorem ensureIndex_leads (primaryKey : String) (hpending : .read (.index index) ∉ pending)
    (h : Standing c.config.retryPolicy.attempts index (.read (.index index) :: pending) tasks []) :
    (c.ensureIndex index primaryKey).Leads c.config.retryPolicy.attempts index []
      (Stepped c.config.retryPolicy.attempts index pending tasks) := by
  refine (c.indexExists_leads hpending h).bind fun found history ⟨h, hmissing⟩ => ?_
  cases found with
  | true => exact Action.leads_pure h
  | false =>
    exact (c.enqueue_leads rfl (fun _ => hmissing rfl) h).map fun _ _ hqueued => hqueued

/-! ### All steps -/

/-- A step, and waiting for the task of its write, if there is one. -/
theorem settleEach_cons_leads {policy : PollPolicy} {step : Action σ (Option Task)}
    {rest : List (Action σ (Option Task))}
    (hstep : step.Leads attempts index past (Stepped attempts index pending tasks))
    (hrest : ∀ tasks history, Standing attempts index pending tasks history →
      (c.settleEach policy rest).Leads attempts index history fun ts =>
        Standing attempts index [] (tasks ++ ts)) :
    (c.settleEach policy (step :: rest)).Leads attempts index past fun ts =>
      Standing attempts index [] (tasks ++ ts) := by
  refine hstep.bind fun queued history h => ?_
  cases queued with
  | none => exact hrest tasks history h
  | some queued =>
    refine Action.Leads.bind (c.settle_leads h) fun t history h => ?_
    refine Action.Leads.bind (hrest _ history h) fun ts history h => ?_
    rw [List.append_assoc] at h
    exact Action.leads_pure h

/-- Induction over the settings: each is looked at once. -/
theorem settleEach_leads {policy : PollPolicy} (settings : IndexSettings) {ts : List Setting}
    (hnodup : ts.Nodup)
    (h : Standing c.config.retryPolicy.attempts index (ts.map (Setting.read index)) tasks past) :
    (c.settleEach policy (ts.map (c.sync index settings))).Leads c.config.retryPolicy.attempts index
      past fun done => Standing c.config.retryPolicy.attempts index [] (tasks ++ done) := by
  induction ts generalizing tasks past with
  | nil => exact Action.leads_pure (by rwa [List.append_nil])
  | cons t ts ih =>
    obtain ⟨hfresh, hnodup⟩ := List.nodup_cons.mp hnodup
    have hread : t.read index ∉ ts.map (Setting.read index) := by
      rw [List.mem_map_of_injective (read_injective index)]
      exact hfresh
    exact c.settleEach_cons_leads (c.sync_leads settings hread h) fun _ _ h => ih hnodup h

/-- From the beginning of the call. -/
theorem applySettings_leads (index : String) (settings : IndexSettings) (policy : PollPolicy) :
    (c.applySettings index settings policy).Leads c.config.retryPolicy.attempts index []
      (Standing c.config.retryPolicy.attempts index []) := by
  have hstart : Standing c.config.retryPolicy.attempts index
      (.read (.index index) :: Setting.all.map (Setting.read index)) [] [] := by
    refine ⟨.nil, .nil, fun request hrequest => ⟨?_, rfl⟩⟩
    rcases List.mem_cons.mp hrequest with rfl | hrequest
    · rfl
    · obtain ⟨t, -, rfl⟩ := List.mem_map.mp hrequest
      cases t <;> rfl
  have hindex : .read (.index index) ∉ Setting.all.map (Setting.read index) := by
    intro h
    obtain ⟨t, -, ht⟩ := List.mem_map.mp h
    cases t <;> cases ht
  rw [applySettings, settingSteps_eq]
  exact c.settleEach_cons_leads (c.ensureIndex_leads settings.primaryKey hindex hstart)
    fun _ _ h => c.settleEach_leads settings Setting.nodup_all h

end Client

/-! ### Good and bad histories, event by event -/

/-- Any event of a good history. -/
theorem Good.split {before after : List Event} {event : Event}
    (h : Good attempts index (before ++ event :: after)) :
    (∀ request, event = .sent request → MaySend index before request) ∧
      ∀ e, ¬ Breaks attempts index before event e := by
  generalize hhistory : before ++ event :: after = history at h
  -- a good history grows at its end, so the event is its last one or one of those before
  induction h generalizing after with
  | nil => simp at hhistory
  | @snoc past last hpast hsent hbreak ih =>
    rcases List.eq_nil_or_concat after with rfl | ⟨after, last', rfl⟩
    · obtain ⟨rfl, hlast⟩ := List.append_inj' hhistory rfl
      obtain rfl := List.singleton_inj.mp hlast
      exact ⟨hsent, hbreak⟩
    · rw [List.concat_eq_append, ← List.cons_append, ← List.append_assoc] at hhistory
      exact ih (List.append_inj' hhistory rfl).1

/-- Any event of a bad history: one before it has gone wrong, or the one with which it did, or one of
those after that. -/
theorem Bad.split {before after : List Event} {event : Event} {e : ClientError}
    (h : Bad attempts index (before ++ event :: after) e) :
    ((∀ request, event = .sent request → MaySend index before request) ∧
        ∀ e, ¬ Breaks attempts index before event e) ∨
      (Breaks attempts index before event e ∧ ∀ later ∈ after, later.Inert) ∨ event.Inert := by
  obtain ⟨past, wrong, rest, hhistory, hgood, hbreak, hrest⟩ := h
  -- either the event does not come after the one that went wrong, or it does not come before it
  rcases List.append_eq_append_iff.mp hhistory with ⟨tail, rfl, htail⟩ | ⟨tail, rfl, htail⟩
  · cases tail with
    | nil =>
      obtain ⟨rfl, rfl⟩ := List.cons.inj htail
      rw [List.append_nil] at hbreak
      exact .inr (.inl ⟨hbreak, hrest⟩)
    | cons event' tail =>
      obtain ⟨rfl, -⟩ := List.cons.inj htail
      exact .inl hgood.split
  · cases tail with
    | nil =>
      obtain ⟨rfl, rfl⟩ := List.cons.inj htail
      rw [List.append_nil]
      exact .inr (.inl ⟨hbreak, hrest⟩)
    | cons event' tail =>
      obtain ⟨-, rfl⟩ := List.cons.inj htail
      exact .inr (.inr (hrest event (by simp)))

/-! ### Applying settings -/

/-- What applying settings does and comes to. -/
structure Sequenced (attempts : Nat) (index : String) (result : Except Stop (List Task))
    (events : List Event) : Prop where
  ends : result ≠ .error .overflowed
  /-- A write is sent only after every write before it was queued as a task that was then fetched as
  succeeded. -/
  write : ∀ before request after, events = before ++ .sent request :: after →
    request.method.isRead = false → ∀ p ∈ writesOf before, ∃ t, Carried p t
  /-- The creation of the index is sent only upon the word that there is none. -/
  create : ∀ before request after, events = before ++ .sent request :: after →
    request.endpoint = .indexes → Missing index before
  /-- After the event that ends a step in an error nothing is sent, and the error is that of the
  step. -/
  broken : ∀ before event after e, events = before ++ event :: after →
    Breaks attempts index before event e →
      (∀ request, .sent request ∉ after) ∧
        ∃ e', Breaks attempts index before event e' ∧ result = .error (.failed e')
  /-- There is no other error. -/
  error : ∀ e, result = .error (.failed e) →
    ∃ before event after, events = before ++ event :: after ∧ Breaks attempts index before event e
  /-- There is one task for each write, in order, and it has succeeded. -/
  tasks : ∀ tasks, result = .ok tasks → List.Forall₂ Carried (writesOf events) tasks

/-- Whatever the transport answers, settings are applied one write at a time. -/
theorem Client.applySettings_sequenced (c : Client σ) (index : String) (settings : IndexSettings)
    (policy : PollPolicy) (w : World σ) :
    (c.applySettings index settings policy).Records w fun result events _ =>
      Sequenced c.config.retryPolicy.attempts index result events := by
  refine (c.applySettings_leads index settings policy w).mono fun result events _ _ h => ?_
  rw [List.nil_append] at h
  have hend : Good c.config.retryPolicy.attempts index events ∨
      ∃ e, result = .error (.failed e) ∧ Bad c.config.retryPolicy.attempts index events e := by
    rcases result with (e | - | -) | tasks
    · exact .inr ⟨e, rfl, h⟩
    · exact .inl h
    · exact h.elim
    · exact .inl h.good
  have hsent : ∀ before request after, events = before ++ .sent request :: after →
      MaySend index before request := by
    rintro before request after rfl
    rcases hend with hgood | ⟨e, -, hbad⟩
    · exact hgood.split.1 request rfl
    · rcases hbad.split with ⟨hsent, -⟩ | ⟨hbreak, -⟩ | hinert
      · exact hsent request rfl
      · cases hbreak
      · exact hinert.elim
  constructor
  case ends =>
    rintro rfl
    exact h
  case write => exact fun before request after hevents => (hsent before request after hevents).write
  case create =>
    exact fun before request after hevents => (hsent before request after hevents).create
  case broken =>
    rintro before event after e rfl hbreak
    rcases hend with hgood | ⟨e', rfl, hbad⟩
    · exact absurd hbreak (hgood.split.2 e)
    · rcases hbad.split with ⟨-, hfine⟩ | ⟨hbreak', hafter⟩ | hinert
      · exact absurd hbreak (hfine e)
      · exact ⟨fun request hrequest => (hafter _ hrequest).elim, e', hbreak', rfl⟩
      · exact absurd hbreak hinert.not_breaks
  case error =>
    rintro e rfl
    obtain ⟨before, event, after, hevents, -, hbreak, -⟩ := h
    exact ⟨before, event, after, hevents, hbreak⟩
  case tasks =>
    rintro tasks rfl
    exact h.carried

end SearchClient
