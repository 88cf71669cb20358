/-
SearchClient/Proofs/Index/Guard.lean

When a request may be sent while settings are applied, and when something has gone wrong, both told by
the events so far.  A write may be sent once every write before it was queued and its task was fetched as
succeeded (`Carried`), the creation of the index only upon the word that there is none (`Missing`).
Something goes wrong with an event that ends its step in an error (`Breaks`): the last answer to a call,
a task that ended otherwise than by success, or one that was given up.

A history is `Good` if everything in it was sent when it might be, and nothing has gone wrong; it is
`Bad` if it was good up to an event with which something went wrong, and nothing was sent after that.
The attempts of a call and the rounds of polling keep a good history good or make it bad
(`Attempts.good_read`, `Attempts.good_write`, `Session.Polling.good`).
-/
import SearchClient.Index.Apply
import SearchClient.Proofs.Task.Round

namespace SearchClient

/-! ### What a history tells -/

/-- A request that is not tried again, whatever comes of it: a write, or the check of a task. -/
def Request.isOnce (request : Request) : Bool :=
  !request.method.isRead || match request.endpoint with
    | .task _ => true
    | _ => false

/-- Whether the body of a reply stands for what was asked: an index, a setting, or else a task. -/
def Request.decodes (request : Request) (body : Json) : Decoded Unit :=
  match request.isOnce, request.endpoint with
  | false, .index _ => (fun _ => ()) <$> IndexInfo.ofJson body
  | false, .listSetting _ _ => (fun _ => ()) <$> body.asList Json.asText
  | false, .limitSetting _ s => (fun _ => ()) <$> s.ofJson body
  | _, _ => (fun _ => ()) <$> Task.ofJson body

/-- The task that an event tells of: the answer to a write, or to the check of a task. -/
def Event.task? : Event → Option Task
  | .answered request answer =>
    if request.isOnce then (Reply.receivedAs Task.ofJson answer).toOption else none
  | _ => none

/-- The task as it was last seen. -/
def lastTask (history : List Event) : Option Task := (history.filterMap Event.task?).getLast?

/-- The last answer, with its request. -/
def lastAnswer (history : List Event) : Option (Request × Except String Reply) :=
  (answersOf history).getLast?

/-- How many answers there were to a request. -/
def answersTo (request : Request) (history : List Event) : Nat :=
  (answersOf history).countP fun a => a.1 = request

/-- The writes that were sent, in order, each with all that happened after it. -/
def writesOf : List Event → List (Request × List Event)
  | [] => []
  | .sent request :: rest =>
    if request.method.isRead then writesOf rest else (request, rest) :: writesOf rest
  | _ :: rest => writesOf rest

/-- A write was queued as a task, which was then fetched as succeeded. -/
def Carried (write : Request × List Event) (t : Task) : Prop :=
  t.status = .succeeded ∧ ∃ answer queued after check,
    write.2 = .answered write.1 answer :: after ∧
      Reply.receivedAs Task.ofJson answer = .ok queued ∧
        .answered (.read (.task queued.uid)) check ∈ after ∧
          Reply.receivedAs Task.ofJson check = .ok t

/-- All that was sent is the look-up of the index, and its last answer is that there is none. -/
def Missing (index : String) (history : List Event) : Prop :=
  (∀ request, .sent request ∈ history → request = .read (.index index)) ∧
    ∃ reply message, lastAnswer history = some (.read (.index index), .ok reply) ∧
      reply.isSuccess = false ∧ reply.error = .indexNotFound message

/-- The event, after what happened before it, ends a step in an error. -/
inductive Breaks (attempts : Nat) (index : String) (before : List Event) :
    Event → ClientError → Prop where
  /-- An answer that stands for an error and is not tried again: that to a write or to a check, one whose
  error will not pass, or the last one of the attempts that a read has.  That there is no such index is
  what the look-up of the index wants to know. -/
  | refused {request : Request} {answer : Except String Reply} {e : ClientError}
      (h : Reply.receivedAs request.decodes answer = .error e)
      (hfinal : request.isOnce = true ∨ e.isTransient = false ∨
        attempts ≤ answersTo request before + 1)
      (hfound : ¬ (request = .read (.index index) ∧ ∃ message, e = .indexNotFound message)) :
      Breaks attempts index before (.answered request answer) e
  | failed {uid : UInt64} {answer : Except String Reply} {t : Task}
      (h : Reply.receivedAs Task.ofJson answer = .ok t) (hstatus : t.status = .failed) :
      Breaks attempts index before (.answered (.read (.task uid)) answer)
        (TaskOutcome.failureError t)
  | canceled {uid : UInt64} {answer : Except String Reply} {t : Task}
      (h : Reply.receivedAs Task.ofJson answer = .ok t) (hstatus : t.status = .canceled) :
      Breaks attempts index before (.answered (.read (.task uid)) answer) (.taskCanceled t.uid)
  /-- Polling was given up. -/
  | timedOut {t : Task} {waited : Duration} {checks : Nat} (h : lastTask before = some t) :
      Breaks attempts index before (.counted (.polled .timedOut checks))
        (.taskTimedOut t.uid waited checks)

/-- Whether a request may be sent. -/
structure MaySend (index : String) (before : List Event) (request : Request) : Prop where
  write : request.method.isRead = false → ∀ p ∈ writesOf before, ∃ t, Carried p t
  create : request.endpoint = .indexes → Missing index before

/-- Everything was sent when it might be, and nothing has gone wrong. -/
inductive Good (attempts : Nat) (index : String) : List Event → Prop where
  | nil : Good attempts index []
  | snoc {before : List Event} {event : Event} (h : Good attempts index before)
      (hsent : ∀ request, event = .sent request → MaySend index before request)
      (hbreak : ∀ e, ¬ Breaks attempts index before event e) :
      Good attempts index (before ++ [event])

/-- Nothing is sent with the event, and nothing goes wrong. -/
def Event.Inert : Event → Prop
  | .waited _ | .abandoned _ => True
  | .counted m => ∀ checks, m ≠ .polled .timedOut checks
  | _ => False

/-- Something has gone wrong, and nothing was sent after that. -/
def Bad (attempts : Nat) (index : String) (history : List Event) (e : ClientError) : Prop :=
  ∃ before event after, history = before ++ event :: after ∧ Good attempts index before ∧
    Breaks attempts index before event e ∧ ∀ later ∈ after, later.Inert

section Good

variable {attempts : Nat} {index : String} {past events : List Event} {event : Event}
  {request : Request} {e : ClientError}

theorem Good.sent (h : Good attempts index past) (hsent : MaySend index past request) :
    Good attempts index (past ++ [.sent request]) :=
  h.snoc (fun _ hr => Event.sent.inj hr ▸ hsent) fun _ hbreak => nomatch hbreak

theorem Event.Inert.not_breaks (h : event.Inert) : ¬ Breaks attempts index past event e := by
  intro hbreak
  cases hbreak with
  | timedOut _ => exact h _ rfl
  | _ => exact h

theorem Good.inert (h : Good attempts index past) (hinert : ∀ event ∈ events, event.Inert) :
    Good attempts index (past ++ events) := by
  induction events generalizing past with
  | nil => rwa [List.append_nil]
  | cons event events ih =>
    have hevent : event.Inert := hinert event (by simp)
    have hone : Good attempts index (past ++ [event]) := by
      refine h.snoc (fun request hr => ?_) fun _ => hevent.not_breaks
      subst hr
      exact hevent.elim
    rw [List.append_cons]
    exact ih hone fun later hlater => hinert later (by simp [hlater])

theorem Bad.inert (h : Bad attempts index past e) (hinert : ∀ event ∈ events, event.Inert) :
    Bad attempts index (past ++ events) e := by
  obtain ⟨before, event, after, rfl, hgood, hbreak, hafter⟩ := h
  refine ⟨before, event, after ++ events, by simp, hgood, hbreak, fun later hlater => ?_⟩
  rcases List.mem_append.mp hlater with h | h
  · exact hafter later h
  · exact hinert later h

theorem Good.breaks (h : Good attempts index past) (hbreak : Breaks attempts index past event e) :
    Bad attempts index (past ++ [event]) e :=
  ⟨past, event, [], rfl, h, hbreak, by simp⟩

theorem Event.IsAside.inert (h : event.IsAside) : event.Inert := by
  cases h with
  | waited d => exact trivial
  | apiError operation code => exact fun _ h => nomatch h
  | retried operation => exact fun _ h => nomatch h

/-! ### Attempts -/

theorem Event.Inert.answer? (h : event.Inert) : event.answer? = none := by
  cases event with
  | answered request answer => exact h.elim
  | _ => rfl

theorem Event.Inert.task? (h : event.Inert) : event.task? = none := by
  cases event with
  | answered request answer => exact h.elim
  | _ => rfl

/-- The answers after an attempt. -/
theorem answersOf_attempt {answer : Except String Reply} {asides : List Event}
    (hasides : ∀ event ∈ asides, event.IsAside) :
    answersOf (past ++ .sent request :: .answered request answer :: asides) =
      answersOf past ++ [(request, answer)] := by
  have hnone : asides.filterMap Event.answer? = [] :=
    filterMap_asides hasides fun _ h => h.inert.answer?
  rw [answersOf, List.filterMap_append]
  show _ ++ (request, answer) :: asides.filterMap Event.answer? = _
  rw [hnone, answersOf]

theorem answersTo_attempt {answer : Except String Reply} {asides : List Event}
    (hasides : ∀ event ∈ asides, event.IsAside) :
    answersTo request (past ++ .sent request :: .answered request answer :: asides) =
      answersTo request past + 1 := by
  rw [answersTo, answersOf_attempt hasides, List.countP_append]
  simp [answersTo]

theorem lastAnswer_attempt {answer : Except String Reply} {asides : List Event}
    (hasides : ∀ event ∈ asides, event.IsAside) :
    lastAnswer (past ++ .sent request :: .answered request answer :: asides) =
      some (request, answer) := by
  rw [lastAnswer, answersOf_attempt hasides, List.getLast?_concat]

theorem answersTo_sent (sent : Request) :
    answersTo request (past ++ [.sent sent]) = answersTo request past := by
  rw [answersTo, answersOf, List.filterMap_append]
  exact congrArg _ (List.append_nil _)

/-- An attempt with which nothing goes wrong. -/
theorem Good.attempt {answer : Except String Reply} {asides : List Event}
    (hgood : Good attempts index past) (hmay : MaySend index past request)
    (hasides : ∀ event ∈ asides, event.IsAside)
    (h : ∀ e, ¬ Breaks attempts index (past ++ [.sent request]) (.answered request answer) e) :
    Good attempts index (past ++ .sent request :: .answered request answer :: asides) := by
  have hanswered : Good attempts index (past ++ [.sent request] ++ [.answered request answer]) :=
    (hgood.sent hmay).snoc (fun _ h => nomatch h) h
  have hinert := hanswered.inert fun event hevent => (hasides event hevent).inert
  simpa using hinert

theorem Good.attempt_breaks {answer : Except String Reply} {asides : List Event}
    (hgood : Good attempts index past) (hmay : MaySend index past request)
    (hasides : ∀ event ∈ asides, event.IsAside)
    (h : Breaks attempts index (past ++ [.sent request]) (.answered request answer) e) :
    Bad attempts index (past ++ .sent request :: .answered request answer :: asides) e := by
  have hinert := ((hgood.sent hmay).breaks h).inert fun event hevent => (hasides event hevent).inert
  simpa using hinert

/-- What goes wrong with an answer is the error that it stands for, or it is the answer to a check. -/
theorem Breaks.answered {before : List Event} {answer : Except String Reply}
    (h : Breaks attempts index before (.answered request answer) e) (honce : request.isOnce = false) :
    Reply.receivedAs request.decodes answer = .error e ∧
      (e.isTransient = false ∨ attempts ≤ answersTo request before + 1) ∧
        ¬ (request = .read (.index index) ∧ ∃ message, e = .indexNotFound message) := by
  cases h with
  | refused h hfinal hfound =>
    rw [honce] at hfinal
    exact ⟨h, hfinal.resolve_left Bool.false_ne_true, hfound⟩
  | failed h hstatus => cases honce
  | canceled h hstatus => cases honce

/-- The attempts of a read keep a good history good, unless the last answer stands for an error. -/
theorem Attempts.good_read {made : Nat} {final : Option (Except String Reply)}
    (h : Attempts request attempts made events final) (honce : request.isOnce = false)
    (hother : request.endpoint ≠ .indexes) (hgood : Good attempts index past)
    (hmade : answersTo request past = made) :
    (final = none → Good attempts index (past ++ events)) ∧
      ∀ answer, final = some answer → lastAnswer (past ++ events) = some (request, answer) ∧
        ((∀ e, Reply.receivedAs request.decodes answer = .error e →
            request = .read (.index index) ∧ ∃ message, e = .indexNotFound message) →
          Good attempts index (past ++ events)) ∧
        ∀ e, Reply.receivedAs request.decodes answer = .error e →
          ¬ (request = .read (.index index) ∧ ∃ message, e = .indexNotFound message) →
            Bad attempts index (past ++ events) e := by
  have hmay : ∀ history, MaySend index history request := by
    refine fun history => ⟨fun hwrite => ?_, fun h => absurd h hother⟩
    rw [Request.isOnce, hwrite] at honce
    cases honce
  -- before each attempt the history is good, and has the answers to the attempts made so far
  induction h generalizing past with
  | unanswered made => exact ⟨fun _ => hgood.sent (hmay past), fun _ h => nomatch h⟩
  | @last made answer asides hfinal hasides =>
    refine ⟨(nomatch ·), fun answer' hanswer => ?_⟩
    obtain rfl := Option.some.inj hanswer
    refine ⟨lastAnswer_attempt hasides, fun hfound => ?_, fun e he hfound => ?_⟩
    · refine hgood.attempt (hmay past) hasides fun e hbreak => ?_
      obtain ⟨he, -, hmissing⟩ := hbreak.answered honce
      exact hmissing (hfound e he)
    · refine hgood.attempt_breaks (hmay past) hasides (.refused he ?_ hfound)
      cases hpass : e.isTransient with
      | false => exact .inr (.inl rfl)
      | true =>
        have hlast := hfinal e (Reply.received_of_transient he hpass) hpass
        rw [answersTo_sent, hmade]
        exact .inr (.inr hlast)
  | @again made answer e asides events final hanswer hpass hleft hasides hrest ih =>
    have hagain : Good attempts index
        (past ++ .sent request :: .answered request answer :: asides) := by
      refine hgood.attempt (hmay past) hasides fun e' hbreak => ?_
      obtain ⟨he, hfinal, -⟩ := hbreak.answered honce
      -- the error is the one that may pass, and there are attempts left
      rw [Reply.receivedAs, hanswer] at he
      obtain rfl := Except.error.inj he
      rw [hpass, answersTo_sent, hmade] at hfinal
      rcases hfinal with h | h
      · cases h
      · omega
    have hmore := ih hagain (by rw [answersTo_attempt hasides, hmade])
    simpa using hmore

/-- The bodies of the replies to writes and to checks are tasks. -/
theorem Request.receivedAs_decodes_task (h : request.isOnce = true) (answer : Except String Reply) :
    Reply.receivedAs request.decodes answer =
      (fun _ => ()) <$> Reply.receivedAs Task.ofJson answer := by
  rw [← Reply.receivedAs_map]
  congr 1
  funext body
  rw [decodes, h]

theorem Event.task?_answered {answer : Except String Reply} {t : Task}
    (h : request.isOnce = true) (ht : Reply.receivedAs Task.ofJson answer = .ok t) :
    (Event.answered request answer).task? = some t := by
  rw [Event.task?, if_pos h, ht]
  rfl

/-- A write, if it may be sent, keeps a good history good when it is queued as a task. -/
theorem Attempts.good_write {final : Option (Except String Reply)}
    (h : Attempts request 1 0 events final) (hwrite : request.method.isRead = false)
    (hmay : MaySend index past request) (hgood : Good attempts index past) :
    (final = none → Good attempts index (past ++ events)) ∧
      ∀ answer, final = some answer →
        (∃ asides, events = .sent request :: .answered request answer :: asides ∧
          ∀ event ∈ asides, event.IsAside) ∧
        (∀ queued, Reply.receivedAs Task.ofJson answer = .ok queued →
          Good attempts index (past ++ events) ∧ lastTask (past ++ events) = some queued) ∧
        ∀ e, Reply.receivedAs Task.ofJson answer = .error e →
          Bad attempts index (past ++ events) e := by
  have honce : request.isOnce = true := by rw [Request.isOnce, hwrite]; rfl
  cases h with
  | unanswered => exact ⟨fun _ => hgood.sent hmay, fun _ h => nomatch h⟩
  | again _ _ hleft => omega
  | @last _ answer asides hfinal hasides =>
    refine ⟨(nomatch ·), fun answer' hanswer => ?_⟩
    obtain rfl := Option.some.inj hanswer
    refine ⟨⟨asides, rfl, hasides⟩, fun queued hqueued => ⟨?_, ?_⟩, fun e he => ?_⟩
    · refine hgood.attempt hmay hasides fun e hbreak => ?_
      cases hbreak with
      | refused h =>
        rw [Request.receivedAs_decodes_task honce, hqueued] at h
        cases h
      | failed => cases hwrite
      | canceled => cases hwrite
    · have hnone : asides.filterMap Event.task? = [] := filterMap_asides hasides fun _ h => h.inert.task?
      rw [lastTask, List.filterMap_append, List.filterMap_cons_none rfl,
        List.filterMap_cons_some (Event.task?_answered honce hqueued), hnone, List.getLast?_concat]
    · refine hgood.attempt_breaks hmay hasides (.refused ?_ (.inl honce) ?_)
      · rw [Request.receivedAs_decodes_task honce, he]
        rfl
      · rintro ⟨rfl, -⟩
        cases hwrite

/-! ### Polling -/

/-- What the rounds of polling a task make of a good history. -/
inductive PollEnd (attempts : Nat) (index : String) (past : List Event) (uid : UInt64)
    (events : List Event) : Except Stop (TaskOutcome × Nat) → Prop where
  | succeeded {t : Task} {checks : Nat} {check : Except String Reply}
      (hgood : Good attempts index (past ++ events)) (hstatus : t.status = .succeeded)
      (hcheck : .answered (.read (.task uid)) check ∈ events)
      (hanswer : Reply.receivedAs Task.ofJson check = .ok t) :
      PollEnd attempts index past uid events (.ok (.succeeded t, checks))
  | failed {t : Task} {checks : Nat}
      (hbad : Bad attempts index (past ++ events) (TaskOutcome.failureError t)) :
      PollEnd attempts index past uid events (.ok (.failed t, checks))
  | canceled {t : Task} {checks : Nat}
      (hbad : Bad attempts index (past ++ events) (.taskCanceled t.uid)) :
      PollEnd attempts index past uid events (.ok (.canceled t, checks))
  /-- This is yet to be counted. -/
  | timedOut {t : Task} {waited : Duration} {checks : Nat}
      (hgood : Good attempts index (past ++ events))
      (hlast : lastTask (past ++ events) = some t) :
      PollEnd attempts index past uid events (.ok (.timedOut t waited checks, checks))
  | error {e : ClientError} (hbad : Bad attempts index (past ++ events) e) :
      PollEnd attempts index past uid events (.error (.failed e))
  | stalled (hgood : Good attempts index (past ++ events)) :
      PollEnd attempts index past uid events (.error .stalled)

theorem PollEnd.cons {uid : UInt64} {first rest : List Event}
    {result : Except Stop (TaskOutcome × Nat)}
    (h : PollEnd attempts index (past ++ first) uid rest result) :
    PollEnd attempts index past uid (first ++ rest) result := by
  have hassoc : past ++ first ++ rest = past ++ (first ++ rest) := List.append_assoc ..
  cases h with
  | succeeded hgood hstatus hcheck hanswer =>
    exact .succeeded (hassoc ▸ hgood) hstatus (List.mem_append_right _ hcheck) hanswer
  | failed hbad => exact .failed (hassoc ▸ hbad)
  | canceled hbad => exact .canceled (hassoc ▸ hbad)
  | timedOut hgood hlast => exact .timedOut (hassoc ▸ hgood) (hassoc ▸ hlast)
  | error hbad => exact .error (hassoc ▸ hbad)
  | stalled hgood => exact .stalled (hassoc ▸ hgood)

variable {uid : UInt64} {answer : Except String Reply} {t : Task}

theorem maySend_check (uid : UInt64) (history : List Event) :
    MaySend index history (.read (.task uid)) :=
  ⟨fun h => (nomatch h), fun h => (nomatch h)⟩

/-- A check that finds the task going, or succeeded. -/
theorem Good.check (hgood : Good attempts index past) (uid : UInt64)
    (hanswer : Reply.receivedAs Task.ofJson answer = .ok t) (hfailed : t.status ≠ .failed)
    (hcanceled : t.status ≠ .canceled) :
    Good attempts index
      (past ++ [.sent (.read (.task uid)), .answered (.read (.task uid)) answer]) := by
  refine hgood.attempt (maySend_check uid past) (List.forall_mem_nil Event.IsAside) fun e hbreak => ?_
  cases hbreak with
  | refused h =>
    rw [Request.receivedAs_decodes_task rfl, hanswer] at h
    cases h
  | failed h hstatus =>
    obtain rfl := Except.ok.inj (hanswer.symm.trans h)
    exact hfailed hstatus
  | canceled h hstatus =>
    obtain rfl := Except.ok.inj (hanswer.symm.trans h)
    exact hcanceled hstatus

/-- A check that ends polling in an error. -/
theorem Good.check_breaks (hgood : Good attempts index past)
    (h : Breaks attempts index (past ++ [.sent (.read (.task uid))])
      (.answered (.read (.task uid)) answer) e) :
    Bad attempts index
      (past ++ [.sent (.read (.task uid)), .answered (.read (.task uid)) answer]) e :=
  hgood.attempt_breaks (maySend_check uid past) (List.forall_mem_nil Event.IsAside) h

theorem lastTask_inert (hinert : ∀ event ∈ events, event.Inert) :
    lastTask (past ++ events) = lastTask past := by
  have hnone : events.filterMap Event.task? = [] :=
    List.filterMap_eq_nil_iff.mpr fun event hevent => (hinert event hevent).task?
  rw [lastTask, List.filterMap_append, hnone, List.append_nil, lastTask]

/-- The task that a check told of is the one that was last seen. -/
theorem lastTask_check (past : List Event) (uid : UInt64)
    (hanswer : Reply.receivedAs Task.ofJson answer = .ok t) :
    lastTask (past ++ [.sent (.read (.task uid)), .answered (.read (.task uid)) answer]) =
      some t := by
  rw [lastTask, List.filterMap_append, List.filterMap_cons_none rfl,
    List.filterMap_cons_some (Event.task?_answered rfl hanswer), List.filterMap_nil,
    List.getLast?_concat]

theorem going_ne (h : TaskOutcome.ofTerminal? t = none) :
    t.status ≠ .failed ∧ t.status ≠ .canceled := by
  unfold TaskOutcome.ofTerminal? at h
  constructor
  · intro hstatus
    rw [hstatus] at h
    cases h
  · intro hstatus
    rw [hstatus] at h
    cases h

/-- Polling without a signal, from a history in which the task was seen. -/
theorem Session.Polling.good {policy : PollPolicy} {now : Duration} {rounds : Nat} {state : Session.PollState}
    {result : Except Stop (TaskOutcome × Nat)}
    (h : Session.Polling policy {} now rounds state result events)
    (hgood : Good attempts index past) (hlast : lastTask past = some state.task) :
    PollEnd attempts index past state.uid events result := by
  -- there is no signal that a round could heed
  have hcalm : ∀ t, ¬ CancelSignal.RaisedBy {} t := fun t ⟨_, h, _⟩ => nomatch h
  induction h generalizing past with
  | exhausted state => exact .stalled (by rwa [List.append_nil])
  | @ended rounds state ending events h =>
    cases h with
    | heeded hraised => exact absurd hraised (hcalm _)
    | interrupted hraised => exact absurd hraised (hcalm _)
    | late =>
      have hleft : ∀ event ∈ [Event.abandoned (.read (.task state.uid))], event.Inert := by
        simp [Event.Inert]
      have hlate := (hgood.sent (maySend_check state.uid past)).inert hleft
      refine .timedOut (by simpa using hlate) ?_
      rw [lastTask, List.filterMap_append]
      exact (congrArg List.getLast? (List.append_nil _)).trans hlast
    | @ended answer task outcome hanswer houtcome =>
      unfold TaskOutcome.ofTerminal? at houtcome
      split at houtcome
      · next hstatus =>
        obtain rfl := Option.some.inj houtcome
        exact .succeeded (hgood.check _ hanswer (by simp [hstatus]) (by simp [hstatus])) hstatus
          (by simp) hanswer
      · next hstatus =>
        obtain rfl := Option.some.inj houtcome
        exact .failed (hgood.check_breaks (.failed hanswer hstatus))
      · next hstatus =>
        obtain rfl := Option.some.inj houtcome
        exact .canceled (hgood.check_breaks (.canceled hanswer hstatus))
      · cases houtcome
    | timedOut hanswer hgoing hover =>
      obtain ⟨hfailed, hcanceled⟩ := going_ne hgoing
      exact .timedOut (hgood.check _ hanswer hfailed hcanceled) (lastTask_check past _ hanswer)
    | stopped hanswer hgoing hraised => exact absurd hraised (hcalm _)
  | failed h =>
    -- a check is not tried again, so any error it stands for is the end
    cases h with
    | failed hanswer =>
      refine .error (hgood.check_breaks (.refused ?_ (.inl rfl) fun h => nomatch h.1))
      rw [Request.receivedAs_decodes_task rfl, hanswer]
      rfl
  | @again rounds state next moment events more result h hrest ih =>
    cases h with
    | @again answer task d hanswer hgoing hleft =>
      obtain ⟨hfailed, hcanceled⟩ := going_ne hgoing
      have hwaited : ∀ event ∈ [Event.waited d], event.Inert := by simp [Event.Inert]
      have hchecked := (hgood.check state.uid hanswer hfailed hcanceled).inert hwaited
      have hseen := (lastTask_inert hwaited).trans
        (lastTask_check past state.uid hanswer)
      rw [List.append_assoc] at hchecked hseen
      exact (ih hchecked hseen).cons

end Good

end SearchClient
