/-
SearchClient/Proofs/Wire/Record.lean

What a run adds to the history.  `a.Records w post` says of the action `a`, started in the world `w`,
that `post` is true of its end, of the events it adds, and of the world after it; it is followed along
the steps of an action (`Records.bind`) whatever the transport does.

The events of a call are its attempts.  Each is a request with its answer, and there is another one
exactly after an answer that may pass while attempts are left (`Tries`, and `Attempts` if what is counted
and how long is waited do not matter); a write has one attempt.  The answer to the last attempt is what the
call comes to (`Client.send_tries`, `Client.call_run`).
-/
import SearchClient.Proofs.Wire.Run

namespace SearchClient

variable {σ α β : Type}

/-! ### Readings of an answer -/

namespace Reply

/-- The reply, if the answer is one that reports success, or else the error it stands for. -/
def received : Except String Reply → Except ClientError Reply
  | .ok reply => if reply.isSuccess then .ok reply else .error reply.error
  | .error failure => .error (.transport failure)

/-- What the answer stands for: a value, if it reports success and can be decoded, or else an error. -/
def receivedAs (read : Json → Decoded α) (answer : Except String Reply) : Except ClientError α :=
  received answer >>= fun reply => reply.decode read

theorem receivedAs_ok {read : Json → Decoded α} {reply : Reply} {x : α} (hs : reply.isSuccess = true)
    (hx : read reply.body = .ok x) : receivedAs read (.ok reply) = .ok x := by
  rw [receivedAs, received, if_pos hs, ok_bind, decode, hx]
  rfl

theorem receivedAs_map (f : α → β) (read : Json → Decoded α) (answer : Except String Reply) :
    receivedAs (fun body => f <$> read body) answer = f <$> receivedAs read answer := by
  rcases hreceived : received answer with e | reply
  · simp only [receivedAs, hreceived]
    rfl
  · simp only [receivedAs, hreceived, ok_bind, decode]
    cases read reply.body <;> rfl

/-- An error that may pass is not one of decoding. -/
theorem received_of_transient {read : Json → Decoded α} {answer : Except String Reply}
    {e : ClientError} (h : receivedAs read answer = .error e) (hpass : e.isTransient = true) :
    received answer = .error e := by
  rcases hreceived : received answer with e' | reply
  · rw [receivedAs, hreceived] at h
    exact congrArg Except.error (Except.error.inj h)
  · rw [receivedAs, hreceived, ok_bind, decode] at h
    cases hread : read reply.body with
    | ok x =>
      rw [hread] at h
      cases h
    | error cause =>
      rw [hread] at h
      obtain rfl := Except.error.inj h
      cases hpass

end Reply

namespace Action

/-! ### Records -/

/-- What the run of an action adds to the history, with its end and the world after it. -/
def Records (a : Action σ α) (w : World σ)
    (post : Except Stop α → List Event → World σ → Prop) : Prop :=
  ∃ events, (a.run.run w).2.history = w.history ++ events ∧
    post (a.run.run w).1 events (a.run.run w).2

variable {a : Action σ α} {w : World σ} {P Q : Except Stop α → List Event → World σ → Prop}

theorem records_of_run {result : Except Stop α} {w' : World σ} {events : List Event}
    (hrun : a.run.run w = (result, w')) (hevents : w'.history = w.history ++ events)
    (h : P result events w') : a.Records w P := by
  refine ⟨events, ?_, ?_⟩
  · rw [hrun, hevents]
  · rw [hrun]
    exact h

theorem Records.mono (h : a.Records w P)
    (hPQ : ∀ result events w', w'.history = w.history ++ events → P result events w' →
      Q result events w') : a.Records w Q := by
  obtain ⟨events, hevents, hP⟩ := h
  exact ⟨events, hevents, hPQ _ _ _ hevents hP⟩

/-- Two things that are true of one run. -/
theorem Records.and (hP : a.Records w P) (hQ : a.Records w Q) :
    a.Records w fun result events w' => P result events w' ∧ Q result events w' := by
  obtain ⟨events, hevents, hP⟩ := hP
  obtain ⟨events', hevents', hQ⟩ := hQ
  obtain rfl := List.append_cancel_left (hevents.symm.trans hevents')
  exact ⟨events, hevents, hP, hQ⟩

theorem records_pure {x : α} (h : P (.ok x) [] w) : (pure x : Action σ α).Records w P :=
  records_of_run rfl (List.append_nil _).symm h

theorem records_ofExcept {x : Except ClientError α} (h : P (x.mapError .failed) [] w) :
    (ofExcept x : Action σ α).Records w P :=
  records_of_run (run_ofExcept x w) (List.append_nil _).symm h

/-- The second step adds to what the first one has added. -/
theorem Records.bind {f : α → Action σ β} {R : Except Stop β → List Event → World σ → Prop}
    (h : a.Records w P)
    (hok : ∀ x events w', w'.history = w.history ++ events → P (.ok x) events w' →
      (f x).Records w' fun result more w'' => R result (events ++ more) w'')
    (herror : ∀ e events w', P (.error e) events w' → R (.error e) events w') :
    (a >>= f).Records w R := by
  obtain ⟨events, hevents, hP⟩ := h
  rcases hrun : a.run.run w with ⟨e | x, w'⟩
  · rw [hrun] at hevents hP
    exact records_of_run (run_bind_error hrun) hevents (herror e events w' hP)
  · rw [hrun] at hevents hP
    obtain ⟨more, hmore, hR⟩ := hok x events w' hevents hP
    rw [← run_bind_ok (f := f) hrun] at hmore hR
    exact ⟨events ++ more, by rw [hmore, hevents, List.append_assoc], hR⟩

/-- Nothing is recorded of what is made of the value. -/
theorem Records.map {f : α → β} {P : Except Stop α → List Event → Prop}
    (h : a.Records w fun result events _ => P result events) :
    (a >>= fun x => pure (f x)).Records w fun result events _ =>
      ∃ outcome, P outcome events ∧ result = f <$> outcome := by
  refine h.bind ?_ ?_
  · intro x events w' _ hP
    exact records_pure ⟨.ok x, by rwa [List.append_nil], rfl⟩
  · intro e events w' hP
    exact ⟨.error e, hP, rfl⟩

/-- An action that runs as another one does from a later world. -/
theorem Records.of_eq {b : Action σ α} {w₁ : World σ} (past : List Event)
    (hrun : a.run.run w = b.run.run w₁) (hpast : w₁.history = w.history ++ past)
    (h : b.Records w₁ fun result events w' => P result (past ++ events) w') : a.Records w P := by
  obtain ⟨events, hevents, hP⟩ := h
  rw [← hrun] at hevents hP
  exact ⟨past ++ events, by rw [hevents, hpast, List.append_assoc], hP⟩

/-- The same when nothing is recorded before that. -/
theorem Records.of_eq_quiet {b : Action σ α} {w₁ : World σ} (hrun : a.run.run w = b.run.run w₁)
    (hquiet : w₁.history = w.history) (h : b.Records w₁ P) : a.Records w P :=
  .of_eq [] hrun (hquiet.trans (List.append_nil _).symm) h

theorem Records.attempt {R : Except Stop (Except ClientError α) → List Event → World σ → Prop}
    (h : a.Records w P) (hok : ∀ x events w', P (.ok x) events w' → R (.ok (.ok x)) events w')
    (hfailed : ∀ e events w', P (.error (.failed e)) events w' → R (.ok (.error e)) events w')
    (hstalled : ∀ events w', P (.error .stalled) events w' → R (.error .stalled) events w')
    (hoverflowed : ∀ events w', P (.error .overflowed) events w' →
      R (.error .overflowed) events w') :
    (attempt a).Records w R := by
  obtain ⟨events, hevents, hP⟩ := h
  have hrun := run_attempt a w
  rcases hresult : a.run.run w with ⟨(e | - | -) | x, w'⟩
  · rw [hresult] at hevents hP hrun
    exact records_of_run hrun hevents (hfailed e events w' hP)
  · rw [hresult] at hevents hP hrun
    exact records_of_run hrun hevents (hstalled events w' hP)
  · rw [hresult] at hevents hP hrun
    exact records_of_run hrun hevents (hoverflowed events w' hP)
  · rw [hresult] at hevents hP hrun
    exact records_of_run hrun hevents (hok x events w' hP)

/-- An answer that is taken apart step by step. -/
theorem run_receivedAs (read : Json → Decoded α) (answer : Except String Reply)
    (f : α → Action σ β) (w : World σ) :
    (do
      let reply ← ofExcept (answer.mapError .transport)
      if !reply.isSuccess then fail reply.error
      let x ← ofExcept (reply.decode read)
      f x : Action σ β).run.run w = (ofExcept (Reply.receivedAs read answer) >>= f).run.run w := by
  rcases answer with failure | reply
  · rfl
  · refine (run_bind_ok (run_ofExcept (.ok reply) w)).trans ?_
    cases hs : reply.isSuccess with
    | false =>
      simp only [hs, Reply.receivedAs, Reply.received]
      rfl
    | true =>
      simp only [hs, Reply.receivedAs, Reply.received]
      rfl

end Action

/-! ### Attempts -/

/-- What is noted of a call besides its requests and their answers. -/
inductive Event.IsAside : Event → Prop where
  | waited (d : Duration) : IsAside (.waited d)
  | apiError (operation : Operation) (code : String) : IsAside (.counted (.apiError operation code))
  | retried (operation : Operation) : IsAside (.counted (.retried operation))

theorem filterMap_asides {f : Event → Option α} {asides : List Event}
    (hasides : ∀ event ∈ asides, event.IsAside)
    (hf : ∀ event : Event, event.IsAside → f event = none) : asides.filterMap f = [] :=
  List.filterMap_eq_nil_iff.mpr fun event hevent => hf event (hasides event hevent)

/-- What is counted besides tells nothing of anything else. -/
theorem filterMap_counted {f : Event → Option α} (events : List Event) {more : List Event}
    (hmore : ∀ event ∈ more, ∃ m, event = .counted m) (hf : ∀ m, f (.counted m) = none) :
    (events ++ more).filterMap f = events.filterMap f := by
  have hnone : more.filterMap f = [] := by
    refine List.filterMap_eq_nil_iff.mpr fun event hevent => ?_
    obtain ⟨m, rfl⟩ := hmore event hevent
    exact hf m
  rw [List.filterMap_append, hnone, List.append_nil]

/-- The attempts of a call, when some were made before: the events, and the last answer, if it came. -/
inductive Attempts (request : Request) (allowed : Nat) :
    Nat → List Event → Option (Except String Reply) → Prop where
  | unanswered (made : Nat) : Attempts request allowed made [.sent request] none
  | last {made : Nat} {answer : Except String Reply} {asides : List Event}
      (hfinal : ∀ e, Reply.received answer = .error e → e.isTransient = true → allowed ≤ made + 1)
      (hasides : ∀ event ∈ asides, event.IsAside) :
      Attempts request allowed made (.sent request :: .answered request answer :: asides)
        (some answer)
  | again {made : Nat} {answer : Except String Reply} {e : ClientError} {asides events : List Event}
      {final : Option (Except String Reply)}
      (hanswer : Reply.received answer = .error e) (hpass : e.isTransient = true)
      (hleft : made + 1 < allowed) (hasides : ∀ event ∈ asides, event.IsAside)
      (hrest : Attempts request allowed (made + 1) events final) :
      Attempts request allowed made (.sent request :: .answered request answer :: (asides ++ events))
        final

/-- An attempt that is counted as one to be made again and waited for, and the attempts after it. -/
theorem Attempts.retried {request : Request} {allowed made : Nat} {answer : Except String Reply}
    {e : ClientError} {asides events : List Event} {final : Option (Except String Reply)}
    (operation : Operation) (d : Duration) (hanswer : Reply.received answer = .error e)
    (hpass : e.isTransient = true) (hleft : made + 1 < allowed)
    (hasides : ∀ event ∈ asides, event.IsAside)
    (hrest : Attempts request allowed (made + 1) events final) :
    Attempts request allowed made (.sent request :: .answered request answer ::
      (asides ++ .counted (.retried operation) :: .waited d :: events)) final := by
  have hmore : ∀ event ∈ asides ++ [.counted (.retried operation), .waited d], event.IsAside := by
    intro event hevent
    rcases List.mem_append.mp hevent with h | h
    · exact hasides event h
    · rcases List.mem_pair.mp h with rfl | rfl
      · exact .retried operation
      · exact .waited d
  simpa using Attempts.again hanswer hpass hleft hmore hrest

/-- The event is no part of a call for another request. -/
def Event.IsAbout (request : Request) : Event → Prop
  | .sent other | .answered other _ | .abandoned other => other = request
  | .waited _ | .counted _ => True

theorem Event.IsAside.isAbout {event : Event} (h : event.IsAside) (request : Request) :
    event.IsAbout request := by
  cases h <;> exact trivial

theorem Attempts.isAbout {request : Request} {allowed made : Nat} {events : List Event}
    {final : Option (Except String Reply)} (h : Attempts request allowed made events final) :
    ∀ event ∈ events, event.IsAbout request := by
  induction h with
  | unanswered made => simp [Event.IsAbout]
  | last _ hasides =>
    simpa [Event.IsAbout] using fun event hevent => (hasides event hevent).isAbout request
  | again _ _ _ hasides _ ih =>
    simp only [List.mem_cons, List.mem_append]
    rintro event (rfl | rfl | h | h)
    · exact rfl
    · exact rfl
    · exact (hasides event h).isAbout request
    · exact ih event h

/-- What attempts come to: the reading of the last answer, if it came. -/
def Attempts.result (reading : Except String Reply → Except ClientError α) :
    Option (Except String Reply) → Except Stop α
  | some answer => (reading answer).mapError .failed
  | none => .error .stalled

theorem Attempts.result_eq_ok {reading : Except String Reply → Except ClientError α}
    {final : Option (Except String Reply)} {x : α} (h : result reading final = .ok x) :
    ∃ answer, final = some answer ∧ reading answer = .ok x := by
  cases final with
  | none => cases h
  | some answer =>
    refine ⟨answer, rfl, ?_⟩
    rcases hanswer : reading answer with e | y
    · rw [result, hanswer] at h
      cases h
    · rw [result, hanswer] at h
      obtain rfl := Except.ok.inj h
      rfl

theorem Attempts.result_eq_error {reading : Except String Reply → Except ClientError α}
    {final : Option (Except String Reply)} {stop : Stop} (h : result reading final = .error stop) :
    (final = none ∧ stop = .stalled) ∨
      ∃ answer e, final = some answer ∧ reading answer = .error e ∧ stop = .failed e := by
  cases final with
  | none => exact .inl ⟨rfl, (Except.error.inj h).symm⟩
  | some answer =>
    rcases hanswer : reading answer with e | y
    · rw [result, hanswer] at h
      exact .inr ⟨answer, e, rfl, hanswer, (Except.error.inj h).symm⟩
    · rw [result, hanswer] at h
      cases h

/-- A call works out no number. -/
theorem Attempts.result_ne_overflowed (reading : Except String Reply → Except ClientError α)
    (final : Option (Except String Reply)) : result reading final ≠ .error .overflowed := by
  intro h
  rcases result_eq_error h with ⟨-, hstop⟩ | ⟨_, _, -, -, hstop⟩
  · cases hstop
  · cases hstop

/-! ### The history of a call -/

/-- What is counted of an answer: a reply that reports a failure. -/
def Reply.noted (operation : Operation) : Except String Reply → List Event
  | .ok reply =>
    if reply.isSuccess then [] else [.counted (.apiError operation reply.failure.1)]
  | .error _ => []

theorem Reply.noted_isAside {operation : Operation} {answer : Except String Reply} {event : Event}
    (h : event ∈ noted operation answer) : event.IsAside := by
  rcases answer with failure | reply
  · cases h
  · rw [noted] at h
    split at h
    · cases h
    · obtain rfl := List.mem_singleton.mp h
      exact .apiError _ _

/-- A failure that may pass when the request is sent again. -/
def Reply.MayPass (answer : Except String Reply) : Prop :=
  ∃ e, received answer = .error e ∧ e.isTransient = true

/-- The events of a call, when some attempts were made before: `passed` are the answers after which the
request was sent again. -/
def callEvents (operation : Operation) (backoff : Backoff) (request : Request) :
    Nat → List (Except String Reply) → Option (Except String Reply) → List Event
  | _, [], none => [.sent request]
  | _, [], some answer => .sent request :: .answered request answer :: Reply.noted operation answer
  | made, answer :: passed, final =>
    .sent request :: .answered request answer :: (Reply.noted operation answer ++
      .counted (.retried operation) :: .waited (backoff.delayAfterAttempt (made + 1)) ::
        callEvents operation backoff request (made + 1) passed final)

/-- How a call goes, when some attempts were made before and so many are allowed. -/
structure Tries (operation : Operation) (backoff : Backoff) (request : Request)
    (allowed made : Nat) (passed : List (Except String Reply)) (final : Option (Except String Reply))
    (events : List Event) : Prop where
  events_eq : events = callEvents operation backoff request made passed final
  within : made + passed.length < allowed
  passes : ∀ answer ∈ passed, Reply.MayPass answer
  stops : ∀ answer, final = some answer → made + passed.length + 1 < allowed →
    ¬ Reply.MayPass answer

/-- One more attempt in front. -/
theorem Tries.again {operation : Operation} {backoff : Backoff} {request : Request}
    {allowed made : Nat} {answer : Except String Reply} {passed : List (Except String Reply)}
    {final : Option (Except String Reply)} {events : List Event} (hpass : Reply.MayPass answer)
    (h : Tries operation backoff request allowed (made + 1) passed final events) :
    Tries operation backoff request allowed made (answer :: passed) final
      (.sent request :: .answered request answer :: (Reply.noted operation answer ++
        .counted (.retried operation) :: .waited (backoff.delayAfterAttempt (made + 1)) ::
          events)) where
  events_eq := by rw [h.events_eq, callEvents]
  within := by
    have hwithin := h.within
    rw [List.length_cons]
    omega
  passes a ha := by
    rcases List.mem_cons.mp ha with rfl | ha
    · exact hpass
    · exact h.passes a ha
  stops a ha hleft := h.stops a ha (by
    rw [List.length_cons] at hleft
    omega)

/-- What one attempt after the other tells of a call. -/
theorem Tries.attempts {operation : Operation} {backoff : Backoff} {request : Request}
    {allowed made : Nat} {passed : List (Except String Reply)} {final : Option (Except String Reply)}
    {events : List Event} (h : Tries operation backoff request allowed made passed final events) :
    Attempts request allowed made events final := by
  obtain ⟨rfl, hwithin, hpasses, hstops⟩ := h
  induction passed generalizing made with
  | nil =>
    cases final with
    | none => exact .unanswered made
    | some answer =>
      refine .last (fun e he hpass => ?_) fun event => Reply.noted_isAside
      by_contra hleft
      exact hstops answer rfl (by rw [List.length_nil]; omega) ⟨e, he, hpass⟩
  | cons answer passed ih =>
    rw [List.length_cons] at hwithin hstops
    obtain ⟨e, he, hpass⟩ := hpasses answer (by simp)
    refine .retried operation _ he hpass (by omega) (fun event => Reply.noted_isAside)
      (ih (by omega) (fun a ha => hpasses a (by simp [ha])) fun a ha hleft => ?_)
    exact hstops a ha (by omega)

theorem Session.exchange_records (s : Session σ) (request : Request) (w : World σ) :
    (s.exchange request).Records w fun result events _ =>
      (result = .error .stalled ∧ events = [.sent request]) ∨
        ∃ answer, result = .ok (answer.mapError .transport) ∧
          events = [.sent request, .answered request answer] := by
  have hdepart := s.depart_run request w
  rcases hsent : s.transport.depart request w.line with ⟨latency, line⟩
  rw [hsent] at hdepart
  cases latency with
  | none => exact Action.records_of_run (Action.run_bind_ok hdepart) rfl (.inl ⟨rfl, rfl⟩)
  | some latency =>
    rcases hanswer : s.transport.arrive request line with ⟨answer, line'⟩
    have hanswers : s.transport.Answers request w.line latency answer line' :=
      ⟨line, hsent, hanswer⟩
    exact Action.records_of_run (Session.exchange_run hanswers) rfl (.inr ⟨answer, rfl, rfl⟩)

/-- The world after a wait. -/
def Session.waited (s : Session σ) (d : Duration) (w : World σ) : World σ :=
  { w with now := max w.now (s.clock.after w.now d), history := w.history ++ [.waited d] }

theorem Session.wait_run (s : Session σ) (d : Duration) (w : World σ) :
    (s.wait d).run.run w = (.ok (), s.waited d w) := rfl

namespace Client

variable (c : Client σ)

/-- One attempt. -/
theorem sendOnce_records (operation : Operation) (request : Request) (w : World σ) :
    (c.sendOnce operation request).Records w fun result events _ =>
      (result = .error .stalled ∧ events = [.sent request]) ∨
        ∃ answer, result = .ok (Reply.received answer) ∧
          events = .sent request :: .answered request answer :: Reply.noted operation answer := by
  refine (c.session.exchange_records request w).bind ?_ ?_
  · rintro x events w' - (⟨h, -⟩ | ⟨answer, h, rfl⟩)
    · cases h
    · obtain rfl := Except.ok.inj h
      rcases answer with failure | reply
      · exact Action.records_pure (.inr ⟨.error failure, rfl, rfl⟩)
      · show Action.Records (if reply.isSuccess then _ else _) _ _
        have hreceived : Reply.received (.ok reply) =
            if reply.isSuccess then .ok reply else .error reply.error := rfl
        have hnoted : Reply.noted operation (.ok reply) =
            if reply.isSuccess then [] else [.counted (.apiError operation reply.failure.1)] := rfl
        split
        · next hs =>
          rw [if_pos hs] at hreceived hnoted
          exact Action.records_pure (.inr ⟨.ok reply, by rw [hreceived], by rw [hnoted]; rfl⟩)
        · next hs =>
          rw [if_neg hs] at hreceived hnoted
          exact Action.records_of_run rfl rfl
            (.inr ⟨.ok reply, by rw [hreceived], by rw [hnoted]; rfl⟩)
  · rintro e events w' (h | ⟨answer, h, -⟩)
    · exact .inl h
    · cases h

theorem mayPass_run (operation : Operation) (e : ClientError) (w : World σ) :
    (mayPass operation e).run.run w =
      (.ok e.isTransient, if e.isTransient then w.counted (.retried operation) else w) := by
  unfold mayPass
  split <;> rfl

theorem retryUpTo_records (backoff : Backoff) (operation : Operation) (request : Request)
    (left made : Nat) (w : World σ) :
    (c.session.retryUpTo backoff (mayPass operation) (c.sendOnce operation request)
      left made).Records w fun result events _ =>
        ∃ passed final, Tries operation backoff request (made + left + 1) made passed final events ∧
          result = Attempts.result (fun answer => .ok (Reply.received answer)) final := by
  induction left generalizing made w with
  | zero =>
    refine (c.sendOnce_records operation request w).mono fun result events _ _ h => ?_
    -- there is no attempt left that could be made
    rcases h with ⟨rfl, rfl⟩ | ⟨answer, rfl, rfl⟩
    · exact ⟨[], none, ⟨rfl, by simp, by simp, by simp⟩, rfl⟩
    · exact ⟨[], some answer, ⟨rfl, by simp, by simp, by simp⟩, rfl⟩
  | succ left ih =>
    refine (c.sendOnce_records operation request w).bind ?_ ?_
    · rintro x events w' - (⟨h, -⟩ | ⟨answer, h, rfl⟩)
      · cases h
      · obtain rfl := Except.ok.inj h
        have hlast : ¬ Reply.MayPass answer → Tries operation backoff request (made + (left + 1) + 1)
            made [] (some answer)
            (.sent request :: .answered request answer :: Reply.noted operation answer) :=
          fun hstop => ⟨rfl, by rw [List.length_nil]; omega, by simp,
            fun a ha _ => Option.some.inj ha ▸ hstop⟩
        rcases hanswer : Reply.received answer with e | reply
        · by_cases hpass : e.isTransient = true
          · -- it is counted and waited for, and then come the attempts that are left
            have hretried := mayPass_run operation e w'
            rw [if_pos hpass, hpass] at hretried
            refine Action.Records.of_eq [.counted (.retried operation), .waited _]
              ((Action.run_bind_ok hretried).trans (Action.run_bind_ok (c.session.wait_run _ _)))
              (List.append_assoc ..) ((ih (made + 1) _).mono fun result more _ _ h => ?_)
            obtain ⟨passed, final, htries, hresult⟩ := h
            have hleft : made + 1 + left + 1 = made + (left + 1) + 1 := by omega
            rw [hleft] at htries
            exact ⟨answer :: passed, final, .again ⟨e, hanswer, hpass⟩ htries, hresult⟩
          · have hretried := mayPass_run operation e w'
            rw [if_neg hpass, Bool.eq_false_iff.mpr hpass] at hretried
            refine Action.records_of_run (Action.run_bind_ok hretried) (List.append_nil _).symm
              ⟨[], some answer, ?_, by rw [Attempts.result, hanswer]; rfl⟩
            rw [List.append_nil]
            refine hlast fun hpass' => ?_
            obtain ⟨e', he', hpass'⟩ := hpass'
            rw [hanswer] at he'
            cases he'
            exact hpass hpass'
        · refine Action.records_pure ⟨[], some answer, ?_, by rw [Attempts.result, hanswer]; rfl⟩
          rw [List.append_nil]
          refine hlast fun hpass => ?_
          obtain ⟨e, he, -⟩ := hpass
          rw [hanswer] at he
          cases he
    · rintro e events w' (⟨h, rfl⟩ | ⟨answer, h, -⟩)
      · exact ⟨[], none, ⟨rfl, by rw [List.length_nil]; omega, by simp, by simp⟩, h⟩
      · cases h

/-- How many attempts a request has: a write has one. -/
def allowed (request : Request) : Nat :=
  if request.method.isRead then c.config.retryPolicy.attempts else 1

/-- A call is sent as often as it has to be and as is allowed. -/
theorem send_tries (operation : Operation) (request : Request) (w : World σ) :
    (c.send operation request).Records w fun result events _ =>
      ∃ passed final, Tries operation c.config.retryPolicy.backoff request (c.allowed request) 0
          passed final events ∧
        result = Attempts.result Reply.received final := by
  -- reads and writes are both sent by attempts that end in a value, be it an error
  have hattempts : ∃ attempts : Action σ (Except ClientError Reply),
      c.send operation request = attempts >>= Action.ofExcept ∧
        attempts.Records w fun result events _ =>
          ∃ passed final, Tries operation c.config.retryPolicy.backoff request (c.allowed request) 0
              passed final events ∧
            result = Attempts.result (fun answer => .ok (Reply.received answer)) final := by
    unfold send allowed
    split
    · have hone : 0 + (c.config.retryPolicy.attempts - 1) + 1 = c.config.retryPolicy.attempts := by
        have hpos : 1 ≤ c.config.retryPolicy.attempts := Nat.le_max_left ..
        omega
      have hretry := c.retryUpTo_records c.config.retryPolicy.backoff operation request
        (c.config.retryPolicy.attempts - 1) 0 w
      rw [hone] at hretry
      exact ⟨_, rfl, hretry⟩
    · exact ⟨_, rfl, c.retryUpTo_records c.config.retryPolicy.backoff operation request 0 0 w⟩
  obtain ⟨attempts, hsend, hattempts⟩ := hattempts
  rw [hsend]
  refine hattempts.bind ?_ ?_
  · rintro received events w' - ⟨passed, final, htries, hresult⟩
    refine Action.records_ofExcept ⟨passed, final, by rwa [List.append_nil], ?_⟩
    cases final with
    | none => cases hresult
    | some answer =>
      obtain rfl := Except.ok.inj hresult
      rfl
  · rintro e events w' ⟨passed, final, htries, hresult⟩
    refine ⟨passed, final, htries, ?_⟩
    cases final with
    | none =>
      obtain rfl := Except.error.inj hresult
      rfl
    | some answer => cases hresult

/-- Reading the body comes after all attempts. -/
theorem call_run {operation : Operation} {request : Request} {w w' : World σ}
    {final : Option (Except String Reply)}
    (h : (c.send operation request).run.run w = (Attempts.result Reply.received final, w'))
    (read : Json → Decoded α) :
    (c.call operation request read).run.run w =
      (Attempts.result (Reply.receivedAs read) final, w') := by
  rw [call, Action.run_bind, h]
  cases final with
  | none => rfl
  | some answer =>
    rcases hanswer : Reply.received answer with e | reply
    · simp only [Attempts.result, Reply.receivedAs, hanswer]
      rfl
    · simp only [Attempts.result, Reply.receivedAs, hanswer, ok_bind]
      exact Action.run_ofExcept _ w'

/-- A call comes to what its last answer stands for. -/
theorem call_records (operation : Operation) (request : Request) (read : Json → Decoded α)
    (w : World σ) :
    (c.call operation request read).Records w fun result events _ =>
      ∃ final, Attempts request (c.allowed request) 0 events final ∧
        result = Attempts.result (Reply.receivedAs read) final := by
  obtain ⟨events, hevents, passed, final, htries, hresult⟩ := c.send_tries operation request w
  have hrun := c.call_run (Prod.ext hresult rfl) read
  exact Action.records_of_run hrun hevents ⟨final, htries.attempts, rfl⟩

end Client

end SearchClient
