/-
SearchClient/Proofs/Wire/Retry.lean

How often a request is sent.  A write is sent once, whatever the answer.  A read is sent again after every
answer that is transient, until the attempts are used up: when the transport failed, or the engine did and
not with a code that has an error of its own (`Reply.mayPass_iff`).

What a call notes is known to the last event (`callEvents`), so everything that is counted of it can be
read off: one request more than there were answers that passed, one retry for each of these, and one
failure for each answer that reports one.

Main result: `Client.send_bounded`.
-/
import SearchClient.Proofs.Wire.Record

namespace SearchClient

variable {σ α : Type}

/-! ### Codes with an error of their own -/

namespace ClientError

theorem ofCode?_eq_none_iff {code message : String} : ofCode? code message = none ↔
    code ∉ ["index_already_exists", "index_not_found", "missing_document_id"] := by
  simp only [List.mem_cons, List.not_mem_nil, or_false, not_or, ofCode?]
  split
  · next h => simp [h]
  · next hexists =>
    split
    · next h => simp [h]
    · next hfound =>
      split
      · next h => simp [h]
      · next hid => simp [hexists, hfound, hid]

theorem ofCode?_eq_some {code message : String} {e : ClientError} (h : ofCode? code message = some e) :
    e = .indexAlreadyExists message ∨ e = .indexNotFound message ∨ e = .missingDocumentId message := by
  unfold ofCode? at h
  split at h
  · exact .inl (Option.some.inj h).symm
  · split at h
    · exact .inr (.inl (Option.some.inj h).symm)
    · split at h
      · exact .inr (.inr (Option.some.inj h).symm)
      · cases h

end ClientError

/-! ### Failures that may pass -/

namespace Reply

/-- The transport failed, or the engine did, with a code that stands for no error of its own. -/
def Transient : Except String Reply → Prop
  | .error _ => True
  | .ok reply => reply.isSuccess = false ∧ 500 ≤ reply.status ∧
      reply.failure.1 ∉ ["index_already_exists", "index_not_found", "missing_document_id"]

/-- A code has an error of its own if it is one of three, and none of these errors may pass. -/
theorem isTransient_ofCode? (status : Nat) (code message : String) :
    ((ClientError.ofCode? code message).getD (.api status code message)).isTransient = true ↔
      500 ≤ status ∧
        code ∉ ["index_already_exists", "index_not_found", "missing_document_id"] := by
  have hnone : ClientError.ofCode? code message = none ↔ _ := ClientError.ofCode?_eq_none_iff
  rw [← hnone]
  cases hcode : ClientError.ofCode? code message with
  | none => simp [ClientError.isTransient]
  | some e =>
    rcases ClientError.ofCode?_eq_some hcode with rfl | rfl | rfl
    · simp [ClientError.isTransient]
    · simp [ClientError.isTransient]
    · simp [ClientError.isTransient]

/-- A message about an attribute is final. -/
theorem isTransient_ofAttributeMessage? {message : String} {e : ClientError}
    (h : ClientError.ofAttributeMessage? message = some e) : e.isTransient = false := by
  obtain ⟨found, -, rfl⟩ := Option.map_eq_some_iff.mp h
  rfl

theorem error_eq (reply : Reply) : reply.error =
    if reply.status = 401 ∨ reply.status = 403 then .incorrectKey reply.failure.2
    else
      ((if 400 ≤ reply.status ∧ reply.status < 500 then
          ClientError.ofAttributeMessage? reply.failure.2 else none).or
        (ClientError.ofCode? reply.failure.1 reply.failure.2)).getD
          (.api reply.status reply.failure.1 reply.failure.2) := rfl

theorem isTransient_error (reply : Reply) :
    reply.error.isTransient = true ↔ 500 ≤ reply.status ∧
      reply.failure.1 ∉ ["index_already_exists", "index_not_found", "missing_document_id"] := by
  have hcode := isTransient_ofCode? reply.status reply.failure.1 reply.failure.2
  rw [error_eq]
  split
  · next hkey =>
    -- the key was refused, whose status is below 500
    exact iff_of_false nofun (by omega)
  · split
    · next hclient =>
      -- the message may be about an attribute, but then the status is below 500 too
      rcases hmessage : ClientError.ofAttributeMessage? reply.failure.2 with - | e
      · exact hcode
      · show e.isTransient = true ↔ _
        rw [isTransient_ofAttributeMessage? hmessage]
        exact iff_of_false nofun (by omega)
    · exact hcode

/-- What is tried again is what is transient. -/
theorem mayPass_iff (answer : Except String Reply) : MayPass answer ↔ Transient answer := by
  rcases answer with failure | reply
  · exact iff_of_true ⟨_, rfl, rfl⟩ trivial
  · cases hs : reply.isSuccess with
    | true =>
      refine iff_of_false (fun h => ?_) fun h => ?_
      · obtain ⟨e, he, -⟩ := h
        rw [received, if_pos hs] at he
        cases he
      · exact Bool.false_ne_true (h.1.symm.trans hs)
    | false =>
      have hreceived : received (.ok reply) = .error reply.error := by
        rw [received, if_neg (by simp [hs])]
      constructor
      · rintro ⟨e, he, hpass⟩
        rw [hreceived] at he
        obtain rfl := Except.error.inj he
        exact ⟨hs, reply.isTransient_error.mp hpass⟩
      · rintro ⟨-, htransient⟩
        exact ⟨reply.error, hreceived, reply.isTransient_error.mpr htransient⟩

/-- The code of the failure that an answer reports. -/
def failureCode? : Except String Reply → Option String
  | .ok reply => if reply.isSuccess then none else some reply.failure.1
  | .error _ => none

theorem noted_eq (operation : Operation) (answer : Except String Reply) :
    noted operation answer =
      (failureCode? answer).toList.map fun code => .counted (.apiError operation code) := by
  rcases answer with failure | reply
  · rfl
  · rw [noted, failureCode?]
    split <;> rfl

end Reply

/-! ### What a call leaves behind -/

/-- The metric that an event counts. -/
def Event.metric? : Event → Option Metric
  | .counted m => some m
  | _ => none

theorem World.metrics_eq (w : World σ) : w.metrics = w.history.filterMap Event.metric? := rfl

section

variable (operation : Operation) (backoff : Backoff) (request : Request)

/-- The request is sent once more than it is sent again. -/
theorem sends_callEvents (made : Nat) (passed : List (Except String Reply))
    (final : Option (Except String Reply)) :
    (callEvents operation backoff request made passed final).filterMap Event.sent? =
      List.replicate (passed.length + 1) request := by
  have hnoted : ∀ answer, (Reply.noted operation answer).filterMap Event.sent? = [] := by
    intro answer
    rw [Reply.noted_eq, List.filterMap_map]
    exact List.filterMap_eq_nil_iff.mpr fun _ _ => rfl
  induction passed generalizing made with
  | nil =>
    cases final with
    | none => rfl
    | some answer =>
      show request :: (Reply.noted operation answer).filterMap Event.sent? = _
      rw [hnoted]
      rfl
  | cons answer passed ih =>
    show request :: (Reply.noted operation answer ++ _).filterMap Event.sent? = _
    rw [List.filterMap_append, hnoted, List.filterMap_cons_none rfl, List.filterMap_cons_none rfl,
      List.nil_append, ih (made + 1)]
    rfl

/-- What is counted: a retry for every answer that passed, and the failures that are reported. -/
theorem count_callEvents (made : Nat) (passed : List (Except String Reply))
    (final : Option (Except String Reply)) :
    let counted := (callEvents operation backoff request made passed final).filterMap Event.metric?
    counted.count (.retried operation) = passed.length ∧
      ∀ code, counted.count (.apiError operation code) =
        (passed ++ final.toList).countP fun answer => Reply.failureCode? answer = some code := by
  have hnoted : ∀ answer, (Reply.noted operation answer).filterMap Event.metric? =
      (Reply.failureCode? answer).toList.map (Metric.apiError operation) := by
    intro answer
    rw [Reply.noted_eq, List.filterMap_map]
    cases Reply.failureCode? answer <;> rfl
  have hretried : ∀ answer, ((Reply.failureCode? answer).toList.map
      (Metric.apiError operation)).count (.retried operation) = 0 := by
    intro answer
    cases Reply.failureCode? answer <;> simp
  have hfailure : ∀ answer code, ((Reply.failureCode? answer).toList.map
      (Metric.apiError operation)).count (.apiError operation code) =
        if Reply.failureCode? answer = some code then 1 else 0 := by
    intro answer code
    cases Reply.failureCode? answer with
    | none => rfl
    | some reported => simp [List.count_singleton]
  induction passed generalizing made with
  | nil =>
    cases final with
    | none => exact ⟨rfl, fun _ => rfl⟩
    | some answer =>
      have hcounted : (callEvents operation backoff request made [] (some answer)).filterMap
          Event.metric? = (Reply.failureCode? answer).toList.map (Metric.apiError operation) := by
        rw [callEvents, List.filterMap_cons_none rfl, List.filterMap_cons_none rfl, hnoted]
      rw [hcounted]
      refine ⟨hretried answer, fun code => ?_⟩
      rw [hfailure]
      simp [List.countP_singleton]
  | cons answer passed ih =>
    obtain ⟨hcount, hcodes⟩ := ih (made + 1)
    have hcounted : (callEvents operation backoff request made (answer :: passed) final).filterMap
        Event.metric? = (Reply.failureCode? answer).toList.map (Metric.apiError operation) ++
          .retried operation ::
            (callEvents operation backoff request (made + 1) passed final).filterMap Event.metric? := by
      rw [callEvents, List.filterMap_cons_none rfl, List.filterMap_cons_none rfl,
        List.filterMap_append, hnoted]
      rfl
    rw [hcounted]
    refine ⟨?_, fun code => ?_⟩
    · rw [List.count_append, hretried, List.count_cons_self, hcount, List.length_cons, Nat.zero_add]
    · rw [List.count_append, hfailure, List.count_cons_of_ne (by simp), hcodes, List.cons_append,
        List.countP_cons]
      simp [Nat.add_comm]

end

/-! ### Calls -/

theorem Method.isRead_of_ne {method : Method} (h : method ≠ .get) : method.isRead = false := by
  cases method with
  | get => exact absurd rfl h
  | post | put | patch | delete => rfl

namespace Client

/-- How a call went from one world to another: `passed` are the answers after which the request was sent
again, and `final` is the last answer, unless it never came. -/
structure Tried (c : Client σ) (operation : Operation) (request : Request)
    (passed : List (Except String Reply)) (final : Option (Except String Reply))
    (w w' : World σ) : Prop where
  once : request.method ≠ .get → passed = []
  cap : passed.length + 1 ≤ max 1 c.config.retryMaxAttempts.toNat
  passes : ∀ answer ∈ passed, Reply.Transient answer
  stops : request.method = .get → ∀ answer, final = some answer →
    passed.length + 1 < max 1 c.config.retryMaxAttempts.toNat → ¬ Reply.Transient answer
  history : w'.history =
    w.history ++ callEvents operation c.config.retryPolicy.backoff request 0 passed final
  sends : w'.sends = w.sends ++ List.replicate (passed.length + 1) request
  retries : w'.metrics.count (.retried operation) =
    w.metrics.count (.retried operation) + passed.length
  failures : ∀ code, w'.metrics.count (.apiError operation code) =
    w.metrics.count (.apiError operation code) +
      (passed ++ final.toList).countP fun answer => Reply.failureCode? answer = some code

variable (c : Client σ)

theorem allowed_read {request : Request} (h : request.method = .get) :
    c.allowed request = max 1 c.config.retryMaxAttempts.toNat := by
  rw [allowed, h]
  rfl

theorem allowed_write {request : Request} (h : request.method ≠ .get) : c.allowed request = 1 := by
  rw [allowed, if_neg (by simp [Method.isRead_of_ne h])]

theorem sendOnce_run (operation : Operation) {request : Request} {w : World σ} {latency : Duration}
    {answer : Except String Reply} {line : σ}
    (h : c.session.transport.Answers request w.line latency answer line) :
    ∃ w', (c.sendOnce operation request).run.run w = (.ok (Reply.received answer), w') := by
  rcases answer with failure | reply
  · have hrun : (c.sendOnce operation request).run.run w =
        (.ok (.error (.transport failure)), w.exchanged request (.error failure) line
          (max w.now (c.session.clock.after w.now latency))) := by
      rw [sendOnce, Action.run_bind_ok (Session.exchange_run h)]
      rfl
    exact ⟨_, hrun⟩
  · cases hs : reply.isSuccess with
    | true =>
      rw [Reply.received, if_pos hs]
      exact ⟨_, sendOnce_run_ok h hs⟩
    | false =>
      rw [Reply.received, if_neg (by simp [hs])]
      exact ⟨_, sendOnce_run_error h hs⟩

/-- A write comes to what its answer stands for. -/
theorem send_run_write (operation : Operation) {request : Request} (hwrite : request.method ≠ .get)
    {w : World σ} {latency : Duration} {answer : Except String Reply} {line : σ}
    (h : c.session.transport.Answers request w.line latency answer line) :
    ∃ w', (c.send operation request).run.run w = ((Reply.received answer).mapError .failed, w') := by
  obtain ⟨w', hrun⟩ := c.sendOnce_run operation h
  refine ⟨w', ?_⟩
  rw [send, if_neg (by simp [Method.isRead_of_ne hwrite]), Action.run_bind_ok hrun]
  exact Action.run_ofExcept _ w'

/-- **Writes are sent once, and reads a bounded number of times.**  Every answer before the last one is
transient, and the last one is not unless the attempts are used up.  The call comes to what the last answer
stands for, and reading its body makes no difference to how often the request is sent. -/
theorem send_bounded (operation : Operation) (request : Request) (w : World σ) :
    ∃ passed final w', c.Tried operation request passed final w w' ∧
      (c.send operation request).run.run w = (Attempts.result Reply.received final, w') ∧
      ∀ {α : Type} (read : Json → Decoded α), (c.call operation request read).run.run w =
        (Attempts.result (Reply.receivedAs read) final, w') := by
  obtain ⟨events, hevents, passed, final, htries, hresult⟩ := c.send_tries operation request w
  have hrun : (c.send operation request).run.run w =
      (Attempts.result Reply.received final, ((c.send operation request).run.run w).2) :=
    Prod.ext hresult rfl
  have hhistory := htries.events_eq ▸ hevents
  obtain ⟨hretried, hfailures⟩ :=
    count_callEvents operation c.config.retryPolicy.backoff request 0 passed final
  have hwithin := htries.within
  refine ⟨passed, final, _, ?_, hrun, fun read => c.call_run hrun read⟩
  refine
    { once := fun hwrite => ?_
      cap := ?_
      passes := fun answer ha => (Reply.mayPass_iff answer).mp (htries.passes answer ha)
      stops := fun hread answer ha hleft htransient => ?_
      history := hhistory
      sends := ?_
      retries := ?_
      failures := fun code => ?_ }
  · -- one attempt leaves no room for an answer that passed
    rw [c.allowed_write hwrite] at hwithin
    exact List.eq_nil_of_length_eq_zero (by omega)
  · by_cases hread : request.method = .get
    · rw [c.allowed_read hread] at hwithin
      omega
    · rw [c.allowed_write hread] at hwithin
      omega
  · refine htries.stops answer ha ?_ ((Reply.mayPass_iff answer).mpr htransient)
    rw [c.allowed_read hread]
    omega
  · -- what is sent and counted is in the events that the call adds
    rw [World.sends, hhistory, List.filterMap_append, sends_callEvents]
    rfl
  · rw [World.metrics_eq, hhistory, List.filterMap_append, List.count_append, hretried]
    rfl
  · rw [World.metrics_eq, hhistory, List.filterMap_append, List.count_append, hfailures]
    rfl

end Client

end SearchClient
