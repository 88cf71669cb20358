/-
SearchClient/Proofs/Wire/Run.lean

Runs of actions.  `a.Ends w post` says that the action `a`, started in the world `w`, gives a value,
and what is then true of the value and the world; `a.Fails w post` says that it ends with an error,
and what is true of that.  Both compose along the steps of an action, so a client program is followed
call by call (`Ends.bind`, `Ends.mapM`).

The leaves of such proofs are the calls.  A transport that takes a request and hands over a reply
makes the exchange give that reply (`exchange_run`); a reply that reports success makes the call give
what its body stands for (`call_run`), for reads, which may be retried, as for writes, which may not.
-/
import SearchClient.Client.Basic
import SearchClient.Proofs.Outcome
import Mathlib.Data.List.Forall2

namespace SearchClient

variable {σ α β : Type}

namespace Action

/-! ### Single steps -/

theorem run_bind (a : Action σ α) (f : α → Action σ β) (w : World σ) :
    (a >>= f).run.run w =
      match a.run.run w with
      | (.ok x, w') => (f x).run.run w'
      | (.error e, w') => (.error e, w') := by
  rw [ExceptT.run_bind, StateT.run_bind]
  rcases h : a.run.run w with ⟨e | x, w'⟩
  · rfl
  · rfl

/-- Goes on with the value of the first step. -/
theorem run_bind_ok {a : Action σ α} {f : α → Action σ β} {w w' : World σ} {x : α}
    (h : a.run.run w = (.ok x, w')) : (a >>= f).run.run w = (f x).run.run w' := by
  rw [run_bind, h]

/-- Stops with the error of the first step. -/
theorem run_bind_error {a : Action σ α} {f : α → Action σ β} {w w' : World σ} {e : Stop}
    (h : a.run.run w = (.error e, w')) : (a >>= f).run.run w = (.error e, w') := by
  rw [run_bind, h]

theorem run_map (f : α → β) (a : Action σ α) (w : World σ) :
    (f <$> a).run.run w =
      match a.run.run w with
      | (.ok x, w') => (.ok (f x), w')
      | (.error e, w') => (.error e, w') := by
  rcases h : a.run.run w with ⟨e | x, w'⟩
  · simp only [ExceptT.run_map, StateT.run_map, h]
    rfl
  · simp only [ExceptT.run_map, StateT.run_map, h]
    rfl

theorem run_tryCatch (a : Action σ α) (handle : Stop → Action σ α) (w : World σ) :
    (tryCatch a handle).run.run w =
      match a.run.run w with
      | (.ok x, w') => (.ok x, w')
      | (.error e, w') => (handle e).run.run w' := by
  simp only [tryCatch, tryCatchThe, MonadExceptOf.tryCatch, ExceptT.tryCatch]
  rw [ExceptT.run_mk, StateT.run_bind]
  rcases h : a.run.run w with ⟨e | x, w'⟩
  · have h' : StateT.run a w = (.error e, w') := h
    rw [h']
    rfl
  · have h' : StateT.run a w = (.ok x, w') := h
    rw [h']
    rfl

theorem run_attempt (a : Action σ α) (w : World σ) :
    (attempt a).run.run w =
      match a.run.run w with
      | (.ok x, w') => (.ok (.ok x), w')
      | (.error (.failed e), w') => (.ok (.error e), w')
      | (.error .stalled, w') => (.error .stalled, w')
      | (.error .overflowed, w') => (.error .overflowed, w') := by
  rw [attempt, run_tryCatch, run_map]
  rcases h : a.run.run w with ⟨(e | - | -) | x, w'⟩
  · rfl
  · rfl
  · rfl
  · rfl

/-- Something is still done only if the action breaks off. -/
theorem run_unwinding (a : Action σ α) (last : Action σ Unit) (w : World σ) :
    (a.unwinding last).run.run w =
      match a.run.run w with
      | (.error .overflowed, w') => (last >>= fun _ => throw Stop.overflowed).run.run w'
      | (result, w') => (result, w') := by
  rw [unwinding, run_tryCatch]
  rcases h : a.run.run w with ⟨(e | - | -) | x, w'⟩
  · rfl
  · rfl
  · rfl
  · rfl

theorem run_ofExcept (x : Except ClientError α) (w : World σ) :
    (ofExcept x : Action σ α).run.run w = (x.mapError .failed, w) := by
  cases x <;> rfl

/-- A number that has room in a word is that word. -/
theorem run_word (n : Nat) (w : World σ) :
    (word n).run.run w =
      (if n < UInt64.size then .ok (.ofNat n) else .error .overflowed, w) := by
  rw [word]
  split
  · rfl
  · rfl

theorem run_word_ok {n : Nat} (h : n < UInt64.size) (w : World σ) :
    (word n).run.run w = (.ok (.ofNat n), w) := by
  rw [run_word, if_pos h]

theorem run_word_error {n : Nat} (h : UInt64.size ≤ n) (w : World σ) :
    (word n).run.run w = (.error .overflowed, w) := by
  rw [run_word, if_neg (Nat.not_lt.mpr h)]

theorem run_now (w : World σ) : now.run.run w = (.ok w.now, w) := rfl

theorem run_eventCount (w : World σ) : eventCount.run.run w = (.ok w.history.length, w) := rfl

/-! ### What is true at the end -/

/-- The action gives a value, of which something is true, as of the world after it. -/
def Ends (a : Action σ α) (w : World σ) (post : α → World σ → Prop) : Prop :=
  ∃ x w', a.run.run w = (.ok x, w') ∧ post x w'

variable {a : Action σ α} {w : World σ} {P Q : α → World σ → Prop}

theorem Ends.mono (h : a.Ends w P) (hpq : ∀ x w', P x w' → Q x w') : a.Ends w Q := by
  obtain ⟨x, w', hrun, hp⟩ := h
  exact ⟨x, w', hrun, hpq x w' hp⟩

theorem ends_pure {x : α} (h : P x w) : (pure x : Action σ α).Ends w P :=
  ⟨x, w, rfl, h⟩

theorem Ends.bind {f : α → Action σ β} {R : β → World σ → Prop} (h : a.Ends w P)
    (hf : ∀ x w', P x w' → (f x).Ends w' R) : (a >>= f).Ends w R := by
  obtain ⟨x, w', hrun, hp⟩ := h
  obtain ⟨y, w'', hrun', hr⟩ := hf x w' hp
  exact ⟨y, w'', by rw [run_bind_ok hrun, hrun'], hr⟩

/-- Goes on after a first step whose run is known. -/
theorem Ends.after_run {f : α → Action σ β} {R : β → World σ → Prop} {x : α} {w' : World σ}
    (h : a.run.run w = (.ok x, w')) (hf : (f x).Ends w' R) : (a >>= f).Ends w R := by
  obtain ⟨y, w'', hrun, hr⟩ := hf
  exact ⟨y, w'', by rw [run_bind_ok h, hrun], hr⟩

theorem ends_count {m : Metric} {w : World σ} {P : Unit → World σ → Prop}
    (h : P () { w with history := w.history ++ [.counted m] }) : (count m).Ends w P :=
  ⟨(), _, rfl, h⟩

theorem ends_ofExcept {x : α} (h : P x w) : (ofExcept (.ok x) : Action σ α).Ends w P :=
  ⟨x, w, rfl, h⟩

/-- A sequence of actions that each give a value in any world. -/
theorem ends_mapM {f : β → Action σ α} {P : β → α → Prop} (items : List β)
    (h : ∀ b ∈ items, ∀ w, (f b).Ends w fun x _ => P b x) (w : World σ) :
    (items.mapM f).Ends w fun xs _ => List.Forall₂ P items xs := by
  induction items generalizing w with
  | nil => exact ends_pure .nil
  | cons b items ih =>
    rw [List.mapM_cons]
    refine (h b (by simp) w).bind fun x w₁ hx => ?_
    refine (ih (fun c hc => h c (by simp [hc])) w₁).bind fun xs w₂ hxs => ?_
    exact ends_pure (.cons hx hxs)

end Action

/-! ### Exchanges -/

/-- The transport takes the request in a state, hands the answer over after a time, and is then in
another state. -/
def Transport.Answers (t : Transport σ) (request : Request) (line : σ) (latency : Duration)
    (answer : Except String Reply) (line' : σ) : Prop :=
  ∃ sent, t.depart request line = (some latency, sent) ∧ t.arrive request sent = (answer, line')

/-- The world after a request was sent and its answer taken. -/
def World.exchanged (w : World σ) (request : Request) (answer : Except String Reply) (line : σ)
    (now : Duration) : World σ :=
  { line, now, history := w.history ++ [.sent request, .answered request answer] }

/-- The world after something was counted. -/
def World.counted (w : World σ) (m : Metric) : World σ :=
  { w with history := w.history ++ [.counted m] }

/-- The request that an event sends. -/
def Event.sent? : Event → Option Request
  | .sent request => some request
  | _ => none

/-- The requests that were sent, in order. -/
def World.sends (w : World σ) : List Request := w.history.filterMap Event.sent?

theorem World.sends_exchanged (w : World σ) (request : Request) (answer : Except String Reply)
    (line : σ) (now : Duration) :
    (w.exchanged request answer line now).sends = w.sends ++ [request] := by
  simp [World.sends, World.exchanged, Event.sent?]

theorem World.sends_counted (w : World σ) (m : Metric) : (w.counted m).sends = w.sends := by
  simp [World.sends, World.counted, Event.sent?]

def Event.answer? : Event → Option (Request × Except String Reply)
  | .answered request answer => some (request, answer)
  | _ => none

/-- The answers, with their requests, in order. -/
def answersOf (history : List Event) : List (Request × Except String Reply) :=
  history.filterMap Event.answer?

namespace Session

variable {s : Session σ} {w : World σ} {request : Request} {latency : Duration} {line : σ}

theorem depart_run (s : Session σ) (request : Request) (w : World σ) :
    (s.depart request).run.run w =
      (.ok (s.transport.depart request w.line).1,
        { w with
          line := (s.transport.depart request w.line).2
          history := w.history ++ [.sent request] }) := rfl

theorem arrive_run (s : Session σ) (request : Request) (w : World σ) :
    (s.arrive request).run.run w =
      (.ok ((s.transport.arrive request w.line).1.mapError .transport),
        { w with
          line := (s.transport.arrive request w.line).2
          history := w.history ++
            [.answered request (s.transport.arrive request w.line).1] }) := rfl

theorem exchange_run {answer : Except String Reply}
    (h : s.transport.Answers request w.line latency answer line) :
    (s.exchange request).run.run w =
      (.ok (answer.mapError .transport),
        w.exchanged request answer line (max w.now (s.clock.after w.now latency))) := by
  obtain ⟨sent, hdepart, harrive⟩ := h
  have hsent := s.depart_run request w
  rw [hdepart] at hsent
  rw [exchange, Action.run_bind_ok hsent]
  show (s.arrive request).run.run _ = _
  rw [arrive_run]
  simp only [harrive, World.exchanged, List.append_assoc, List.singleton_append]

/-- The first attempt is the last one when it gives a value. -/
theorem retry_run_ok {ε : Type} {policy : RetryPolicy} {mayPass : ε → Action σ Bool}
    {attempt : Action σ (Except ε α)} {x : α} {w' : World σ}
    (h : attempt.run.run w = (.ok (.ok x), w')) :
    (s.retry policy mayPass attempt).run.run w = (.ok (.ok x), w') := by
  rw [retry]
  cases policy.attempts - 1 with
  | zero => exact h
  | succ left => rw [retryUpTo, Action.run_bind_ok h]; rfl

/-- The first attempt is the last one when its failure will not pass. -/
theorem retry_run_error {ε : Type} {policy : RetryPolicy} {mayPass : ε → Action σ Bool}
    {attempt : Action σ (Except ε α)} {e : ε} {w' : World σ}
    (h : attempt.run.run w = (.ok (.error e), w'))
    (hpass : (mayPass e).run.run w' = (.ok false, w')) :
    (s.retry policy mayPass attempt).run.run w = (.ok (.error e), w') := by
  rw [retry]
  cases policy.attempts - 1 with
  | zero => exact h
  | succ left =>
    rw [retryUpTo, Action.run_bind_ok h]
    exact Action.run_bind_ok hpass

end Session

/-! ### Calls -/

namespace Client

variable {c : Client σ} {w : World σ} {operation : Operation} {request : Request}
  {latency : Duration} {reply : Reply} {line : σ}

/-- The world after a call of the client. -/
abbrev after (c : Client σ) (w : World σ) (request : Request) (reply : Reply) (line : σ)
    (latency : Duration) : World σ :=
  w.exchanged request (.ok reply) line (max w.now (c.session.clock.after w.now latency))

theorem sendOnce_run_ok
    (h : c.session.transport.Answers request w.line latency (.ok reply) line)
    (hs : reply.isSuccess = true) :
    (c.sendOnce operation request).run.run w =
      (.ok (.ok reply), c.after w request reply line latency) := by
  rw [sendOnce, Action.run_bind_ok (Session.exchange_run h)]
  simp only [Except.mapError, hs, if_true]
  rfl

theorem sendOnce_run_error
    (h : c.session.transport.Answers request w.line latency (.ok reply) line)
    (hs : reply.isSuccess = false) :
    (c.sendOnce operation request).run.run w =
      (.ok (.error reply.error), (c.after w request reply line latency).counted
        (.apiError operation reply.failure.1)) := by
  rw [sendOnce, Action.run_bind_ok (Session.exchange_run h)]
  simp only [Except.mapError, hs]
  rfl

/-- A reply that reports success is the value, whether the request is a read or a write. -/
theorem send_run_ok
    (h : c.session.transport.Answers request w.line latency (.ok reply) line)
    (hs : reply.isSuccess = true) :
    (c.send operation request).run.run w = (.ok reply, c.after w request reply line latency) := by
  have honce : (c.sendOnce operation request).run.run w = _ := sendOnce_run_ok h hs
  rw [send]
  split
  · exact Action.run_bind_ok (Session.retry_run_ok honce)
  · exact Action.run_bind_ok honce

/-- A failure that will not pass is the error. -/
theorem send_run_error
    (h : c.session.transport.Answers request w.line latency (.ok reply) line)
    (hs : reply.isSuccess = false) (hfinal : reply.error.isTransient = false) :
    (c.send operation request).run.run w =
      (.error (.failed reply.error), (c.after w request reply line latency).counted
        (.apiError operation reply.failure.1)) := by
  have honce : (c.sendOnce operation request).run.run w = _ := sendOnce_run_error h hs
  have hpass : ∀ w' : World σ, (mayPass operation reply.error).run.run w' = (.ok false, w') := by
    intro w'
    simp only [mayPass, hfinal]
    rfl
  rw [send]
  split
  · exact Action.run_bind_ok (Session.retry_run_error honce (hpass _))
  · exact Action.run_bind_ok honce

theorem call_run_ok {read : Json → Decoded α} {x : α}
    (h : c.session.transport.Answers request w.line latency (.ok reply) line)
    (hs : reply.isSuccess = true) (hx : read reply.body = .ok x) :
    (c.call operation request read).run.run w =
      (.ok x, c.after w request reply line latency) := by
  rw [call, Action.run_bind_ok (send_run_ok h hs), Reply.decode, hx]
  rfl

theorem call_run_error {read : Json → Decoded α}
    (h : c.session.transport.Answers request w.line latency (.ok reply) line)
    (hs : reply.isSuccess = false) (hfinal : reply.error.isTransient = false) :
    (c.call operation request read).run.run w =
      (.error (.failed reply.error), (c.after w request reply line latency).counted
        (.apiError operation reply.failure.1)) := by
  rw [call]
  exact Action.run_bind_error (send_run_error h hs hfinal)

end Client

end SearchClient
