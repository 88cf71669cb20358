/-
SearchClient/Proofs/Task/Round.lean

What polling records.  A round sends one check, unless the signal is heeded before it, and what becomes
of the check decides how the round ends; `Round` lists the ways, each with its events.  Only a check that
is answered in time, with a task that is still going, is followed by another round.

So the events of polling are those of rounds that went on (`Looks`) and then those of the round that
ended it, unless the rounds have run out (`Session.pollRounds_records`).  What ends a round is the same
whatever transport and clock do, which is why nothing is said of them here.
-/
import SearchClient.Task.Poll
import SearchClient.Proofs.Wire.Record

namespace SearchClient

variable {σ : Type}

namespace CancelSignal

/-- The signal is up at a time. -/
def RaisedBy (c : CancelSignal) (t : Duration) : Prop :=
  ∃ raised, c.raisedAt = some raised ∧ raised ≤ t

theorem raisedBy_of_isRaised {c : CancelSignal} {n : Nat} {t : Duration}
    (h : c.isRaised n t = true) : c.RaisedBy t := by
  unfold isRaised at h
  split at h
  · next raised hraised =>
    refine ⟨raised, hraised, ?_⟩
    rcases Bool.or_eq_true_iff.mp h with h | h
    · exact Nat.le_of_lt (of_decide_eq_true h)
    · exact Nat.le_of_eq (of_decide_eq_true (Bool.and_eq_true_iff.mp h).1)
  · cases h

theorem raisedBy_of_ends? {c : CancelSignal} {n : Nat} {t ready moment : Duration}
    (h : c.ends? n t ready = some moment) : c.RaisedBy moment := by
  unfold ends? at h
  split at h
  · next raised hraised =>
    refine ⟨raised, hraised, ?_⟩
    have hmoment : max raised t = moment := Option.some.inj (Option.ite_none_right_eq_some.mp h).2
    exact hmoment ▸ Nat.le_max_left raised t
  · cases h

theorem ends?_le {c : CancelSignal} {n : Nat} {t ready moment : Duration}
    (h : c.ends? n t ready = some moment) : moment ≤ ready := by
  unfold ends? at h
  split at h
  · next raised hraised =>
    obtain ⟨hfirst, hmoment⟩ := Option.ite_none_right_eq_some.mp h
    have hmoment : max raised t = moment := Option.some.inj hmoment
    rcases hfirst with hlt | ⟨heq, -⟩
    · exact hmoment ▸ Nat.le_of_lt hlt
    · exact hmoment ▸ Nat.le_of_eq heq
  · cases h

theorem RaisedBy.mono {c : CancelSignal} {t t' : Duration} (h : c.RaisedBy t) (ht : t ≤ t') :
    c.RaisedBy t' := by
  obtain ⟨raised, hraised, hle⟩ := h
  exact ⟨raised, hraised, Nat.le_trans hle ht⟩

end CancelSignal

namespace Session

/-! ### A check and the wait after it -/

theorem exchangeWithin_records (s : Session σ) (request : Request) (limit : Duration)
    (cancel : CancelSignal) (w : World σ) :
    (s.exchangeWithin request limit cancel).Records w fun result events w' =>
      (result = .ok .cancelled ∧ events = [.sent request, .abandoned request] ∧
          cancel.RaisedBy w'.now) ∨
        (result = .ok .late ∧ events = [.sent request, .abandoned request]) ∨
          ∃ answer : Except String Reply, result = .ok (.answer (answer.mapError .transport)) ∧
            events = [.sent request, .answered request answer] := by
  have hsent := s.depart_run request w
  rcases hdepart : s.transport.depart request w.line with ⟨latency, line⟩
  rw [hdepart] at hsent
  refine Action.Records.of_eq [.sent request]
    ((Action.run_bind_ok (Action.run_now w)).trans (Action.run_bind_ok hsent)) rfl ?_
  extract_lets deadline arrival ready
  refine Action.Records.of_eq_quiet (Action.run_bind_ok rfl) rfl ?_
  rcases hends : cancel.ends? (w.history ++ [Event.sent request]).length w.now ready with
    - | moment
  · -- the signal does not come first
    refine Action.Records.of_eq_quiet (Action.run_bind_ok rfl) rfl ?_
    split
    · exact Action.records_of_run (Action.run_bind_ok (s.arrive_run request _)) rfl
        (.inr (.inr ⟨_, rfl, rfl⟩))
    · exact Action.records_of_run rfl rfl (.inr (.inl ⟨rfl, rfl⟩))
  · refine Action.records_of_run rfl rfl (.inl ⟨rfl, rfl, ?_⟩)
    exact (CancelSignal.raisedBy_of_ends? hends).mono (Nat.le_max_right _ _)

theorem waitUnless_records (s : Session σ) (cancel : CancelSignal) (d : Duration) (w : World σ) :
    (s.waitUnless cancel d).Records w fun result events w' =>
      (result = .ok true ∧ events = [] ∧ cancel.RaisedBy w'.now) ∨
        (result = .ok false ∧ events = [.waited d]) := by
  unfold waitUnless
  refine Action.Records.of_eq_quiet (Action.run_bind_ok (Action.run_now w)) rfl ?_
  extract_lets ready
  refine Action.Records.of_eq_quiet (Action.run_bind_ok (Action.run_eventCount w)) rfl ?_
  rcases hends : cancel.ends? w.history.length w.now ready with - | moment
  · exact Action.records_of_run rfl rfl (.inr ⟨rfl, rfl⟩)
  · refine Action.records_of_run rfl (List.append_nil _).symm (.inl ⟨rfl, rfl, ?_⟩)
    exact (CancelSignal.raisedBy_of_ends? hends).mono (Nat.le_max_right _ _)

theorem afterCheck_records (s : Session σ) (policy : PollPolicy) (cancel : CancelSignal)
    (state : PollState) (w : World σ) :
    (s.afterCheck policy cancel state).Records w fun result events w' =>
      (result = .ok (some (.timedOut state.task (w'.now - state.started) state.checks)) ∧
          events = [] ∧
          (policy.usedUp state.checks = true ∨ policy.maxWait ≤ w'.now - state.started)) ∨
        policy.usedUp state.checks = false ∧
          ((result = .ok (some (.cancelled state.task)) ∧ events = [] ∧ cancel.RaisedBy w'.now) ∨
            ∃ d, result = .ok none ∧ events = [.waited d]) := by
  unfold afterCheck
  refine Action.Records.of_eq_quiet (Action.run_bind_ok rfl) rfl ?_
  extract_lets waited delay
  split
  · next hover =>
    refine Action.records_pure (.inl ⟨rfl, rfl, ?_⟩)
    simpa using hover
  · next hover =>
    have hleft : policy.usedUp state.checks = false := by
      rw [Bool.or_eq_true, not_or] at hover
      exact Bool.eq_false_iff.mpr hover.1
    refine (s.waitUnless_records cancel delay w).bind ?_ ?_
    · rintro stopped events w' - (⟨h, rfl, hraised⟩ | ⟨h, rfl⟩)
      · obtain rfl := Except.ok.inj h
        exact Action.records_pure (.inr ⟨hleft, .inl ⟨rfl, rfl, hraised⟩⟩)
      · obtain rfl := Except.ok.inj h
        exact Action.records_pure (.inr ⟨hleft, .inr ⟨delay, rfl, rfl⟩⟩)
    · rintro e events w' (⟨h, -⟩ | ⟨h, -⟩)
      · cases h
      · cases h

/-! ### Rounds -/

/-- How a round ends at a time, with the events of it. -/
inductive Round (policy : PollPolicy) (cancel : CancelSignal) (state : PollState) (now : Duration) :
    Except Stop ((TaskOutcome × Nat) ⊕ PollState) → List Event → Prop where
  /-- The signal is heeded before the check. -/
  | heeded (hraised : cancel.RaisedBy now) :
      Round policy cancel state now (.ok (.inl (.cancelled state.task, state.checks))) []
  /-- The signal is heeded before the answer. -/
  | interrupted (hraised : cancel.RaisedBy now) :
      Round policy cancel state now (.ok (.inl (.cancelled state.task, state.checks)))
        [.sent (.read (.task state.uid)), .abandoned (.read (.task state.uid))]
  /-- The deadline comes before the answer. -/
  | late :
      Round policy cancel state now
        (.ok (.inl (.timedOut state.task (now - state.started) state.checks, state.checks)))
        [.sent (.read (.task state.uid)), .abandoned (.read (.task state.uid))]
  /-- The answer stands for an error. -/
  | failed {answer : Except String Reply} {e : ClientError}
      (hanswer : Reply.receivedAs Task.ofJson answer = .error e) :
      Round policy cancel state now (.error (.failed e))
        [.sent (.read (.task state.uid)), .answered (.read (.task state.uid)) answer]
  /-- The task has come to its end. -/
  | ended {answer : Except String Reply} {task : Task} {outcome : TaskOutcome}
      (hanswer : Reply.receivedAs Task.ofJson answer = .ok task)
      (houtcome : TaskOutcome.ofTerminal? task = some outcome) :
      Round policy cancel state now (.ok (.inl (outcome, state.checks + 1)))
        [.sent (.read (.task state.uid)), .answered (.read (.task state.uid)) answer]
  /-- The task is going, and there is to be no other check. -/
  | timedOut {answer : Except String Reply} {task : Task}
      (hanswer : Reply.receivedAs Task.ofJson answer = .ok task)
      (hgoing : TaskOutcome.ofTerminal? task = none)
      (hover : policy.usedUp (state.checks + 1) = true ∨ policy.maxWait ≤ now - state.started) :
      Round policy cancel state now
        (.ok (.inl (.timedOut task (now - state.started) (state.checks + 1), state.checks + 1)))
        [.sent (.read (.task state.uid)), .answered (.read (.task state.uid)) answer]
  /-- The task is going, and the signal is heeded before the next check. -/
  | stopped {answer : Except String Reply} {task : Task}
      (hanswer : Reply.receivedAs Task.ofJson answer = .ok task)
      (hgoing : TaskOutcome.ofTerminal? task = none) (hraised : cancel.RaisedBy now) :
      Round policy cancel state now (.ok (.inl (.cancelled task, state.checks + 1)))
        [.sent (.read (.task state.uid)), .answered (.read (.task state.uid)) answer]
  /-- The task is going, and so is the polling. -/
  | again {answer : Except String Reply} {task : Task} {d : Duration}
      (hanswer : Reply.receivedAs Task.ofJson answer = .ok task)
      (hgoing : TaskOutcome.ofTerminal? task = none)
      (hleft : policy.usedUp (state.checks + 1) = false) :
      Round policy cancel state now
        (.ok (.inr { state with task, checks := state.checks + 1 }))
        [.sent (.read (.task state.uid)), .answered (.read (.task state.uid)) answer, .waited d]

theorem pollOnce_records (s : Session σ) (policy : PollPolicy) (cancel : CancelSignal)
    (state : PollState) (w : World σ) :
    (s.pollOnce policy cancel state).Records w fun result events w' =>
      Round policy cancel state w'.now result events := by
  unfold pollOnce
  refine Action.Records.of_eq_quiet (Action.run_bind_ok (Action.run_now w)) rfl ?_
  refine Action.Records.of_eq_quiet (Action.run_bind_ok (Action.run_eventCount w)) rfl ?_
  split
  · next hraised =>
    exact Action.records_pure (.heeded (CancelSignal.raisedBy_of_isRaised hraised))
  · extract_lets remaining
    refine (s.exchangeWithin_records _ remaining cancel w).bind ?_ ?_
    · rintro arrival events w₁ - (⟨h, rfl, hraised⟩ | ⟨h, rfl⟩ | ⟨answer, h, rfl⟩)
      · obtain rfl := Except.ok.inj h
        exact Action.records_pure (.interrupted hraised)
      · obtain rfl := Except.ok.inj h
        exact Action.records_of_run rfl (List.append_nil _).symm .late
      · -- there is an answer, and what it stands for decides
        obtain rfl := Except.ok.inj h
        refine Action.Records.of_eq_quiet (Action.run_receivedAs Task.ofJson answer _ w₁) rfl ?_
        rcases hanswer : Reply.receivedAs Task.ofJson answer with e | task
        · exact Action.records_of_run rfl (List.append_nil _).symm (.failed hanswer)
        · refine Action.Records.of_eq_quiet
            (Action.run_bind_ok (Action.run_ofExcept (.ok task) w₁)) rfl ?_
          rcases houtcome : TaskOutcome.ofTerminal? task with - | outcome
          · refine (s.afterCheck_records policy cancel _ w₁).bind ?_ ?_
            · rintro outcome events w₂ -
                (⟨h, rfl, hover⟩ | ⟨hleft, ⟨h, rfl, hraised⟩ | ⟨d, h, rfl⟩⟩)
              · obtain rfl := Except.ok.inj h
                exact Action.records_pure (.timedOut hanswer houtcome hover)
              · obtain rfl := Except.ok.inj h
                exact Action.records_pure (.stopped hanswer houtcome hraised)
              · obtain rfl := Except.ok.inj h
                exact Action.records_pure (.again hanswer houtcome hleft)
            · rintro e events w₂ (⟨h, -⟩ | ⟨-, ⟨h, -⟩ | ⟨d, h, -⟩⟩)
              · cases h
              · cases h
              · cases h
          · exact Action.records_pure (.ended hanswer houtcome)
    · rintro e events w₁ (⟨h, -⟩ | ⟨h, -⟩ | ⟨answer, h, -⟩)
      · cases h
      · cases h
      · cases h

/-! ### Runs -/

/-- How polling ends that may take some number of rounds, with the events of all its rounds. -/
inductive Polling (policy : PollPolicy) (cancel : CancelSignal) (now : Duration) :
    Nat → PollState → Except Stop (TaskOutcome × Nat) → List Event → Prop where
  | exhausted (state : PollState) : Polling policy cancel now 0 state (.error .stalled) []
  | ended {rounds : Nat} {state : PollState} {ending : TaskOutcome × Nat} {events : List Event}
      (h : Round policy cancel state now (.ok (.inl ending)) events) :
      Polling policy cancel now (rounds + 1) state (.ok ending) events
  | failed {rounds : Nat} {state : PollState} {e : Stop} {events : List Event}
      (h : Round policy cancel state now (.error e) events) :
      Polling policy cancel now (rounds + 1) state (.error e) events
  | again {rounds : Nat} {state next : PollState} {moment : Duration} {events more : List Event}
      {result : Except Stop (TaskOutcome × Nat)}
      (h : Round policy cancel state moment (.ok (.inr next)) events)
      (hrest : Polling policy cancel now rounds next result more) :
      Polling policy cancel now (rounds + 1) state result (events ++ more)

/-- Nothing but checks of the task is sent. -/
theorem Polling.isAbout {policy : PollPolicy} {cancel : CancelSignal} {now : Duration} {rounds : Nat}
    {state : PollState} {result : Except Stop (TaskOutcome × Nat)} {events : List Event}
    (h : Polling policy cancel now rounds state result events) :
    ∀ event ∈ events, event.IsAbout (.read (.task state.uid)) := by
  induction h with
  | exhausted state => simp
  | ended h => cases h <;> simp [Event.IsAbout]
  | failed h => cases h; simp [Event.IsAbout]
  | again h _ ih =>
    cases h
    simpa [Event.IsAbout] using ih

theorem pollRounds_records (s : Session σ) (policy : PollPolicy) (cancel : CancelSignal)
    (rounds : Nat) (state : PollState) (w : World σ) :
    (s.pollRounds policy cancel rounds state).Records w fun result events w' =>
      Polling policy cancel w'.now rounds state result events := by
  induction rounds generalizing state w with
  | zero => exact Action.records_of_run rfl (List.append_nil _).symm (.exhausted state)
  | succ rounds ih =>
    refine (s.pollOnce_records policy cancel state w).bind ?_ ?_
    · rintro (ending | next) events w₁ - hround
      · exact Action.records_pure (by rw [List.append_nil]; exact .ended hround)
      · exact (ih next w₁).mono fun result more w' _ hrest => .again hround hrest
    · exact fun e events w₁ hround => .failed hround

theorem poll_records (s : Session σ) (policy : PollPolicy) (cancel : CancelSignal) (task : Task)
    (w : World σ) :
    (s.poll policy cancel task).Records w fun result events w' =>
      ∃ ending rounds,
        Polling policy cancel w'.now s.rounds { uid := task.uid, started := w.now, task } ending
          rounds ∧
          result = ending.map Prod.fst ∧
            events = rounds ++ match ending with
              | .ok (outcome, checks) => [.counted (.polled outcome.ending checks)]
              | .error _ => [] := by
  refine Action.Records.of_eq_quiet (Action.run_bind_ok (Action.run_now w)) rfl ?_
  refine (s.pollRounds_records policy cancel s.rounds _ w).bind ?_ ?_
  · rintro ⟨outcome, checks⟩ events w₁ - hrounds
    exact Action.records_of_run rfl rfl ⟨.ok (outcome, checks), events, hrounds, rfl, rfl⟩
  · intro e events w₁ hrounds
    exact ⟨.error e, events, hrounds, rfl, (List.append_nil _).symm⟩

end Session

end SearchClient
