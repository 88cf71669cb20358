/-
SearchClient/Proofs/Task/Sound.lean

What polling a task may come to, whatever the transport answers, whatever the clock shows, and whenever
the signal is raised.  The answers to the checks are read as tasks, or as the errors they stand for
(`readings`); all of them but the last are tasks that are still going, and what the last one is decides
the end (`Polling.course`).

Main result: `Session.poll_sound`.
-/
import SearchClient.Proofs.Task.Round
import SearchClient.Proofs.Wire.Path

namespace SearchClient

variable {σ : Type}

/-! ### What checks tell -/

/-- What the answer to a check stands for. -/
def Event.reading? : Event → Option (Except ClientError Task)
  | .answered _ answer => some (Reply.receivedAs Task.ofJson answer)
  | _ => none

/-- What the answers to checks stand for, in order. -/
def readings (events : List Event) : List (Except ClientError Task) :=
  events.filterMap Event.reading?

/-- The task as the checks saw it, in order. -/
def snapshots (events : List Event) : List Task := (readings events).filterMap Except.toOption

/-- The event hands over a task that has come to its end. -/
def Event.IsTerminal (event : Event) : Prop :=
  ∃ t, event.reading? = some (.ok t) ∧ t.status.isTerminal = true

theorem TaskOutcome.ofTerminal?_eq_some {t : Task} {outcome : TaskOutcome} :
    ofTerminal? t = some outcome ↔
      (outcome = .succeeded t ∧ t.status = .succeeded) ∨
        (outcome = .failed t ∧ t.status = .failed) ∨
          (outcome = .canceled t ∧ t.status = .canceled) := by
  unfold ofTerminal?
  cases t.status <;> simp [eq_comm]

theorem TaskOutcome.task_of_ofTerminal? {t : Task} {outcome : TaskOutcome}
    (h : ofTerminal? t = some outcome) : outcome.task = t := by
  rcases ofTerminal?_eq_some.mp h with ⟨rfl, -⟩ | ⟨rfl, -⟩ | ⟨rfl, -⟩ <;> rfl

theorem TaskOutcome.ofTerminal?_eq_none {t : Task} :
    ofTerminal? t = none ↔ t.status.isTerminal = false := by
  unfold ofTerminal?
  cases t.status <;> simp [TaskStatus.isTerminal]

namespace Session

/-! ### The course of the checks -/

/-- The state of polling after some tasks were seen that were still going. -/
def PollState.after (state : PollState) (seen : List Task) : PollState :=
  { state with task := seen.getLast?.getD state.task, checks := state.checks + seen.length }

theorem PollState.after_cons (state : PollState) (task : Task) (seen : List Task) :
    state.after (task :: seen) =
      PollState.after { state with task, checks := state.checks + 1 } seen := by
  simp only [after, List.getLast?_cons, Option.getD_some, List.length_cons]
  congr 1
  omega

/-- How polling ends in a state in which the last check found the task going, and what the answer to one
more check may have told; `left` is how many rounds there were left. -/
inductive Ended (policy : PollPolicy) (cancel : CancelSignal) (now : Duration) (state : PollState)
    (left : Nat) (events : List Event) :
    Except Stop (TaskOutcome × Nat) → List (Except ClientError Task) → Prop where
  | failed (e : ClientError) :
      Ended policy cancel now state left events (.error (.failed e)) [.error e]
  | terminal {task : Task} {outcome : TaskOutcome}
      (h : TaskOutcome.ofTerminal? task = some outcome) :
      Ended policy cancel now state left events (.ok (outcome, state.checks + 1)) [.ok task]
  | timedOut (h : policy.usedUp state.checks = true ∨ policy.maxWait ≤ now - state.started ∨
        ∃ request, .abandoned request ∈ events) :
      Ended policy cancel now state left events
        (.ok (.timedOut state.task (now - state.started) state.checks, state.checks)) []
  | cancelled (h : cancel.RaisedBy now) :
      Ended policy cancel now state left events (.ok (.cancelled state.task, state.checks)) []
  | stalled (h : left = 0) : Ended policy cancel now state left events (.error .stalled) []

theorem Ended.mono {policy : PollPolicy} {cancel : CancelSignal} {now : Duration}
    {state : PollState} {left : Nat} {events more : List Event}
    {result : Except Stop (TaskOutcome × Nat)} {last : List (Except ClientError Task)}
    (h : Ended policy cancel now state left events result last) (hmore : events ⊆ more) :
    Ended policy cancel now state left more result last := by
  cases h with
  | failed e => exact .failed e
  | terminal h => exact .terminal h
  | timedOut h => exact .timedOut (h.imp_right fun h => h.imp_right fun ⟨r, hr⟩ => ⟨r, hmore hr⟩)
  | cancelled h => exact .cancelled h
  | stalled h => exact .stalled h

/-- Some tasks that were still going, and then the end. -/
def Course (policy : PollPolicy) (cancel : CancelSignal) (now : Duration) (rounds : Nat)
    (state : PollState) (events : List Event) (result : Except Stop (TaskOutcome × Nat)) : Prop :=
  ∃ (seen : List Task) (last : List (Except ClientError Task)),
    readings events = seen.map .ok ++ last ∧
      (∀ t ∈ seen, TaskOutcome.ofTerminal? t = none) ∧ seen.length ≤ rounds ∧
        (∀ m, policy.maxChecks = some m →
          state.checks + seen.length ≤ max (state.checks + 1) m) ∧
          Ended policy cancel now (state.after seen) (rounds - seen.length) events result last

variable {policy : PollPolicy} {cancel : CancelSignal} {now : Duration} {rounds : Nat}
  {state : PollState} {events : List Event} {result : Except Stop (TaskOutcome × Nat)}

/-- The end comes at once. -/
theorem Course.none_seen {last : List (Except ClientError Task)} (hread : readings events = last)
    (h : Ended policy cancel now state rounds events result last) :
    Course policy cancel now rounds state events result :=
  ⟨[], last, hread, by simp, Nat.zero_le _,
    fun _ _ => Nat.le_trans (Nat.le_succ _) (Nat.le_max_left _ _), h⟩

/-- The end comes after one check. -/
theorem Course.one_seen {task : Task} (hread : readings events = [.ok task])
    (hgoing : TaskOutcome.ofTerminal? task = none)
    (h : Ended policy cancel now { state with task, checks := state.checks + 1 } rounds events
      result []) : Course policy cancel now (rounds + 1) state events result :=
  ⟨[task], [], hread, by simpa using hgoing, by simp, fun _ _ => Nat.le_max_left _ _, h⟩

/-- A check that is followed by others. -/
theorem Course.cons {task : Task} {first rest : List Event}
    (hread : readings first = [.ok task]) (hgoing : TaskOutcome.ofTerminal? task = none)
    (hleft : policy.usedUp (state.checks + 1) = false)
    (h : Course policy cancel now rounds { state with task, checks := state.checks + 1 } rest
      result) : Course policy cancel now (rounds + 1) state (first ++ rest) result := by
  obtain ⟨seen, last, hrest, hseen, hlength, hcap, hend⟩ := h
  refine ⟨task :: seen, last, ?_, ?_, Nat.succ_le_succ hlength, ?_, ?_⟩
  · rw [readings, List.filterMap_append]
    show readings first ++ readings rest = _
    rw [hread, hrest]
    rfl
  · intro t ht
    rcases List.mem_cons.mp ht with rfl | ht
    · exact hgoing
    · exact hseen t ht
  · intro m hm
    have hmore : state.checks + 1 < m := by
      rw [PollPolicy.usedUp, hm] at hleft
      simpa using hleft
    have hcount : state.checks + 1 + seen.length ≤ max (state.checks + 1 + 1) m := hcap m hm
    rw [List.length_cons]
    omega
  · rw [PollState.after_cons, List.length_cons, Nat.add_sub_add_right]
    exact hend.mono (List.subset_append_right _ _)

theorem Polling.course (h : Polling policy cancel now rounds state result events) :
    Course policy cancel now rounds state events result := by
  induction h with
  | exhausted state => exact .none_seen rfl (.stalled rfl)
  | ended h =>
    cases h with
    | heeded hraised => exact .none_seen rfl (.cancelled hraised)
    | interrupted hraised => exact .none_seen rfl (.cancelled hraised)
    | late => exact .none_seen rfl (.timedOut (.inr (.inr ⟨_, .tail _ (.head _)⟩)))
    | ended hanswer houtcome => exact .none_seen (congrArg ([·]) hanswer) (.terminal houtcome)
    | timedOut hanswer hgoing hover =>
      exact .one_seen (congrArg ([·]) hanswer) hgoing (.timedOut (hover.imp_right .inl))
    | stopped hanswer hgoing hraised =>
      exact .one_seen (congrArg ([·]) hanswer) hgoing (.cancelled hraised)
  | failed h =>
    cases h with
    | failed hanswer => exact .none_seen (congrArg ([·]) hanswer) (.failed _)
  | again h _ ih =>
    cases h with
    | again hanswer hgoing hleft => exact .cons (congrArg ([·]) hanswer) hgoing hleft ih

/-! ### Events -/

/-- After a check that finds the task at its end there is no other one. -/
theorem Polling.final (h : Polling policy cancel now rounds state result events) :
    events.Pairwise fun event later => event.IsTerminal → ∀ request, later ≠ .sent request := by
  induction h with
  | exhausted state => exact .nil
  | ended h => cases h <;> simp [Event.IsTerminal, Event.reading?]
  | failed h => cases h; simp [Event.IsTerminal, Event.reading?]
  | again h _ ih =>
    cases h with
    | again hanswer hgoing hleft =>
      have hstill := TaskOutcome.ofTerminal?_eq_none.mp hgoing
      refine List.pairwise_append.mpr ⟨by simp [Event.IsTerminal, Event.reading?], ih, ?_⟩
      -- none of the events of a round that goes on hands over a task at its end
      rintro event hevent later - ⟨t, hread, hterminal⟩
      simp only [List.mem_cons, List.not_mem_nil, or_false] at hevent
      rcases hevent with rfl | rfl | rfl
      · cases hread
      · obtain rfl := Except.ok.inj (hanswer.symm.trans (Option.some.inj hread))
        rw [hstill] at hterminal
        cases hterminal
      · cases hread

/-! ### Heads of rounds -/

/-- The state and the world in which a round begins, if polling comes to it. -/
def head (s : Session σ) (policy : PollPolicy) (cancel : CancelSignal) :
    Nat → PollState → World σ → Option (PollState × World σ)
  | 0, state, w => some (state, w)
  | round + 1, state, w =>
    match (s.pollOnce policy cancel state).run.run w with
    | (.ok (.inr next), w') => head s policy cancel round next w'
    | _ => none

/-- From the head of a round on, polling is what the rounds that are left make of it. -/
theorem pollRounds_head {s : Session σ} {round : Nat} {state₁ : PollState} {w w₁ : World σ}
    (h : s.head policy cancel round state w = some (state₁, w₁)) (left : Nat) :
    (s.pollRounds policy cancel (round + left) state).run.run w =
      (s.pollRounds policy cancel left state₁).run.run w₁ := by
  induction round generalizing state w with
  | zero =>
    obtain ⟨rfl, rfl⟩ := Prod.mk.inj (Option.some.inj h)
    rw [Nat.zero_add]
  | succ round ih =>
    rw [head] at h
    split at h
    · next next w' hrun =>
      rw [Nat.add_right_comm, pollRounds, Action.run_bind_ok hrun]
      exact ih h
    · cases h

/-- A signal that is up when a round begins ends the polling there. -/
theorem poll_heeded {s : Session σ} {task : Task} {round : Nat} {state₁ : PollState}
    {w w₁ : World σ} (hround : round < s.rounds)
    (hhead : s.head policy cancel round { uid := task.uid, started := w.now, task } w =
      some (state₁, w₁))
    (hraised : cancel.isRaised w₁.history.length w₁.now = true) :
    (s.poll policy cancel task).run.run w =
      (.ok (.cancelled state₁.task), w₁.counted (.polled .cancelled state₁.checks)) := by
  obtain ⟨left, hleft⟩ : ∃ left, s.rounds = round + (left + 1) :=
    ⟨s.rounds - round - 1, by omega⟩
  have honce : (s.pollOnce policy cancel state₁).run.run w₁ =
      (.ok (.inl (.cancelled state₁.task, state₁.checks)), w₁) := by
    rw [pollOnce, Action.run_bind_ok (Action.run_now w₁),
      Action.run_bind_ok (Action.run_eventCount w₁), if_pos hraised]
    rfl
  have hrounds : (s.pollRounds policy cancel s.rounds
      { uid := task.uid, started := w.now, task }).run.run w =
        (.ok (.cancelled state₁.task, state₁.checks), w₁) := by
    rw [hleft, pollRounds_head hhead, pollRounds, Action.run_bind_ok honce]
    rfl
  rw [poll, Action.run_bind_ok (Action.run_now w)]
  exact Action.run_bind_ok hrounds

/-! ### What polling may come to -/

/-- What polling a task comes to, from the world in which it begins to the one in which it ends. -/
structure Sound (s : Session σ) (policy : PollPolicy) (cancel : CancelSignal) (task : Task)
    (w : World σ) (result : Except Stop TaskOutcome) (events : List Event) (w' : World σ) :
    Prop where
  /-- Only checks of the task are sent. -/
  sent : ∀ request, .sent request ∈ events → request = .read (.task task.uid)
  /-- On the wire that is a read at the path of this task, and of no other one. -/
  wired : ∀ request, .sent request ∈ events → request.method.text = "GET" ∧
    ∀ uid, request.endpoint.path = "tasks/" ++ toString uid ↔ uid = task.uid
  succeeded : ∀ t, result = .ok (.succeeded t) ↔
    (snapshots events).getLast? = some t ∧ t.status = .succeeded
  failed : ∀ t, result = .ok (.failed t) ↔
    (snapshots events).getLast? = some t ∧ t.status = .failed
  canceled : ∀ t, result = .ok (.canceled t) ↔
    (snapshots events).getLast? = some t ∧ t.status = .canceled
  /-- A task that was last seen going, be it with a status that is not known, is not what ends the
  polling. -/
  going : ∀ t, (snapshots events).getLast? = some t → t.status.isTerminal = false →
    (∃ waited checks, result = .ok (.timedOut t waited checks)) ∨ result = .ok (.cancelled t) ∨
      (∃ e, result = .error (.failed e)) ∨ result = .error .stalled
  /-- Nothing is sent once the task was seen at its end. -/
  final : events.Pairwise fun event later => event.IsTerminal → ∀ request, later ≠ .sent request
  /-- The task is the one last seen, and it was always seen going.  The checks are used up, or the
  deadline has passed, also before an answer. -/
  timedOut : ∀ t waited checks, result = .ok (.timedOut t waited checks) →
    t = (snapshots events).getLast?.getD task ∧
      (∀ seen ∈ snapshots events, seen.status.isTerminal = false) ∧
        waited = w'.now - w.now ∧ checks = (snapshots events).length ∧
          (∀ m, policy.maxChecks = some m → checks ≤ max 1 m) ∧
            (policy.usedUp checks = true ∨ policy.maxWait ≤ waited ∨
              ∃ request, .abandoned request ∈ events)
  cancelled : ∀ t, result = .ok (.cancelled t) →
    t = (snapshots events).getLast?.getD task ∧
      (∀ seen ∈ snapshots events, seen.status.isTerminal = false) ∧ cancel.RaisedBy w'.now
  /-- A signal that is up when a round begins ends the polling without another event. -/
  heeded : ∀ round < s.rounds, ∀ state₁ w₁,
    s.head policy cancel round { uid := task.uid, started := w.now, task } w = some (state₁, w₁) →
      cancel.isRaised w₁.history.length w₁.now = true →
        result = .ok (.cancelled state₁.task) ∧
          w' = w₁.counted (.polled .cancelled state₁.checks)
  /-- An answer that stands for an error is the end, and there is no other way to end with one. -/
  error : ∀ e, result = .error (.failed e) ↔
    ∃ request answer, .answered request answer ∈ events ∧
      Reply.receivedAs Task.ofJson answer = .error e
  /-- Otherwise polling goes on for all its rounds, in each of which the task was seen going. -/
  stalled : result = .error .stalled →
    (snapshots events).length = s.rounds ∧
      ∀ seen ∈ snapshots events, seen.status.isTerminal = false

/-! ### How it ends -/

section Ended

variable {left : Nat} {seen : List Task} {last : List (Except ClientError Task)} {outcome : TaskOutcome}
  {t : Task}

theorem snapshots_eq (h : readings events = seen.map .ok ++ last) :
    snapshots events = seen ++ last.filterMap Except.toOption := by
  rw [snapshots, h, List.filterMap_append, List.filterMap_map]
  exact congrArg (· ++ _) List.filterMap_some

theorem snapshots_of_nil (h : readings events = seen.map .ok ++ []) : snapshots events = seen :=
  (snapshots_eq h).trans (List.append_nil seen)

/-- An outcome is that of a task at its end, or polling stopped while the task was going. -/
theorem Ended.cases_ok (h : Ended policy cancel now state left events result last)
    (hok : result.map Prod.fst = .ok outcome) :
    TaskOutcome.ofTerminal? outcome.task = some outcome ∨
      (last = [] ∧ outcome = .timedOut state.task (now - state.started) state.checks ∧
        (policy.usedUp state.checks = true ∨ policy.maxWait ≤ now - state.started ∨
          ∃ request, .abandoned request ∈ events)) ∨
        (last = [] ∧ outcome = .cancelled state.task ∧ cancel.RaisedBy now) := by
  cases h with
  | failed e => cases hok
  | @terminal task outcome' h =>
    obtain rfl : outcome' = outcome := Except.ok.inj hok
    rw [TaskOutcome.task_of_ofTerminal? h]
    exact .inl h
  | timedOut h => exact .inr (.inl ⟨rfl, (Except.ok.inj hok).symm, h⟩)
  | cancelled h => exact .inr (.inr ⟨rfl, (Except.ok.inj hok).symm, h⟩)
  | stalled h => cases hok

/-- Polling ends with an error exactly if the last answer stands for it. -/
theorem Ended.error_iff (h : Ended policy cancel now state left events result last)
    (e : ClientError) : result.map Prod.fst = .error (.failed e) ↔ .error e ∈ last := by
  cases h with
  | failed e' => simp [Except.map, eq_comm]
  | terminal h => simp [Except.map]
  | timedOut h => simp [Except.map]
  | cancelled h => simp [Except.map]
  | stalled h => simp [Except.map]

theorem Ended.stalled_eq (h : Ended policy cancel now state left events result last)
    (hstalled : result.map Prod.fst = .error .stalled) : left = 0 ∧ last = [] := by
  cases h with
  | failed e => cases hstalled
  | terminal h => cases hstalled
  | timedOut h => cases hstalled
  | cancelled h => cases hstalled
  | stalled h => exact ⟨h, rfl⟩

/-- Polling works out no number that might have no room in a word. -/
theorem Ended.not_overflowed (h : Ended policy cancel now state left events result last) :
    result.map Prod.fst ≠ .error .overflowed := by
  cases h <;> simp [Except.map]

/-- The outcome of a task at its end is that of the last check. -/
theorem Ended.ok_iff (h : Ended policy cancel now state left events result last)
    (hread : readings events = seen.map .ok ++ last)
    (hgoing : ∀ t ∈ seen, TaskOutcome.ofTerminal? t = none)
    (houtcome : TaskOutcome.ofTerminal? t = some outcome) :
    result.map Prod.fst = .ok outcome ↔ (snapshots events).getLast? = some t := by
  rw [snapshots_eq hread]
  have hseen : ¬ (seen ++ []).getLast? = some t := by
    intro hlast
    rw [List.append_nil] at hlast
    have hnone := hgoing t (List.mem_of_getLast? hlast)
    rw [houtcome] at hnone
    cases hnone
  cases h with
  | failed e => exact iff_of_false (fun h => by cases h) hseen
  | @terminal task outcome' h =>
    show _ ↔ (seen ++ [task]).getLast? = some t
    rw [List.getLast?_concat]
    constructor
    · intro hok
      obtain rfl : outcome' = outcome := Except.ok.inj hok
      rw [← TaskOutcome.task_of_ofTerminal? h, TaskOutcome.task_of_ofTerminal? houtcome]
    · intro htask
      obtain rfl := Option.some.inj htask
      obtain rfl := Option.some.inj (h.symm.trans houtcome)
      rfl
  | timedOut _ =>
    refine iff_of_false (fun h => ?_) hseen
    obtain rfl := Except.ok.inj h
    simp [TaskOutcome.ofTerminal?_eq_some] at houtcome
  | cancelled _ =>
    refine iff_of_false (fun h => ?_) hseen
    obtain rfl := Except.ok.inj h
    simp [TaskOutcome.ofTerminal?_eq_some] at houtcome
  | stalled _ => exact iff_of_false (fun h => by cases h) hseen

end Ended

/-! ### What the course says of the end -/

section Course

variable {outcome : TaskOutcome} {t : Task} {more : List Event}

/-- What is counted is no part of a check. -/
theorem readings_counted (events : List Event) (h : ∀ event ∈ more, ∃ m, event = .counted m) :
    readings (events ++ more) = readings events :=
  filterMap_counted events h fun _ => rfl

theorem mem_readings {e : ClientError} : .error e ∈ readings events ↔
    ∃ request answer, .answered request answer ∈ events ∧
      Reply.receivedAs Task.ofJson answer = .error e := by
  constructor
  · intro h
    obtain ⟨event, hevent, hread⟩ := List.mem_filterMap.mp h
    cases event with
    | answered request answer => exact ⟨request, answer, hevent, Option.some.inj hread⟩
    | _ => cases hread
  · rintro ⟨request, answer, hevent, hread⟩
    exact List.mem_filterMap.mpr ⟨_, hevent, congrArg some hread⟩

variable (h : Course policy cancel now rounds state events result)

include h

theorem Course.counted (hmore : ∀ event ∈ more, ∃ m, event = .counted m) :
    Course policy cancel now rounds state (events ++ more) result := by
  obtain ⟨seen, last, hread, hgoing, hlength, hcap, hend⟩ := h
  exact ⟨seen, last, (readings_counted events hmore).trans hread, hgoing, hlength, hcap,
    hend.mono (List.subset_append_left events more)⟩

/-- An outcome that only tasks with one status have. -/
theorem Course.conclusive_iff {status : TaskStatus} (htask : outcome.task = t)
    (hstatus : TaskOutcome.ofTerminal? t = some outcome ↔ t.status = status)
    (htimedOut : ∀ t waited checks, outcome ≠ .timedOut t waited checks)
    (hcancelled : ∀ t, outcome ≠ .cancelled t) :
    result.map Prod.fst = .ok outcome ↔
      (snapshots events).getLast? = some t ∧ t.status = status := by
  obtain ⟨seen, last, hread, hgoing, -, -, hend⟩ := h
  constructor
  · intro hok
    rcases hend.cases_ok hok with hterminal | ⟨-, houtcome, -⟩ | ⟨-, houtcome, -⟩
    · rw [htask] at hterminal
      exact ⟨(hend.ok_iff hread hgoing hterminal).mp hok, hstatus.mp hterminal⟩
    · exact absurd houtcome (htimedOut _ _ _)
    · exact absurd houtcome (hcancelled _)
  · rintro ⟨hlast, hterminal⟩
    exact (hend.ok_iff hread hgoing (hstatus.mpr hterminal)).mpr hlast

/-- A task that was last seen going was not what ended the polling. -/
theorem Course.going (hlast : (snapshots events).getLast? = some t)
    (hnot : t.status.isTerminal = false) :
    (∃ waited checks, result.map Prod.fst = .ok (.timedOut t waited checks)) ∨
      result.map Prod.fst = .ok (.cancelled t) ∨
        (∃ e, result.map Prod.fst = .error (.failed e)) ∨
          result.map Prod.fst = .error .stalled := by
  obtain ⟨seen, last, hread, hgoing, -, -, hend⟩ := h
  have htask : last = [] → (state.after seen).task = t := by
    rintro rfl
    rw [snapshots_of_nil hread] at hlast
    rw [PollState.after, hlast, Option.getD_some]
  rcases hok : result.map Prod.fst with (e | - | -) | outcome
  · exact .inr (.inr (.inl ⟨e, rfl⟩))
  · exact .inr (.inr (.inr rfl))
  · exact absurd hok hend.not_overflowed
  · rcases hend.cases_ok hok with hterminal | ⟨hnone, houtcome, -⟩ | ⟨hnone, houtcome, -⟩
    · -- the task with that outcome was the last one, but it was at its end
      have hlast' := (hend.ok_iff hread hgoing hterminal).mp hok
      obtain rfl := Option.some.inj (hlast.symm.trans hlast')
      rw [TaskOutcome.ofTerminal?_eq_none.mpr hnot] at hterminal
      cases hterminal
    · exact .inl ⟨_, _, by rw [houtcome, htask hnone]⟩
    · exact .inr (.inl (by rw [houtcome, htask hnone]))

/-- What is true when polling stops because of the time or the number of checks. -/
theorem Course.timedOut {waited : Duration} {checks : Nat}
    (hok : result.map Prod.fst = .ok (.timedOut t waited checks)) :
    t = (snapshots events).getLast?.getD state.task ∧
      (∀ seen ∈ snapshots events, seen.status.isTerminal = false) ∧
        waited = now - state.started ∧ checks = state.checks + (snapshots events).length ∧
          (∀ m, policy.maxChecks = some m → checks ≤ max (state.checks + 1) m) ∧
            (policy.usedUp checks = true ∨ policy.maxWait ≤ waited ∨
              ∃ request, .abandoned request ∈ events) := by
  obtain ⟨seen, last, hread, hgoing, -, hcap, hend⟩ := h
  rcases hend.cases_ok hok with hterminal | ⟨rfl, houtcome, hcause⟩ | ⟨-, houtcome, -⟩
  · simp [TaskOutcome.ofTerminal?_eq_some] at hterminal
  · cases houtcome
    rw [snapshots_of_nil hread]
    exact ⟨rfl, fun t ht => TaskOutcome.ofTerminal?_eq_none.mp (hgoing t ht), rfl, rfl, hcap, hcause⟩
  · cases houtcome

/-- What is true when polling stops because of the signal. -/
theorem Course.cancelled (hok : result.map Prod.fst = .ok (.cancelled t)) :
    t = (snapshots events).getLast?.getD state.task ∧
      (∀ seen ∈ snapshots events, seen.status.isTerminal = false) ∧ cancel.RaisedBy now := by
  obtain ⟨seen, last, hread, hgoing, -, -, hend⟩ := h
  rcases hend.cases_ok hok with hterminal | ⟨-, houtcome, -⟩ | ⟨rfl, houtcome, hraised⟩
  · simp [TaskOutcome.ofTerminal?_eq_some] at hterminal
  · cases houtcome
  · cases houtcome
    rw [snapshots_of_nil hread]
    exact ⟨rfl, fun t ht => TaskOutcome.ofTerminal?_eq_none.mp (hgoing t ht), hraised⟩

theorem Course.error_iff (e : ClientError) : result.map Prod.fst = .error (.failed e) ↔
    ∃ request answer, .answered request answer ∈ events ∧
      Reply.receivedAs Task.ofJson answer = .error e := by
  obtain ⟨seen, last, hread, -, -, -, hend⟩ := h
  rw [hend.error_iff, ← mem_readings, hread]
  simp

theorem Course.stalled (hstalled : result.map Prod.fst = .error .stalled) :
    (snapshots events).length = rounds ∧
      ∀ seen ∈ snapshots events, seen.status.isTerminal = false := by
  obtain ⟨seen, last, hread, hgoing, hlength, -, hend⟩ := h
  obtain ⟨hleft, rfl⟩ := hend.stalled_eq hstalled
  rw [snapshots_of_nil hread]
  exact ⟨Nat.le_antisymm hlength (Nat.le_of_sub_eq_zero hleft),
    fun t ht => TaskOutcome.ofTerminal?_eq_none.mp (hgoing t ht)⟩

end Course

/-- Whatever happens, polling is sound. -/
theorem poll_sound (s : Session σ) (policy : PollPolicy) (cancel : CancelSignal) (task : Task)
    (w : World σ) :
    (s.poll policy cancel task).Records w fun result events w' =>
      s.Sound policy cancel task w result events w' := by
  obtain ⟨events, hhistory, ending, rounds, hpolling, hresult, hevents⟩ :=
    s.poll_records policy cancel task w
  refine ⟨events, hhistory, ?_⟩
  obtain ⟨counted, rfl, hcounted⟩ : ∃ counted : List Event, events = rounds ++ counted ∧
      ∀ event ∈ counted, ∃ m, event = .counted m := by
    cases ending with
    | error e => exact ⟨[], hevents, by simp⟩
    | ok ending => exact ⟨[_], hevents, by simp⟩
  have hcourse := hpolling.course.counted hcounted
  have hquiet : ∀ event ∈ counted, ∀ request, event ≠ .sent request := by
    rintro event hevent request rfl
    obtain ⟨m, hm⟩ := hcounted _ hevent
    cases hm
  have hsent : ∀ request, .sent request ∈ rounds ++ counted →
      request = .read (.task task.uid) := by
    intro request hrequest
    rcases List.mem_append.mp hrequest with h | h
    · exact hpolling.isAbout _ h
    · exact absurd rfl (hquiet _ h request)
  rw [hresult]
  constructor
  case sent => exact hsent
  case wired =>
    intro request hrequest
    rw [hsent request hrequest]
    exact ⟨rfl, fun uid => task_path_inj.trans eq_comm⟩
  case succeeded =>
    intro t
    exact hcourse.conclusive_iff rfl (by simp [TaskOutcome.ofTerminal?_eq_some]) (by simp) (by simp)
  case failed =>
    intro t
    exact hcourse.conclusive_iff rfl (by simp [TaskOutcome.ofTerminal?_eq_some]) (by simp) (by simp)
  case canceled =>
    intro t
    exact hcourse.conclusive_iff rfl (by simp [TaskOutcome.ofTerminal?_eq_some]) (by simp) (by simp)
  case going => exact fun t hlast hnot => hcourse.going hlast hnot
  case final =>
    refine List.pairwise_append.mpr ⟨hpolling.final, ?_, ?_⟩
    · exact List.pairwise_of_forall_mem_list fun _ _ later hlater _ => hquiet later hlater
    · exact fun _ _ later hlater _ => hquiet later hlater
  case timedOut =>
    intro t waited checks hok
    obtain ⟨htask, hstill, hwaited, hchecks, hmost, hcause⟩ := hcourse.timedOut hok
    exact ⟨htask, hstill, hwaited, hchecks.trans (Nat.zero_add _), hmost, hcause⟩
  case cancelled => exact fun t hok => hcourse.cancelled hok
  case heeded =>
    intro round hround state₁ w₁ hhead hraised
    rw [← hresult, poll_heeded hround hhead hraised]
    exact ⟨rfl, rfl⟩
  case error => exact hcourse.error_iff
  case stalled => exact hcourse.stalled

end Session

end SearchClient
