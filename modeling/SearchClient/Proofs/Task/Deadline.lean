/-
SearchClient/Proofs/Task/Deadline.lean

How long polling takes on an exact clock, on which time passes only while an answer or the next check is
waited for.  `Lap` has the ways in which a round passes; whenever it gets to the wait after a check, there is
time left, and the wait takes the delay or all of that time.

So time is never later than the deadline, and a round that begins there is the last one.  Since delays do not
shrink, every round but the last takes the first delay at least, or all the time that is left, which bounds
their number (`Session.pollRounds_timed`).

Main result: `Session.poll_punctual`.
-/
import Mathlib.Algebra.Order.Floor.Div
import SearchClient.Proofs.Backoff
import SearchClient.Proofs.Task.Sound
import SearchClient.Proofs.Wire.Clock

namespace SearchClient

variable {σ : Type}

namespace Session

/-! ### A check and the wait after it -/

section

variable {s : Session σ} (hexact : ∀ t d, s.clock.after t d = t + d)

include hexact

/-- The answer is waited for no longer than the limit, and as long as that if it is late. -/
theorem exchangeWithin_timed (request : Request) (limit : Duration) (cancel : CancelSignal)
    (w : World σ) :
    (s.exchangeWithin request limit cancel).Records w fun result _ w' =>
      (w.now ≤ w'.now ∧ w'.now ≤ w.now + limit) ∧
        (result = .ok .cancelled ∨ (result = .ok .late ∧ w'.now = w.now + limit) ∨
          ∃ answer : Except String Reply, result = .ok (.answer (answer.mapError .transport))) := by
  have hsent := s.depart_run request w
  rcases hdepart : s.transport.depart request w.line with ⟨latency, line⟩
  rw [hdepart] at hsent
  refine Action.Records.of_eq [.sent request]
    ((Action.run_bind_ok (Action.run_now w)).trans (Action.run_bind_ok hsent)) rfl ?_
  extract_lets deadline arrival ready
  have hdeadline : deadline = w.now + limit := hexact w.now limit
  have hstart : w.now ≤ deadline := hdeadline ▸ Nat.le_add_right _ _
  -- the moment at which there is an answer or no time left, whichever comes first
  have hready : w.now ≤ ready ∧ ready ≤ deadline ∧
      (¬ arrival.any (· ≤ deadline) = true → ready = deadline) := by
    cases latency with
    | none => exact ⟨hstart, Nat.le_refl _, fun _ => rfl⟩
    | some latency =>
      have harrival : w.now ≤ s.clock.after w.now latency := s.clock.le_after _ _
      refine ⟨Nat.le_min.mpr ⟨harrival, hstart⟩, Nat.min_le_right _ _, fun hlate => ?_⟩
      exact Nat.min_eq_right (Nat.le_of_not_le fun hle => hlate (decide_eq_true hle))
  have hbound : ∀ moment, moment ≤ ready →
      w.now ≤ max w.now moment ∧ max w.now moment ≤ w.now + limit := fun moment hmoment =>
    ⟨Nat.le_max_left _ _, hdeadline ▸ Nat.max_le.mpr ⟨hstart, Nat.le_trans hmoment hready.2.1⟩⟩
  refine Action.Records.of_eq_quiet (Action.run_bind_ok rfl) rfl ?_
  rcases hends : cancel.ends? (w.history ++ [Event.sent request]).length w.now ready with
    - | moment
  · refine Action.Records.of_eq_quiet (Action.run_bind_ok rfl) rfl ?_
    split
    · exact Action.records_of_run (Action.run_bind_ok (s.arrive_run request _)) rfl
        ⟨hbound ready (Nat.le_refl _), .inr (.inr ⟨_, rfl⟩)⟩
    · next hlate =>
      refine Action.records_of_run rfl rfl
        ⟨hbound ready (Nat.le_refl _), .inr (.inl ⟨rfl, ?_⟩)⟩
      rw [← hdeadline, ← hready.2.2 hlate]
      exact Nat.max_eq_right hready.1
  · exact Action.records_of_run rfl rfl
      ⟨hbound moment (CancelSignal.ends?_le hends), .inl rfl⟩

theorem waitUnless_timed (cancel : CancelSignal) (d : Duration) (w : World σ) :
    (s.waitUnless cancel d).Records w fun result _ w' =>
      (result = .ok true ∧ w.now ≤ w'.now ∧ w'.now ≤ w.now + d) ∨
        (result = .ok false ∧ w'.now = w.now + d) := by
  unfold waitUnless
  refine Action.Records.of_eq_quiet (Action.run_bind_ok (Action.run_now w)) rfl ?_
  extract_lets ready
  have hready : ready = w.now + d := hexact w.now d
  refine Action.Records.of_eq_quiet (Action.run_bind_ok (Action.run_eventCount w)) rfl ?_
  rcases hends : cancel.ends? w.history.length w.now ready with - | moment
  · refine Action.records_of_run rfl rfl (.inr ⟨rfl, ?_⟩)
    rw [← hready]
    exact Nat.max_eq_right (hready ▸ Nat.le_add_right _ _)
  · refine Action.records_of_run rfl (List.append_nil _).symm (.inl ⟨rfl, Nat.le_max_left _ _, ?_⟩)
    exact Nat.max_le.mpr ⟨Nat.le_add_right _ _, hready ▸ CancelSignal.ends?_le hends⟩

theorem afterCheck_timed (policy : PollPolicy) (cancel : CancelSignal) (state : PollState)
    (w : World σ) :
    (s.afterCheck policy cancel state).Records w fun result _ w' =>
      (result = .ok (some (.timedOut state.task (w'.now - state.started) state.checks)) ∧
          w'.now = w.now ∧
          (policy.usedUp state.checks = true ∨ policy.maxWait ≤ w.now - state.started)) ∨
        ∃ left, w.now - state.started + left = policy.maxWait ∧ 0 < left ∧
          ((result = .ok (some (.cancelled state.task)) ∧ w.now ≤ w'.now ∧
              w'.now ≤ w.now + min (policy.backoff.delayAfterCheck state.checks) left) ∨
            (result = .ok none ∧
              w'.now = w.now + min (policy.backoff.delayAfterCheck state.checks) left)) := by
  unfold afterCheck
  refine Action.Records.of_eq_quiet (Action.run_bind_ok rfl) rfl ?_
  extract_lets waited delay
  split
  · next hover =>
    refine Action.records_pure (.inl ⟨rfl, rfl, ?_⟩)
    simpa using hover
  · next hover =>
    rw [Bool.or_eq_true, not_or, decide_eq_true_iff] at hover
    have hlt : waited < policy.maxWait := Nat.lt_of_not_le hover.2
    refine (waitUnless_timed hexact cancel delay w).bind ?_ ?_
    · rintro stopped events w' - (⟨h, hwait⟩ | ⟨h, hwait⟩)
      · obtain rfl := Except.ok.inj h
        exact Action.records_pure (.inr ⟨policy.maxWait - waited, Nat.add_sub_cancel' hlt.le,
          Nat.sub_pos_of_lt hlt, .inl ⟨rfl, hwait⟩⟩)
      · obtain rfl := Except.ok.inj h
        exact Action.records_pure (.inr ⟨policy.maxWait - waited, Nat.add_sub_cancel' hlt.le,
          Nat.sub_pos_of_lt hlt, .inr ⟨rfl, hwait⟩⟩)
    · rintro e events w' (⟨h, -⟩ | ⟨h, -⟩)
      · cases h
      · cases h

end

/-! ### Rounds -/

/-- How a round passes that begins at a moment, up to the moment at which it ends. -/
inductive Lap (policy : PollPolicy) (state : PollState) (now : Duration) :
    Except Stop ((TaskOutcome × Nat) ⊕ PollState) → Duration → Prop where
  /-- The signal comes before the answer. -/
  | signalled {later : Duration} (hby : later ≤ state.started + policy.maxWait) :
      Lap policy state now (.ok (.inl (.cancelled state.task, state.checks))) later
  | failed {e : ClientError} {later : Duration} (hby : later ≤ state.started + policy.maxWait) :
      Lap policy state now (.error (.failed e)) later
  | finished {task : Task} {outcome : TaskOutcome} {later : Duration}
      (houtcome : TaskOutcome.ofTerminal? task = some outcome)
      (hby : later ≤ state.started + policy.maxWait) :
      Lap policy state now (.ok (.inl (outcome, state.checks + 1))) later
  /-- The deadline comes, before the answer or with it. -/
  | overdue {task : Task} {checks : Nat} :
      Lap policy state now (.ok (.inl (.timedOut task policy.maxWait checks, checks)))
        (state.started + policy.maxWait)
  | usedUp {task : Task} {later : Duration} (hused : policy.usedUp (state.checks + 1) = true)
      (hby : later ≤ state.started + policy.maxWait) :
      Lap policy state now
        (.ok (.inl (.timedOut task (later - state.started) (state.checks + 1), state.checks + 1)))
        later
  /-- The task is going, there is time left, and the signal comes before it was waited. -/
  | stopped {task : Task} {seen left later : Duration} (hseen : now ≤ seen)
      (hleft : seen - state.started + left = policy.maxWait) (hpos : 0 < left)
      (hwait : later ≤ seen + min (policy.backoff.delayAfterCheck (state.checks + 1)) left) :
      Lap policy state now (.ok (.inl (.cancelled task, state.checks + 1))) later
  /-- The task is going, there is time left, and the delay is waited, or all that time. -/
  | again {task : Task} {seen left : Duration} (hseen : now ≤ seen)
      (hleft : seen - state.started + left = policy.maxWait) (hpos : 0 < left) :
      Lap policy state now (.ok (.inr { state with task, checks := state.checks + 1 }))
        (seen + min (policy.backoff.delayAfterCheck (state.checks + 1)) left)

theorem limit_eq {started now maxWait : Nat} (hstart : started ≤ now)
    (hby : now ≤ started + maxWait) : now + (maxWait - (now - started)) = started + maxWait := by
  omega

theorem over_eq {started seen maxWait : Nat} (hby : seen ≤ started + maxWait)
    (hover : maxWait ≤ seen - started) (hstart : started ≤ seen) : seen = started + maxWait := by
  omega

theorem wait_le {started seen left maxWait later delay : Nat} (hstart : started ≤ seen)
    (hleft : seen - started + left = maxWait) (hwait : later ≤ seen + min delay left) :
    later ≤ started + maxWait := by
  omega

/-- What is left of the time after a delay that was waited. -/
theorem after_wait {started now seen left maxWait d delay : Nat} (hdelay : d ≤ delay)
    (hstart : started ≤ now) (hseen : now ≤ seen) (hleft : seen - started + left = maxWait)
    (hpos : 0 < left) :
    0 < maxWait - (now - started) ∧
      maxWait - (seen + min delay left - started) ≤ maxWait - (now - started) - d := by
  omega

section

variable {s : Session σ} (hexact : ∀ t d, s.clock.after t d = t + d) {policy : PollPolicy}
  (cancel : CancelSignal) {state : PollState} {w : World σ}

include hexact

/-- The wait after a check that saw the task going. -/
theorem afterCheck_lap {now : Duration} (hstart : state.started ≤ now) (hfrom : now ≤ w.now)
    (hby : w.now ≤ state.started + policy.maxWait) (task : Task) :
    (s.afterCheck policy cancel { state with task, checks := state.checks + 1 }).Records w
      fun result _ w' =>
        (∃ outcome, result = .ok (some outcome) ∧
          Lap policy state now (.ok (.inl (outcome, state.checks + 1))) w'.now) ∨
        (result = .ok none ∧
          Lap policy state now (.ok (.inr { state with task, checks := state.checks + 1 }))
            w'.now) := by
  refine (afterCheck_timed hexact policy cancel _ w).mono ?_
  rintro result events w' -
    (⟨h, hnow, hused | hover⟩ | ⟨left, hleft, hpos, ⟨h, -, hwait⟩ | ⟨h, hwait⟩⟩)
  · exact .inl ⟨_, h, .usedUp hused (hnow ▸ hby)⟩
  · -- a check at the deadline is the last one
    have hdeadline : w'.now = state.started + policy.maxWait :=
      hnow ▸ over_eq hby hover (Nat.le_trans hstart hfrom)
    rw [hdeadline, Nat.add_sub_cancel_left] at h
    rw [hdeadline]
    exact .inl ⟨_, h, .overdue⟩
  · exact .inl ⟨_, h, .stopped hfrom hleft hpos hwait⟩
  · rw [hwait]
    exact .inr ⟨h, .again hfrom hleft hpos⟩

theorem pollOnce_timed (hstart : state.started ≤ w.now)
    (hby : w.now ≤ state.started + policy.maxWait) :
    (s.pollOnce policy cancel state).Records w fun result _ w' =>
      Lap policy state w.now result w'.now := by
  unfold pollOnce
  refine Action.Records.of_eq_quiet (Action.run_bind_ok (Action.run_now w)) rfl ?_
  refine Action.Records.of_eq_quiet (Action.run_bind_ok (Action.run_eventCount w)) rfl ?_
  split
  · exact Action.records_pure (.signalled hby)
  · extract_lets remaining
    have hlimit : w.now + remaining = state.started + policy.maxWait := limit_eq hstart hby
    refine (exchangeWithin_timed hexact _ remaining cancel w).bind ?_ ?_
    · rintro arrival events w₁ - ⟨⟨hfrom, hto⟩, h | ⟨h, hlast⟩ | ⟨answer, h⟩⟩
      · obtain rfl := Except.ok.inj h
        exact Action.records_pure (.signalled (hlimit ▸ hto))
      · obtain rfl := Except.ok.inj h
        refine Action.records_of_run rfl (List.append_nil _).symm ?_
        rw [hlast, hlimit, Nat.add_sub_cancel_left]
        exact .overdue
      · obtain rfl := Except.ok.inj h
        refine Action.Records.of_eq_quiet (Action.run_receivedAs Task.ofJson answer _ w₁) rfl ?_
        rcases hanswer : Reply.receivedAs Task.ofJson answer with e | task
        · exact Action.records_of_run rfl (List.append_nil _).symm (.failed (hlimit ▸ hto))
        · refine Action.Records.of_eq_quiet
            (Action.run_bind_ok (Action.run_ofExcept (.ok task) w₁)) rfl ?_
          rcases houtcome : TaskOutcome.ofTerminal? task with - | outcome
          · refine (afterCheck_lap hexact cancel hstart hfrom (hlimit ▸ hto) task).bind ?_ ?_
            · rintro outcome events w₂ - (⟨outcome, h, hlap⟩ | ⟨h, hlap⟩)
              · obtain rfl := Except.ok.inj h
                exact Action.records_pure hlap
              · obtain rfl := Except.ok.inj h
                exact Action.records_pure hlap
            · rintro e events w₂ (⟨outcome, h, -⟩ | ⟨h, -⟩)
              · cases h
              · cases h
          · exact Action.records_pure (.finished houtcome (hlimit ▸ hto))
    · rintro e events w₁ ⟨-, h | ⟨h, -⟩ | ⟨answer, h⟩⟩
      · cases h
      · cases h
      · cases h

end

/-! ### What a round makes of the time -/

section

variable {policy : PollPolicy} {state next : PollState} {now later : Duration}
  {result : Except Stop ((TaskOutcome × Nat) ⊕ PollState)}

/-- No round ends after the deadline. -/
theorem Lap.within (h : Lap policy state now result later) (hstart : state.started ≤ now) :
    later ≤ state.started + policy.maxWait := by
  cases h with
  | signalled hby => exact hby
  | failed hby => exact hby
  | finished houtcome hby => exact hby
  | overdue => exact Nat.le_refl _
  | usedUp hused hby => exact hby
  | stopped hseen hleft hpos hwait => exact wait_le (Nat.le_trans hstart hseen) hleft hwait
  | again hseen hleft hpos => exact wait_le (Nat.le_trans hstart hseen) hleft (Nat.le_refl _)

/-- A round that is followed by another one began before the deadline, and went on towards it by the
first delay at least, or all the way. -/
theorem Lap.next_eq (h : Lap policy state now (.ok (.inr next)) later)
    (hstart : state.started ≤ now) :
    next.started = state.started ∧ next.checks = state.checks + 1 ∧ state.started ≤ later ∧
      0 < policy.maxWait - (now - state.started) ∧
      ∀ d ≤ min policy.backoff.initial policy.backoff.ceiling,
        policy.maxWait - (later - state.started) ≤ policy.maxWait - (now - state.started) - d := by
  cases h with
  | again hseen hleft hpos =>
    refine ⟨rfl, rfl, Nat.le_trans (Nat.le_trans hstart hseen) (Nat.le_add_right _ _), ?_, ?_⟩
    · exact (after_wait (Nat.le_refl 0) hstart hseen hleft hpos).1
    · intro d hd
      have hdelay := Nat.le_trans hd (policy.backoff.le_delayAfterCheck (state.checks + 1))
      exact (after_wait hdelay hstart hseen hleft hpos).2

theorem Lap.timedOut {task : Task} {waited : Duration} {checks n : Nat}
    (h : Lap policy state now (.ok (.inl (.timedOut task waited checks, n))) later) :
    waited = policy.maxWait ∨ policy.usedUp checks = true ∧ 0 < checks := by
  cases h with
  | overdue => exact .inl rfl
  | usedUp hused hby => exact .inr ⟨hused, Nat.succ_pos _⟩
  | finished houtcome hby =>
    rcases TaskOutcome.ofTerminal?_eq_some.mp houtcome with ⟨h, -⟩ | ⟨h, -⟩ | ⟨h, -⟩ <;> cases h

end

/-! ### Runs -/

/-- How polling passes that may take some number of rounds and is in a state at a moment. -/
structure OnTime (policy : PollPolicy) (state : PollState) (now : Duration) (rounds : Nat)
    (result : Except Stop (TaskOutcome × Nat)) (events : List Event) (later : Duration) : Prop where
  within : later ≤ state.started + policy.maxWait
  timedOut : ∀ task waited checks n, result = .ok (.timedOut task waited checks, n) →
    waited = policy.maxWait ∨ policy.usedUp checks = true ∧ 0 < checks
  /-- There are as many checks as first delays fit into the time that is left, and one more. -/
  checks : ∀ d, 0 < d → d ≤ min policy.backoff.initial policy.backoff.ceiling →
    (events.filterMap Event.sent?).length ≤
      (policy.maxWait - (now - state.started)) ⌈/⌉ d + 1
  returns : ∀ d, 0 < d → d ≤ min policy.backoff.initial policy.backoff.ceiling →
    (policy.maxWait - (now - state.started)) ⌈/⌉ d + 1 ≤ rounds → result ≠ .error .stalled

theorem Round.sends_le {policy : PollPolicy} {cancel : CancelSignal} {state : PollState}
    {now : Duration} {result : Except Stop ((TaskOutcome × Nat) ⊕ PollState)} {events : List Event}
    (h : Round policy cancel state now result events) :
    (events.filterMap Event.sent?).length ≤ 1 := by
  cases h <;> simp [Event.sent?]

theorem ceilDiv_add_one_le {total left d : Nat} (hd : 0 < d) (htotal : 0 < total)
    (hleft : left ≤ total - d) : left ⌈/⌉ d + 1 ≤ total ⌈/⌉ d := by
  rw [Nat.succ_le_iff, ← not_le, ceilDiv_le_iff_le_mul hd, not_le, Nat.ceilDiv_eq_add_pred_div]
  rcases lt_or_ge total d with hlt | hge
  · obtain rfl : left = 0 := by omega
    rw [Nat.zero_add, Nat.div_eq_of_lt (by omega)]
    exact htotal
  · have hmul := Nat.mul_div_le (left + d - 1) d
    omega

section

variable {policy : PollPolicy} {state next : PollState} {now later : Duration} {rounds : Nat}

/-- The round ends the polling. -/
theorem OnTime.of_lap {lap : Except Stop ((TaskOutcome × Nat) ⊕ PollState)}
    {result : Except Stop (TaskOutcome × Nat)} {events : List Event}
    (h : Lap policy state now lap later) (hstart : state.started ≤ now)
    (hend : (∃ ending, lap = .ok (.inl ending) ∧ result = .ok ending) ∨
      ∃ stop, lap = .error stop ∧ result = .error stop)
    (hsends : (events.filterMap Event.sent?).length ≤ 1) :
    OnTime policy state now (rounds + 1) result events later where
  within := h.within hstart
  timedOut := by
    rintro task waited checks n rfl
    rcases hend with ⟨ending, rfl, hending⟩ | ⟨stop, -, hstop⟩
    · obtain rfl := Except.ok.inj hending
      exact h.timedOut
    · cases hstop
  checks := fun d _ _ => Nat.le_add_left_of_le hsends
  returns := by
    rintro d - - - rfl
    rcases hend with ⟨ending, -, hending⟩ | ⟨stop, rfl, hstop⟩
    · cases hending
    · obtain rfl := Except.error.inj hstop
      cases h

/-- The round goes on to others. -/
theorem OnTime.of_next {result : Except Stop (TaskOutcome × Nat)} {first rest : List Event}
    {last : Duration} (h : Lap policy state now (.ok (.inr next)) later)
    (hstart : state.started ≤ now) (hsends : (first.filterMap Event.sent?).length ≤ 1)
    (hrest : OnTime policy next later rounds result rest last) :
    OnTime policy state now (rounds + 1) result (first ++ rest) last := by
  obtain ⟨hstarted, -, -, hpos, hless⟩ := h.next_eq hstart
  -- the round took a first delay, or all the time, so the others have one check less
  have hcount : ∀ d, 0 < d → d ≤ min policy.backoff.initial policy.backoff.ceiling →
      (policy.maxWait - (later - next.started)) ⌈/⌉ d + 1 ≤
        (policy.maxWait - (now - state.started)) ⌈/⌉ d := fun d hd hle =>
    ceilDiv_add_one_le hd hpos (hstarted ▸ hless d hle)
  refine ⟨hstarted ▸ hrest.within, hrest.timedOut, fun d hd hle => ?_, fun d hd hle hrounds => ?_⟩
  · rw [List.filterMap_append, List.length_append, Nat.add_comm]
    exact Nat.add_le_add (Nat.le_trans (hrest.checks d hd hle) (hcount d hd hle)) hsends
  · exact hrest.returns d hd hle
      (Nat.le_trans (hcount d hd hle) (Nat.le_of_succ_le_succ hrounds))

end

section

variable {s : Session σ} (hexact : ∀ t d, s.clock.after t d = t + d) {policy : PollPolicy}
  {cancel : CancelSignal}

include hexact

theorem pollRounds_timed (rounds : Nat) {state : PollState} {w : World σ}
    (hstart : state.started ≤ w.now) (hby : w.now ≤ state.started + policy.maxWait) :
    (s.pollRounds policy cancel rounds state).Records w fun result events w' =>
      OnTime policy state w.now rounds result events w'.now := by
  induction rounds generalizing state w with
  | zero =>
    refine Action.records_of_run rfl (List.append_nil _).symm
      ⟨hby, fun _ _ _ _ h => ?_, fun _ _ _ => Nat.zero_le _, fun _ _ _ h => ?_⟩
    · cases h
    · exact absurd h (Nat.not_succ_le_zero _)
  | succ rounds ih =>
    refine ((s.pollOnce_records policy cancel state w).and
      (pollOnce_timed hexact cancel hstart hby)).bind ?_ ?_
    · rintro (ending | next) events w₁ - ⟨hround, hlap⟩
      · refine Action.records_pure ?_
        rw [List.append_nil]
        exact .of_lap hlap hstart (.inl ⟨ending, rfl, rfl⟩) hround.sends_le
      · -- the start is kept, and with it the deadline
        obtain ⟨hstarted, -, hstart₁, -⟩ := hlap.next_eq hstart
        have hby₁ := hlap.within hstart
        rw [← hstarted] at hstart₁ hby₁
        exact (ih hstart₁ hby₁).mono fun result more w' _ hrest =>
          .of_next hlap hstart hround.sends_le hrest
    · exact fun stop events w₁ ⟨hround, hlap⟩ =>
        .of_lap hlap hstart (.inr ⟨stop, rfl, rfl⟩) hround.sends_le

/-- At the head of every round the time is between the start and the deadline. -/
theorem head_timed {round : Nat} {state state₁ : PollState} {w w₁ : World σ}
    (hstart : state.started ≤ w.now) (hby : w.now ≤ state.started + policy.maxWait)
    (hhead : s.head policy cancel round state w = some (state₁, w₁)) :
    state₁.started = state.started ∧ state₁.checks = state.checks + round ∧
      state₁.started ≤ w₁.now ∧ w₁.now ≤ state₁.started + policy.maxWait := by
  induction round generalizing state w with
  | zero =>
    obtain ⟨rfl, rfl⟩ := Prod.mk.inj (Option.some.inj hhead)
    exact ⟨rfl, rfl, hstart, hby⟩
  | succ round ih =>
    rw [head] at hhead
    split at hhead
    · next next w' hrun =>
      obtain ⟨events, -, hlap⟩ := pollOnce_timed hexact cancel hstart hby
      rw [hrun] at hlap
      obtain ⟨hstarted, hchecks, hstart', -⟩ := hlap.next_eq hstart
      have hby' := hlap.within hstart
      rw [← hstarted] at hstart' hby'
      obtain ⟨h₁, h₂, h₃⟩ := ih hstart' hby' hhead
      exact ⟨h₁.trans hstarted, by rw [h₂, hchecks]; omega, h₃⟩
    · cases hhead

end

theorem head_succ {s : Session σ} {policy : PollPolicy} {cancel : CancelSignal} {round : Nat}
    {state state₁ : PollState} {w w₁ : World σ}
    (h : s.head policy cancel round state w = some (state₁, w₁)) :
    s.head policy cancel (round + 1) state w = s.head policy cancel 1 state₁ w₁ := by
  induction round generalizing state w with
  | zero =>
    obtain ⟨rfl, rfl⟩ := Prod.mk.inj (Option.some.inj h)
    rfl
  | succ round ih =>
    rw [head] at h
    split at h
    · next next w' hrun =>
      rw [head, hrun]
      exact ih h
    · cases h

/-! ### Main result -/

/-- How polling a task passes on a clock, from the world in which it begins to the one in which it
ends. -/
structure Punctual (s : Session σ) (policy : PollPolicy) (cancel : CancelSignal) (task : Task)
    (w : World σ) (result : Except Stop TaskOutcome) (events : List Event) (w' : World σ) :
    Prop where
  /-- Every round passes in one of the ways: what is left of the time is found by a subtraction that does
  not go below zero. -/
  laps : ∀ round state₁ w₁,
    s.head policy cancel round { uid := task.uid, started := w.now, task } w = some (state₁, w₁) →
      state₁.started = w.now ∧ state₁.checks = round ∧
        Lap policy state₁ w₁.now ((s.pollOnce policy cancel state₁).run.run w₁).1
          ((s.pollOnce policy cancel state₁).run.run w₁).2.now
  /-- No time is later than the deadline, -/
  within : w'.now ≤ w.now + policy.maxWait
  /-- and a round that begins there is the last one. -/
  last : ∀ round state₁ w₁,
    s.head policy cancel round { uid := task.uid, started := w.now, task } w = some (state₁, w₁) →
      w₁.now = w.now + policy.maxWait →
        s.head policy cancel (round + 1) { uid := task.uid, started := w.now, task } w = none
  /-- Unless the checks are used up, it is at the deadline that polling times out. -/
  timedOut : ∀ t waited checks, result = .ok (.timedOut t waited checks) →
    waited = policy.maxWait ∨ policy.usedUp checks = true ∧ 0 < checks
  /-- The first delay limits the number of checks, -/
  checks : 0 < min policy.backoff.initial policy.backoff.ceiling →
    (events.filterMap Event.sent?).length ≤
      policy.maxWait ⌈/⌉ min policy.backoff.initial policy.backoff.ceiling + 1
  /-- and polling comes to an end when so many rounds may be taken. -/
  returns : 0 < min policy.backoff.initial policy.backoff.ceiling →
    policy.maxWait ⌈/⌉ min policy.backoff.initial policy.backoff.ceiling + 1 ≤ s.rounds →
      result ≠ .error .stalled

section

variable {s : Session σ} (hexact : ∀ t d, s.clock.after t d = t + d) {policy : PollPolicy}
  {cancel : CancelSignal} {task : Task} {w w₁ : World σ} {round : Nat} {state₁ : PollState}

include hexact

theorem head_lap (hhead : s.head policy cancel round { uid := task.uid, started := w.now, task } w =
      some (state₁, w₁)) :
    state₁.started = w.now ∧ state₁.checks = round ∧
      Lap policy state₁ w₁.now ((s.pollOnce policy cancel state₁).run.run w₁).1
        ((s.pollOnce policy cancel state₁).run.run w₁).2.now := by
  obtain ⟨hstarted, hchecks, hstart, hby⟩ :=
    head_timed hexact (Nat.le_refl _) (Nat.le_add_right _ _) hhead
  obtain ⟨events, -, hlap⟩ := pollOnce_timed hexact cancel hstart hby
  exact ⟨hstarted, hchecks.trans (Nat.zero_add round), hlap⟩

theorem head_last (hhead : s.head policy cancel round { uid := task.uid, started := w.now, task } w =
      some (state₁, w₁)) (hdeadline : w₁.now = w.now + policy.maxWait) :
    s.head policy cancel (round + 1) { uid := task.uid, started := w.now, task } w = none := by
  obtain ⟨hstarted, -, hlap⟩ := head_lap hexact hhead
  rw [head_succ hhead, head]
  split
  · next next w₂ hrun =>
    -- a round that goes on finds some time left
    rw [hrun] at hlap
    obtain ⟨-, -, -, hpos, -⟩ := hlap.next_eq (by rw [hstarted, hdeadline]; exact Nat.le_add_right _ _)
    rw [hstarted, hdeadline, Nat.add_sub_cancel_left, Nat.sub_self] at hpos
    exact absurd hpos (Nat.lt_irrefl 0)
  · rfl

theorem Punctual.of_onTime (cancel : CancelSignal) {ending : Except Stop (TaskOutcome × Nat)}
    {result : Except Stop TaskOutcome} {events more : List Event} {later : Duration} {w' : World σ}
    (h : OnTime policy { uid := task.uid, started := w.now, task } w.now s.rounds ending events later)
    (hlater : w'.now = later) (hresult : result = ending.map Prod.fst)
    (hmore : ∀ event ∈ more, ∃ m, event = .counted m) :
    Punctual s policy cancel task w result (events ++ more) w' where
  laps := fun _ _ _ => head_lap hexact
  within := hlater ▸ h.within
  last := fun _ _ _ => head_last hexact
  timedOut := by
    rintro t waited checks rfl
    rcases ending with e | ⟨outcome, n⟩
    · cases hresult
    · obtain rfl := Except.ok.inj hresult
      exact h.timedOut t waited checks n rfl
  checks := fun hd => by
    have hchecks := h.checks _ hd (Nat.le_refl _)
    rw [Nat.sub_self, Nat.sub_zero] at hchecks
    rwa [filterMap_counted events hmore fun _ => rfl]
  returns := by
    rintro hd hrounds rfl
    refine h.returns _ hd (Nat.le_refl _) ?_ ?_
    · rwa [Nat.sub_self, Nat.sub_zero]
    · rcases ending with e | ending
      · exact congrArg Except.error (Except.error.inj hresult).symm
      · cases hresult

end

/-- **Polling keeps to the deadline.**  On an exact clock, whatever the policy, the signal, the answers
and their times, also if none comes. -/
theorem poll_punctual (transport : Transport σ) (rounds : Nat) (policy : PollPolicy)
    (cancel : CancelSignal) (task : Task) (w : World σ) :
    let s : Session σ := { transport, clock := .nanoseconds, rounds }
    (s.poll policy cancel task).Records w (Punctual s policy cancel task w) := by
  intro s
  have hexact : ∀ t d, s.clock.after t d = t + d := Clock.nanoseconds_after
  refine Action.Records.of_eq_quiet (Action.run_bind_ok (Action.run_now w)) rfl ?_
  refine (pollRounds_timed hexact s.rounds (Nat.le_refl _) (Nat.le_add_right _ _)).bind ?_ ?_
  · rintro ⟨outcome, checks⟩ events w₁ - htime
    exact Action.records_of_run rfl rfl (Punctual.of_onTime hexact cancel htime rfl rfl (by simp))
  · intro e events w₁ htime
    have hnone : ∀ event ∈ ([] : List Event), ∃ m, event = .counted m := by simp
    have hpunctual := Punctual.of_onTime hexact cancel htime rfl rfl hnone
    rwa [List.append_nil] at hpunctual

end Session

end SearchClient
