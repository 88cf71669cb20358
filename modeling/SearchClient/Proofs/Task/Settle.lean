/-
SearchClient/Proofs/Task/Settle.lean

A task that has succeeded by its first check.  The check has the whole of the deadline for its answer,
so an answer whose latency is within the deadline is taken (`Session.exchangeWithin_run`), and polling
ends after that one check with the task as the engine tells it (`Client.settle_run`).
-/
import SearchClient.Task.Follow
import SearchClient.Proofs.Wire.Clock
import SearchClient.Proofs.Wire.Run

namespace SearchClient

variable {σ : Type}

namespace Session

variable {s : Session σ} {w : World σ} {latency : Duration} {line : σ}

/-- Without a signal, an answer that is not later than the limit is taken. -/
theorem exchangeWithin_run {request : Request} {limit : Duration} {answer : Except String Reply}
    (h : s.transport.Answers request w.line latency answer line) (hlimit : latency ≤ limit) :
    (s.exchangeWithin request limit {}).run.run w =
      (.ok (.answer (answer.mapError .transport)),
        w.exchanged request answer line (max w.now (s.clock.after w.now latency))) := by
  obtain ⟨sent, hdepart, harrive⟩ := h
  have hsent := s.depart_run request w
  rw [hdepart] at hsent
  have hintime : s.clock.after w.now latency ≤ s.clock.after w.now limit :=
    s.clock.after_mono w.now hlimit
  have hready : min (s.clock.after w.now latency) (s.clock.after w.now limit) =
      s.clock.after w.now latency := Nat.min_eq_left hintime
  rw [exchangeWithin]
  rw [Action.run_bind_ok (Action.run_now w), Action.run_bind_ok hsent]
  simp only [Option.map_some, hready, Option.any_some, decide_eq_true hintime, if_true]
  show (s.arrive request >>= fun answer => pure (.answer answer) :
    Action σ Arrival).run.run _ = _
  rw [Action.run_bind_ok (s.arrive_run request _)]
  simp only [harrive, World.exchanged, List.append_assoc, List.singleton_append]
  rfl

/-- A check that finds the task succeeded ends the polling. -/
theorem pollOnce_run {policy : PollPolicy} {state : PollState} {reply : Reply} {task : Task}
    (hstart : state.started = w.now)
    (h : s.transport.Answers (.read (.task state.uid)) w.line latency (.ok reply) line)
    (hprompt : latency ≤ policy.maxWait) (hs : reply.isSuccess = true)
    (htask : Task.ofJson reply.body = .ok task) (hdone : task.status = .succeeded) :
    (s.pollOnce policy {} state).run.run w =
      (.ok (.inl (.succeeded task, state.checks + 1)),
        w.exchanged (.read (.task state.uid)) (.ok reply) line
          (max w.now (s.clock.after w.now latency))) := by
  have hremaining : policy.maxWait - (w.now - state.started) = policy.maxWait := by
    rw [hstart, Nat.sub_self, Nat.sub_zero]
  have hdecode : reply.decode Task.ofJson = .ok task := by
    rw [Reply.decode, htask]
    rfl
  have houtcome : TaskOutcome.ofTerminal? task = some (.succeeded task) := by
    rw [TaskOutcome.ofTerminal?, hdone]
  rw [pollOnce, Action.run_bind_ok (Action.run_now w), Action.run_bind_ok (Action.run_eventCount w)]
  simp only [CancelSignal.isRaised, Bool.false_eq_true, if_false, hremaining]
  rw [Action.run_bind_ok (exchangeWithin_run h hprompt)]
  simp only [Except.mapError]
  rw [Action.run_bind_ok (Action.run_ofExcept (.ok reply) _)]
  simp only [hs, Bool.not_true, Bool.false_eq_true, if_false, hdecode]
  rw [Action.run_bind_ok (Action.run_ofExcept (.ok task) _)]
  simp only [houtcome]
  rfl

end Session

namespace Client

variable {c : Client σ} {w : World σ} {latency : Duration} {line : σ}

/-- The task of a write that the engine has carried out by the first check. -/
theorem settle_run {policy : PollPolicy} {queued : Task} {reply : Reply} {task : Task}
    (hrounds : 0 < c.session.rounds)
    (h : c.session.transport.Answers (.read (.task queued.uid)) w.line latency (.ok reply) line)
    (hprompt : latency ≤ policy.maxWait) (hs : reply.isSuccess = true)
    (htask : Task.ofJson reply.body = .ok task) (hdone : task.status = .succeeded) :
    (c.settle policy queued).run.run w =
      (.ok task, (c.after w (.read (.task queued.uid)) reply line latency).counted
        (.polled .succeeded 1)) := by
  obtain ⟨rounds, hr⟩ := Nat.exists_eq_succ_of_ne_zero (Nat.ne_of_gt hrounds)
  have honce : (c.session.pollOnce policy {}
      { uid := queued.uid, started := w.now, task := queued }).run.run w = _ :=
    Session.pollOnce_run rfl h hprompt hs htask hdone
  have hpoll : (c.session.poll policy {} queued).run.run w = (.ok (.succeeded task),
      (c.after w (.read (.task queued.uid)) reply line latency).counted (.polled .succeeded 1)) := by
    rw [Session.poll, Action.run_bind_ok (Action.run_now w), hr]
    have hrounds : (c.session.pollRounds policy {} rounds.succ
        { uid := queued.uid, started := w.now, task := queued }).run.run w =
        (.ok (.succeeded task, 1), c.after w (.read (.task queued.uid)) reply line latency) := by
      rw [Session.pollRounds, Action.run_bind_ok honce]
      rfl
    exact Action.run_bind_ok hrounds
  rw [settle, Action.run_bind_ok hpoll]
  rfl

end Client

end SearchClient
