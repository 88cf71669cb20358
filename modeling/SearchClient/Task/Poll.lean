/-
SearchClient/Task/Poll.lean

Following a task to its end.  The task is looked up, with growing delays, until its status is
terminal, the deadline has passed, the allowed number of checks is used up, or a signal says to
stop.  The deadline and the signal also end a look-up whose answer is still on its way.  A look-up
that fails ends the polling with its error and is not tried again.
-/
import SearchClient.Task.Basic
import SearchClient.Wire.Session
import SearchClient.Backoff

namespace SearchClient

/-- How polling ended, with the task as it was last seen. -/
inductive TaskOutcome where
  | succeeded (task : Task)
  | failed (task : Task)
  /-- Canceled by the engine. -/
  | canceled (task : Task)
  | timedOut (task : Task) (waited : Duration) (checks : Nat)
  /-- Stopped by the signal. -/
  | cancelled (task : Task)
deriving DecidableEq

namespace TaskOutcome

def task : TaskOutcome → Task
  | .succeeded t | .failed t | .canceled t | .timedOut t _ _ | .cancelled t => t

def isSuccess : TaskOutcome → Bool
  | .succeeded _ => true
  | _ => false

def ending : TaskOutcome → PollEnding
  | .succeeded _ => .succeeded
  | .failed _ => .failed
  | .canceled _ => .canceled
  | .timedOut .. => .timedOut
  | .cancelled _ => .cancelled

/-- The outcome of a task that is seen with a terminal status. -/
def ofTerminal? (t : Task) : Option TaskOutcome :=
  match t.status with
  | .succeeded => some (.succeeded t)
  | .failed => some (.failed t)
  | .canceled => some (.canceled t)
  | _ => none

/-- The error of a failed task: that of its code, if the code has one of its own. -/
def failureError (t : Task) : ClientError :=
  let (code, message) := match t.failure with
    | some f => (f.code, f.message)
    | none => ("unknown", "")
  (ClientError.ofCode? code message).getD (.taskFailed t.uid code message)

/-- The task that succeeded, or an error that says what happened instead. -/
def result : TaskOutcome → Except ClientError Task
  | .succeeded t => .ok t
  | .failed t => .error (failureError t)
  | .canceled t => .error (.taskCanceled t.uid)
  | .timedOut t waited checks => .error (.taskTimedOut t.uid waited checks)
  | .cancelled t => .error (.pollCancelled t.uid)

end TaskOutcome

/-- Whether the number of checks made is all that is allowed. -/
def PollPolicy.usedUp (p : PollPolicy) (checks : Nat) : Bool :=
  p.maxChecks.any (· ≤ checks)

namespace Session

variable {σ : Type} (s : Session σ)

/-- Which task is followed and since when, how it was last seen, and how many checks there were. -/
structure PollState where
  uid : UInt64
  started : Duration
  task : Task
  checks : Nat := 0

/-- Waits for the next check after one that found the task still going; an outcome if there is not
to be one. -/
def afterCheck (policy : PollPolicy) (cancel : CancelSignal) (state : PollState) :
    Action σ (Option TaskOutcome) := do
  let waited := (← Action.now) - state.started
  if policy.usedUp state.checks || policy.maxWait ≤ waited then
    return some (.timedOut state.task waited state.checks)
  let delay := min (policy.backoff.delayAfterCheck state.checks) (policy.maxWait - waited)
  if ← s.waitUnless cancel delay then return some (.cancelled state.task)
  return none

/-- One round: a check, and the wait after it.  Polling ends with an outcome and the number of
checks made, or goes on from a new state. -/
def pollOnce (policy : PollPolicy) (cancel : CancelSignal) (state : PollState) :
    Action σ ((TaskOutcome × Nat) ⊕ PollState) := do
  let now ← Action.now
  if cancel.isRaised (← Action.eventCount) now then
    return .inl (.cancelled state.task, state.checks)
  let remaining := policy.maxWait - (now - state.started)
  match ← s.exchangeWithin (.read (.task state.uid)) remaining cancel with
  | .cancelled => return .inl (.cancelled state.task, state.checks)
  | .late =>
    let waited := (← Action.now) - state.started
    return .inl (.timedOut state.task waited state.checks, state.checks)
  | .answer answer => do
    let reply ← Action.ofExcept answer
    if !reply.isSuccess then Action.fail reply.error
    let task ← Action.ofExcept (reply.decode Task.ofJson)
    let state := { state with task, checks := state.checks + 1 }
    match TaskOutcome.ofTerminal? task with
    | some outcome => return .inl (outcome, state.checks)
    | none =>
      match ← s.afterCheck policy cancel state with
      | some outcome => return .inl (outcome, state.checks)
      | none => return .inr state

/-- Rounds until there is an outcome. -/
def pollRounds (policy : PollPolicy) (cancel : CancelSignal) :
    Nat → PollState → Action σ (TaskOutcome × Nat)
  | 0, _ => Action.stall
  | n + 1, state => do
    match ← s.pollOnce policy cancel state with
    | .inl ended => return ended
    | .inr state => pollRounds policy cancel n state

/-- Follows a task to its end. -/
def poll (policy : PollPolicy) (cancel : CancelSignal) (task : Task) : Action σ TaskOutcome := do
  let started ← Action.now
  let state : PollState := { uid := task.uid, started, task }
  let (outcome, checks) ← s.pollRounds policy cancel s.rounds state
  Action.count (.polled outcome.ending checks)
  return outcome

end Session

end SearchClient
