/-
SearchClient/Wire/Session.lean

How the client acts on its surroundings.  A transport is a machine with a state: it takes a
request, says how long the answer will be on its way, and hands the answer over when it has come.
A session drives a transport on a clock of its own that moves only when something is waited for,
and keeps the history of all that happened.

An action changes the world and either gives a value or stops.  It fails with an error; it is stalled,
waiting for an answer that never comes, or with the rounds used up of a walk without an end of its
own; or it breaks off, since a number that it works out has no room in a word.
-/
import SearchClient.Wire.Clock
import SearchClient.Wire.Message
import SearchClient.Wire.Metric

namespace SearchClient

/-! ### The world -/

/-- What happens while the client works. -/
inductive Event where
  | sent (request : Request)
  | answered (request : Request) (answer : Except String Reply)
  /-- The answer was not waited for. -/
  | abandoned (request : Request)
  | waited (d : Duration)
  | counted (m : Metric)

/-- A transport with its state.  `depart` takes a request and tells the time until its answer
comes, if it ever does; `arrive` hands the answer over, or the failure to get one. -/
structure Transport (σ : Type) where
  depart : Request → σ → Option Duration × σ
  arrive : Request → σ → Except String Reply × σ

/-- The state of a transport, the time, and what happened so far. -/
structure World (σ : Type) where
  line : σ
  now : Duration := 0
  history : List Event := []

namespace World

variable {σ : Type} (w : World σ)

/-- The requests that were answered, in order. -/
def requests : List Request :=
  w.history.filterMap fun
    | .answered request _ => some request
    | _ => none

/-- What was counted, in order. -/
def metrics : List Metric :=
  w.history.filterMap fun
    | .counted m => some m
    | _ => none

end World

/-- Why an action gives no value. -/
inductive Stop where
  | failed (e : ClientError)
  | stalled
  | overflowed
deriving DecidableEq

/-- A program of the client. -/
abbrev Action (σ : Type) := ExceptT Stop (StateM (World σ))

namespace Action

variable {σ : Type}

def fail (e : ClientError) : Action σ α := throw (.failed e)

def stall : Action σ α := throw .stalled

/-- The value, or the error as that of the action. -/
def ofExcept : Except ClientError α → Action σ α
  | .ok a => pure a
  | .error e => fail e

/-- The word for a number; without one the action breaks off. -/
def word (n : Nat) : Action σ UInt64 :=
  if n < UInt64.size then pure (.ofNat n) else throw .overflowed

/-- An action whose error is a value. -/
def attempt (a : Action σ α) : Action σ (Except ClientError α) :=
  tryCatch (Except.ok <$> a) fun
    | .failed e => pure (.error e)
    | stop => throw stop

/-- An action after which something is still done when it breaks off. -/
def unwinding (a : Action σ α) (last : Action σ Unit) : Action σ α :=
  tryCatch a fun stop => do
    if stop = .overflowed then last
    throw stop

def note (e : Event) : Action σ Unit :=
  modify fun w => { w with history := w.history ++ [e] }

def count (m : Metric) : Action σ Unit := note (.counted m)

def now : Action σ Duration := do return (← get).now

/-- How many events there were. -/
def eventCount : Action σ Nat := do return (← get).history.length

def moveTo (t : Duration) : Action σ Unit :=
  modify fun w => { w with now := max w.now t }

end Action

/-! ### Sessions -/

/-- A transport, a clock, and how many rounds a walk without an end may take. -/
structure Session (σ : Type) where
  transport : Transport σ
  clock : Clock := .nanoseconds
  rounds : Nat

/-- A signal to stop: when it is raised, if ever.  What falls on that very moment may come before
it or after it; `first` tells, by the number of events so far, whether the signal is heeded. -/
structure CancelSignal where
  raisedAt : Option Duration := none
  first : Nat → Bool := fun _ => false

namespace CancelSignal

/-- Whether the signal is up at `t`, after some number of events. -/
def isRaised (c : CancelSignal) (events : Nat) (t : Duration) : Bool :=
  match c.raisedAt with
  | some raised => raised < t || (raised = t && c.first events)
  | none => false

/-- The moment at which the signal ends a wait from `t` to `ready`, after some number of events. -/
def ends? (c : CancelSignal) (events : Nat) (t ready : Duration) : Option Duration :=
  match c.raisedAt with
  | some raised =>
    let moment := max raised t
    if moment < ready ∨ (moment = ready ∧ c.first events) then some moment else none
  | none => none

end CancelSignal

/-- How a bounded exchange ends. -/
inductive Arrival where
  | answer (a : Except ClientError Reply)
  | late
  | cancelled

namespace Session

variable {σ : Type} (s : Session σ)

/-- Waits. -/
def wait (d : Duration) : Action σ Unit := do
  Action.note (.waited d)
  Action.moveTo (s.clock.after (← Action.now) d)

/-- Waits unless the signal comes first; tells whether it did. -/
def waitUnless (cancel : CancelSignal) (d : Duration) : Action σ Bool := do
  let now ← Action.now
  let ready := s.clock.after now d
  match cancel.ends? (← Action.eventCount) now ready with
  | some moment => do
    Action.moveTo moment
    return true
  | none => do
    Action.note (.waited d)
    Action.moveTo ready
    return false

/-- Puts a request on its way. -/
def depart (request : Request) : Action σ (Option Duration) := do
  Action.note (.sent request)
  let w ← get
  let (latency, line) := s.transport.depart request w.line
  set { w with line }
  return latency

/-- Takes the answer to a request. -/
def arrive (request : Request) : Action σ (Except ClientError Reply) := do
  let w ← get
  let (answer, line) := s.transport.arrive request w.line
  set { w with line }
  Action.note (.answered request answer)
  return answer.mapError .transport

/-- Sends a request and waits for its answer. -/
def exchange (request : Request) : Action σ (Except ClientError Reply) := do
  match ← s.depart request with
  | none => Action.stall
  | some latency => do
    Action.moveTo (s.clock.after (← Action.now) latency)
    s.arrive request

/-- Sends a request and waits for its answer, up to a limit and unless the signal comes first.  An
answer that comes at the limit is taken. -/
def exchangeWithin (request : Request) (limit : Duration) (cancel : CancelSignal) :
    Action σ Arrival := do
  let now ← Action.now
  let latency ← s.depart request
  let deadline := s.clock.after now limit
  let arrival := latency.map (s.clock.after now)
  let ready := match arrival with
    | some moment => min moment deadline
    | none => deadline
  match cancel.ends? (← Action.eventCount) now ready with
  | some moment => do
    Action.moveTo moment
    Action.note (.abandoned request)
    return .cancelled
  | none => do
    Action.moveTo ready
    if arrival.any (· ≤ deadline) then
      return .answer (← s.arrive request)
    else do
      Action.note (.abandoned request)
      return .late

end Session

end SearchClient
