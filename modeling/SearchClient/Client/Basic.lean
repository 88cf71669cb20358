/-
SearchClient/Client/Basic.lean

A client of the engine, and how it makes a call.  A read is tried again while its failure may
pass; a write is sent once, whatever becomes of it.  Every reply that reports a failure is counted
under the endpoint of the call and the code of the failure.
-/
import SearchClient.Client.Config
import SearchClient.Query.Basic
import SearchClient.Wire.Retry

namespace SearchClient

/-- A way to draw distinct numbers below a bound, given the bound and how many are wanted. -/
abbrev Draw := Nat → Nat → Option (List Nat)

/-- A session with the engine, how the client works in it, and how it draws random samples. -/
structure Client (σ : Type) where
  session : Session σ
  config : ClientConfig := {}
  draw : Draw := fun _ _ => none

namespace Client

variable {σ α : Type} (c : Client σ)

/-- A new query. -/
def query (index : String) : Query := { index, limit := c.config.defaultLimit }

/-- Sends a request once. -/
def sendOnce (operation : Operation) (request : Request) :
    Action σ (Except ClientError Reply) := do
  match ← c.session.exchange request with
  | .error e => return .error e
  | .ok reply =>
    if reply.isSuccess then return .ok reply
    else do
      Action.count (.apiError operation reply.failure.1)
      return .error reply.error

/-- Whether a failure may pass; each time it may, the endpoint is about to be tried again. -/
def mayPass (operation : Operation) (e : ClientError) : Action σ Bool := do
  if e.isTransient then Action.count (.retried operation)
  return e.isTransient

/-- Sends a request; a read is retried. -/
def send (operation : Operation) (request : Request) : Action σ Reply := do
  let once := c.sendOnce operation request
  let answer ←
    if request.method.isRead then
      c.session.retry c.config.retryPolicy (mayPass operation) once
    else once
  Action.ofExcept answer

/-- Sends a request and decodes the body of the reply. -/
def call (operation : Operation) (request : Request) (read : Json → Decoded α) :
    Action σ α := do
  let reply ← c.send operation request
  Action.ofExcept (reply.decode read)

end Client

end SearchClient
