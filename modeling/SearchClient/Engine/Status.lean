/-
SearchClient/Engine/Status.lean

What the engine tells about itself: whether it is available, its version, and its figures.
-/
import SearchClient.Client.Basic

namespace SearchClient

structure Health where
  status : String
deriving DecidableEq, Inhabited

def Health.isAvailable (h : Health) : Bool := h.status = "available"

def Health.ofJson (j : Json) : Decoded Health := do
  let r ← j.asRecord ["status"]
  .mk <$> r.required "status" Json.asText

structure Version where
  package : String
  commitSha : Option String := none
  commitDate : Option String := none
deriving DecidableEq, Inhabited

def Version.ofJson (j : Json) : Decoded Version := do
  let r ← j.asRecord ["pkgVersion", "commitSha", "commitDate"]
  let package ← r.required "pkgVersion" Json.asText
  let commitSha ← r.optional "commitSha" Json.asText
  let commitDate ← r.optional "commitDate" Json.asText
  .ok { package, commitSha, commitDate }

namespace Client

variable {σ : Type} (c : Client σ)

def health : Action σ Health := c.call .health (.read .health) Health.ofJson

def version : Action σ Version := c.call .version (.read .version) Version.ofJson

/-- The figures of an index, or of the whole engine. -/
def stats (index : Option String) : Action σ Json :=
  let endpoint := match index with
    | some index => Endpoint.indexStats index
    | none => .stats
  c.call .stats (.read endpoint) .ok

end Client

end SearchClient
