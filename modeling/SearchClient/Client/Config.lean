/-
SearchClient/Client/Config.lean

The settings of a client.  Every one has a default, so any part of a configuration is one.  Times
are given in milliseconds.
-/
import SearchClient.Backoff
import SearchClient.Filter.Compile

namespace SearchClient

open Number

structure ClientConfig where
  /-- The address of the engine. -/
  host : String := ""
  apiKey : Option String := none
  requestTimeout : UInt64 := 30000
  /-- Whether requests that belong together go out in one call. -/
  multiSearch : Bool := true
  listRendering : ListRendering := .membership
  /-- The limit of a new query. -/
  defaultLimit : UInt64 := 20
  pollInterval : UInt64 := 250
  pollMaxInterval : UInt64 := 5000
  pollFactor : Double := doubling
  pollMaxWait : UInt64 := 300000
  pollMaxChecks : Option UInt64 := none
  retryMaxAttempts : UInt64 := 3
  retryInitialDelay : UInt64 := 100
  retryMaxDelay : UInt64 := 2000
deriving DecidableEq, Inhabited

namespace ClientConfig

def fields : List String :=
  ["host", "api_key", "request_timeout_ms", "multi_search", "list_rendering", "default_limit",
   "poll_interval_ms", "poll_max_interval_ms", "poll_backoff_factor", "poll_max_wait_ms",
   "poll_max_attempts", "retry_max_attempts", "retry_initial_delay_ms", "retry_max_delay_ms"]

def ofJson (j : Json) : Decoded ClientConfig := do
  let r ← j.asRecord fields
  let absent : ClientConfig := {}
  let host ← r.orElse "host" absent.host Json.asText
  let apiKey ← r.optional "api_key" Json.asText
  let requestTimeout ← r.orElse "request_timeout_ms" absent.requestTimeout Json.asUInt64
  let multiSearch ← r.orElse "multi_search" absent.multiSearch Json.asBool
  let listRendering ← r.orElse "list_rendering" absent.listRendering ListRendering.ofJson
  let defaultLimit ← r.orElse "default_limit" absent.defaultLimit Json.asUInt64
  let pollInterval ← r.orElse "poll_interval_ms" absent.pollInterval Json.asUInt64
  let pollMaxInterval ← r.orElse "poll_max_interval_ms" absent.pollMaxInterval Json.asUInt64
  let pollFactor ← r.orElse "poll_backoff_factor" absent.pollFactor Json.asDouble
  let pollMaxWait ← r.orElse "poll_max_wait_ms" absent.pollMaxWait Json.asUInt64
  let pollMaxChecks ← r.optional "poll_max_attempts" Json.asUInt64
  let retryMaxAttempts ← r.orElse "retry_max_attempts" absent.retryMaxAttempts Json.asUInt64
  let retryInitialDelay ← r.orElse "retry_initial_delay_ms" absent.retryInitialDelay Json.asUInt64
  let retryMaxDelay ← r.orElse "retry_max_delay_ms" absent.retryMaxDelay Json.asUInt64
  .ok { host, apiKey, requestTimeout, multiSearch, listRendering, defaultLimit, pollInterval,
        pollMaxInterval, pollFactor, pollMaxWait, pollMaxChecks, retryMaxAttempts,
        retryInitialDelay, retryMaxDelay }

/-- How tasks are polled when nothing else is said. -/
def pollPolicy (c : ClientConfig) : PollPolicy where
  backoff := ⟨.ofMillis c.pollInterval.toNat, .ofMillis c.pollMaxInterval.toNat, c.pollFactor⟩
  maxWait := .ofMillis c.pollMaxWait.toNat
  maxChecks := c.pollMaxChecks.map UInt64.toNat

/-- How reads are retried. -/
def retryPolicy (c : ClientConfig) : RetryPolicy where
  backoff := ⟨.ofMillis c.retryInitialDelay.toNat, .ofMillis c.retryMaxDelay.toNat, doubling⟩
  maxAttempts := c.retryMaxAttempts.toNat

end ClientConfig

end SearchClient
