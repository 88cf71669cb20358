/-
SearchClient/Backoff.lean

Delays that grow by a constant factor up to a ceiling.  Polling and retrying share the growth and
differ in where the ceiling is first applied: polling bounds the first delay before it grows,
retrying bounds the delay after it has grown.
-/
import SearchClient.Duration

namespace SearchClient

open Number

/-- A first delay, a factor and a ceiling. -/
structure Backoff where
  initial : Duration
  ceiling : Duration
  factor : Double
deriving DecidableEq

namespace Backoff

/-- A factor makes delays grow when it is a finite number above one. -/
def grows (factor : Double) : Bool :=
  factor.isFinite && !factor.isNegative && 1 < factor.magnitude

/-- The delay as `scaled` makes it, bounded; where `scaled` has no answer, the ceiling. -/
def growBy (scaled : Duration → Option Duration) (ceiling d : Duration) : Duration :=
  match scaled d with
  | some grown => min grown ceiling
  | none => ceiling

/-- The delay after `d`. -/
def grow (b : Backoff) (d : Duration) : Duration :=
  if grows b.factor then growBy (Duration.scale? b.factor) b.ceiling d
  else min d b.ceiling

/-- The delay grown `n` times. -/
def grown (b : Backoff) : Nat → Duration → Duration
  | 0, d => d
  | n + 1, d => grown b n (b.grow d)

/-- The delay after check number `check`, counted from 1. -/
def delayAfterCheck (b : Backoff) (check : Nat) : Duration :=
  b.grown (check - 1) (min b.initial b.ceiling)

/-- The delay after failed attempt number `attempt`, counted from 1. -/
def delayAfterAttempt (b : Backoff) (attempt : Nat) : Duration :=
  min (b.grown (attempt - 1) b.initial) b.ceiling

end Backoff

/-! ### Policies -/

/-- The factor two. -/
def doubling : Double := ⟨0x4000000000000000⟩

/-- The factor one. -/
def constant : Double := ⟨0x3FF0000000000000⟩

/-- How a task is polled: the delays between checks, and when to give up. -/
structure PollPolicy where
  backoff : Backoff := ⟨.ofMillis 250, .ofSeconds 5, doubling⟩
  maxWait : Duration := .ofSeconds 300
  maxChecks : Option Nat := none
deriving DecidableEq

namespace PollPolicy

/-- A constant interval, with the default deadline. -/
def every (interval : Duration) : PollPolicy :=
  { backoff := ⟨interval, interval, constant⟩ }

/-- Short delays, for tests. -/
def brisk : PollPolicy :=
  { backoff := ⟨.ofMillis 1, .ofMillis 5, doubling⟩
    maxWait := .ofSeconds 5
    maxChecks := some 50 }

end PollPolicy

/-- How a read is retried: the delays between attempts, and how many attempts there are. -/
structure RetryPolicy where
  backoff : Backoff := ⟨.ofMillis 100, .ofSeconds 2, doubling⟩
  maxAttempts : Nat := 3
deriving DecidableEq

namespace RetryPolicy

/-- A single attempt. -/
def once : RetryPolicy := { maxAttempts := 1 }

/-- Short delays, for tests. -/
def brisk : RetryPolicy := { backoff := ⟨.ofMillis 1, .ofMillis 10, doubling⟩ }

/-- The first attempt always happens. -/
def attempts (p : RetryPolicy) : Nat := max 1 p.maxAttempts

end RetryPolicy

end SearchClient
