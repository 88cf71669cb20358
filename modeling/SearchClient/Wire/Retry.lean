/-
SearchClient/Wire/Retry.lean

Trying again.  An attempt that fails in a way that may pass is followed, after a delay, by another
one, as long as the policy has attempts left.  Whether a failure may pass is asked only while there
is an attempt left to make.
-/
import SearchClient.Wire.Session
import SearchClient.Backoff

namespace SearchClient.Session

variable {σ ε α : Type}

/-- An attempt, and up to `left` more after it; `made` have been made before. -/
def retryUpTo (s : Session σ) (backoff : Backoff) (mayPass : ε → Action σ Bool)
    (attempt : Action σ (Except ε α)) : Nat → Nat → Action σ (Except ε α)
  | 0, _ => attempt
  | left + 1, made => do
    match ← attempt with
    | .ok a => return .ok a
    | .error e =>
      if ← mayPass e then do
        s.wait (backoff.delayAfterAttempt (made + 1))
        retryUpTo s backoff mayPass attempt left (made + 1)
      else return .error e

/-- As many attempts as the policy allows. -/
def retry (s : Session σ) (policy : RetryPolicy) (mayPass : ε → Action σ Bool)
    (attempt : Action σ (Except ε α)) : Action σ (Except ε α) :=
  s.retryUpTo policy.backoff mayPass attempt (policy.attempts - 1) 0

end SearchClient.Session
