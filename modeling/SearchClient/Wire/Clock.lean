/-
SearchClient/Wire/Clock.lean

Clocks that waits are timed by.  A clock shows the multiples of its grain, so a wait ends with the
first moment shown at which its time has passed, and it may be unable to look further ahead than
some reach, which is then where longer waits end.  Waiting for no time at all takes none.

The clock that shows nanoseconds is exact and its reach is unlimited; it is the default of a session.
-/
import SearchClient.Duration

namespace SearchClient

/-- The grain and the reach of a clock. -/
structure Clock where
  grain : Duration := 1
  /-- The longest wait, if there is one. -/
  reach : Option Duration := none
  /-- There are moments to show. -/
  grain_pos : 0 < grain := by decide
deriving DecidableEq

namespace Clock

/-- The part of a wait that is within reach. -/
def bound (c : Clock) (d : Duration) : Duration :=
  match c.reach with
  | some longest => min d longest
  | none => d

/-- The moment at which a wait of `d` ends that starts at `t`. -/
def after (c : Clock) (t d : Duration) : Duration :=
  if d = 0 then t else Duration.ceilTo c.grain (t + c.bound d)

/-- A clock that shows nanoseconds, however far ahead. -/
def nanoseconds : Clock := {}

/-- A clock that shows milliseconds and reaches thirty years of 365 days ahead. -/
def milliseconds : Clock where
  grain := Duration.perMilli
  reach := some (.ofSeconds (30 * 365 * 86400))

end Clock

end SearchClient
