/-
SearchClient/Wire/Script.lean

A transport that answers from a script.  Answers and delays stand in two queues: a request takes
its delay when it leaves and its answer when that has come, so that a request which is not waited
for uses up a delay and leaves its answer to the next one.  A request for which no answer is left
fails.
-/
import SearchClient.Wire.Session

namespace SearchClient

structure Script where
  answers : List (Except String Reply)
  delays : List Duration := []

namespace Script

/-- The failure of a request for which no answer is left. -/
def exhausted (request : Request) : String :=
  "no scripted response left for " ++ request.label

def transport : Transport Script where
  depart := fun _ script =>
    (some (script.delays.headD 0), { script with delays := script.delays.tail })
  arrive := fun request script =>
    match script.answers with
    | [] => (.error (exhausted request), script)
    | answer :: rest => (answer, { script with answers := rest })

/-- A session on the script, timed in milliseconds.  A walk takes an answer in every round, so it
ends within one round more than there are answers. -/
def session (script : Script) : Session Script where
  transport := transport
  clock := .milliseconds
  rounds := script.answers.length + 1

end Script

end SearchClient
