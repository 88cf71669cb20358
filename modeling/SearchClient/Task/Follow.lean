/-
SearchClient/Task/Follow.lean

Listing tasks, looking them up, and waiting for them to succeed.
-/
import SearchClient.Client.Basic
import SearchClient.Task.Poll

namespace SearchClient.Client

variable {σ : Type} (c : Client σ)

def listTasks (filter : TaskFilter) : Action σ TaskList :=
  c.call .listTasks { method := .get, endpoint := .tasks, query := filter.toQuery } TaskList.ofJson

def getTask (uid : UInt64) : Action σ Task :=
  c.call .getTask (.read (.task uid)) Task.ofJson

/-- Follows a task with the policy of the client. -/
def pollTask (cancel : CancelSignal) (task : Task) : Action σ TaskOutcome :=
  c.session.poll c.config.pollPolicy cancel task

/-- Waits for a task to succeed; every other ending is an error. -/
def settle (policy : PollPolicy) (task : Task) : Action σ Task := do
  let outcome ← c.session.poll policy {} task
  Action.ofExcept outcome.result

/-- Waits for a task to succeed, with the policy of the client. -/
def waitForTask (task : Task) : Action σ Task := c.settle c.config.pollPolicy task

/-- Sends a write and gives the task that it was queued as. -/
def enqueue (operation : Operation) (method : Method) (endpoint : Endpoint)
    (body : Option Json) :
    Action σ Task :=
  c.call operation { method, endpoint, body } Task.ofJson

/-- Makes writes one after the other.  Each step may queue a write, and the next step is taken only
when the task of the write has succeeded.  Gives the tasks in order. -/
def settleEach (policy : PollPolicy) : List (Action σ (Option Task)) → Action σ (List Task)
  | [] => return []
  | step :: rest => do
    match ← step with
    | none => settleEach policy rest
    | some queued => do
      let task ← c.settle policy queued
      let tasks ← settleEach policy rest
      return task :: tasks

end SearchClient.Client
