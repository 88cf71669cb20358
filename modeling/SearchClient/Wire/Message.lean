/-
SearchClient/Wire/Message.lean

What goes over the wire: requests with a method, an endpoint, query pairs and perhaps a body, and
replies with a status and a body.  A reply outside 200 to 299 reports a failure; `Reply.error`
says which one.  The refusal of a key is known by its status, an attribute that may not be used by
the wording of the message, some causes by their code, and the rest keep status, code and message.
-/
import SearchClient.Engine.Endpoint
import SearchClient.Error

namespace SearchClient

/-! ### Requests -/

inductive Method where
  | get | post | put | patch | delete
deriving DecidableEq, Inhabited

def Method.text : Method → String
  | .get => "GET"
  | .post => "POST"
  | .put => "PUT"
  | .patch => "PATCH"
  | .delete => "DELETE"

/-- Whether sending twice does no more than sending once. -/
def Method.isRead : Method → Bool
  | .get => true
  | _ => false

structure Request where
  method : Method
  endpoint : Endpoint
  query : List (String × String) := []
  body : Option Json := none
deriving DecidableEq, Inhabited

/-- The read of an endpoint. -/
def Request.read (endpoint : Endpoint) : Request := { method := .get, endpoint }

/-- The method and the path of a request. -/
def Request.label (r : Request) : String := r.method.text ++ " " ++ r.endpoint.path

/-! ### Replies -/

structure Reply where
  status : Nat
  body : Json
deriving DecidableEq, Inhabited

namespace Reply

def isSuccess (r : Reply) : Bool := 200 ≤ r.status && r.status < 300

/-- The code and the message in a body that reports a failure. -/
def errorParts? (r : Reply) : Option (String × String) :=
  match r.body.member? "code" with
  | some (.str code) =>
    match r.body.member? "message" with
    | some (.str message) => some (code, message)
    | _ => some (code, "")
  | _ => none

/-- The code and the message of a failure; the body itself is the message when it has no code. -/
def failure (r : Reply) : String × String :=
  match r.errorParts? with
  | some parts => parts
  | none => ("unknown", match r.body with
    | .str s => s
    | .null => ""
    | other => other.text)

/-- The failure that a reply reports. -/
def error (r : Reply) : ClientError :=
  let (code, message) := r.failure
  if r.status = 401 ∨ r.status = 403 then .incorrectKey message
  else
    let byMessage := if 400 ≤ r.status ∧ r.status < 500 then
      ClientError.ofAttributeMessage? message else none
    (byMessage.or (ClientError.ofCode? code message)).getD (.api r.status code message)

/-- What the body stands for. -/
def decode (read : Json → Decoded α) (r : Reply) : Except ClientError α :=
  (read r.body).mapError .decode

end Reply

end SearchClient
