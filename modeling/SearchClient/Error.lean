/-
SearchClient/Error.lean

What can go wrong, by cause: a query that makes no sense, an answer of the search engine that
reports a failure, a task that did not succeed, a transport that gave no answer or one that could
not be decoded.  `message` words each of them, and `isTransient` says of which it is worth
sending the same request again.
-/
import SearchClient.Filter.NodeJson
import SearchClient.Json.Text
import SearchClient.Duration

namespace SearchClient

/-- What an attribute must be declared for before it can be used so. -/
inductive AttributeUse where
  | filterable | sortable | searchable
deriving DecidableEq

def AttributeUse.text : AttributeUse → String
  | .filterable => "filterable"
  | .sortable => "sortable"
  | .searchable => "searchable"

inductive ClientError where
  | invalidConnective (text : String)
  | invalidDirection (text : String)
  | unknownOperator (text : String)
  | malformedLeaf (leaf : Leaf)
  | orderAfterRandom
  | orAtTopLevel
  | noIndex
  | noHost
  | attributeNot (use : AttributeUse) (name : String)
  | indexNotFound (message : String)
  | indexAlreadyExists (message : String)
  | missingDocumentId (message : String)
  | incorrectKey (message : String)
  | invalidParameter (message : String)
  | api (status : Nat) (code message : String)
  | tooFewDocuments (found requested : UInt64)
  | taskFailed (uid : UInt64) (code message : String)
  | taskCanceled (uid : UInt64)
  | taskTimedOut (uid : UInt64) (waited : Duration) (checks : Nat)
  | pollCancelled (uid : UInt64)
  | transport (message : String)
  | decode (cause : DecodeError)
deriving DecidableEq

namespace ClientError

def message : ClientError → String
  | .invalidConnective text => "Invalid where boolean '" ++ text ++ "', expected AND or OR"
  | .invalidDirection text => "Invalid ordering '" ++ text ++ "', expected asc or desc"
  | .unknownOperator text => "Cannot parse where clause: unknown operator '" ++ text ++ "'"
  | .malformedLeaf leaf => "Cannot parse where clause: " ++ (Node.leaf leaf).toJson.text
  | .orderAfterRandom => "Cannot order on a field after requesting random order"
  | .orAtTopLevel => "orWhere is only supported inside a nested where group"
  | .noIndex => "No index supplied for query"
  | .noHost => "No search engine host configured"
  | .attributeNot use name => "Attribute `" ++ name ++ "` is not " ++ use.text
  | .indexNotFound message => "Index not found: " ++ message
  | .indexAlreadyExists message => "Index already exists: " ++ message
  | .missingDocumentId message => "Missing document id: " ++ message
  | .incorrectKey message => "Incorrect API key: " ++ message
  | .invalidParameter message => "Invalid parameter supplied: " ++ message
  | .api status code message =>
    "API error (HTTP " ++ toString status ++ ", code " ++ code ++ "): " ++ message
  | .tooFewDocuments found requested =>
    "Not enough documents to order randomly: only " ++ toString found ++ " found, " ++
      toString requested ++ " requested"
  | .taskFailed uid code message =>
    "Task " ++ toString uid ++ " failed (" ++ code ++ "): " ++ message
  | .taskCanceled uid => "Task " ++ toString uid ++ " was canceled on the server"
  | .taskTimedOut uid waited checks =>
    "Task " ++ toString uid ++ " did not reach a terminal state within " ++ waited.text ++ " (" ++
      toString checks ++ " status checks)"
  | .pollCancelled uid => "Polling for task " ++ toString uid ++ " was cancelled"
  | .transport message => "Transport error: " ++ message
  | .decode cause => "Failed to decode response: " ++ cause.message

/-- Whether the same request may succeed when it is sent again: the transport failed, or the
engine did. -/
def isTransient : ClientError → Bool
  | .transport _ => true
  | .api status _ _ => 500 ≤ status
  | _ => false

/-- The error of an engine code that has one of its own. -/
def ofCode? (code message : String) : Option ClientError :=
  if code = "index_already_exists" then some (.indexAlreadyExists message)
  else if code = "index_not_found" then some (.indexNotFound message)
  else if code = "missing_document_id" then some (.missingDocumentId message)
  else none

/-! ### Attributes that may not be used

The engine says so in words, as `message` does.  The name is the shortest text without a line
break that the rest of the sentence can follow, after the leftmost opening that has one. -/

def attributeOpening : List Char := "Attribute `".toList

/-- The end of the sentence, after the name. -/
def attributeEnd? (cs : List Char) : Option AttributeUse :=
  [AttributeUse.filterable, .sortable, .searchable].find? fun use =>
    ("` is not " ++ use.text).toList.isPrefixOf cs

/-- The shortest name that the end of the sentence follows. -/
def attributeName? : List Char → Option (List Char × AttributeUse)
  | [] => none
  | c :: cs =>
    match attributeEnd? (c :: cs) with
    | some use => some ([], use)
    | none =>
      if c = '\n' then none else (attributeName? cs).map fun r => (c :: r.1, r.2)

/-- The leftmost sentence in a text. -/
def findAttribute? : List Char → Option (List Char × AttributeUse)
  | [] => none
  | c :: cs =>
    let here := if attributeOpening.isPrefixOf (c :: cs) then
      attributeName? ((c :: cs).drop attributeOpening.length) else none
    here.or (findAttribute? cs)

/-- The error that a message of the engine words. -/
def ofAttributeMessage? (message : String) : Option ClientError :=
  (findAttribute? message.toList).map fun r => .attributeNot r.2 (String.ofList r.1)

end ClientError

end SearchClient
