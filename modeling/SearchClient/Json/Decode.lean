/-
SearchClient/Json/Decode.lean

Decoding JSON values into types of the library.  A record is an object whose members carry the
names of its fields, in any order and among others that are ignored; it may also be an array that
gives the fields by position.  A field is read in one of four ways, which differ in what may be
missing.
-/
import SearchClient.Json.Basic

namespace SearchClient

open Number

/-- Why a value is not what was asked for. -/
inductive DecodeError where
  | expected (what : String)
  | missing (field : String)
  | repeated (field : String)
  | unknownName (name : String)
  | resultCount (results queries : Nat)
deriving DecidableEq

def DecodeError.message : DecodeError → String
  | .expected what => "expected " ++ what
  | .missing field => "missing field " ++ field
  | .repeated field => "repeated field " ++ field
  | .unknownName name => "unknown name " ++ name
  | .resultCount results queries =>
    "multi-search returned " ++ toString results ++ " results for " ++ toString queries ++
      " queries"

abbrev Decoded (α : Type) := Except DecodeError α

namespace Json

/-! ### Plain values -/

def asText : Json → Decoded String
  | .str s => .ok s
  | _ => .error (.expected "a string")

def asBool : Json → Decoded Bool
  | .bool b => .ok b
  | _ => .error (.expected "a truth value")

/-- A whole number from 0 to 2 ^ 64 - 1. -/
def asUInt64 : Json → Decoded UInt64
  | .int i =>
    if 0 ≤ i ∧ i < UInt64.size then .ok (.ofNat i.toNat)
    else .error (.expected "a number from 0 to 2^64 - 1")
  | _ => .error (.expected "a whole number")

/-- Any number, as the closest binary64 number. -/
def asDouble : Json → Decoded Double
  | .int i => .ok (.ofInt i)
  | .float x => .ok x
  | _ => .error (.expected "a number")

def asList (decode : Json → Decoded α) : Json → Decoded (List α)
  | .arr items => items.mapM decode
  | _ => .error (.expected "an array")

/-- `null` is the absent value. -/
def asNullable (decode : Json → Decoded α) : Json → Decoded (Option α)
  | .null => .ok none
  | j => some <$> decode j

/-- The members of an object, each value decoded. -/
def asMembers (decode : Json → Decoded α) : Json → Decoded (List (String × α))
  | .obj members => members.mapM fun m => (m.1, ·) <$> decode m.2
  | _ => .error (.expected "an object")

/-- A name from a list of choices: a string, or an object with that name as its only member and
nothing under it. -/
def asName : Json → Decoded String
  | .str s => .ok s
  | .obj [(name, .null)] => .ok name
  | _ => .error (.expected "a name")

/-! ### Records -/

/-- The fields of a record that are given, and whether they were given by position. -/
structure Record where
  given : List (String × Json)
  positional : Bool

/-- The record with these fields that a value stands for. -/
def asRecord (fields : List String) : Json → Decoded Record
  | .obj members => .ok ⟨members, false⟩
  | .arr items =>
    if items.length ≤ fields.length then .ok ⟨fields.zip items, true⟩
    else .error (.expected "fewer items")
  | _ => .error (.expected "an object")

namespace Record

def field? (r : Record) (name : String) : Option Json := r.given.lookup name

/-- A field that must be given. -/
def required (r : Record) (name : String) (decode : Json → Decoded α) : Decoded α :=
  match r.field? name with
  | some j => decode j
  | none => .error (.missing name)

/-- A field that has a value of its own when it is not given. -/
def orElse (r : Record) (name : String) (absent : α) (decode : Json → Decoded α) : Decoded α :=
  match r.field? name with
  | some j => decode j
  | none => .ok absent

/-- A field that may be missing or `null`. -/
def optional (r : Record) (name : String) (decode : Json → Decoded α) : Decoded (Option α) :=
  r.orElse name none (asNullable decode)

/-- A field that may be `null`, and that may be missing from an object but not from an array. -/
def nullable (r : Record) (name : String) (decode : Json → Decoded α) : Decoded (Option α) :=
  if r.positional then r.required name (asNullable decode) else r.optional name decode

/-- A field known under a second name, of which one may be given. -/
def underEither (r : Record) (name other : String) : Decoded (Option Json) :=
  match r.field? name, r.field? other with
  | some _, some _ => .error (.repeated name)
  | some j, none => .ok (some j)
  | none, found => .ok found

end Record

end Json

end SearchClient
