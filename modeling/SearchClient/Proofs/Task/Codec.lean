/-
SearchClient/Proofs/Task/Codec.lean

Tasks as JSON.  A task that was decoded comes back when it is encoded and decoded again
(`Task.json_stable`).

The decoder accepts more than the encoder writes.  The uid stands under one of two names, of which only
one may be given; a name that is no status is read as `unknown`; and an optional field may be missing or
`null`, which `Json.Record.Agree` says of two records.  Of the details, which are kept as they are, two
facts carry over from the value they were decoded from: they are not `null`, and they are a part of that
value, so that their members are in order if its members are.
-/
import SearchClient.Proofs.Json.Exact
import SearchClient.Proofs.Search.Codec
import SearchClient.Task.Basic

namespace SearchClient

/-! ### Optional fields -/

namespace Json

variable {α : Type} {read : Json → Decoded α}

theorem asNullable_of_ne {j : Json} (h : j ≠ .null) : asNullable read j = some <$> read j := by
  cases j with
  | null => exact absurd rfl h
  | bool | int | float | str | arr | obj => rfl

theorem asUInt64_eq_ok {j : Json} {n : UInt64} : j.asUInt64 = .ok n ↔ j = ofUInt64 n := by
  constructor
  · intro h
    unfold asUInt64 at h
    split at h
    · next i =>
      split at h
      · next hrange =>
        obtain rfl := Except.ok.inj h
        have hmod : i.toNat % 2 ^ 64 = i.toNat := by
          simp only [UInt64.size] at hrange
          omega
        rw [ofUInt64, UInt64.toNat_ofNat', hmod, Int.toNat_of_nonneg hrange.1]
      · cases h
    · cases h
  · rintro rfl
    exact asUInt64_ofUInt64 n

theorem Reorders.text {f : Json → Json} (hf : Reorders f) (a : Option String) :
    f (orNull .str a) = orNull .str a := by
  cases a with
  | none => exact hf.null
  | some s => exact hf.str s

namespace Record

variable {r r' : Record} {name : String}

/-- Of an optional field it makes no difference whether it is missing or `null`. -/
theorem optional_eq_getD (r : Record) (name : String) (read : Json → Decoded α) :
    r.optional name read = asNullable read ((r.field? name).getD .null) := by
  rw [optional, orElse]
  cases r.field? name with
  | none => rfl
  | some j => rfl

theorem required_congr (h : r.field? name = r'.field? name) :
    r.required name read = r'.required name read := by
  rw [required, required, h]

theorem orElse_congr {absent : α} (h : r.field? name = r'.field? name) :
    r.orElse name absent read = r'.orElse name absent read := by
  rw [orElse, orElse, h]

theorem optional_congr (h : (r.field? name).getD .null = (r'.field? name).getD .null) :
    r.optional name read = r'.optional name read := by
  rw [optional_eq_getD, optional_eq_getD, h]

/-- A value that was found in an optional field. -/
theorem field?_of_optional {a : α} (h : r.optional name read = .ok (some a)) :
    ∃ j, r.field? name = some j ∧ j ≠ .null ∧ read j = .ok a := by
  rw [optional_eq_getD] at h
  cases hfield : r.field? name with
  | none =>
    rw [hfield] at h
    cases h
  | some j =>
    rw [hfield] at h
    have hne : j ≠ .null := by
      rintro rfl
      cases h
    obtain ⟨b, hread, hb⟩ := map_eq_ok.mp ((asNullable_of_ne hne).symm.trans h)
    exact ⟨j, rfl, hne, Option.some.inj hb ▸ hread⟩

/-- An optional field that is written in any case. -/
theorem optional_orNull {a : Option α} {write : α → Json}
    (h : r.field? name = some (orNull write a)) (hread : ∀ x ∈ a, read (write x) = .ok x)
    (hnull : ∀ x ∈ a, write x ≠ .null) : r.optional name read = .ok a := by
  rw [optional_eq_getD, h]
  cases a with
  | none => rfl
  | some x =>
    show asNullable read (write x) = _
    rw [asNullable_of_ne (hnull x rfl), hread x rfl, ok_map]

theorem optional_text {a : Option String} (h : r.field? name = some (orNull .str a)) :
    r.optional name asText = .ok a :=
  optional_orNull h (fun _ _ => rfl) (by simp)

/-- Two records that give the same fields.  Under some names their values need only be alike, and no
value at all counts as `null`. -/
structure Agree (names : List String) (alike : String → Json → Json → Prop) (r r' : Record) :
    Prop where
  optional : ∀ name ∈ names, alike name ((r.field? name).getD .null) ((r'.field? name).getD .null)
  other : ∀ name ∉ names, r.field? name = r'.field? name

end Record

end Json

/-! ### Status -/

namespace TaskStatus

def names : List String := ["enqueued", "processing", "succeeded", "failed", "canceled"]

theorem ofJson_toJson (s : TaskStatus) : ofJson s.toJson = .ok s := by
  cases s <;> rfl

/-- Every other name is read as `unknown`. -/
theorem ofText_eq_unknown {name : String} (h : name ∉ names) : ofText name = unknown := by
  have hnone : ([enqueued, processing, succeeded, failed, canceled].find? fun s => s.text = name) =
      none := by
    refine List.find?_eq_none.mpr fun s hs htext => h ?_
    rw [← of_decide_eq_true htext]
    exact List.mem_map_of_mem (f := text) hs
  rw [ofText, hnone, Option.getD_none]

end TaskStatus

/-! ### Failures -/

namespace TaskFailure

def fields : List String := ["code", "message", "type", "link"]

theorem ofJson_eq {j : Json} {r : Json.Record} (hr : j.asRecord fields = .ok r) :
    ofJson j = (do
      let code ← r.required "code" Json.asText
      let message ← r.orElse "message" "" Json.asText
      let kind ← r.optional "type" Json.asText
      let link ← r.optional "link" Json.asText
      .ok { code, message, kind, link }) := by
  unfold ofJson
  rw [show j.asRecord ["code", "message", "type", "link"] = .ok r from hr]
  rfl

/-- A failure is read from its members in any order. -/
theorem ofJson_reordered {f : Json → Json} (hf : Json.Reorders f) (failure : TaskFailure) :
    ofJson (f failure.toJson) = .ok failure := by
  have hnames : fields.Nodup := by decide
  obtain ⟨members, hmembers, hlookup⟩ := hf.obj
    [("code", .str failure.code), ("message", .str failure.message),
      ("type", Json.orNull .str failure.kind), ("link", Json.orNull .str failure.link)] hnames
  have hcode : Json.Record.field? ⟨members, false⟩ "code" = some (.str failure.code) :=
    (hlookup "code").trans (congrArg some (hf.str failure.code))
  have hmessage : Json.Record.field? ⟨members, false⟩ "message" = some (.str failure.message) :=
    (hlookup "message").trans (congrArg some (hf.str failure.message))
  have hkind : Json.Record.optional ⟨members, false⟩ "type" Json.asText = .ok failure.kind :=
    Json.Record.optional_text ((hlookup "type").trans (congrArg some (hf.text failure.kind)))
  have hlink : Json.Record.optional ⟨members, false⟩ "link" Json.asText = .ok failure.link :=
    Json.Record.optional_text ((hlookup "link").trans (congrArg some (hf.text failure.link)))
  have hrecord : (Json.obj members).asRecord fields = .ok ⟨members, false⟩ := rfl
  have htext : ∀ s, (Json.str s).asText = .ok s := fun _ => rfl
  rw [toJson, hmembers, ofJson_eq hrecord, Json.Record.required_eq hcode, htext, ok_bind,
    Json.Record.orElse_present hmessage, htext, ok_bind, hkind, ok_bind, hlink, ok_bind]

/-- Values from which the same failure is read: a value itself, and a record that agrees with another
one but for a kind or a link that is missing here and `null` there. -/
def Alike (j j' : Json) : Prop :=
  j = j' ∨ ∃ r r', j.asRecord fields = .ok r ∧ j'.asRecord fields = .ok r' ∧
    r.Agree ["type", "link"] (fun _ => Eq) r'

theorem asNullable_alike {j j' : Json} (h : Alike j j') :
    Json.asNullable ofJson j = Json.asNullable ofJson j' := by
  rcases h with rfl | ⟨r, r', hr, hr', hagree⟩
  · rfl
  · have hne : ∀ {j : Json} {r}, j.asRecord fields = .ok r → j ≠ .null := by
      rintro _ _ hr rfl
      cases hr
    rw [Json.asNullable_of_ne (hne hr), Json.asNullable_of_ne (hne hr'), ofJson_eq hr, ofJson_eq hr',
      Json.Record.required_congr (hagree.other "code" (by decide)),
      Json.Record.orElse_congr (hagree.other "message" (by decide)),
      Json.Record.optional_congr (hagree.optional "type" (by decide)),
      Json.Record.optional_congr (hagree.optional "link" (by decide))]

end TaskFailure

/-! ### Tasks -/

namespace Task

/-- The uid of a record, under one of its two names. -/
def uidOf (r : Json.Record) : Decoded UInt64 := do
  match ← r.underEither "uid" "taskUid" with
  | some uid => uid.asUInt64
  | none => .error (.missing "uid")

/-- A task from its uid, its status and the other fields of a record. -/
def ofParts (r : Json.Record) (uid : Decoded UInt64) (status : Decoded TaskStatus) : Decoded Task := do
  let uid ← uid
  let indexUid ← r.optional "indexUid" Json.asText
  let status ← status
  let kind ← r.orElse "type" "" Json.asText
  let details ← r.optional "details" .ok
  let failure ← r.optional "error" TaskFailure.ofJson
  let duration ← r.optional "duration" Json.asText
  let enqueuedAt ← r.optional "enqueuedAt" Json.asText
  let startedAt ← r.optional "startedAt" Json.asText
  let finishedAt ← r.optional "finishedAt" Json.asText
  .ok { uid, indexUid, status, kind, details, failure, duration, enqueuedAt, startedAt, finishedAt }

theorem ofJson_eq {j : Json} {r : Json.Record} (hr : j.asRecord fields = .ok r) :
    ofJson j = ofParts r (uidOf r) (r.required "status" TaskStatus.ofJson) := by
  unfold ofJson uidOf
  rw [hr, ok_bind]
  rcases r.underEither "uid" "taskUid" with e | found
  · rfl
  · cases found with
    | none => rfl
    | some uid => rfl

/-- What a decoded task was decoded from, field by field. -/
theorem exists_record {j : Json} {t : Task} (h : ofJson j = .ok t) :
    ∃ r, j.asRecord fields = .ok r ∧ uidOf r = .ok t.uid ∧
      r.required "status" TaskStatus.ofJson = .ok t.status ∧
      r.optional "details" .ok = .ok t.details := by
  have hsome : ∃ r, j.asRecord fields = .ok r := (bind_eq_ok.mp h).imp fun _ h => h.1
  obtain ⟨r, hr⟩ := hsome
  rw [ofJson_eq hr] at h
  obtain ⟨uid, huid, h⟩ := bind_eq_ok.mp h
  obtain ⟨indexUid, -, h⟩ := bind_eq_ok.mp h
  obtain ⟨status, hstatus, h⟩ := bind_eq_ok.mp h
  obtain ⟨kind, -, h⟩ := bind_eq_ok.mp h
  obtain ⟨details, hdetails, h⟩ := bind_eq_ok.mp h
  obtain ⟨failure, -, h⟩ := bind_eq_ok.mp h
  obtain ⟨duration, -, h⟩ := bind_eq_ok.mp h
  obtain ⟨enqueuedAt, -, h⟩ := bind_eq_ok.mp h
  obtain ⟨startedAt, -, h⟩ := bind_eq_ok.mp h
  obtain ⟨finishedAt, -, h⟩ := bind_eq_ok.mp h
  obtain rfl := Except.ok.inj h
  exact ⟨r, hr, huid, hstatus, hdetails⟩

/-! #### Missing fields -/

def optionals : List String :=
  ["indexUid", "details", "error", "duration", "enqueuedAt", "startedAt", "finishedAt"]

/-- Values of an optional field from which the same is read. -/
def AlikeUnder (name : String) : Json → Json → Prop :=
  if name = "error" then TaskFailure.Alike else Eq

theorem alikeUnder_refl (name : String) (j : Json) : AlikeUnder name j j := by
  unfold AlikeUnder
  split
  · exact .inl rfl
  · rfl

/-- Records that agree but for optional fields that are missing here and `null` there, in the task and
in its failure. -/
def Alike (r r' : Json.Record) : Prop := r.Agree optionals AlikeUnder r'

theorem ofParts_congr {r r' : Json.Record}
    (hoptional : ∀ name ∈ optionals,
      AlikeUnder name ((r.field? name).getD .null) ((r'.field? name).getD .null))
    (hkind : r.field? "type" = r'.field? "type") (uid : Decoded UInt64)
    (status : Decoded TaskStatus) : ofParts r uid status = ofParts r' uid status := by
  have herror : r.optional "error" TaskFailure.ofJson = r'.optional "error" TaskFailure.ofJson := by
    rw [Json.Record.optional_eq_getD, Json.Record.optional_eq_getD]
    exact TaskFailure.asNullable_alike (hoptional "error" (by decide))
  rw [ofParts, ofParts, herror, Json.Record.orElse_congr hkind,
    Json.Record.optional_congr (hoptional "indexUid" (by decide)),
    Json.Record.optional_congr (hoptional "details" (by decide)),
    Json.Record.optional_congr (hoptional "duration" (by decide)),
    Json.Record.optional_congr (hoptional "enqueuedAt" (by decide)),
    Json.Record.optional_congr (hoptional "startedAt" (by decide)),
    Json.Record.optional_congr (hoptional "finishedAt" (by decide))]

/-- Records that are the same but under some names, none of them that of another field. -/
theorem ofParts_same {r r' : Json.Record} {names : List String}
    (hsame : ∀ name ∉ names, r.field? name = r'.field? name)
    (hoptional : ∀ name ∈ optionals, name ∉ names) (hkind : "type" ∉ names) (uid : Decoded UInt64)
    (status : Decoded TaskStatus) : ofParts r uid status = ofParts r' uid status :=
  ofParts_congr (fun name hname => by
    rw [hsame name (hoptional name hname)]
    exact alikeUnder_refl name _) (hsame "type" hkind) uid status

theorem uidOf_congr {r r' : Json.Record} (huid : r.field? "uid" = r'.field? "uid")
    (hother : r.field? "taskUid" = r'.field? "taskUid") : uidOf r = uidOf r' := by
  rw [uidOf, uidOf, Json.Record.underEither, Json.Record.underEither, huid, hother]

theorem ofJson_alike {j j' : Json} {r r' : Json.Record} (hr : j.asRecord fields = .ok r)
    (hr' : j'.asRecord fields = .ok r') (h : Alike r r') : ofJson j = ofJson j' := by
  rw [ofJson_eq hr, ofJson_eq hr', uidOf_congr (h.other "uid" (by decide))
    (h.other "taskUid" (by decide)), Json.Record.required_congr (h.other "status" (by decide)),
    ofParts_congr h.optional (h.other "type" (by decide))]

/-! #### The uid -/

/-- A record whose uid is `n`.  It stands under one of the two names, and nothing stands under the
other. -/
def Numbered (r : Json.Record) (n : UInt64) : Prop :=
  (r.field? "uid" = some (.ofUInt64 n) ∧ r.field? "taskUid" = none) ∨
    (r.field? "uid" = none ∧ r.field? "taskUid" = some (.ofUInt64 n))

theorem uidOf_eq_ok {r : Json.Record} {n : UInt64} : uidOf r = .ok n ↔ Numbered r n := by
  rw [uidOf, Json.Record.underEither, Numbered]
  cases r.field? "uid" with
  | none =>
    cases r.field? "taskUid" with
    | none => simp
    | some j => simp [Json.asUInt64_eq_ok]
  | some i =>
    cases r.field? "taskUid" with
    | none => simp [Json.asUInt64_eq_ok]
    | some j => simp

/-- Two records that differ in the uid are read as tasks that differ in the uid. -/
theorem ofJson_renumbered {j j' : Json} {r r' : Json.Record} (hr : j.asRecord fields = .ok r)
    (hr' : j'.asRecord fields = .ok r') {n m : UInt64} (hn : Numbered r n) (hm : Numbered r' m)
    (hsame : ∀ name ∉ ["uid", "taskUid"], r.field? name = r'.field? name) :
    ofJson j = (fun t => { t with uid := n }) <$> ofJson j' := by
  rw [ofJson_eq hr, ofJson_eq hr', uidOf_eq_ok.mpr hn, uidOf_eq_ok.mpr hm,
    Json.Record.required_congr (hsame "status" (by decide)),
    ofParts_same hsame (by decide) (by decide)]
  simp only [ofParts, ok_bind, map_bind, ok_map]

/-! #### The status -/

/-- Two records that differ in the status are read as tasks that differ in the status. -/
theorem ofJson_restated {j j' : Json} {r r' : Json.Record} (hr : j.asRecord fields = .ok r)
    (hr' : j'.asRecord fields = .ok r') {s s' : TaskStatus}
    (hs : r.required "status" TaskStatus.ofJson = .ok s)
    (hs' : r'.required "status" TaskStatus.ofJson = .ok s')
    (hsame : ∀ name ≠ "status", r.field? name = r'.field? name) :
    ofJson j = (fun t => { t with status := s }) <$> ofJson j' := by
  have hrest : ∀ name ∉ ["status"], r.field? name = r'.field? name := fun name h =>
    hsame name (h ∘ List.mem_singleton.mpr)
  rw [ofJson_eq hr, ofJson_eq hr', hs, hs',
    uidOf_congr (hsame "uid" (by decide)) (hsame "taskUid" (by decide)),
    ofParts_same hrest (by decide) (by decide)]
  simp only [ofParts, ok_bind, map_bind, ok_map]

/-! #### Reading back -/

/-- Details are a part of what they were decoded from, and not `null`. -/
theorem details_of_ofJson {j : Json} {t : Task} (h : ofJson j = .ok t) {d : Json}
    (hd : t.details = some d) : d ∈ j.parts ∧ d ≠ .null := by
  obtain ⟨r, hr, -, -, hdetails⟩ := exists_record h
  rw [hd] at hdetails
  obtain ⟨i, hfield, hne, hi⟩ := Json.Record.field?_of_optional hdetails
  obtain rfl := Except.ok.inj hi
  exact ⟨Json.Record.field_mem_parts hr hfield, hne⟩

/-- A task is read from its members in any order, if the order of its details is kept. -/
theorem ofJson_reordered {f : Json → Json} (hf : Json.Reorders f) {t : Task}
    (hdetails : ∀ d, t.details = some d → f d = d ∧ d ≠ .null) : ofJson (f t.toJson) = .ok t := by
  have hnames : fields.Nodup := by decide
  obtain ⟨members, hmembers, hlookup⟩ := hf.obj
    [("uid", Json.ofUInt64 t.uid), ("indexUid", Json.orNull .str t.indexUid),
      ("status", t.status.toJson), ("type", .str t.kind), ("details", t.details.getD .null),
      ("error", Json.orNull TaskFailure.toJson t.failure),
      ("duration", Json.orNull .str t.duration), ("enqueuedAt", Json.orNull .str t.enqueuedAt),
      ("startedAt", Json.orNull .str t.startedAt), ("finishedAt", Json.orNull .str t.finishedAt)]
    hnames
  obtain ⟨record, hrecord⟩ : ∃ record, record = Json.Record.mk members false := ⟨_, rfl⟩
  have field : ∀ {name : String} {j : Json}, members.lookup name = some j →
      record.field? name = some j := fun h => by rw [hrecord]; exact h
  have huid : uidOf record = .ok t.uid := by
    have hother : record.field? "taskUid" = none := by
      rw [hrecord]
      exact hlookup "taskUid"
    exact uidOf_eq_ok.mpr (.inl
      ⟨field ((hlookup "uid").trans (congrArg some (hf.int _))), hother⟩)
  have hstatus : record.required "status" TaskStatus.ofJson = .ok t.status := by
    rw [Json.Record.required_eq (field ((hlookup "status").trans (congrArg some (hf.str _))))]
    exact TaskStatus.ofJson_toJson t.status
  have hkind : record.orElse "type" "" Json.asText = .ok t.kind :=
    Json.Record.orElse_present (field ((hlookup "type").trans (congrArg some (hf.str _))))
  have hkept : f (t.details.getD .null) = Json.orNull id t.details := by
    cases hd : t.details with
    | none => exact hf.null
    | some d => exact (hdetails d hd).1
  have hdetails' : record.optional "details" .ok = .ok t.details :=
    Json.Record.optional_orNull (field ((hlookup "details").trans (congrArg some hkept)))
      (fun _ _ => rfl) (fun d hd => (hdetails d hd).2)
  have hwritten : f (Json.orNull TaskFailure.toJson t.failure) =
      Json.orNull (f ∘ TaskFailure.toJson) t.failure := by
    cases t.failure with
    | none => exact hf.null
    | some failure => rfl
  have hfailure : record.optional "error" TaskFailure.ofJson = .ok t.failure := by
    refine Json.Record.optional_orNull (field ((hlookup "error").trans (congrArg some hwritten)))
      (fun failure _ => failure.ofJson_reordered hf) (fun failure _ hnull => ?_)
    -- what is read as a failure is not `null`
    have hread := failure.ofJson_reordered hf
    rw [show f failure.toJson = .null from hnull] at hread
    cases hread
  have text : ∀ {name : String} {a : Option String},
      members.lookup name = some (f (Json.orNull .str a)) →
      record.optional name Json.asText = .ok a := fun h =>
    Json.Record.optional_text (field (h.trans (congrArg some (hf.text _))))
  have hasRecord : (Json.obj members).asRecord fields = .ok record := by rw [hrecord]; rfl
  rw [toJson, hmembers, ofJson_eq hasRecord, huid, hstatus, ofParts, text (hlookup "indexUid"), hkind,
    hdetails', hfailure, text (hlookup "duration"), text (hlookup "enqueuedAt"),
    text (hlookup "startedAt"), text (hlookup "finishedAt")]
  simp only [ok_bind]

theorem required_status {r : Json.Record} {name : String}
    (h : (r.field? "status").map Json.asName = some (.ok name)) :
    r.required "status" TaskStatus.ofJson = .ok (.ofText name) := by
  obtain ⟨field, hfield, hname⟩ := Option.map_eq_some_iff.mp h
  rw [Json.Record.required_eq hfield, TaskStatus.ofJson, hname, ok_map]

/-- The uid is given once. -/
theorem ofJson_ne_ok {members : List (String × Json)} (h : (members.lookup "uid").isSome = true)
    (hother : (members.lookup "taskUid").isSome = true) (t : Task) : ofJson (.obj members) ≠ .ok t := by
  intro hread
  obtain ⟨r, hr, huid, -⟩ := exists_record hread
  obtain rfl := Except.ok.inj hr
  rcases uidOf_eq_ok.mp huid with ⟨-, hnone⟩ | ⟨hnone, -⟩
  · rw [show members.lookup "taskUid" = none from hnone] at hother
    cases hother
  · rw [show members.lookup "uid" = none from hnone] at h
    cases h

/-- **The JSON of tasks is stable.**  A task that was decoded from a value comes back when it is encoded
and decoded again, and also with its members put in the order of their names, in which those of the first
value stood.

Its uid is the number that stood under one of the two names, and is written under `uid` alone; any
64-bit number serves, under either name.  A name that is no status is read as `unknown`, which is not
terminal and is written as such, and what else is read does not depend on it.  A field that is missing
is read as one that is `null`.  A value with both names of the uid is not a task. -/
theorem json_stable :
    (∀ (j : Json) (t : Task), ofJson j = .ok t → ofJson t.toJson = .ok t) ∧
    (∀ (j : Json) (t : Task), j.InOrder → ofJson j = .ok t → ofJson t.toJson.settled = .ok t) ∧
    (∀ (j : Json) (t : Task), ofJson j = .ok t →
      (∃ r, j.asRecord fields = .ok r ∧ Numbered r t.uid) ∧
        t.toJson.member? "uid" = some (.ofUInt64 t.uid) ∧ t.toJson.member? "taskUid" = none) ∧
    (∀ (j j' : Json) (r r' : Json.Record) (n m : UInt64), j.asRecord fields = .ok r →
      j'.asRecord fields = .ok r' → Numbered r n → Numbered r' m →
      (∀ name ∉ ["uid", "taskUid"], r.field? name = r'.field? name) →
      ofJson j = (fun t => { t with uid := n }) <$> ofJson j') ∧
    (∀ (j : Json) (r : Json.Record) (name : String), j.asRecord fields = .ok r →
      (r.field? "status").map Json.asName = some (.ok name) → name ∉ TaskStatus.names →
      (∀ t, ofJson j = .ok t → t.status = .unknown ∧ t.status.isTerminal = false ∧
        t.toJson.member? "status" = some (.str "unknown")) ∧
      ∀ (j' : Json) (r' : Json.Record) (known : TaskStatus), j'.asRecord fields = .ok r' →
        r'.field? "status" = some known.toJson →
        (∀ other ≠ "status", r.field? other = r'.field? other) →
        ofJson j = (fun t => { t with status := .unknown }) <$> ofJson j') ∧
    (∀ (j j' : Json) (r r' : Json.Record), j.asRecord fields = .ok r → j'.asRecord fields = .ok r' →
      Alike r r' → ofJson j = ofJson j') ∧
    ∀ (j : Json), (j.member? "uid").isSome = true → (j.member? "taskUid").isSome = true →
      ∀ t, ofJson j ≠ .ok t := by
  refine ⟨?_, ?_, ?_, ?_, ?_, ?_, ?_⟩
  · intro j t h
    exact ofJson_reordered Json.reorders_id fun d hd => ⟨rfl, (details_of_ofJson h hd).2⟩
  · intro j t hj h
    refine ofJson_reordered Json.reorders_settled fun d hd => ?_
    obtain ⟨hpart, hne⟩ := details_of_ofJson h hd
    exact ⟨Json.settled_of_inOrder (Json.inOrder_of_mem_parts hj hpart), hne⟩
  · intro j t h
    obtain ⟨r, hr, huid, -⟩ := exists_record h
    exact ⟨⟨r, hr, uidOf_eq_ok.mp huid⟩, rfl, rfl⟩
  · intro j j' r r' n m hr hr' hn hm hsame
    exact ofJson_renumbered hr hr' hn hm hsame
  · intro j r name hr hname hunknown
    have hstatus := required_status hname
    rw [TaskStatus.ofText_eq_unknown hunknown] at hstatus
    refine ⟨fun t h => ?_, fun j' r' known hr' hknown hsame => ?_⟩
    · obtain ⟨r', hr', -, hread, -⟩ := exists_record h
      obtain rfl := Except.ok.inj (hr.symm.trans hr')
      have ht : t.status = .unknown := Except.ok.inj (hread.symm.trans hstatus)
      have hwritten : t.toJson.member? "status" = some t.status.toJson := rfl
      rw [hwritten, ht]
      exact ⟨rfl, rfl, rfl⟩
    · have hstatus' : r'.required "status" TaskStatus.ofJson = .ok known := by
        rw [Json.Record.required_eq hknown, TaskStatus.ofJson_toJson]
      exact ofJson_restated hr hr' hstatus hstatus' hsame
  · intro j j' r r' hr hr' h
    exact ofJson_alike hr hr' h
  · intro j huid hother t
    cases j with
    | obj members => exact ofJson_ne_ok huid hother t
    | null | bool | int | float | str | arr => cases huid

/-- Members of a task that was seen with some status, its uid under some name. -/
def seen (key : String) (uid : UInt64) (status : String) : List (String × Json) :=
  [(key, .ofUInt64 uid), ("status", .str status), ("indexUid", .null),
    ("error", .obj [("code", .str "internal")]), ("details", .obj [("received", .int 2)])]

/-- The same members, but with an index that is missing and a kind of error that is `null`. -/
def seenBare (key : String) (uid : UInt64) (status : String) : List (String × Json) :=
  [(key, .ofUInt64 uid), ("status", .str status),
    ("error", .obj [("code", .str "internal"), ("type", .null)]),
    ("details", .obj [("received", .int 2)])]

def seenTask (uid : UInt64) (status : TaskStatus) : Task where
  uid
  status
  details := some (.obj [("received", .int 2)])
  failure := some { code := "internal" }

theorem seen_read (uid : UInt64) (status : String) :
    ofJson (.obj (seen "taskUid" uid status)) = .ok (seenTask uid (.ofText status)) := by
  rw [ofJson_eq rfl, uidOf_eq_ok.mpr (.inr ⟨rfl, rfl⟩)]
  rfl

theorem seen_alike (uid : UInt64) (status : String) :
    Alike ⟨seen "taskUid" uid status, false⟩ ⟨seenBare "taskUid" uid status, false⟩ where
  optional := by
    have herror : TaskFailure.Alike (.obj [("code", .str "internal")])
        (.obj [("code", .str "internal"), ("type", .null)]) := by
      refine .inr ⟨_, _, rfl, rfl, by decide, fun name hname => ?_⟩
      have hne : name ≠ "type" := fun e => hname (e ▸ List.mem_cons_self)
      simp [Json.Record.field?_cons, hne]
    simp only [optionals, List.forall_mem_cons, List.not_mem_nil, false_implies, implies_true,
      and_true]
    exact ⟨rfl, rfl, herror, rfl, rfl, rfl, rfl⟩
  other := by
    intro name hname
    simp only [optionals, List.mem_cons, not_or] at hname
    simp [seen, seenBare, Json.Record.field?_cons, hname]

/-- A value with the members of its objects in the order of their names. -/
def paused : Json :=
  .obj [("details", .obj [("a", .arr []), ("b", .float ⟨0x3FF8000000000000⟩)]),
    ("status", .str "paused"), ("taskUid", .int 7)]

def pausedTask : Task where
  uid := 7
  status := .unknown
  details := some (.obj [("a", .arr []), ("b", .float ⟨0x3FF8000000000000⟩)])

theorem json_stable_seen :
    (ofJson (.obj (seen "taskUid" 18446744073709551615 "failed")) =
        .ok (seenTask 18446744073709551615 .failed) ∧
      ofJson (seenTask 18446744073709551615 .failed).toJson =
        .ok (seenTask 18446744073709551615 .failed) ∧
      (seenTask 18446744073709551615 .failed).toJson.member? "uid" =
        some (.ofUInt64 18446744073709551615)) ∧
    (paused.InOrder ∧ ofJson paused = .ok pausedTask ∧
      ofJson pausedTask.toJson.settled = .ok pausedTask) ∧
    ofJson (.obj (seen "taskUid" 9 "paused")) =
      (fun t => { t with uid := 9 }) <$> ofJson (.obj (seen "uid" 0 "paused")) ∧
    ((seenTask 9 .unknown).status.isTerminal = false ∧
      ofJson (.obj (seen "taskUid" 9 "paused")) =
        (fun t => { t with status := .unknown }) <$> ofJson (.obj (seen "taskUid" 9 "enqueued"))) ∧
    ofJson (.obj (seen "taskUid" 9 "paused")) = ofJson (.obj (seenBare "taskUid" 9 "paused")) ∧
    ∀ t, ofJson (.obj (("uid", .int 9) :: seen "taskUid" 9 "enqueued")) ≠ .ok t := by
  have hread := seen_read 18446744073709551615 "failed"
  have horder : paused.InOrder := by
    refine ⟨?_, ⟨?_, ⟨trivial, trivial, trivial⟩⟩, trivial, trivial, trivial⟩
    · unfold Table.Ordered
      decide
    · unfold Table.Ordered
      decide
  have hpausedTask : ofJson paused = .ok pausedTask := rfl
  have hnumber : ∀ name ∉ ["uid", "taskUid"],
      Json.Record.field? ⟨seen "taskUid" 9 "paused", false⟩ name =
        Json.Record.field? ⟨seen "uid" 0 "paused", false⟩ name := by
    intro name hname
    simp only [List.mem_cons, not_or] at hname
    simp [seen, Json.Record.field?_cons, hname]
  have hstatus : ∀ name ≠ "status", Json.Record.field? ⟨seen "taskUid" 9 "paused", false⟩ name =
      Json.Record.field? ⟨seen "taskUid" 9 "enqueued", false⟩ name := by
    intro name hname
    simp [seen, Json.Record.field?_cons, hname]
  have hpaused := json_stable.2.2.2.2.1 (.obj (seen "taskUid" 9 "paused")) _ "paused" rfl rfl
    (by decide)
  exact ⟨⟨hread, json_stable.1 _ _ hread, (json_stable.2.2.1 _ _ hread).2.1⟩,
    ⟨horder, hpausedTask, json_stable.2.1 _ _ horder hpausedTask⟩,
    json_stable.2.2.2.1 _ _ _ _ 9 0 rfl rfl (.inr ⟨rfl, rfl⟩) (.inl ⟨rfl, rfl⟩) hnumber,
    ⟨(hpaused.1 _ (seen_read 9 "paused")).2.1, hpaused.2 _ _ .enqueued rfl rfl hstatus⟩,
    json_stable.2.2.2.2.2.1 _ _ _ _ rfl rfl (seen_alike 9 "paused"),
    json_stable.2.2.2.2.2.2 _ rfl rfl⟩

end Task

end SearchClient
