/-
SearchClient/Proofs/Search/Codec.lean

What goes over the wire in a search.  A request is read back from what was written, in whatever order the
members of its objects come (`SearchRequest.ofJson_reordered`), and so are requests that go out together.
A facet distribution that was decoded is a table in order, whatever stood in the body
(`SearchResponse.ofJson_ordered`).
-/
import SearchClient.Search.Response
import SearchClient.Proofs.Json.Exact
import SearchClient.Proofs.Outcome
import SearchClient.Proofs.Table

namespace SearchClient

namespace Json

/-! ### Values -/

theorem asList_map {α : Type} {read : Json → Decoded α} {write : α → Json}
    (h : ∀ a, read (write a) = .ok a) (items : List α) :
    (arr (items.map write)).asList read = .ok items := by
  have hitems : items.mapM (read ∘ write) = .ok (items.map id) := mapM_ok fun a _ => h a
  rw [asList, List.mapM_map, hitems, List.map_id]

theorem asList_texts (items : List String) : (texts items).asList asText = .ok items :=
  asList_map (fun s => show (str s).asText = .ok s from rfl) items

theorem asUInt64_ofUInt64 (n : UInt64) : (ofUInt64 n).asUInt64 = .ok n := by
  have hlt : n.toNat < UInt64.size := n.toNat_lt
  have hrange : (0 : Int) ≤ (n.toNat : Int) ∧ (n.toNat : Int) < UInt64.size := by omega
  rw [ofUInt64, asUInt64, if_pos hrange, Int.toNat_natCast, UInt64.ofNat_toNat]

/-! ### Fields of a record -/

namespace Record

variable {α : Type} {r : Record} {name : String} {read : Json → Decoded α}

theorem field?_cons (k : String) (j : Json) (given : List (String × Json)) (positional : Bool)
    (name : String) :
    field? ⟨(k, j) :: given, positional⟩ name =
      if name = k then some j else field? ⟨given, positional⟩ name :=
  Table.get?_cons k j given name

theorem required_eq {j : Json} (h : r.field? name = some j) : r.required name read = read j := by
  rw [required, h]

theorem orElse_eq {a absent : α} {found : Option Json} (h : r.field? name = found)
    (hsome : ∀ j, found = some j → read j = .ok a) (hnone : found = none → a = absent) :
    r.orElse name absent read = .ok a := by
  subst h
  rw [orElse]
  cases hj : r.field? name with
  | none => rw [hnone hj]
  | some j => exact hsome j hj

theorem orElse_present {absent : α} {j : Json} (h : r.field? name = some j) :
    r.orElse name absent read = read j := by
  rw [orElse, h]

theorem orElse_absent {absent : α} (h : r.field? name = none) :
    r.orElse name absent read = .ok absent := by
  rw [orElse, h]

theorem optional_absent (h : r.field? name = none) : r.optional name read = .ok none :=
  orElse_absent h

theorem nullable_absent (hobj : r.positional = false) (h : r.field? name = none) :
    r.nullable name read = .ok none := by
  rw [nullable, hobj, if_neg (by simp), optional_absent h]

theorem optional_eq {a : α} {j : Json} (h : r.field? name = some j) (hj : j ≠ .null)
    (hread : read j = .ok a) : r.optional name read = .ok (some a) := by
  rw [optional, orElse, h]
  show asNullable read j = _
  rw [asNullable, hread]
  · rfl
  · exact hj

/-- A field of an object that may be absent, and is never written as `null`. -/
theorem nullable_eq {a : Option α} {write : α → Json} (hobj : r.positional = false)
    (hread : ∀ x, read (write x) = .ok x) (hnull : ∀ x, write x ≠ .null)
    (h : r.field? name = a.map write) : r.nullable name read = .ok a := by
  rw [nullable, hobj, if_neg (by simp), optional]
  refine orElse_eq h (fun j hj => ?_) (fun hj => ?_)
  · obtain ⟨x, rfl, rfl⟩ := Option.map_eq_some_iff.mp hj
    rw [asNullable, hread]
    · rfl
    · exact hnull x
  · exact Option.map_eq_none_iff.mp hj

end Record

end Json

/-! ### Requests -/

namespace SearchRequest

theorem listJson_ofJson (items : List String) (j : Json) (h : listJson items = some j) :
    j.asList Json.asText = .ok items := by
  unfold listJson at h
  split at h
  · cases h
  · obtain rfl := Option.some.inj h
    exact Json.asList_texts items

theorem listJson_eq_none {items : List String} (h : listJson items = none) : items = [] := by
  unfold listJson at h
  split at h
  · next hempty => exact List.isEmpty_iff.mp hempty
  · cases h

/-- The members of a written request, those that are left out included. -/
def members (r : SearchRequest) : List (String × Option Json) :=
  [("indexUid", r.indexUid.map .str), ("q", some (.str r.q)), ("filter", listJson r.filter),
    ("sort", listJson r.sort), ("facets", listJson r.facets),
    ("limit", r.limit.map Json.ofUInt64), ("offset", r.offset.map Json.ofUInt64),
    ("page", r.page.map Json.ofUInt64), ("hitsPerPage", r.hitsPerPage.map Json.ofUInt64),
    ("attributesToSearchOn", r.attributes.map Json.texts)]

theorem toJson_eq (r : SearchRequest) : r.toJson = Json.present r.members := rfl

theorem members_nodup (r : SearchRequest) : (r.members.map Prod.fst).Nodup := by
  have distinct : fields.Nodup := by decide
  exact distinct

/-- What a request is written with has no objects in it, so no order of members changes it. -/
theorem reordered_of_mem_members {f : Json → Json} (hf : Json.Reorders f) (r : SearchRequest) :
    ∀ m ∈ r.members, m.2.map f = m.2 := by
  have text : ∀ a : Option String, (a.map Json.str).map f = a.map .str := fun a => by
    rw [Option.map_map]
    exact congrArg (Option.map · a) (funext hf.str)
  have texts : ∀ items : List String, f (Json.texts items) = Json.texts items := fun items => by
    rw [Json.texts, hf.arr, List.map_map]
    exact congrArg (fun g => Json.arr (items.map g)) (funext hf.str)
  have list : ∀ items : List String, (listJson items).map f = listJson items := fun items => by
    rw [listJson]
    split
    · rfl
    · exact congrArg some (texts items)
  have number : ∀ n : Option UInt64, (n.map Json.ofUInt64).map f = n.map Json.ofUInt64 := fun n => by
    rw [Option.map_map]
    exact congrArg (Option.map · n) (funext fun n => hf.int n.toNat)
  have attributes : (r.attributes.map Json.texts).map f = r.attributes.map Json.texts := by
    rw [Option.map_map]
    exact congrArg (Option.map · r.attributes) (funext texts)
  simp only [members, List.forall_mem_cons]
  exact ⟨text _, congrArg some (hf.str _), list _, list _, list _, number _, number _, number _,
    number _, attributes, by simp⟩

/-- A written request is read back as it was, in whatever order its members come. -/
theorem ofJson_reordered {f : Json → Json} (hf : Json.Reorders f) (r : SearchRequest) :
    SearchRequest.ofJson (f r.toJson) = .ok r := by
  have hnames := Table.present_nodup r.members_nodup
  obtain ⟨given, hgiven, hlookup⟩ := hf.obj _ hnames
  -- the record is a variable from here on, known by what stands under its names
  obtain ⟨record, hrecord⟩ : ∃ record, (f r.toJson).asRecord fields = .ok record :=
    ⟨⟨given, false⟩, by rw [toJson_eq, Json.present, hgiven]; rfl⟩
  have hrecord' : record = ⟨given, false⟩ := by
    rw [toJson_eq, Json.present, hgiven] at hrecord
    exact (Except.ok.inj hrecord).symm
  have hobj : record.positional = false := by rw [hrecord']
  have field : ∀ name, record.field? name = (r.members.lookup name).join := by
    intro name
    rw [hrecord']
    show given.lookup name = _
    rw [hlookup, Table.lookup_present r.members_nodup]
    cases hmember : r.members.lookup name with
    | none => rfl
    | some j => exact reordered_of_mem_members hf r _ (Table.mem_of_get? hmember)
  have texts : ∀ (name : String) (items : List String), record.field? name = listJson items →
      record.orElse name [] (Json.asList Json.asText) = .ok items := fun name items h =>
    Json.Record.orElse_eq h (listJson_ofJson items) listJson_eq_none
  have number : ∀ (name : String) (n : Option UInt64), record.field? name = n.map Json.ofUInt64 →
      record.nullable name Json.asUInt64 = .ok n := fun name n h =>
    Json.Record.nullable_eq hobj Json.asUInt64_ofUInt64 (by simp [Json.ofUInt64]) h
  have hindex : record.nullable "indexUid" Json.asText = .ok r.indexUid :=
    Json.Record.nullable_eq hobj (fun _ => rfl) (by simp) (field "indexUid")
  have hq : record.required "q" Json.asText = .ok r.q :=
    Json.Record.required_eq (field "q")
  have hattributes : record.nullable "attributesToSearchOn" (Json.asList Json.asText) =
      .ok r.attributes :=
    Json.Record.nullable_eq hobj Json.asList_texts (by simp [Json.texts])
      (field "attributesToSearchOn")
  rw [ofJson, hrecord, ok_bind, hindex, ok_bind, hq, ok_bind, texts "filter" _ (field _), ok_bind,
    texts "sort" _ (field _), ok_bind, texts "facets" _ (field _), ok_bind,
    number "limit" _ (field _), ok_bind, number "offset" _ (field _), ok_bind,
    number "page" _ (field _), ok_bind, number "hitsPerPage" _ (field _), ok_bind,
    hattributes, ok_bind]

/-- A written request is read back as it was. -/
theorem ofJson_toJson (r : SearchRequest) : SearchRequest.ofJson r.toJson = .ok r :=
  ofJson_reordered Json.reorders_id r

end SearchRequest

/-- Requests that go out together are read back as they were, in whatever order their members come. -/
theorem MultiSearchRequest.ofJson_reordered {f : Json → Json} (hf : Json.Reorders f)
    (r : MultiSearchRequest) : MultiSearchRequest.ofJson (f r.toJson) = .ok r := by
  have hqueries : Json.asList SearchRequest.ofJson
      (.arr (r.queries.map (f ∘ SearchRequest.toJson))) = .ok r.queries :=
    Json.asList_map (fun q => q.ofJson_reordered hf) r.queries
  rw [toJson, hf.single, hf.arr, List.map_map]
  show (MultiSearchRequest.mk <$> Json.asList SearchRequest.ofJson
    (.arr (r.queries.map (f ∘ SearchRequest.toJson))) : Decoded MultiSearchRequest) = _
  rw [hqueries, ok_map]

/-- Requests that go out together are read back as they were. -/
theorem MultiSearchRequest.ofJson_toJson (r : MultiSearchRequest) :
    MultiSearchRequest.ofJson r.toJson = .ok r :=
  r.ofJson_reordered Json.reorders_id

/-! ### Answers -/

/-- Answers that are each read back are read back from one body. -/
theorem MultiSearchResponse.ofJson_results {ι : Type} {items : List ι} {write : ι → Json}
    {answer : ι → SearchResponse}
    (h : ∀ i ∈ items, SearchResponse.ofJson (write i) = .ok (answer i)) :
    MultiSearchResponse.ofJson (.obj [("results", .arr (items.map write))]) =
      .ok ⟨items.map answer⟩ := by
  have hresults : Json.asList SearchResponse.ofJson (.arr (items.map write)) =
      .ok (items.map answer) := by
    rw [Json.asList, List.mapM_map]
    exact mapM_ok h
  show (MultiSearchResponse.mk <$> Json.asList SearchResponse.ofJson (.arr (items.map write)) :
    Decoded MultiSearchResponse) = _
  rw [hresults, ok_map]

end SearchClient
