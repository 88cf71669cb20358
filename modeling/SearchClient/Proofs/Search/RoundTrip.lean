/-
SearchClient/Proofs/Search/RoundTrip.lean

Searches as JSON, written and read back.  Which members a search is written with depends on the search:
an optional field is left out when it is absent, a list of filters, sorts or facets when it is empty, and a
list of attributes is written even then.  So each way of leaving a field out has to be undone by the way in
which a missing field is read.

A value forgets the order of its members where it is kept sorted by name, and text keeps numbers only if
they have 64 bits; neither matters to a search (`SearchRequest.ofJson_reordered`,
`SearchRequest.toJson_exact`).

Main result: `SearchRequest.json_faithful`.
-/
import SearchClient.Proofs.Json.ReadBack
import SearchClient.Proofs.Search.Codec

namespace SearchClient

/-! ### Text -/

/-- What a JSON text stands for. -/
def Json.readText? {α : Type} (read : Json → Decoded α) (s : String) : Option α :=
  (Json.ofText? s).bind fun j => (read j).toOption

/-- The text of an exact value has its members sorted by name when it is read. -/
theorem Json.readText?_text {α : Type} {read : Json → Decoded α} {j : Json} {a : α} (hj : j.Exact)
    (h : read j.settled = .ok a) : readText? read j.text = some a := by
  rw [readText?, ofText?_text hj, Option.bind_some, h]
  rfl

/-- What can be read back is not written like anything else. -/
theorem Json.injective_of_read {α β γ : Type} {write : α → β} {read : β → γ} {result : α → γ}
    (hresult : Function.Injective result) (h : ∀ a, read (write a) = result a) :
    Function.Injective write := by
  intro a b heq
  apply hresult
  rw [← h a, ← h b, heq]

namespace SearchRequest

theorem exact_of_mem_members (r : SearchRequest) :
    ∀ m ∈ r.members, ∀ j ∈ m.2, j.Exact := by
  have text : ∀ a : Option String, ∀ j ∈ a.map Json.str, j.Exact := by
    intro a j hj
    obtain ⟨s, -, rfl⟩ := Option.map_eq_some_iff.mp hj
    trivial
  have texts : ∀ items : List String, (Json.texts items).Exact := by
    intro items
    apply Json.exactItems_iff.mpr
    intro j hj
    obtain ⟨s, -, rfl⟩ := List.mem_map.mp hj
    trivial
  have list : ∀ items : List String, ∀ j ∈ listJson items, j.Exact := by
    intro items j hj
    rw [listJson] at hj
    split at hj
    · cases hj
    · obtain rfl := Option.some.inj hj
      exact texts items
  have number : ∀ n : Option UInt64, ∀ j ∈ n.map Json.ofUInt64, j.Exact := by
    intro n j hj
    obtain ⟨n, -, rfl⟩ := Option.map_eq_some_iff.mp hj
    exact Json.exact_ofUInt64 n
  have attributes : ∀ j ∈ r.attributes.map Json.texts, j.Exact := by
    intro j hj
    obtain ⟨items, -, rfl⟩ := Option.map_eq_some_iff.mp hj
    exact texts items
  have words : ∀ j ∈ some (Json.str r.q), j.Exact := text (some r.q)
  simp only [members, List.forall_mem_cons]
  exact ⟨text _, words, list _, list _, list _, number _, number _, number _, number _, attributes,
    by simp⟩

/-- Text keeps the numbers of a search. -/
theorem toJson_exact (r : SearchRequest) : r.toJson.Exact := by
  apply Json.exactMembers_iff.mpr
  intro m hm
  obtain ⟨member, hmember, h⟩ := List.mem_filterMap.mp hm
  obtain ⟨j, hj, rfl⟩ := Option.map_eq_some_iff.mp h
  exact r.exact_of_mem_members member hmember j hj

end SearchRequest

theorem MultiSearchRequest.toJson_exact (m : MultiSearchRequest) : m.toJson.Exact := by
  have hqueries : (Json.arr (m.queries.map SearchRequest.toJson)).Exact := by
    apply Json.exactItems_iff.mpr
    intro j hj
    obtain ⟨r, -, rfl⟩ := List.mem_map.mp hj
    exact r.toJson_exact
  exact ⟨hqueries, trivial⟩

/-! ### Main result -/

/-- **Searches come back from their JSON.**  A search is read back as it was, with every field that was
absent or empty, from the value it is written as, from that value with its members sorted by name, and
from its text; and so are searches that go out together.  No two of them are written alike, whichever way
it is. -/
theorem SearchRequest.json_faithful :
    (∀ r : SearchRequest, ofJson r.toJson = .ok r ∧ ofJson r.toJson.settled = .ok r ∧
      Json.readText? ofJson r.toJson.text = some r) ∧
    (∀ m : MultiSearchRequest, MultiSearchRequest.ofJson m.toJson = .ok m ∧
      MultiSearchRequest.ofJson m.toJson.settled = .ok m ∧
      Json.readText? MultiSearchRequest.ofJson m.toJson.text = some m) ∧
    (Function.Injective fun r : SearchRequest => r.toJson.settled) ∧
    (Function.Injective fun r : SearchRequest => r.toJson.text) ∧
    (Function.Injective fun m : MultiSearchRequest => m.toJson.settled) ∧
    Function.Injective fun m : MultiSearchRequest => m.toJson.text := by
  have hone : ∀ r : SearchRequest, ofJson r.toJson.settled = .ok r :=
    ofJson_reordered Json.reorders_settled
  have honeText : ∀ r : SearchRequest, Json.readText? ofJson r.toJson.text = some r :=
    fun r => Json.readText?_text r.toJson_exact (hone r)
  have hmany : ∀ m : MultiSearchRequest, MultiSearchRequest.ofJson m.toJson.settled = .ok m :=
    MultiSearchRequest.ofJson_reordered Json.reorders_settled
  have hmanyText : ∀ m : MultiSearchRequest,
      Json.readText? MultiSearchRequest.ofJson m.toJson.text = some m :=
    fun m => Json.readText?_text m.toJson_exact (hmany m)
  refine ⟨?_, ?_, ?_, ?_, ?_, ?_⟩
  · exact fun r => ⟨ofJson_toJson r, hone r, honeText r⟩
  · exact fun m => ⟨MultiSearchRequest.ofJson_toJson m, hmany m, hmanyText m⟩
  · exact Json.injective_of_read (fun _ _ => Except.ok.inj) hone
  · exact Json.injective_of_read (Option.some_injective _) honeText
  · exact Json.injective_of_read (fun _ _ => Except.ok.inj) hmany
  · exact Json.injective_of_read (Option.some_injective _) hmanyText

/-- To search in no attributes is not to search in all. -/
example : ({ attributes := some [] } : SearchRequest).toJson ≠ ({} : SearchRequest).toJson := by
  decide

end SearchClient
