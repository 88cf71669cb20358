/-
SearchClient/Proofs/Query/Built.lean

Queries that were built step by step.  What every single step preserves holds of a built query
(`Step.applyAll_preserves`); a step that is made under a condition is the steps in it.

The invariant here is that the trees of the query are well-formed: whatever adds a tree has checked
its leaves.  So the filters of a built query compile (`Query.Built.filters`).
-/
import SearchClient.Query.Build
import SearchClient.Proofs.Filter.Prune

namespace SearchClient

/-- The query is the result of steps from a new query, and was finished. -/
def Query.Built (q : Query) : Prop :=
  ∃ index steps q₀, Step.applyAll steps { index } = .ok q₀ ∧ q₀.finish = .ok q

/-! ### Clauses -/

theorem Scope.admit_eq_ok {scope : Scope} {n m : Node} (h : scope.admit n = .ok m) :
    m = n ∧ n.firstMalformed? = none := by
  simp only [Node.check, Scope.admit] at h
  split at h
  · cases h
  · rcases hbad : n.firstMalformed? with - | l
    · rw [hbad] at h
      exact ⟨(Except.ok.inj h).symm, rfl⟩
    · rw [hbad] at h
      cases h

namespace Clause

/-- A single tree that was admitted is well-formed. -/
theorem admitted {scope : Scope} {n : Node} {added : Option Node}
    (h : some <$> scope.admit n = .ok added) : Node.firstMalformedOf? added.toList = none := by
  rcases hn : scope.admit n with e | m
  · rw [hn] at h
    cases h
  · rw [hn] at h
    obtain rfl := Except.ok.inj h
    obtain ⟨rfl, hwell⟩ := Scope.admit_eq_ok hn
    simp [Node.firstMalformedOf?, hwell]

/-- A tree that a clause adds is well-formed. -/
theorem node?_wellFormed {scope : Scope} {c : Clause} {added : Option Node}
    (h : c.node? scope = .ok added) : Node.firstMalformedOf? added.toList = none := by
  cases c with
  | filter column operator operand joiner =>
    obtain ⟨connective, -, h⟩ := bind_eq_ok.mp h
    obtain ⟨operator, -, h⟩ := bind_eq_ok.mp h
    obtain ⟨l, -, h⟩ := bind_eq_ok.mp h
    exact admitted h
  | list column test values =>
    rw [node?] at h
    split at h
    · obtain rfl := Except.ok.inj h
      rfl
    · obtain ⟨l, -, h⟩ := bind_eq_ok.mp h
      exact admitted h
  | presence column test =>
    obtain ⟨l, -, h⟩ := bind_eq_ok.mp h
    exact admitted h
  | node n => exact admitted h
  | group joiner clauses =>
    obtain ⟨children, -, h⟩ := bind_eq_ok.mp h
    exact admitted h

theorem nodes_wellFormed {scope : Scope} {cs : List Clause} {added : List Node}
    (h : nodes scope cs = .ok added) : Node.firstMalformedOf? added = none := by
  induction cs generalizing added with
  | nil =>
    obtain rfl := Except.ok.inj h
    rfl
  | cons c cs ih =>
    obtain ⟨n, hn, h⟩ := bind_eq_ok.mp h
    obtain ⟨ns, hns, h⟩ := bind_eq_ok.mp h
    obtain rfl := Except.ok.inj h
    exact Node.firstMalformedOf?_append.mpr ⟨node?_wellFormed hn, ih hns⟩

end Clause

/-! ### Steps -/

namespace Step

/-- A step that is made whatever holds. -/
def isPlain : Step → Bool
  | .when _ _ => false
  | _ => true

/-- What no plain step breaks. -/
def PlainInvariant (P : Query → Prop) : Prop :=
  ∀ (s : Step) (q q' : Query), s.isPlain = true → s.apply q = .ok q' → P q → P q'

mutual

theorem apply_preserves {P : Query → Prop} (plain : PlainInvariant P) :
    ∀ (s : Step) {q q' : Query}, s.apply q = .ok q' → P q → P q'
  | .when true steps, q, q', h, hq =>
    applyAll_preserves plain steps (by simpa [apply] using h) hq
  | .when false steps, q, q', h, hq => by
    obtain rfl : q = q' := by simpa [apply] using h
    exact hq
  | .clause _, _, _, h, hq | .keepFacets _, _, _, h, hq | .index _, _, _, h, hq
  | .search _, _, _, h, hq | .limit _, _, _, h, hq | .offset _, _, _, h, hq
  | .page _, _, _, h, hq | .hitsPerPage _, _, _, h, hq | .orderBy _ _, _, _, h, hq
  | .random, _, _, h, hq | .facets _, _, _, h, hq | .addFacet _, _, _, h, hq
  | .attributes _, _, _, h, hq => plain _ _ _ rfl h hq

/-- What every plain step preserves holds after any steps. -/
theorem applyAll_preserves {P : Query → Prop} (plain : PlainInvariant P) :
    ∀ (ss : List Step) {q q' : Query}, applyAll ss q = .ok q' → P q → P q'
  | [], q, q', h, hq => by
    obtain rfl : q = q' := by simpa [applyAll] using h
    exact hq
  | s :: ss, q, q', h, hq => by
    obtain ⟨q₁, hs, h⟩ := bind_eq_ok.mp h
    exact applyAll_preserves plain ss h (apply_preserves plain s hs hq)

end

/-- A step adds well-formed trees. -/
theorem wellFormed_invariant :
    PlainInvariant fun q => Node.firstMalformedOf? q.wheres = none := by
  intro s q q' hplain h hq
  cases s with
  | when condition steps => cases hplain
  | clause c =>
    obtain ⟨n, hn, h⟩ := bind_eq_ok.mp h
    obtain rfl := Except.ok.inj h
    exact Node.firstMalformedOf?_append.mpr ⟨hq, Clause.node?_wellFormed hn⟩
  | keepFacets clauses =>
    obtain ⟨children, hc, h⟩ := bind_eq_ok.mp h
    obtain rfl := Except.ok.inj h
    refine Node.firstMalformedOf?_append.mpr ⟨hq, ?_⟩
    exact Node.firstMalformedOf?_group.mpr ⟨Clause.nodes_wellFormed hc, rfl⟩
  | orderBy fields direction =>
    rw [apply] at h
    split at h
    · cases h
    · obtain ⟨d, -, h⟩ := bind_eq_ok.mp h
      obtain rfl := Except.ok.inj h
      exact hq
  | index | search | limit | offset | page | hitsPerPage | random | facets | addFacet
  | attributes =>
    obtain rfl := Except.ok.inj h
    exact hq

end Step

/-! ### Built queries -/

theorem Query.Built.wellFormed {q : Query} (h : q.Built) :
    Node.firstMalformedOf? q.wheres = none := by
  obtain ⟨index, steps, q₀, hsteps, hfinish⟩ := h
  have hq₀ : Node.firstMalformedOf? q₀.wheres = none :=
    Step.applyAll_preserves Step.wellFormed_invariant steps hsteps rfl
  unfold Query.finish at hfinish
  split at hfinish
  · cases hfinish
  · obtain rfl := Except.ok.inj hfinish
    exact hq₀

/-- The filters of a query with well-formed trees compile, in full and without any column. -/
theorem Query.filters_wellFormed {q : Query} (h : Node.firstMalformedOf? q.wheres = none)
    (r : ListRendering) :
    q.filters r .full = .ok (.ofPieces (Node.contributions r false q.wheres)) ∧
      ∀ column, q.filters r (.without column) =
        .ok (.ofPieces (Node.contributions r false (Node.withoutColumn column q.wheres))) := by
  refine ⟨?_, fun column => ?_⟩
  · rw [Query.filters, Filters.compile_full, h]
  · rw [Query.filters, Filters.compile_without, h]

/-- So those of a built query do. -/
theorem Query.Built.filters {q : Query} (h : q.Built) (r : ListRendering) :
    q.filters r .full = .ok (.ofPieces (Node.contributions r false q.wheres)) ∧
      ∀ column, q.filters r (.without column) =
        .ok (.ofPieces (Node.contributions r false (Node.withoutColumn column q.wheres))) :=
  q.filters_wellFormed h.wellFormed r

end SearchClient
