/-
SearchClient/Proofs/Query/Program.lean

What holds of every query that a program of steps has come to.  A program is a list of steps, some of
them under conditions; `Step.madeAll` lists the steps that are made, so that "before" and "after" have
a meaning for steps at any depth, and making those one after the other is running the program
(`Step.applyAll_madeAll`).

A step only ever appends trees (`Step.wheres_invariant`), so what was pushed at some point is still
there at the end, at its place.  What is appended was admitted by its scope, and that is where the
connectives and the leaves are checked.

Main result: `Step.applyAll_orderly`.  The trees and the members of facet-blind groups that the
program pushed are joined by AND, all leaves are well-formed, nothing was ordered after random order
was asked for, and facets are split exactly if some step asked for it; so nothing that is done with a
finished query can fail for its filters.
-/
import SearchClient.Proofs.Filter.Columns
import SearchClient.Proofs.Query.Built
import SearchClient.Search.Plan

namespace SearchClient

/-! ### Well-formed leaves -/

/-- The clause makes sense: it names a column, has a value exactly if its operator needs one, and all
its numbers are finite. -/
structure Leaf.Sensible (l : Leaf) : Prop where
  column : l.column ≠ ""
  value : l.operand = .none ↔ l.operator.isUnary = true
  finite : ∀ v ∈ l.operand.values, v.isFinite = true

theorem Leaf.sensible_of_wellFormed {l : Leaf} (h : l.wellFormed = true) : l.Sensible := by
  have hfinite : ∀ v ∈ l.operand.values, v.isFinite = true :=
    List.all_eq_true.mp (finite_of_wellFormed h)
  obtain ⟨column, operator, operand, joiner⟩ := l
  simp only [wellFormed, Bool.and_eq_true, decide_eq_true_eq] at h
  obtain ⟨hcolumn, hvalue⟩ := h
  refine ⟨hcolumn, ?_, hfinite⟩
  cases operand with
  | none => simpa using hvalue
  | scalar v | list vs =>
    simp only [Bool.and_eq_true] at hvalue
    simpa using hvalue.1

/-- Every leaf of well-formed trees is well-formed, at any depth. -/
theorem Node.wellFormed_of_mem_placesList {blind : Bool} {ns : List Node}
    (h : firstMalformedOf? ns = none) {p : Bool × Leaf} (hp : p ∈ placesList blind ns) :
    p.2.wellFormed = true := by
  induction ns using forest generalizing blind with
  | nil => cases hp
  | leaf l ns ih =>
    obtain ⟨hl, hns⟩ := firstMalformedOf?_leaf.mp h
    rcases List.mem_append.mp hp with hp | hp
    · obtain rfl : p = (blind, l) := by simpa [places] using hp
      exact hl
    · exact ih hns hp
  | group children joiner facetBlind ns ihc ih =>
    obtain ⟨hc, hns⟩ := firstMalformedOf?_group.mp h
    rcases List.mem_append.mp hp with hp | hp
    · exact ihc hc hp
    · exact ih hns hp

/-! ### Connectives -/

theorem Scope.connective_of_admitted {n m : Node} (h : andOnly.admit n = .ok m) :
    m.connective = .and := by
  obtain ⟨rfl, -⟩ := admit_eq_ok h
  unfold Scope.admit at h
  split at h
  · cases h
  · next hor =>
    rcases hc : m.connective with - | -
    · rfl
    · exact absurd ⟨rfl, hc⟩ hor

namespace Clause

theorem admitted_connective {n : Node} {added : Option Node}
    (h : some <$> Scope.andOnly.admit n = .ok added) : ∀ m ∈ added.toList, m.connective = .and := by
  rcases hn : Scope.andOnly.admit n with e | m
  · rw [hn] at h
    cases h
  · rw [hn] at h
    obtain rfl := Except.ok.inj h
    simpa using Scope.connective_of_admitted hn

/-- Among trees that are joined by AND, a clause adds only such trees. -/
theorem node?_connective {c : Clause} {added : Option Node} (h : c.node? .andOnly = .ok added) :
    ∀ m ∈ added.toList, m.connective = .and := by
  cases c with
  | filter column operator operand joiner =>
    obtain ⟨connective, -, h⟩ := bind_eq_ok.mp h
    obtain ⟨operator, -, h⟩ := bind_eq_ok.mp h
    obtain ⟨l, -, h⟩ := bind_eq_ok.mp h
    exact admitted_connective h
  | list column test values =>
    rw [node?] at h
    split at h
    · obtain rfl := Except.ok.inj h
      simp
    · obtain ⟨l, -, h⟩ := bind_eq_ok.mp h
      exact admitted_connective h
  | presence column test =>
    obtain ⟨l, -, h⟩ := bind_eq_ok.mp h
    exact admitted_connective h
  | node n => exact admitted_connective h
  | group joiner clauses =>
    obtain ⟨children, -, h⟩ := bind_eq_ok.mp h
    exact admitted_connective h

theorem nodes_connective {cs : List Clause} {added : List Node}
    (h : nodes .andOnly cs = .ok added) : ∀ m ∈ added, m.connective = .and := by
  induction cs generalizing added with
  | nil =>
    obtain rfl := Except.ok.inj h
    simp
  | cons c cs ih =>
    obtain ⟨n, hn, h⟩ := bind_eq_ok.mp h
    obtain ⟨ns, hns, h⟩ := bind_eq_ok.mp h
    obtain rfl := Except.ok.inj h
    intro m hm
    rcases List.mem_append.mp hm with hm | hm
    · exact node?_connective hn m hm
    · exact ih hns m hm

end Clause

/-! ### The steps that are made -/

namespace Step

mutual

/-- The plain steps behind a step: those under a condition count if it holds. -/
def made : Step → List Step
  | .when condition steps => if condition then madeAll steps else []
  | s => [s]

/-- The plain steps that a program makes, in order. -/
def madeAll : List Step → List Step
  | [] => []
  | s :: ss => made s ++ madeAll ss

end

theorem applyAll_append (ss ts : List Step) (q : Query) :
    applyAll (ss ++ ts) q = applyAll ss q >>= applyAll ts := by
  induction ss generalizing q with
  | nil => rfl
  | cons s ss ih =>
    rw [List.cons_append, applyAll, applyAll]
    rcases s.apply q with e | q₁
    · rfl
    · exact ih q₁

theorem applyAll_singleton (s : Step) (q : Query) : applyAll [s] q = s.apply q := by
  rw [applyAll]
  rcases s.apply q with e | q₁ <;> rfl

mutual

theorem applyAll_made : ∀ (s : Step) (q : Query), applyAll (made s) q = s.apply q
  | .when true steps, q => by
    rw [made, if_pos rfl, applyAll_madeAll steps q, apply, if_pos rfl]
  | .when false steps, q => by simp [made, apply, applyAll]
  | .clause _, q | .keepFacets _, q | .index _, q | .search _, q | .limit _, q | .offset _, q
  | .page _, q | .hitsPerPage _, q | .orderBy _ _, q | .random, q | .facets _, q
  | .addFacet _, q | .attributes _, q => by rw [made, applyAll_singleton]; simp

/-- Running a program is making its plain steps one after the other. -/
theorem applyAll_madeAll : ∀ (ss : List Step) (q : Query), applyAll (madeAll ss) q = applyAll ss q
  | [], q => rfl
  | s :: ss, q => by
    rw [madeAll, applyAll_append, applyAll_made s q, applyAll]
    rcases s.apply q with e | q₁
    · rfl
    · exact applyAll_madeAll ss q₁

end

mutual

theorem isPlain_of_mem_made : ∀ (s : Step), ∀ t ∈ made s, t.isPlain = true
  | .when true steps, t, ht => isPlain_of_mem_madeAll steps t (by simpa [made] using ht)
  | .when false steps, t, ht => by simp [made] at ht
  | .clause _, t, ht | .keepFacets _, t, ht | .index _, t, ht | .search _, t, ht | .limit _, t, ht
  | .offset _, t, ht | .page _, t, ht | .hitsPerPage _, t, ht | .orderBy _ _, t, ht
  | .random, t, ht | .facets _, t, ht | .addFacet _, t, ht | .attributes _, t, ht => by
    obtain rfl : t = _ := by simpa [made] using ht
    rfl

theorem isPlain_of_mem_madeAll : ∀ (ss : List Step), ∀ t ∈ madeAll ss, t.isPlain = true
  | [], t, ht => by cases ht
  | s :: ss, t, ht => by
    rcases List.mem_append.mp ht with ht | ht
    · exact isPlain_of_mem_made s t ht
    · exact isPlain_of_mem_madeAll ss t ht

end

/-- A program whose plain steps come in two parts, run up to the cut and from there on. -/
theorem applyAll_cut {ss before after : List Step} {q q' : Query} (h : applyAll ss q = .ok q')
    (hcut : madeAll ss = before ++ after) :
    ∃ q₁, applyAll before q = .ok q₁ ∧ applyAll after q₁ = .ok q' := by
  rw [← applyAll_madeAll, hcut, applyAll_append] at h
  exact bind_eq_ok.mp h

/-! ### What a plain step leaves as it is -/

/-- A plain step appends trees, and touches no others. -/
theorem wheres_append {s : Step} {q q' : Query} (hplain : s.isPlain = true)
    (h : s.apply q = .ok q') : ∃ added, q'.wheres = q.wheres ++ added := by
  cases s with
  | when condition steps => cases hplain
  | clause c =>
    obtain ⟨n, -, h⟩ := bind_eq_ok.mp h
    obtain rfl := Except.ok.inj h
    exact ⟨n.toList, rfl⟩
  | keepFacets clauses =>
    obtain ⟨children, -, h⟩ := bind_eq_ok.mp h
    obtain rfl := Except.ok.inj h
    exact ⟨[.group children .and true], rfl⟩
  | orderBy fields direction =>
    rw [apply] at h
    split at h
    · cases h
    · obtain ⟨d, -, h⟩ := bind_eq_ok.mp h
      obtain rfl := Except.ok.inj h
      exact ⟨[], (List.append_nil _).symm⟩
  | index | search | limit | offset | page | hitsPerPage | random | facets | addFacet
  | attributes =>
    obtain rfl := Except.ok.inj h
    exact ⟨[], (List.append_nil _).symm⟩

/-- Trees that were there first stay in their places. -/
theorem wheres_invariant (front : List Node) : PlainInvariant fun q => front <+: q.wheres := by
  intro s q q' hplain h hq
  obtain ⟨added, hadded⟩ := wheres_append hplain h
  rw [hadded]
  exact hq.trans (List.prefix_append _ _)

/-- The trees of a query are joined by AND. -/
theorem connective_invariant :
    PlainInvariant fun q => ∀ n ∈ q.wheres, n.connective = .and := by
  intro s q q' hplain h hq
  -- only two steps add trees, and both have asked for the connective
  suffices hadded : ∀ added, q'.wheres = q.wheres ++ added → ∀ n ∈ added, n.connective = .and by
    obtain ⟨added, hsum⟩ := wheres_append hplain h
    intro n hn
    rw [hsum] at hn
    rcases List.mem_append.mp hn with hn | hn
    · exact hq n hn
    · exact hadded added hsum n hn
  intro added hsum n hn
  cases s with
  | when condition steps => cases hplain
  | clause c =>
    obtain ⟨m, hm, h⟩ := bind_eq_ok.mp h
    obtain rfl := Except.ok.inj h
    obtain rfl := List.append_cancel_left hsum
    exact Clause.node?_connective hm n hn
  | keepFacets clauses =>
    obtain ⟨children, -, h⟩ := bind_eq_ok.mp h
    obtain rfl := Except.ok.inj h
    obtain rfl := List.append_cancel_left hsum
    obtain rfl := List.mem_singleton.mp hn
    rfl
  | orderBy fields direction =>
    rw [apply] at h
    split at h
    · cases h
    · obtain ⟨d, -, h⟩ := bind_eq_ok.mp h
      obtain rfl := Except.ok.inj h
      obtain rfl : added = [] := by simpa using hsum
      cases hn
  | index | search | limit | offset | page | hitsPerPage | random | facets | addFacet
  | attributes =>
    obtain rfl := Except.ok.inj h
    obtain rfl : added = [] := by simpa using hsum
    cases hn

/-- Once random order is asked for, the order stays as it is. -/
theorem order_invariant (order : List OrderEntry) :
    PlainInvariant fun q => q.randomOrder = true ∧ q.order = order := by
  intro s q q' hplain h hq
  cases s with
  | when condition steps => cases hplain
  | orderBy fields direction =>
    rw [apply, if_pos hq.1] at h
    cases h
  | clause | keepFacets =>
    obtain ⟨added, -, h⟩ := bind_eq_ok.mp h
    obtain rfl := Except.ok.inj h
    exact hq
  | random =>
    obtain rfl := Except.ok.inj h
    exact ⟨rfl, hq.2⟩
  | index | search | limit | offset | page | hitsPerPage | facets | addFacet | attributes =>
    obtain rfl := Except.ok.inj h
    exact hq

/-- Whether the step asks for facets to be counted apart from its clauses. -/
def splitsFacets : Step → Bool
  | .keepFacets _ => true
  | _ => false

theorem facetSplit_apply {s : Step} {q q' : Query} (hplain : s.isPlain = true)
    (h : s.apply q = .ok q') : q'.facetSplit = (q.facetSplit || s.splitsFacets) := by
  cases s with
  | when condition steps => cases hplain
  | keepFacets clauses =>
    obtain ⟨children, -, h⟩ := bind_eq_ok.mp h
    obtain rfl := Except.ok.inj h
    exact (Bool.or_true _).symm
  | clause c =>
    obtain ⟨n, -, h⟩ := bind_eq_ok.mp h
    obtain rfl := Except.ok.inj h
    exact (Bool.or_false _).symm
  | orderBy fields direction =>
    rw [apply] at h
    split at h
    · cases h
    · obtain ⟨d, -, h⟩ := bind_eq_ok.mp h
      obtain rfl := Except.ok.inj h
      exact (Bool.or_false _).symm
  | index | search | limit | offset | page | hitsPerPage | random | facets | addFacet
  | attributes =>
    obtain rfl := Except.ok.inj h
    exact (Bool.or_false _).symm

theorem facetSplit_applyAll {ss : List Step} {q q' : Query}
    (hplain : ∀ s ∈ ss, s.isPlain = true) (h : applyAll ss q = .ok q') :
    q'.facetSplit = (q.facetSplit || ss.any splitsFacets) := by
  induction ss generalizing q with
  | nil =>
    obtain rfl := Except.ok.inj h
    simp
  | cons s ss ih =>
    obtain ⟨q₁, hs, h⟩ := bind_eq_ok.mp h
    rw [ih (fun t ht => hplain t (by simp [ht])) h, facetSplit_apply (hplain s (by simp)) hs,
      List.any_cons, Bool.or_assoc]

end Step

/-! ### Programs -/

/-- What holds of the query that a program has come to, from a new query of an index. -/
structure Query.Orderly (index : String) (program : List Step) (q : Query) : Prop where
  /-- The trees are joined by AND. -/
  joined : ∀ n ∈ q.wheres, n.connective = .and
  /-- So are the members of every group that the program pushed as a facet-blind one; the group is
  where it was pushed, after the trees that were there before. -/
  blind : ∀ before clauses after, Step.madeAll program = before ++ .keepFacets clauses :: after →
    ∃ earlier children, Step.applyAll before { index } = .ok earlier ∧
      q.wheres[earlier.wheres.length]? = some (.group children .and true) ∧
      ∀ n ∈ children, n.connective = .and
  /-- Every leaf makes sense, at any depth. -/
  leaves : ∀ p ∈ Node.placesList false q.wheres, p.2.Sensible
  /-- The order is the one that was there when random order was asked for. -/
  order : ∀ before after, Step.madeAll program = before ++ .random :: after →
    ∃ earlier, Step.applyAll before { index } = .ok earlier ∧ q.order = earlier.order
  /-- Facets are counted apart exactly if some step asked for it. -/
  split : q.facetSplit = true ↔ ∃ clauses, .keepFacets clauses ∈ Step.madeAll program

/-- Nothing that is done with the filters of the query fails. -/
structure Query.Compiles (q : Query) : Prop where
  filters : ∀ r pass, ∃ f, q.filters r pass = .ok f
  texts : ∀ r, ∃ texts, q.filterTexts r = .ok texts
  plan : ∀ r, ∃ plan, SearchPlan.ofQuery r q = .ok plan

/-- Well-formed trees compile in every pass. -/
theorem Query.compiles_of_wellFormed {q : Query} (h : Node.firstMalformedOf? q.wheres = none) :
    q.Compiles := by
  have hfilters : ∀ r pass, ∃ f, q.filters r pass = .ok f := by
    intro r pass
    have hvisited : Node.firstMalformedOf? (Node.pruneList (fun _ => true) pass.visits q.wheres) =
        none := Node.firstMalformedOf?_pruneList _ _ h
    exact ⟨_, by rw [Query.filters, Filters.compile_eq, hvisited]⟩
  refine ⟨hfilters, fun r => ?_, fun r => ?_⟩
  · obtain ⟨f, hf⟩ := hfilters r .full
    exact ⟨f.texts, by rw [Query.filterTexts, hf, ok_map]⟩
  · obtain ⟨f, hf⟩ := hfilters r .full
    have hcompanion : ∀ column, ∃ p, SearchPlan.companion r q column = .ok p := by
      intro column
      obtain ⟨g, hg⟩ := hfilters r (.without column)
      exact ⟨_, by rw [SearchPlan.companion, hg, ok_bind]⟩
    have hall : ∃ ps, f.columns.all.mapM (SearchPlan.companion r q) = .ok ps :=
      exists_mapM_ok fun column _ => hcompanion column
    obtain ⟨companions, hcompanions⟩ := hall
    rw [SearchPlan.ofQuery, hf, ok_bind]
    split
    · exact ⟨_, rfl⟩
    · rw [hcompanions]
      exact ⟨_, rfl⟩

namespace Step

variable {index : String} {program : List Step} {q : Query}

/-- A facet-blind group that was pushed is still in its place, with members joined by AND. -/
theorem applyAll_blind {before after : List Step} {clauses : List Clause}
    (h : applyAll program { index } = .ok q)
    (hcut : madeAll program = before ++ .keepFacets clauses :: after) :
    ∃ earlier children, applyAll before { index } = .ok earlier ∧
      q.wheres[earlier.wheres.length]? = some (.group children .and true) ∧
      ∀ n ∈ children, n.connective = .and := by
  obtain ⟨earlier, hbefore, hrest⟩ := applyAll_cut h hcut
  obtain ⟨pushed, hpush, hafter⟩ := bind_eq_ok.mp hrest
  obtain ⟨children, hchildren, hpush⟩ := bind_eq_ok.mp hpush
  obtain rfl := Except.ok.inj hpush
  have hkept : earlier.wheres ++ [.group children .and true] <+: q.wheres :=
    applyAll_preserves (wheres_invariant _) after hafter List.prefix_rfl
  obtain ⟨later, hlater⟩ := hkept
  refine ⟨earlier, children, hbefore, ?_, Clause.nodes_connective hchildren⟩
  rw [← hlater]
  simp

/-- Nothing is appended to the order after random order was asked for. -/
theorem applyAll_random {before after : List Step} (h : applyAll program { index } = .ok q)
    (hcut : madeAll program = before ++ .random :: after) :
    ∃ earlier, applyAll before { index } = .ok earlier ∧ q.order = earlier.order := by
  obtain ⟨earlier, hbefore, hrest⟩ := applyAll_cut h hcut
  have hkept : q.randomOrder = true ∧ q.order = earlier.order :=
    applyAll_preserves (order_invariant earlier.order) after hrest ⟨rfl, rfl⟩
  exact ⟨earlier, hbefore, hkept.2⟩

/-- **Every program keeps its query in order**, and nothing that is done with the filters of the
finished query fails. -/
theorem applyAll_orderly (h : applyAll program { index } = .ok q) :
    q.Orderly index program ∧ ∀ finished, q.finish = .ok finished → finished.Compiles := by
  have hwell : Node.firstMalformedOf? q.wheres = none :=
    applyAll_preserves wellFormed_invariant program h rfl
  have hsplit : q.facetSplit = (madeAll program).any splitsFacets := by
    rw [← applyAll_madeAll] at h
    exact facetSplit_applyAll (isPlain_of_mem_madeAll program) h
  refine ⟨⟨?_, ?_, ?_, ?_, ?_⟩, fun finished hfinish => ?_⟩
  · exact applyAll_preserves connective_invariant program h (by simp)
  · exact fun before clauses after hcut => applyAll_blind h hcut
  · exact fun p hp => Leaf.sensible_of_wellFormed (Node.wellFormed_of_mem_placesList hwell hp)
  · exact fun before after hcut => applyAll_random h hcut
  · rw [hsplit, List.any_eq_true]
    constructor
    · rintro ⟨s, hs, hkeep⟩
      cases s with
      | keepFacets clauses => exact ⟨clauses, hs⟩
      | _ => cases hkeep
    · rintro ⟨clauses, hs⟩
      exact ⟨_, hs, rfl⟩
  · unfold Query.finish at hfinish
    split at hfinish
    · cases hfinish
    · obtain rfl := Except.ok.inj hfinish
      exact Query.compiles_of_wellFormed hwell

/-! ### A program -/

/-- Phones of some brands, the black ones of which are shown: a ready tree with an OR in it, an order
under a condition that does not hold, and a random order that comes last. -/
def phonesProgram : List Step :=
  [.clause (.filter "category" "=" (.scalar (.text "phones")) "AND"),
   .when true [
     .clause (.node (.group
       [.leaf { column := "brand", operator := .compare .eq, operand := .scalar (.text "Ace") },
        .leaf { column := "brand", operator := .compare .eq, operand := .scalar (.text "Bell"),
                connective := .or }] .and false)),
     .keepFacets [.list "color" .isIn [.text "black"],
       .group .and [.presence "stock" .isNotEmpty, .filter "price" "<" (.scalar (.int 300)) "or"]]],
   .when false [.orderBy ["price"] "backwards"],
   .orderBy ["rating"] "desc",
   .facets ["category", "color"],
   .when true [.random]]

theorem phonesProgram_orderly : ∃ q, applyAll phonesProgram { index := "products" } = .ok q ∧
    q.wheres.length = 3 ∧ q.Orderly "products" phonesProgram ∧ q.finish = .ok q ∧ q.Compiles := by
  obtain ⟨q, hq⟩ : ∃ q, applyAll phonesProgram { index := "products" } = .ok q := ⟨_, rfl⟩
  have hsame : applyAll phonesProgram { index := "products" } = .ok q := hq
  obtain rfl := Except.ok.inj hsame
  exact ⟨_, hq, rfl, (applyAll_orderly hq).1, rfl, (applyAll_orderly hq).2 _ rfl⟩

end Step

end SearchClient
