/-
SearchClient/Proofs/Search/Widen.lean

Companions ask for no less.  A companion leaves the clauses on its column out of the filters.  Where AND
alone joins the members of a group this can only let more through, but next to an OR it can let less
through: of the black phones and the small ones, only the small ones are left without the color.  So a
group with an OR in it is supposed to be about one column throughout (`Node.OrOnOneColumn`).  Such a group
goes as a whole, or it stays as it is.

The step is made tree by tree: what a tree still contributes without a column it contributes in full as
well, and it holds if the tree does (`Node.OrOnOneColumn.widens`).

Main result: `SearchPlan.companions_widen`.  Whatever the main request counts, a companion counts.
-/
import SearchClient.Proofs.Filter.Check
import SearchClient.Proofs.Filter.Meaning
import SearchClient.Proofs.Search.Facets

namespace SearchClient

open Grammar

/-! ### Rows of AND -/

/-- Where AND alone joins the members of a row, all of them have to hold. -/
theorem Grammar.holds_and {row : List (Connective × Bool)} (h : ∀ m ∈ row, m.1 = .and) :
    holds row = true ↔ row ≠ [] ∧ ∀ m ∈ row, m.2 = true := by
  rcases row with - | ⟨⟨joiner, b⟩, rest⟩
  · exact iff_of_false (by simp [holds, Connective.runs]) fun hne => hne.1 rfl
  · -- the row is one run, whatever the connective of its first member
    have hrest : rest = (rest.map Prod.snd).map fun b => (.and, b) := by
      rw [List.map_map]
      refine (List.map_id rest).symm.trans (List.map_congr_left fun m hm => ?_)
      exact Prod.ext (h m (List.mem_cons_of_mem _ hm)) rfl
    rw [holds, hrest, Connective.runs_and]
    simp

/-! ### Groups -/

namespace Node

mutual

/-- The members of every group of a tree, at any depth. -/
def groups : Node → List (List Node)
  | .leaf _ => []
  | .group children _ _ => children :: groupsOf children

def groupsOf : List Node → List (List Node)
  | [] => []
  | n :: ns => groups n ++ groupsOf ns

end

/-- Every group with a member that is joined by OR has all its leaves, at any depth, on one column. -/
def OrOnOneColumn (nodes : List Node) : Prop :=
  ∀ children ∈ groupsOf nodes, (∃ n ∈ children, n.connective = .or) →
    ∃ column, ∀ l ∈ leaves children, l.column = column

/-- The columns of such a group are compared with each other. -/
instance (nodes : List Node) : Decidable (OrOnOneColumn nodes) :=
  decidable_of_iff
    (∀ children ∈ groupsOf nodes, (∃ n ∈ children, n.connective = .or) →
      ∀ l ∈ leaves children, ∀ m ∈ leaves children, l.column = m.column) <| by
    refine forall₂_congr fun children _ => imp_congr_right fun _ => ⟨fun h => ?_, ?_⟩
    · rcases hleaves : leaves children with - | ⟨l, ls⟩
      · exact ⟨"", by simp⟩
      · rw [hleaves] at h
        exact ⟨l.column, fun m hm => h m hm l List.mem_cons_self⟩
    · rintro ⟨column, h⟩ l hl m hm
      rw [h l hl, h m hm]

/-- In particular, trees with no OR in their groups are of this shape. -/
theorem orOnOneColumn_of_and {nodes : List Node}
    (h : ∀ children ∈ groupsOf nodes, ∀ n ∈ children, n.connective = .and) :
    OrOnOneColumn nodes := by
  rintro children hchildren ⟨n, hn, hor⟩
  rw [h children hchildren n hn] at hor
  cases hor

theorem orOnOneColumn_leaf {l : Leaf} {ns : List Node} :
    OrOnOneColumn (.leaf l :: ns) ↔ OrOnOneColumn ns := .rfl

theorem orOnOneColumn_group {children ns : List Node} {joiner : Connective} {facetBlind : Bool} :
    OrOnOneColumn (.group children joiner facetBlind :: ns) ↔
      ((∃ n ∈ children, n.connective = .or) → ∃ column, ∀ l ∈ leaves children, l.column = column) ∧
        OrOnOneColumn children ∧ OrOnOneColumn ns := by
  simp only [OrOnOneColumn, groupsOf, groups, List.forall_mem_append, List.forall_mem_cons, and_assoc]

theorem someContributes_iff {pass : Pass} {ns : List Node} :
    someContributes pass ns = true ↔ ∃ n ∈ ns, n.contributes pass = true := by
  induction ns with
  | nil => simp [someContributes]
  | cons n ns ih => rw [someContributes, Bool.or_eq_true, ih, List.exists_mem_cons_iff]

section

variable (a : Assignment) {column : String}

/-- Trees with no leaf on a column mean the same without it. -/
theorem meanings_untouched {ns : List Node} (h : ∀ l ∈ leaves ns, l.column ≠ column) :
    meanings (.without column) a ns = meanings .full a ns := by
  induction ns using forest with
  | nil => rfl
  | leaf l ns ih =>
    rw [leaves_leaf, List.forall_mem_cons] at h
    have hkeeps : (Pass.without column).keeps l = Pass.full.keeps l := by
      simp [Pass.keeps, Pass.drops, Ne.symm h.1]
    rw [meanings, meanings, contributes, contributes, hkeeps, ih h.2, means, means]
  | group children joiner facetBlind ns ihc ih =>
    rw [leaves_group, List.forall_mem_append] at h
    have hvisits : (Pass.without column).visits facetBlind = Pass.full.visits facetBlind := by
      simp [Pass.visits]
    rw [meanings, meanings, contributes, contributes, someContributes_eq a, someContributes_eq a,
      hvisits, means, means, ihc h.1, ih h.2]

/-- Trees that are about a column throughout are gone without it. -/
theorem meanings_vanish {ns : List Node} (h : ∀ l ∈ leaves ns, l.column = column) :
    meanings (.without column) a ns = [] := by
  induction ns using forest with
  | nil => rfl
  | leaf l ns ih =>
    rw [leaves_leaf, List.forall_mem_cons] at h
    have hdrops : (Pass.without column).keeps l = false := by
      simp [Pass.keeps, Pass.drops, h.1]
    rw [meanings, contributes, hdrops, ih h.2]
    rfl
  | group children joiner facetBlind ns ihc ih =>
    rw [leaves_group, List.forall_mem_append] at h
    rw [meanings, contributes, someContributes_eq a, ihc h.1, ih h.2]
    simp

/-- Trees that are about one column, of which something is left without a column, are about another
one. -/
theorem meanings_of_oneColumn {ns : List Node} {other : String}
    (h : ∀ l ∈ leaves ns, l.column = other)
    (hleft : someContributes (.without column) ns = true) :
    meanings (.without column) a ns = meanings .full a ns := by
  refine meanings_untouched a fun l hl hcolumn => ?_
  have hgone : meanings (.without column) a ns = [] :=
    meanings_vanish a fun m hm => (h m hm).trans ((h l hl).symm.trans hcolumn)
  rw [someContributes_eq a, hgone] at hleft
  cases hleft

/-- A group without an OR holds if something is left of it and all that is left of it holds. -/
theorem means_group_and {pass : Pass} {children : List Node} (joiner : Connective) (facetBlind : Bool)
    (h : ∀ n ∈ children, n.connective = .and) :
    (Node.group children joiner facetBlind).means pass a = true ↔
      someContributes pass children = true ∧
        ∀ n ∈ children, n.contributes pass = true → n.means pass a = true := by
  have hand : ∀ m ∈ meanings pass a children, m.1 = .and := by
    intro m hm
    rw [meanings_eq] at hm
    obtain ⟨n, hn, rfl⟩ := List.mem_map.mp hm
    exact h n (List.mem_filter.mp hn).1
  have hall : (∀ m ∈ meanings pass a children, m.2 = true) ↔
      ∀ n ∈ children, n.contributes pass = true → n.means pass a = true := by
    rw [meanings_eq, List.forall_mem_map]
    simp only [List.mem_filter, and_imp]
  rw [means, holds_and hand, hall, someContributes_eq a]
  simp

/-- What is left of a tree without a column holds if the tree does. -/
theorem OrOnOneColumn.widens {ns : List Node} (h : OrOnOneColumn ns) :
    ∀ n ∈ ns, n.contributes (.without column) = true →
      n.contributes .full = true ∧ (n.means .full a = true → n.means (.without column) a = true) := by
  induction ns using forest with
  | nil => simp
  | leaf l ns ih =>
    refine List.forall_mem_cons.mpr ⟨fun hcontributes => ?_, ih (orOnOneColumn_leaf.mp h)⟩
    rw [contributes, Bool.and_eq_true] at hcontributes
    exact ⟨by simp [contributes, Pass.keeps, Pass.drops, hcontributes.2], id⟩
  | group children joiner facetBlind ns ihc ih =>
    obtain ⟨hone, hchildren, hns⟩ := orOnOneColumn_group.mp h
    refine List.forall_mem_cons.mpr ⟨fun hcontributes => ?_, ih hns⟩
    have hsome : someContributes (.without column) children = true :=
      (Bool.and_eq_true _ _ ▸ hcontributes).2
    by_cases hor : ∃ n ∈ children, n.connective = .or
    · -- something is left of the group, so it is as it was
      obtain ⟨other, hother⟩ := hone hor
      have hsame := meanings_of_oneColumn a hother hsome
      rw [someContributes_eq a, hsame, ← someContributes_eq a] at hsome
      refine ⟨by simp [contributes, Pass.visits, hsome], ?_⟩
      rw [means, means, hsame]
      exact id
    · have hand : ∀ n ∈ children, n.connective = .and := by
        intro n hn
        rcases hjoiner : n.connective with - | -
        · rfl
        · exact absurd ⟨n, hn, hjoiner⟩ hor
      obtain ⟨m, hm, hleft⟩ := someContributes_iff.mp hsome
      have hfull : someContributes .full children = true :=
        someContributes_iff.mpr ⟨m, hm, (ihc hchildren m hm hleft).1⟩
      refine ⟨by simp [contributes, Pass.visits, hfull], ?_⟩
      rw [means_group_and a joiner facetBlind hand, means_group_and a joiner facetBlind hand]
      rintro ⟨-, hall⟩
      refine ⟨hsome, fun n hn hleft => ?_⟩
      obtain ⟨hcontributes, hmeans⟩ := ihc hchildren n hn hleft
      exact hmeans (hall n hn hcontributes)

end

/-- Next to an OR there is more to lose: without the color only the size is left of this group. -/
example :
    let n : Node := .group
      [.leaf { column := "color", operator := .compare .eq, operand := .scalar (.text "black") },
       .leaf { column := "size", operator := .compare .eq, operand := .scalar (.text "small"),
               connective := .or }]
      .and false
    let a : Assignment := ⟨fun column _ _ => column = "color".toList, fun _ _ => false⟩
    n.means .full a = true ∧ n.contributes (.without "color") = true ∧
      n.means (.without "color") a = false := by
  decide

end Node

/-! ### Filters -/

/-- The text can be parsed as something that is true.  There is one parse at most
(`Grammar.Parses.unique`). -/
def HoldsIn (a : Assignment) (text : String) : Prop := ∃ d, Parses text.toList d ∧ d.eval a = true

theorem Node.IsMeantBy.holdsIn_iff {pass : Pass} {text : String} {n : Node}
    (h : n.IsMeantBy pass text) (a : Assignment) : HoldsIn a text ↔ n.means pass a = true := by
  obtain ⟨d, hparses, heval⟩ := h
  rw [← heval]
  constructor
  · rintro ⟨d', hd', htrue⟩
    rwa [(hparses d').mp hd'] at htrue
  · exact fun htrue => ⟨d, (hparses d).mpr rfl, htrue⟩

/-- What holds of related elements holds of all of the one list or of all of the other. -/
theorem forall_mem_iff_of_forall₂ {α β : Type} {R : α → β → Prop} {P : α → Prop} {Q : β → Prop}
    (hiff : ∀ x y, R x y → (P x ↔ Q y)) {xs : List α} {ys : List β} (h : List.Forall₂ R xs ys) :
    (∀ x ∈ xs, P x) ↔ ∀ y ∈ ys, Q y := by
  induction h with
  | nil => simp
  | cons hxy _ ih => rw [List.forall_mem_cons, List.forall_mem_cons, hiff _ _ hxy, ih]

/-- The filters of a pass hold if everything holds that it leaves of the trees. -/
theorem Filters.texts_hold_iff {r : ListRendering} {pass : Pass} {nodes : List Node} {f : Filters}
    (h : Filters.compile r pass nodes = .ok f) (a : Assignment) :
    (∀ text ∈ f.texts, HoldsIn a text) ↔
      ∀ n ∈ nodes, n.contributes pass = true → n.means pass a = true := by
  rw [compile_eq] at h
  rcases hbad : Node.firstMalformedOf? (Node.pruneList (fun _ => true) pass.visits nodes) with - | l
  · rw [hbad] at h
    obtain rfl := Except.ok.inj h
    -- the pass has looked at more leaves than it keeps
    have hkept : Node.firstMalformedOf? (Node.pruneList pass.keeps pass.visits nodes) = none := by
      rw [← Node.pruneList_groups_first]
      exact Node.firstMalformedOf?_pruneList _ _ hbad
    have hfiltered : (∀ n ∈ nodes, n.contributes pass = true → n.means pass a = true) ↔
        ∀ n ∈ nodes.filter (Node.contributes pass), n.means pass a = true := by
      simp only [List.mem_filter, and_imp]
    rw [hfiltered]
    exact forall_mem_iff_of_forall₂ (fun _ _ hmeant => hmeant.holdsIn_iff a)
      (texts_meant r pass hkept)
  · rw [hbad] at h
    cases h

/-! ### Plans -/

/-- Whether a request counts a document of which some atoms are true, where `found` says if it has the
words in the attributes. -/
def SearchRequest.Counts (found : String → Option (List String) → Prop) (a : Assignment)
    (request : SearchRequest) : Prop :=
  found request.q request.attributes ∧ ∀ text ∈ request.filter, HoldsIn a text

/-- **Companions widen the filters.**  Where groups with an OR are about one column each, a query whose
facets are counted apart from its facet-blind groups fails at its first malformed leaf, or it has a plan
in which the filters of every companion, those of the trees without its column, hold if the filters of
the main request do, whatever is true.  So a companion counts every document that the main request
counts. -/
theorem SearchPlan.companions_widen {q : Query} (hsplit : q.facetSplit = true)
    (hshape : Node.OrOnOneColumn q.wheres) (r : ListRendering) :
    (∃ l, Node.firstMalformedOf? q.wheres = some l ∧
      SearchPlan.ofQuery r q = .error (.malformedLeaf l)) ∨
    ∃ f plan, SearchPlan.ofQuery r q = .ok plan ∧
      Filters.compile r .full q.wheres = .ok f ∧ plan.main.filter = f.texts ∧
      ∀ k ∈ plan.companions, ∃ g,
        Filters.compile r (.without k.column) q.wheres = .ok g ∧ k.request.filter = g.texts ∧
        ∀ a : Assignment,
          ((∀ text ∈ plan.main.filter, HoldsIn a text) →
            ∀ text ∈ k.request.filter, HoldsIn a text) ∧
          ∀ found, plan.main.Counts found a → k.request.Counts found a := by
  rcases hbad : Node.firstMalformedOf? q.wheres with - | l
  · obtain ⟨hcompile, hwithout⟩ := q.filters_wellFormed hbad r
    obtain ⟨hwords, hfilter, hattributes⟩ := q.hitsRequest_conditions (q.fullFilters r)
    refine .inr ⟨_, _, ofQuery_split_wellFormed hbad hsplit r, hcompile, hfilter, fun k hk => ?_⟩
    obtain ⟨column, -, rfl⟩ := List.mem_map.mp hk
    refine ⟨_, hwithout column, rfl, fun a => ?_⟩
    have hholds : (∀ text ∈ (q.hitsRequest (q.fullFilters r)).filter, HoldsIn a text) →
        ∀ text ∈ (q.filtersWithout r column).texts, HoldsIn a text := by
      rw [hfilter, Filters.texts_hold_iff hcompile, Filters.texts_hold_iff (hwithout column)]
      intro hmain n hn hleft
      obtain ⟨hcontributes, hmeans⟩ := hshape.widens a n hn hleft
      exact hmeans (hmain n hn hcontributes)
    refine ⟨hholds, fun found hcounts => ?_⟩
    rw [SearchRequest.Counts, hwords, hattributes] at hcounts
    exact ⟨hcounts.1, hholds hcounts.2⟩
  · exact .inl ⟨l, rfl, ofQuery_malformed hbad r⟩

/-- Phones of which the black ones and all those of a known color but red are shown, none of them of
acme. -/
def darkPhones : Query where
  index := "products"
  wheres :=
    [.leaf { column := "category", operator := .list .isIn, operand := .list [.text "phones"] },
     .group
      [.group
        [.leaf { column := "color", operator := .compare .eq, operand := .scalar (.text "black") },
         .group
          [.leaf { column := "color", operator := .list .notIn, operand := .list [.text "red"] },
           .leaf { column := "color", operator := .presence .isNotNull }]
          .or false]
        .and false,
       .leaf { column := "brand", operator := .compare .ne, operand := .scalar (.text "acme") }]
      .and true]
  facetSplit := true

/-- What is true of a black phone of another brand. -/
def blackPhone : Assignment where
  compare _ comparison value :=
    let named : Bool := value = .text "phones".toList || value = .text "black".toList
    match comparison with
    | .eq => named
    | .ne => !named
    | _ => false
  presence _ test := test = .isNotNull

theorem SearchPlan.companions_widen_darkPhones : ∃ plan,
    SearchPlan.ofQuery .orChain darkPhones = .ok plan ∧
      plan.companions.map Companion.column = ["category", "color", "brand"] ∧
      (∀ text ∈ plan.main.filter, HoldsIn blackPhone text) ∧
      ∀ k ∈ plan.companions, ∀ text ∈ k.request.filter, HoldsIn blackPhone text := by
  have hsplit := ofQuery_split_wellFormed (q := darkPhones) rfl rfl .orChain
  rcases SearchPlan.companions_widen (q := darkPhones) rfl (by decide) .orChain with
    ⟨l, hbad, -⟩ | ⟨f, plan, hplan, hcompile, hfilter, hwiden⟩
  · cases hbad
  · have hmain : ∀ text ∈ plan.main.filter, HoldsIn blackPhone text := by
      rw [hfilter, Filters.texts_hold_iff hcompile]
      decide
    refine ⟨plan, hplan, ?_, hmain, fun k hk => ?_⟩
    · obtain rfl := Except.ok.inj (hsplit.symm.trans hplan)
      decide +kernel
    · obtain ⟨g, -, -, hholds⟩ := hwiden k hk
      exact (hholds blackPhone).1 hmain

end SearchClient
