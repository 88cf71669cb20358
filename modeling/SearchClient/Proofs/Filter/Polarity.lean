/-
SearchClient/Proofs/Filter/Polarity.lean

What a clause is worth where it stands.  A tree around a clause is given by the groups it stands in,
innermost first, each with the trees before and after (`Node.Frame`).  If a pass keeps the clause and
visits these groups, the filter of the tree is true exactly if the groups hold with the truth of the
clause put in its place (`Leaf.Counts`, `Leaf.counts_means`).

For a list of values that truth goes by the polarity of the operator.  Of a document whose column equals
one of the values `=` and IN are true, and NOT IN is false.  Only `!=` has another sense before a list than
before a single value: there it asks for membership, as every operator but NOT IN and MATCHES does
(`Leaf.list_ne_inverted`).

Main result: `Leaf.list_polarity`.
-/
import SearchClient.Proofs.Search.Widen

namespace SearchClient

open Grammar

/-! ### Places in a tree -/

/-- A group around a tree: the trees before and after it, and how the group itself stands. -/
structure Node.Frame where
  before : List Node
  after : List Node
  connective : Connective
  facetBlind : Bool

namespace Node

/-- The tree in its groups, the innermost first. -/
def within (n : Node) : List Frame → Node
  | [] => n
  | f :: fs => within (.group (f.before ++ n :: f.after) f.connective f.facetBlind) fs

/-- Whether the outermost group holds, by the truth of the tree in the innermost one. -/
def Frame.hold (pass : Pass) (a : Assignment) : List Frame → Connective → Bool → Bool
  | [], _, truth => truth
  | f :: fs, joiner, truth =>
    Frame.hold pass a fs f.connective
      (holds (meanings pass a f.before ++ (joiner, truth) :: meanings pass a f.after))

theorem meanings_append (pass : Pass) (a : Assignment) (ns ms : List Node) :
    meanings pass a (ns ++ ms) = meanings pass a ns ++ meanings pass a ms := by
  rw [meanings_eq, meanings_eq, meanings_eq, List.filter_append, List.map_append]

/-- A tree that contributes makes every group around it contribute, and counts there as what it means. -/
theorem means_within {pass : Pass} {frames : List Frame}
    (hvisits : ∀ f ∈ frames, pass.visits f.facetBlind = true) {n : Node}
    (hn : n.contributes pass = true) :
    (n.within frames).contributes pass = true ∧
      ∀ a, (n.within frames).means pass a = Frame.hold pass a frames n.connective (n.means pass a) := by
  induction frames generalizing n with
  | nil => exact ⟨hn, fun _ => rfl⟩
  | cons f frames ih =>
    obtain ⟨hvisit, hvisits⟩ := List.forall_mem_cons.mp hvisits
    have hmeanings : ∀ a, meanings pass a (f.before ++ n :: f.after) =
        meanings pass a f.before ++ (n.connective, n.means pass a) :: meanings pass a f.after := by
      intro a
      rw [meanings_append, meanings, if_pos hn]
    have hsome : someContributes pass (f.before ++ n :: f.after) = true :=
      someContributes_iff.mpr ⟨n, by simp, hn⟩
    have hgroup : (Node.group (f.before ++ n :: f.after) f.connective f.facetBlind).contributes pass =
        true := by
      rw [contributes, hvisit, hsome]
      rfl
    obtain ⟨hcontributes, hmeans⟩ := ih hvisits hgroup
    refine ⟨hcontributes, fun a => ?_⟩
    rw [within, hmeans, means, hmeanings]
    rfl

end Node

/-! ### What a clause is worth -/

/-- The text has one parse, and that is of this truth. -/
def HasTruth (a : Assignment) (text : String) (truth : Bool) : Prop :=
  ∃ d, (∀ d', Parses text.toList d' ↔ d' = d) ∧ d.eval a = truth

theorem HasTruth.unique {a : Assignment} {text : String} {b c : Bool} (hb : HasTruth a text b)
    (hc : HasTruth a text c) : b = c := by
  obtain ⟨d, hd, rfl⟩ := hb
  obtain ⟨d', hd', rfl⟩ := hc
  rw [(hd d').mp ((hd' d').mpr rfl)]

/-- A tree that contributes fails at its first malformed leaf, or it has one filter, of the truth that the
tree has. -/
theorem Filters.compile_tree (r : ListRendering) {pass : Pass} {n : Node}
    (hn : n.contributes pass = true) :
    (∃ m, FirstMalformed (pass.visited [n]) m ∧
      Filters.compile r pass [n] = .error (.malformedLeaf m)) ∨
    ∃ f text, Filters.compile r pass [n] = .ok f ∧ f.texts = [text] ∧
      ∀ a, HasTruth a text (n.means pass a) := by
  rcases hbad : Node.firstMalformedOf? (Node.pruneList (fun _ => true) pass.visits [n]) with - | l
  · have hkept : Node.firstMalformedOf? (Node.pruneList pass.keeps pass.visits [n]) = none := by
      rw [← Node.pruneList_groups_first]
      exact Node.firstMalformedOf?_pruneList _ _ hbad
    have hmeant := texts_meant r pass hkept
    rw [List.filter_cons_of_pos hn, List.filter_nil, List.forall₂_cons_right_iff] at hmeant
    obtain ⟨text, rest, ⟨d, hd, heval⟩, hrest, htexts⟩ := hmeant
    obtain rfl := List.forall₂_nil_right_iff.mp hrest
    refine .inr ⟨_, text, ?_, htexts, fun a => ⟨d, hd, heval a⟩⟩
    rw [compile_eq, hbad]
  · have hcompile : Filters.compile r pass [n] = .error (.malformedLeaf l) := by
      rw [compile_eq, hbad]
    obtain ⟨m, hm, hml⟩ := checked_error_iff.mp ((compile_eq_checked r pass [n]).symm.trans hcompile)
    exact .inl ⟨m, hm, hcompile.trans (congrArg _ hml)⟩

namespace Leaf

/-- The clause compiles to an expression of this truth.  A tree of which a pass visits the groups around
the clause fails at some other leaf, or it has a filter that is as true as these groups are with that
truth in the place of the clause. -/
structure Counts (r : ListRendering) (pass : Pass) (a : Assignment) (l : Leaf) (truth : Bool) :
    Prop where
  expression : ∀ blind, ∃ e, l.compile r pass blind = .ok (some ⟨e, [(blind, l.column)]⟩) ∧
    HasTruth a e.text truth
  place : ∀ frames : List Node.Frame, (∀ f ∈ frames, pass.visits f.facetBlind = true) →
    (∃ m, FirstMalformed (pass.visited [(Node.leaf l).within frames]) m ∧
      Filters.compile r pass [(Node.leaf l).within frames] = .error (.malformedLeaf m)) ∨
    ∃ f text, Filters.compile r pass [(Node.leaf l).within frames] = .ok f ∧ f.texts = [text] ∧
      HasTruth a text (Node.Frame.hold pass a frames l.connective truth)

/-- A well-formed clause that a pass keeps counts as what it means, unless its list is empty. -/
theorem counts_means {l : Leaf} (hl : l.wellFormed = true) (hsome : l.contributes = true)
    (r : ListRendering) {pass : Pass} (hkeeps : pass.keeps l = true) (a : Assignment) :
    l.Counts r pass a (l.means a) := by
  have hcontributes : (Node.leaf l).contributes pass = true := by
    rw [Node.contributes, hkeeps, hsome]
    rfl
  refine ⟨fun blind => ?_, fun frames hvisits => ?_⟩
  · -- the expression is the text of what the clause says
    have hread := l.reads r hl
    have heval := l.eval_tree? a r hl
    rw [if_pos hsome] at heval
    obtain ⟨p, hp, heval⟩ := Option.map_eq_some_iff.mp heval
    rw [hp] at hread
    rcases hexpr : l.expr? r with - | e
    · rw [hexpr] at hread
      cases hread
    · rw [hexpr] at hread
      cases hread with
      | some hread =>
        have hdrops : pass.drops l.column = false := by
          simpa [Pass.keeps] using hkeeps
        refine ⟨e, ?_, _, hread.only_parse.2, ?_⟩
        · rw [compile, hl, hdrops, hexpr]
          rfl
        · rw [Disjunction.eval, Conjunction.eval, heval]
  · obtain ⟨htree, hmeans⟩ := Node.means_within hvisits hcontributes
    refine (Filters.compile_tree r htree).imp_right fun hcompiled => ?_
    obtain ⟨f, text, hcompile, htexts, htruth⟩ := hcompiled
    have htruth := htruth a
    rw [hmeans, Node.means] at htruth
    exact ⟨f, text, hcompile, htexts, htruth⟩

/-- A clause has one truth. -/
theorem Counts.unique {r : ListRendering} {pass : Pass} {a : Assignment} {l : Leaf} {b c : Bool}
    (hb : l.Counts r pass a b) (hc : l.Counts r pass a c) : b = c := by
  obtain ⟨e, he, hb⟩ := hb.expression false
  obtain ⟨e', he', hc⟩ := hc.expression false
  rw [he] at he'
  cases he'
  exact hb.unique hc

end Leaf

/-! ### Polarity -/

/-- To be unequal is not to be equal. -/
def Assignment.Complementary (a : Assignment) : Prop :=
  ∀ column v, a.compare column .ne v = !a.compare column .eq v

/-- Whether an operator says of a column that it is one of some values, or that it is not. -/
def Operator.polarity? : Operator → Option Bool
  | .compare .eq | .list .isIn => some true
  | .compare .ne | .list .notIn => some false
  | _ => none

namespace Leaf

/-- What a clause with a list means if the column equals one of the values. -/
theorem means_polarity {l : Leaf} {vs : List Scalar} (hvs : l.operand = .list vs) {b : Bool}
    (hb : l.operator.polarity? = some b) (hne : l.operator ≠ .compare .ne) {a : Assignment}
    (ha : a.Complementary) {v : Scalar} (hv : v ∈ vs)
    (hequal : a.compare l.column.toList .eq v.value = true) : l.means a = b := by
  have hsome : (vs.any fun v => a.compare l.column.toList .eq v.value) = true :=
    List.any_eq_true.mpr ⟨v, hv, hequal⟩
  have hall : (vs.all fun v => a.compare l.column.toList .ne v.value) = false := by
    refine List.all_eq_false.mpr ⟨v, hv, ?_⟩
    rw [ha, hequal]
    exact Bool.false_ne_true
  obtain ⟨column, operator, operand, joiner⟩ := l
  obtain rfl : operand = .list vs := hvs
  cases operator with
  | compare comparison =>
    cases comparison with
    | eq =>
      obtain rfl := Option.some.inj hb
      exact hsome
    | ne => exact absurd rfl hne
    | gt | ge | lt | le => cases hb
  | list test =>
    cases test with
    | isIn =>
      obtain rfl := Option.some.inj hb
      exact hsome
    | notIn =>
      obtain rfl := Option.some.inj hb
      exact hall
    | all => cases hb
  | presence test => cases hb

/-- **A list keeps the polarity of its operator**, unless that is `!=`.  Of a document whose column equals
one of the values, a clause with NOT IN is false and a clause with `=` or IN is true, in either rendering
of lists, in every pass that keeps it and wherever it stands. -/
theorem list_polarity {l : Leaf} {vs : List Scalar} (hl : l.wellFormed = true)
    (hvs : l.operand = .list vs) {b : Bool} (hb : l.operator.polarity? = some b)
    (hne : l.operator ≠ .compare .ne) (r : ListRendering) {pass : Pass}
    (hkeeps : pass.keeps l = true) {a : Assignment} (ha : a.Complementary) {v : Scalar} (hv : v ∈ vs)
    (hequal : a.compare l.column.toList .eq v.value = true) : l.Counts r pass a b := by
  have hsome : l.contributes = true := by
    rw [contributes, hvs]
    exact decide_eq_true fun h => List.ne_nil_of_mem hv (Operand.list.inj h)
  rw [← means_polarity hvs hb hne ha hv hequal]
  exact counts_means hl hsome r hkeeps a

/-- A document whose color is red, and whose other columns are empty. -/
def redThing : Assignment where
  compare column comparison v :=
    let named : Bool := column = "color".toList && v = .text "red".toList
    match comparison with
    | .eq => named
    | .ne => !named
    | _ => false
  presence column test := test = if column = "color".toList then .isNotEmpty else .isEmpty

theorem redThing_complementary : redThing.Complementary := fun _ _ => rfl

/-- A color that is none of some values, of several kinds. -/
def otherColor : Leaf where
  column := "color"
  operator := .list .notIn
  operand := .list [.int 2, .text "red", .bool true]
  connective := .or

theorem list_polarity_otherColor :
    otherColor.wellFormed = true ∧ otherColor.operator.polarity? = some false ∧
      (Pass.without "brand").keeps otherColor = true ∧ redThing.Complementary ∧
      redThing.compare "color".toList .eq (.text "red".toList) = true ∧
      otherColor.Counts .orChain (.without "brand") redThing false :=
  ⟨by decide, rfl, by decide, redThing_complementary, by decide,
    list_polarity (v := .text "red") (by decide) rfl rfl (by decide) .orChain (by decide)
      redThing_complementary (by decide) (by decide)⟩

/-- A color that is not red, written with a list. -/
def notRed : Leaf where
  column := "color"
  operator := .compare .ne
  operand := .list [.text "red"]

/-- With `!=` a list is one to be met: a clause with a negative operator is true of a document whose column
equals one of its values. -/
theorem list_ne_inverted :
    notRed.wellFormed = true ∧ notRed.operator.polarity? = some false ∧ redThing.Complementary ∧
      redThing.compare "color".toList .eq (.text "red".toList) = true ∧
      ∀ r, (∃ f text, Filters.compile r .full [.leaf notRed] = .ok f ∧ f.texts = [text] ∧
          HasTruth redThing text true) ∧
        ¬ notRed.Counts r .full redThing false := by
  refine ⟨by decide, rfl, redThing_complementary, by decide, fun r => ?_⟩
  have hcounts : notRed.Counts r .full redThing true :=
    counts_means (by decide) (by decide) r (by decide) redThing
  refine ⟨?_, fun h => Bool.false_ne_true (h.unique hcounts)⟩
  rcases hcounts.place [] (by simp) with ⟨m, -, herror⟩ | hcompiled
  · cases r <;> cases herror
  · exact hcompiled

end Leaf

end SearchClient
