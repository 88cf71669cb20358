/-
SearchClient/Proofs/Filter/Prune.lean

What the passes leave out.  A pass removes clauses and groups while it compiles, validates, drops
connectives and records columns.  Here the two jobs are taken apart: `Node.pruneList` removes clauses
and groups from a forest and does nothing else, and `Node.contributions` says what a forest contributes
when nothing goes wrong, without a pass.  `Node.compileList_eq` puts them together:

    a pass fails at the first malformed leaf among the groups that it visits, and otherwise gives
    the contributions of the forest pruned of all that it leaves out.

Main result: `Filters.compile_pruned`.  Compiling without a column is compiling in full after its
clauses are deleted, with the errors of the forest as it was; compiling for facets is compiling in
full after the facet-blind groups are deleted, errors included.
-/
import SearchClient.Filter.Compile
import SearchClient.Proofs.Outcome

namespace SearchClient

namespace Node

/-! ### Forests -/

/-- Induction over a list of trees, down into the groups. -/
theorem forest {P : List Node → Prop} (nil : P [])
    (leaf : ∀ l ns, P ns → P (.leaf l :: ns))
    (group : ∀ children joiner blind ns, P children → P ns →
      P (.group children joiner blind :: ns)) (ns : List Node) : P ns := by
  match ns with
  | [] => exact nil
  | .leaf l :: ns => exact leaf l ns (forest nil leaf group ns)
  | .group children joiner blind :: ns =>
    exact group children joiner blind ns (forest nil leaf group children)
      (forest nil leaf group ns)

/-! ### Well-formed forests -/

theorem firstMalformedOf?_leaf {l : Leaf} {ns : List Node} :
    firstMalformedOf? (.leaf l :: ns) = none ↔
      l.wellFormed = true ∧ firstMalformedOf? ns = none := by
  rw [firstMalformedOf?, firstMalformed?, Option.or_eq_none_iff]
  by_cases h : l.wellFormed = true <;> simp [h]

theorem firstMalformedOf?_group {children ns : List Node} {joiner : Connective} {blind : Bool} :
    firstMalformedOf? (.group children joiner blind :: ns) = none ↔
      firstMalformedOf? children = none ∧ firstMalformedOf? ns = none := by
  rw [firstMalformedOf?, firstMalformed?, Option.or_eq_none_iff]

theorem firstMalformedOf?_append {ns ms : List Node} :
    firstMalformedOf? (ns ++ ms) = none ↔
      firstMalformedOf? ns = none ∧ firstMalformedOf? ms = none := by
  induction ns with
  | nil => simp [firstMalformedOf?]
  | cons n ns ih => simp only [List.cons_append, firstMalformedOf?, Option.or_eq_none_iff, ih, and_assoc]

/-! ### Pruning -/

mutual

/-- The node without the clauses and the groups that are not kept; none, if it is one of them. -/
def prune (keepLeaf : Leaf → Bool) (keepGroup : Bool → Bool) : Node → List Node
  | .leaf l => if keepLeaf l then [.leaf l] else []
  | .group children joiner blind =>
    if keepGroup blind then [.group (pruneList keepLeaf keepGroup children) joiner blind] else []

/-- The nodes of a list, pruned. -/
def pruneList (keepLeaf : Leaf → Bool) (keepGroup : Bool → Bool) : List Node → List Node
  | [] => []
  | n :: ns => prune keepLeaf keepGroup n ++ pruneList keepLeaf keepGroup ns

end

/-- The trees without the clauses on a column. -/
def withoutColumn (column : String) : List Node → List Node :=
  pruneList (fun l => l.column ≠ column) fun _ => true

/-- The trees without the facet-blind groups. -/
def withoutBlind : List Node → List Node :=
  pruneList (fun _ => true) fun blind => !blind

theorem pruneList_all (ns : List Node) :
    pruneList (fun _ => true) (fun _ => true) ns = ns := by
  induction ns using forest with
  | nil => rfl
  | leaf l ns ih => simp [pruneList, prune, ih]
  | group children joiner blind ns ihc ih => simp [pruneList, prune, ihc, ih]

/-- Pruning keeps well-formed trees well-formed. -/
theorem firstMalformedOf?_pruneList {ns : List Node} (keepLeaf : Leaf → Bool)
    (keepGroup : Bool → Bool) (h : firstMalformedOf? ns = none) :
    firstMalformedOf? (pruneList keepLeaf keepGroup ns) = none := by
  induction ns using forest with
  | nil => exact h
  | leaf l ns ih =>
    obtain ⟨hl, hns⟩ := firstMalformedOf?_leaf.mp h
    rw [pruneList, prune]
    split
    · exact firstMalformedOf?_leaf.mpr ⟨hl, ih hns⟩
    · exact ih hns
  | group children joiner blind ns ihc ih =>
    obtain ⟨hc, hns⟩ := firstMalformedOf?_group.mp h
    rw [pruneList, prune]
    split
    · exact firstMalformedOf?_group.mpr ⟨ihc hc, ih hns⟩
    · exact ih hns

/-- Clauses may be left out after groups. -/
theorem pruneList_groups_first (keepLeaf : Leaf → Bool) (keepGroup : Bool → Bool) (ns : List Node) :
    pruneList keepLeaf (fun _ => true) (pruneList (fun _ => true) keepGroup ns) =
      pruneList keepLeaf keepGroup ns := by
  induction ns using forest with
  | nil => rfl
  | leaf l ns ih => simp [pruneList, prune, ih]
  | group children joiner blind ns ihc ih =>
    by_cases hkeep : keepGroup blind = true
    · simp [pruneList, prune, hkeep, ihc, ih]
    · simp [pruneList, prune, hkeep, ih]

/-! ### Contributions -/

mutual

/-- What a node of well-formed leaves contributes. -/
def contribution (r : ListRendering) (blind : Bool) : Node → Option Piece
  | .leaf l => (l.expr? r).map fun e => ⟨e, [(blind, l.column)]⟩
  | .group children _ facetBlind =>
    Piece.join (contributions r (blind || facetBlind) children)

/-- What the nodes of a list contribute, each with its connective. -/
def contributions (r : ListRendering) (blind : Bool) : List Node → List (Connective × Piece)
  | [] => []
  | n :: ns => ((contribution r blind n).map (n.connective, ·)).toList ++ contributions r blind ns

end

end Node

/-! ### Passes -/

/-- Whether a pass visits a group. -/
def Pass.visits (p : Pass) (blind : Bool) : Bool := !(blind && p = .facets)

/-- Whether a pass keeps a leaf that it visits. -/
def Pass.keeps (p : Pass) (l : Leaf) : Bool := !p.drops l.column

namespace Node

/-- **What a pass does**: it fails at the first malformed leaf that it visits, and otherwise gives the
contributions of what it keeps. -/
theorem compileList_eq (r : ListRendering) (pass : Pass) (blind : Bool) (ns : List Node) :
    compileList r pass blind ns =
      match firstMalformedOf? (pruneList (fun _ => true) pass.visits ns) with
      | some l => .error (.malformedLeaf l)
      | none => .ok (contributions r blind (pruneList pass.keeps pass.visits ns)) := by
  induction ns using forest generalizing blind with
  | nil => rfl
  | leaf l ns ih =>
    rw [compileList, ih]
    simp only [compile, Leaf.compile, pruneList, prune, if_true, List.singleton_append,
      firstMalformedOf?, firstMalformed?, Pass.keeps]
    -- a malformed leaf counts also when it is on the column that is left out
    by_cases hl : l.wellFormed = true
    · by_cases hdrop : pass.drops l.column = true
      · simp only [hl, hdrop]
        rcases firstMalformedOf? (pruneList (fun _ => true) pass.visits ns) with - | m <;> rfl
      · simp only [hl, hdrop]
        rcases firstMalformedOf? (pruneList (fun _ => true) pass.visits ns) with - | m
        · rcases he : l.expr? r with - | e <;> simp [contributions, contribution, he]
        · rfl
    · simp only [hl]
      rfl
  | group children joiner facetBlind ns ihc ih =>
    rw [compileList, ih, compile, pruneList, prune, pruneList, prune]
    rcases hvisit : pass.visits facetBlind with - | -
    · have hskip : (facetBlind && pass = .facets) = true := by simpa [Pass.visits] using hvisit
      rw [if_pos hskip]
      simp only [Bool.false_eq_true, if_false, List.nil_append]
      split <;> rfl
    · have hskip : ¬ (facetBlind && pass = .facets) = true := by
        simpa [Pass.visits, Decidable.imp_iff_not_or] using hvisit
      rw [if_neg hskip, ihc]
      simp only [if_true, List.singleton_append, firstMalformedOf?, firstMalformed?, contributions,
        contribution, connective]
      rcases firstMalformedOf? (pruneList (fun _ => true) pass.visits children) with - | m
      · rcases firstMalformedOf? (pruneList (fun _ => true) pass.visits ns) with - | m
        · rcases hjoin : Piece.join (contributions r (blind || facetBlind)
            (pruneList pass.keeps pass.visits children)) with - | p <;>
            simp only [ok_bind, hjoin] <;> rfl
        · rfl
      · rfl

end Node

/-! ### Filters -/

/-- What the trees of a list contribute as filters. -/
def Filters.ofPieces (pieces : List (Connective × Piece)) : Filters :=
  { exprs := pieces.map fun p => p.2.expr
    columns := .ofSeen (pieces.flatMap fun p => p.2.seen) }

theorem Filters.compile_eq (r : ListRendering) (pass : Pass) (nodes : List Node) :
    Filters.compile r pass nodes =
      match Node.firstMalformedOf? (Node.pruneList (fun _ => true) pass.visits nodes) with
      | some l => .error (.malformedLeaf l)
      | none =>
        .ok (.ofPieces (Node.contributions r false (Node.pruneList pass.keeps pass.visits nodes))) := by
  rw [Filters.compile, Node.compileList_eq]
  split <;> rfl

theorem Pass.visits_of_ne_facets {p : Pass} (h : p ≠ .facets) : p.visits = fun _ => true := by
  funext blind
  simp [Pass.visits, h]

theorem Pass.keeps_of_ne_without {p : Pass} (h : ∀ column, p ≠ .without column) :
    p.keeps = fun _ => true := by
  funext l
  simp [Pass.keeps, Pass.drops, h]

/-- Compiling in full. -/
theorem Filters.compile_full (r : ListRendering) (nodes : List Node) :
    Filters.compile r .full nodes =
      match Node.firstMalformedOf? nodes with
      | some l => .error (.malformedLeaf l)
      | none => .ok (.ofPieces (Node.contributions r false nodes)) := by
  rw [Filters.compile_eq, Pass.visits_of_ne_facets (by simp), Pass.keeps_of_ne_without (by simp),
    Node.pruneList_all]

/-- Compiling without a column: every leaf is checked, and the clauses on the column are left out. -/
theorem Filters.compile_without (r : ListRendering) (column : String) (nodes : List Node) :
    Filters.compile r (.without column) nodes =
      match Node.firstMalformedOf? nodes with
      | some l => .error (.malformedLeaf l)
      | none => .ok (.ofPieces (Node.contributions r false (Node.withoutColumn column nodes))) := by
  have hkeeps : (Pass.without column).keeps = fun l : Leaf => l.column ≠ column := by
    funext l
    simp [Pass.keeps, Pass.drops, eq_comm]
  rw [Filters.compile_eq, Pass.visits_of_ne_facets (by simp), hkeeps, Node.pruneList_all]
  rfl

/-- Compiling for facets: nothing inside a facet-blind group is looked at. -/
theorem Filters.compile_facets (r : ListRendering) (nodes : List Node) :
    Filters.compile r .facets nodes =
      match Node.firstMalformedOf? (Node.withoutBlind nodes) with
      | some l => .error (.malformedLeaf l)
      | none => .ok (.ofPieces (Node.contributions r false (Node.withoutBlind nodes))) := by
  have hvisits : Pass.facets.visits = fun blind => !blind := by
    funext blind
    simp [Pass.visits]
  rw [Filters.compile_eq, Pass.keeps_of_ne_without (by simp), hvisits]
  rfl

/-- **The passes are full passes over pruned trees.**  Without a column, the errors are those of the
whole trees, whether or not the malformed leaf is on the column; the expressions and the columns are
those of the trees without its clauses, with all groups kept.  For facets, everything is as if the
facet-blind groups were not there. -/
theorem Filters.compile_pruned (r : ListRendering) (nodes : List Node) :
    (∀ column,
      (∀ e, Filters.compile r (.without column) nodes = .error e ↔
        Filters.compile r .full nodes = .error e) ∧
      ∀ f, Filters.compile r .full nodes = .ok f →
        ∃ g, Filters.compile r (.without column) nodes = .ok g ∧
          Filters.compile r .full (Node.withoutColumn column nodes) = .ok g) ∧
    Filters.compile r .facets nodes = Filters.compile r .full (Node.withoutBlind nodes) := by
  refine ⟨fun column => ⟨fun e => ?_, fun f h => ?_⟩, ?_⟩
  · rw [Filters.compile_without, Filters.compile_full]
    rcases Node.firstMalformedOf? nodes with - | m
    · simp
    · rfl
  · rw [Filters.compile_full] at h
    rcases hbad : Node.firstMalformedOf? nodes with - | m
    · -- the trees are well-formed, and so they are after the clauses are deleted
      have hpruned : Node.firstMalformedOf? (Node.withoutColumn column nodes) = none :=
        Node.firstMalformedOf?_pruneList _ _ hbad
      refine ⟨_, by rw [Filters.compile_without, hbad], ?_⟩
      rw [Filters.compile_full, hpruned]
    · rw [hbad] at h
      cases h
  · rw [Filters.compile_facets, Filters.compile_full]

end SearchClient
