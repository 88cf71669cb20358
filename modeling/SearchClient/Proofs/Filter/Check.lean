/-
SearchClient/Proofs/Filter/Check.lean

Checking and compiling reject the same trees.  The check of a tree that is added to a query, and the
passes that compile it, go down the tree each in a way of its own.  Both are measured against the leaves
of the tree in a row, from left to right (`Node.leaves`), of which a pass visits those that stand in no
group that it skips (`Pass.visited`).

A leaf is checked once, before anything is written, and what was checked has a literal for each of its
values (`Leaf.literal?_of_wellFormed`).  So a compiler that asks again when it writes a value, and fails
where there is no literal, never gets to fail there, whatever its error would be
(`Leaf.compileOr_eq`).

Main result: `Node.check_agrees`.  A tree is refused by its check exactly if it is refused by the
compiler, and both times the error words the first malformed leaf.
-/
import SearchClient.Proofs.Filter.Columns
import SearchClient.Query.Build

namespace SearchClient

/-! ### Leaves in a row -/

/-- The leaves of some trees, from left to right. -/
def Node.leaves (ns : List Node) : List Leaf := (placesList false ns).map Prod.snd

/-- The leaves that a pass looks at, from left to right. -/
def Pass.visited (pass : Pass) (ns : List Node) : List Leaf :=
  ((Node.placesList false ns).filter fun p => pass.visits p.1).map Prod.snd

/-- The first malformed one of some leaves. -/
def FirstMalformed (ls : List Leaf) (l : Leaf) : Prop :=
  ∃ before after, ls = before ++ l :: after ∧ l.wellFormed = false ∧
    ∀ m ∈ before, m.wellFormed = true

/-- A value that asks for some leaves to be well-formed. -/
def checked {α : Type} (ls : List Leaf) (x : α) : Except ClientError α :=
  match ls.find? fun l => !l.wellFormed with
  | some l => .error (.malformedLeaf l)
  | none => .ok x

section

variable {α : Type} {ls : List Leaf} {x : α}

theorem checked_error_iff {e : ClientError} :
    checked ls x = .error e ↔ ∃ l, FirstMalformed ls l ∧ e = .malformedLeaf l := by
  have hfirst : ∀ l, FirstMalformed ls l ↔ ls.find? (fun m => !m.wellFormed) = some l := fun l => by
    rw [List.find?_eq_some_iff_append]
    constructor
    · rintro ⟨before, after, hsplit, hl, hbefore⟩
      exact ⟨by simp [hl], before, after, hsplit, by simpa using hbefore⟩
    · rintro ⟨hl, before, after, hsplit, hbefore⟩
      exact ⟨before, after, hsplit, by simpa using hl, by simpa using hbefore⟩
  simp only [hfirst]
  unfold checked
  split
  · next l hfind => simp [hfind, eq_comm]
  · next hfind => simp [hfind]

theorem checked_fails_iff : (∃ e, checked ls x = .error e) ↔ ∃ l ∈ ls, l.wellFormed = false := by
  unfold checked
  split
  · next l hfind =>
    have hl : l.wellFormed = false := by simpa using List.find?_some hfind
    exact iff_of_true ⟨_, rfl⟩ ⟨l, List.mem_of_find?_eq_some hfind, hl⟩
  · next hfind => simpa using hfind

theorem checked_succeeds_iff : (∃ y, checked ls x = .ok y) ↔ ¬ ∃ e, checked ls x = .error e := by
  unfold checked
  split <;> simp

end

namespace Node

/-- Which leaves there are does not depend on where the trees stand. -/
theorem map_snd_placesList (blind : Bool) (ns : List Node) :
    (placesList blind ns).map Prod.snd = leaves ns := by
  induction ns using forest generalizing blind with
  | nil => rfl
  | leaf l ns ih =>
    rw [leaves, placesList, placesList, List.map_append, List.map_append, ih blind, ih false]
    rfl
  | group children joiner facetBlind ns ihc ih =>
    rw [leaves, placesList, placesList, List.map_append, List.map_append, ih blind, ih false,
      places, places, ihc, ihc]

theorem leaves_leaf (l : Leaf) (ns : List Node) : leaves (.leaf l :: ns) = l :: leaves ns := rfl

theorem leaves_group (children ns : List Node) (joiner : Connective) (facetBlind : Bool) :
    leaves (.group children joiner facetBlind :: ns) = leaves children ++ leaves ns := by
  rw [leaves, placesList, List.map_append, places, map_snd_placesList, map_snd_placesList]

/-- Going down the trees finds what going along the leaves finds. -/
theorem firstMalformedOf?_eq_find? (ns : List Node) :
    firstMalformedOf? ns = (leaves ns).find? fun l => !l.wellFormed := by
  induction ns using forest with
  | nil => rfl
  | leaf l ns ih =>
    rw [firstMalformedOf?, firstMalformed?, ih, leaves_leaf, List.find?_cons]
    rcases hl : l.wellFormed with - | - <;> rfl
  | group children joiner facetBlind ns ihc ih =>
    rw [firstMalformedOf?, firstMalformed?, ihc, ih, leaves_group, List.find?_append]

/-- Everything inside a facet-blind group stands in one. -/
theorem blind_of_mem_placesList {ns : List Node} {p : Bool × Leaf} (h : p ∈ placesList true ns) :
    p.1 = true := by
  induction ns using forest with
  | nil => cases h
  | leaf l ns ih =>
    rcases List.mem_append.mp h with h | h
    · obtain rfl : p = (true, l) := by simpa [places] using h
      rfl
    · exact ih h
  | group children joiner facetBlind ns ihc ih =>
    rcases List.mem_append.mp h with h | h
    · exact ihc h
    · exact ih h

/-- What stands in a group that a pass skips is what it does not look at. -/
theorem placesList_visited (pass : Pass) {blind : Bool} (h : pass.visits blind = true)
    (ns : List Node) :
    placesList blind (pruneList (fun _ => true) pass.visits ns) =
      (placesList blind ns).filter fun p => pass.visits p.1 := by
  induction ns using forest generalizing blind with
  | nil => rfl
  | leaf l ns ih =>
    rw [pruneList, prune, if_pos rfl, placesList, List.filter_append, ← ih h]
    simp [placesList, places, h]
  | group children joiner facetBlind ns ihc ih =>
    rw [pruneList, prune, placesList, places, List.filter_append, ← ih h]
    by_cases hvisit : pass.visits facetBlind = true
    · have hinside : pass.visits (blind || facetBlind) = true := by
        cases blind with
        | false => exact hvisit
        | true => exact h
      rw [if_pos hvisit, ← ihc hinside]
      simp [placesList, places]
    · -- all that is inside counts as facet-blind, and such a group is skipped
      obtain rfl : facetBlind = true := by
        cases facetBlind with
        | true => rfl
        | false => exact absurd rfl hvisit
      have hnone : ((placesList (blind || true) children).filter fun p => pass.visits p.1) = [] := by
        rw [Bool.or_true]
        refine List.filter_eq_nil_iff.mpr fun p hp => ?_
        rw [blind_of_mem_placesList hp]
        exact hvisit
      rw [if_neg hvisit, hnone]
      rfl

end Node

/-! ### Errors -/

/-- Compiling asks for the leaves that the pass visits. -/
theorem Filters.compile_eq_checked (r : ListRendering) (pass : Pass) (nodes : List Node) :
    Filters.compile r pass nodes = checked (pass.visited nodes)
      (.ofPieces (Node.contributions r false (Node.pruneList pass.keeps pass.visits nodes))) := by
  have hvisited : pass.visits false = true := rfl
  rw [compile_eq, Node.firstMalformedOf?_eq_find?, Node.leaves, Node.placesList_visited pass hvisited]
  rfl

theorem Pass.visited_full (nodes : List Node) : Pass.full.visited nodes = Node.leaves nodes := by
  rw [visited, Pass.visits_of_ne_facets (by simp), Node.leaves, List.filter_eq_self.mpr fun _ _ => rfl]

/-- The check of a tree asks for all its leaves. -/
theorem Node.check_eq_checked (n : Node) : n.check = checked (leaves [n]) () := by
  have hone : n.firstMalformed? = firstMalformedOf? [n] := by simp [firstMalformedOf?]
  rw [check, hone, firstMalformedOf?_eq_find?]
  rfl

/-! ### Writing values -/

/-- Every value of a well-formed leaf has a literal. -/
theorem Leaf.literal?_of_wellFormed {l : Leaf} (h : l.wellFormed = true) {v : Scalar}
    (hv : v ∈ l.operand.values) : v.literal? = some v.value :=
  Scalar.literal?_eq_value (List.all_eq_true.mp (finite_of_wellFormed h) v hv)

/-- The literal of a value, or else an error. -/
def Scalar.literalOr (late : ClientError) (v : Scalar) : Except ClientError Literal :=
  match v.literal? with
  | some x => .ok x
  | none => .error late

/-- The expression of the values of a list, if there are any. -/
def ListRendering.exprOf? (r : ListRendering) (operator : Operator) (column : List Char) :
    List Literal → Option Expr
  | [] => none
  | first :: rest => some (r.expr operator column first rest)

/-- The expression of a leaf, or an error if one of its values has no literal. -/
def Leaf.exprOr (late : ClientError) (r : ListRendering) (l : Leaf) :
    Except ClientError (Option Expr) :=
  match l.operator, l.operand with
  | .presence test, _ => .ok (some (.presence l.column.toList test))
  | .compare comparison, .scalar v => do
    let x ← v.literalOr late
    .ok (some (.compare l.column.toList comparison x))
  | operator, operand => do
    let literals ← operand.values.mapM (Scalar.literalOr late)
    .ok (r.exprOf? operator l.column.toList literals)

/-- What a leaf contributes, with an error of its own for values that have no literal. -/
def Leaf.compileOr (late : ClientError) (r : ListRendering) (pass : Pass) (blind : Bool) (l : Leaf) :
    Except ClientError (Option Piece) :=
  if !l.wellFormed then .error (.malformedLeaf l)
  else if pass.drops l.column then .ok none
  else do
    let e? ← l.exprOr late r
    .ok (e?.map fun e => ⟨e, [(blind, l.column)]⟩)

theorem Leaf.exprOr_eq (late : ClientError) (r : ListRendering) {l : Leaf}
    (h : l.wellFormed = true) : l.exprOr late r = .ok (l.expr? r) := by
  have hliteral : ∀ v ∈ l.operand.values, v.literalOr late = .ok v.value := fun v hv => by
    rw [Scalar.literalOr, literal?_of_wellFormed h hv]
  have hlist : l.operand.values.mapM (Scalar.literalOr late) =
      .ok (l.operand.values.filterMap Scalar.literal?) := by
    rw [mapM_ok hliteral, Scalar.filterMap_literal? (finite_of_wellFormed h)]
  have hvalues : ∀ operator : Operator, (do
      let literals ← l.operand.values.mapM (Scalar.literalOr late)
      .ok (r.exprOf? operator l.column.toList literals)) =
      (.ok (r.exprOf? operator l.column.toList (l.operand.values.filterMap Scalar.literal?)) :
        Except ClientError (Option Expr)) := fun operator => by
    rw [hlist, ok_bind]
  obtain ⟨column, operator, operand, joiner⟩ := l
  cases operator with
  | presence test => rfl
  | list test => exact hvalues (.list test)
  | compare comparison =>
    cases operand with
    | none => exact hvalues (.compare comparison)
    | list vs => exact hvalues (.compare comparison)
    | scalar v =>
      have hv : v ∈ (Operand.scalar v).values := List.mem_singleton_self v
      simp only [exprOr, expr?, hliteral v hv, literal?_of_wellFormed h hv, ok_bind, Option.map_some]

/-- The second error is never raised. -/
theorem Leaf.compileOr_eq (late : ClientError) (r : ListRendering) (pass : Pass) (blind : Bool)
    (l : Leaf) : l.compileOr late r pass blind = l.compile r pass blind := by
  rw [compileOr, compile]
  rcases hl : l.wellFormed with - | -
  · rfl
  · rw [exprOr_eq late r hl]
    rfl

/-! ### Agreement -/

/-- **Checking and compiling agree.**  A tree passes its check exactly if it compiles in full, under
either rendering; both fail with the same error, which words the first malformed leaf from left to right.
A pass over any trees fails exactly if some leaf that it visits is malformed, and at the first of these.
And when a leaf is written it can no longer fail for a value: what the compiler would answer to that makes
no difference. -/
theorem Node.check_agrees (r : ListRendering) :
    (∀ n : Node,
      (n.check = .ok () ↔ ∃ f, Filters.compile r .full [n] = .ok f) ∧
      (∀ e, n.check = .error e ↔ Filters.compile r .full [n] = .error e) ∧
      ∀ e, n.check = .error e ↔ ∃ l, FirstMalformed (leaves [n]) l ∧ e = .malformedLeaf l ∧
        e.message = "Cannot parse where clause: " ++ (Node.leaf l).toJson.text) ∧
    (∀ pass nodes,
      ((∃ e, Filters.compile r pass nodes = .error e) ↔
        ∃ l ∈ pass.visited nodes, l.wellFormed = false) ∧
      ∀ e, Filters.compile r pass nodes = .error e ↔
        ∃ l, FirstMalformed (pass.visited nodes) l ∧ e = .malformedLeaf l) ∧
    ∀ late pass blind l, Leaf.compileOr late r pass blind l = l.compile r pass blind := by
  have hfull : ∀ n : Node, Filters.compile r .full [n] = checked (leaves [n])
      (.ofPieces (contributions r false (pruneList Pass.full.keeps Pass.full.visits [n]))) := fun n => by
    rw [Filters.compile_eq_checked, Pass.visited_full]
  refine ⟨fun n => ?_, fun pass nodes => ?_, fun late pass blind l => l.compileOr_eq late r pass blind⟩
  · rw [check_eq_checked, hfull]
    refine ⟨?_, fun e => ?_, fun e => ?_⟩
    · have hunit : checked (leaves [n]) () = .ok () ↔ ∃ y, checked (leaves [n]) () = .ok y :=
        ⟨fun h => ⟨(), h⟩, fun ⟨_, h⟩ => h⟩
      rw [hunit, checked_succeeds_iff, checked_succeeds_iff, checked_fails_iff, checked_fails_iff]
    · rw [checked_error_iff, checked_error_iff]
    · rw [checked_error_iff]
      refine exists_congr fun l => and_congr_right fun _ => ⟨?_, And.left⟩
      rintro rfl
      exact ⟨rfl, rfl⟩
  · rw [Filters.compile_eq_checked]
    exact ⟨checked_fails_iff, fun e => checked_error_iff⟩

end SearchClient
