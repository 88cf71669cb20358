/-
SearchClient/Proofs/Filter/Meaning.lean

What filters mean.  An `Assignment` says which atoms are true: a column compared with a value, or tested
for its presence.  Membership is no atom of its own.  A column is among some values if it equals one of
them, and it is not among them if it differs from every one.  So a text that was parsed is true or false
(`Grammar.Disjunction.eval`), with AND binding tighter than OR as the grammar has it.

A filter tree is true or false as well, without a text (`Node.means`).  The members of a group that
contribute to a pass are cut into runs, a new one at each OR, and one run has to hold in full; the
connective of the first member joins it to nothing.

Main result: `Filters.compile_means`.  For either rendering of lists, the i-th filter has the one parse,
which means what the i-th contributing tree means.  So the two renderings mean the same.
-/
import SearchClient.Proofs.Filter.Columns
import SearchClient.Proofs.Filter.ReadBack

namespace SearchClient

open Grammar

/-! ### Runs -/

/-- The members of a row, cut before every OR.  The connective of the first member is not looked at. -/
def Connective.runs {α : Type} : List (Connective × α) → List (List α)
  | [] => []
  | [(_, x)] => [[x]]
  | (_, x) :: (.or, y) :: rest => [x] :: runs ((.or, y) :: rest)
  | (_, x) :: (.and, y) :: rest => (runs ((.and, y) :: rest)).modifyHead (x :: ·)

namespace Connective

variable {α β : Type}

/-- Cutting does not depend on what the members are. -/
theorem runs_map (f : α → β) (row : List (Connective × α)) :
    runs (row.map fun m => (m.1, f m.2)) = (runs row).map (List.map f) := by
  fun_induction runs row with
  | case1 => rfl
  | case2 joiner x => rfl
  | case3 joiner x y rest ih => simpa [runs] using ih
  | case4 joiner x y rest ih =>
    have hcut : runs (((joiner, x) :: (.and, y) :: rest).map fun m => (m.1, f m.2)) =
        (runs (((.and, y) :: rest).map fun m => (m.1, f m.2))).modifyHead (f x :: ·) := rfl
    rw [hcut, ih]
    cases runs ((.and, y) :: rest) <;> rfl

/-- AND alone makes one run. -/
theorem runs_and (joiner : Connective) (x : α) (xs : List α) :
    runs ((joiner, x) :: xs.map fun y => (.and, y)) = [x :: xs] := by
  induction xs generalizing joiner x with
  | nil => rfl
  | cons y xs ih => rw [List.map_cons, runs, ih, List.modifyHead_cons]

/-- OR alone makes a run of every member. -/
theorem runs_or (joiner : Connective) (x : α) (xs : List α) :
    runs ((joiner, x) :: xs.map fun y => (.or, y)) = (x :: xs).map fun y => [y] := by
  induction xs generalizing joiner x with
  | nil => rfl
  | cons y xs ih => rw [List.map_cons, runs, ih, List.map_cons (a := x)]

end Connective

/-! ### Truth of a parsed text -/

/-- Which atoms are true. -/
structure Assignment where
  compare : (column : List Char) → Comparison → Literal → Bool
  presence : (column : List Char) → Presence → Bool

namespace Grammar

variable (a : Assignment)

mutual

/-- Whether a condition holds. -/
def Primary.eval : Primary → Bool
  | .group inner => Disjunction.eval inner
  | .compare column comparison value => a.compare column comparison value
  | .presence column test => a.presence column test
  | .member column false first rest => (first :: rest).any (a.compare column .eq)
  | .member column true first rest => (first :: rest).all (a.compare column .ne)

def Conjunction.eval : Conjunction → Bool
  | .one p => Primary.eval p
  | .and p c => Primary.eval p && Conjunction.eval c

def Disjunction.eval : Disjunction → Bool
  | .one c => Conjunction.eval c
  | .or c d => Conjunction.eval c || Disjunction.eval d

end

/-! ### Clauses -/

/-- What AND joins. -/
def Conjunction.members : Conjunction → List Primary
  | .one p => [p]
  | .and p c => p :: c.members

/-- What OR joins. -/
def Disjunction.clauses : Disjunction → List (List Primary)
  | .one c => [c.members]
  | .or c d => c.members :: d.clauses

theorem Conjunction.eval_members : (c : Conjunction) → c.eval a = c.members.all (Primary.eval a)
  | .one p => by simp [Conjunction.eval, members]
  | .and p c => by rw [Conjunction.eval, eval_members c, members, List.all_cons]

theorem Disjunction.eval_clauses :
    (d : Disjunction) → d.eval a = d.clauses.any fun clause => clause.all (Primary.eval a)
  | .one c => by simp [Disjunction.eval, clauses, c.eval_members a]
  | .or c d => by
    rw [Disjunction.eval, eval_clauses d, c.eval_members a, clauses, List.any_cons]

theorem Disjunction.clauses_andFirst (p : Primary) (d : Disjunction) :
    (andFirst p d).clauses = d.clauses.modifyHead (p :: ·) := by
  cases d <;> rfl

/-- The clauses of a row are its runs. -/
theorem clauses_row (joiner : Connective) (p : Primary) (rest : List (Connective × Primary)) :
    (row p rest).clauses = Connective.runs ((joiner, p) :: rest) := by
  induction rest generalizing joiner p with
  | nil => rfl
  | cons m rest ih =>
    obtain ⟨next, q⟩ := m
    cases next with
    | and => rw [row, Disjunction.clauses_andFirst, ih .and, Connective.runs]
    | or => rw [row, Disjunction.clauses, ih .or, Connective.runs, Conjunction.members]

/-- A row holds if one of its runs holds in full. -/
def holds (row : List (Connective × Bool)) : Bool := (Connective.runs row).any fun run => run.all id

theorem eval_row (joiner : Connective) (p : Primary) (rest : List (Connective × Primary)) :
    (row p rest).eval a = holds (((joiner, p) :: rest).map fun m => (m.1, m.2.eval a)) := by
  rw [Disjunction.eval_clauses, clauses_row joiner, holds, Connective.runs_map, List.any_map]
  simp [Function.comp_def, List.all_map]

end Grammar

/-! ### Leaves -/

variable (a : Assignment)

/-- Whether a clause holds.  MATCHES asks for every value of its list, NOT IN for none of them, and any
other operator with a list for some value of it. -/
def Leaf.means (l : Leaf) : Bool :=
  let column := l.column.toList
  match l.operator, l.operand with
  | .presence test, _ => a.presence column test
  | .compare comparison, .scalar v => a.compare column comparison v.value
  | .list .all, operand => operand.values.all fun v => a.compare column .eq v.value
  | .list .notIn, operand => operand.values.all fun v => a.compare column .ne v.value
  | _, operand => operand.values.any fun v => a.compare column .eq v.value

namespace Grammar

theorem eval_comparisons (column : List Char) (comparison : Comparison) (joiner : Connective)
    (first : Literal) (rest : List Literal) :
    (comparisons column comparison joiner first rest).eval a =
      match joiner with
      | .and => (first :: rest).all (a.compare column comparison)
      | .or => (first :: rest).any (a.compare column comparison) := by
  have hrow : (comparisons column comparison joiner first rest).eval a =
      holds ((joiner, a.compare column comparison first) ::
        (rest.map (a.compare column comparison)).map fun b => (joiner, b)) := by
    rw [comparisons, Primary.eval, eval_row a joiner, List.map_cons, List.map_map, List.map_map]
    rfl
  rw [hrow, holds]
  cases joiner with
  | and =>
    rw [Connective.runs_and]
    simp [List.all_map]
  | or =>
    rw [Connective.runs_or]
    simp [List.any_map, Function.comp_def]

end Grammar

/-- What an operator says of a list of values does not depend on the rendering. -/
theorem Operator.eval_listTree (r : ListRendering) (operator : Operator) (column : List Char)
    (first : Literal) (rest : List Literal) :
    (operator.listTree r column first rest).eval a =
      match operator with
      | .list .all => (first :: rest).all (a.compare column .eq)
      | .list .notIn => (first :: rest).all (a.compare column .ne)
      | _ => (first :: rest).any (a.compare column .eq) := by
  cases operator with
  | compare _ | presence _ => cases r <;> simp [listTree, eval_comparisons, Primary.eval]
  | list test => cases test <;> cases r <;> simp [listTree, eval_comparisons, Primary.eval]

/-- A well-formed leaf says what it means, unless it says nothing. -/
theorem Leaf.eval_tree? {l : Leaf} (r : ListRendering) (h : l.wellFormed = true) :
    (l.tree? r).map (Primary.eval a) = if l.contributes then some (l.means a) else none := by
  obtain ⟨column, operator, operand, joiner⟩ := l
  simp only [wellFormed, Bool.and_eq_true] at h
  obtain ⟨-, h⟩ := h
  cases operator with
  | presence test =>
    cases operand with
    | none => rfl
    | scalar v | list vs => cases h
  | compare comparison =>
    cases operand with
    | none => cases h
    | scalar v => rfl
    | list vs =>
      cases vs with
      | nil => rfl
      | cons v vs =>
        simp [tree?, contributes, means, Operand.values, Operator.eval_listTree, List.any_map,
          Function.comp_def]
  | list test =>
    cases operand with
    | none => cases h
    | scalar v =>
      cases test <;>
        simp [tree?, contributes, means, Operand.values, Operator.eval_listTree]
    | list vs =>
      cases vs with
      | nil => rfl
      | cons v vs =>
        cases test <;>
          simp [tree?, contributes, means, Operand.values, Operator.eval_listTree, List.any_map,
            List.all_map, Function.comp_def]

/-! ### Trees -/

namespace Node

mutual

/-- Whether a node leaves something in the filters of a pass. -/
def contributes (pass : Pass) : Node → Bool
  | .leaf l => pass.keeps l && l.contributes
  | .group children _ facetBlind => pass.visits facetBlind && someContributes pass children

def someContributes (pass : Pass) : List Node → Bool
  | [] => false
  | n :: ns => contributes pass n || someContributes pass ns

end

mutual

/-- Whether a node holds: a clause by itself, and a group if one of its runs holds in full. -/
def means (pass : Pass) (a : Assignment) : Node → Bool
  | .leaf l => l.means a
  | .group children _ _ => holds (meanings pass a children)

/-- Which of the contributing nodes of a list hold, each with its connective. -/
def meanings (pass : Pass) (a : Assignment) : List Node → List (Connective × Bool)
  | [] => []
  | n :: ns =>
    if contributes pass n then (n.connective, means pass a n) :: meanings pass a ns
    else meanings pass a ns

end

theorem meanings_eq (pass : Pass) (ns : List Node) :
    meanings pass a ns =
      (ns.filter (contributes pass)).map fun n => (n.connective, n.means pass a) := by
  induction ns with
  | nil => rfl
  | cons n ns ih =>
    rw [meanings, ih, List.filter_cons]
    split <;> rfl

theorem someContributes_eq (pass : Pass) (ns : List Node) :
    someContributes pass ns = !(meanings pass a ns).isEmpty := by
  induction ns with
  | nil => rfl
  | cons n ns ih =>
    rw [someContributes, meanings, ih]
    split
    · next h => simp [h]
    · next h => simp [h]

theorem eval_groupOf? (prims : List (Connective × Primary)) :
    (groupOf? prims).map (Primary.eval a) =
      if prims.isEmpty then none else some (holds (prims.map fun m => (m.1, m.2.eval a))) := by
  rcases prims with - | ⟨⟨joiner, first⟩, rest⟩
  · rfl
  · rw [groupOf?, Option.map_some, Primary.eval, eval_row a joiner]
    rfl

/-- One more node in front, pruned. -/
theorem eval_trees_cons {r : ListRendering} {pass : Pass} {n pruned : Node} {ns prunedRest : List Node}
    (hjoiner : pruned.connective = n.connective)
    (hn : (pruned.tree? r).map (Primary.eval a) =
      if n.contributes pass then some (n.means pass a) else none)
    (hns : (trees r prunedRest).map (fun m => (m.1, m.2.eval a)) = meanings pass a ns) :
    (trees r (pruned :: prunedRest)).map (fun m => (m.1, m.2.eval a)) =
      meanings pass a (n :: ns) := by
  rw [trees_cons, List.map_append, hns, meanings, ← hjoiner]
  by_cases hcontributes : n.contributes pass = true
  · rw [if_pos hcontributes] at hn ⊢
    obtain ⟨p, hp, heval⟩ := Option.map_eq_some_iff.mp hn
    rw [hp, ← heval]
    rfl
  · rw [if_neg hcontributes] at hn ⊢
    rw [Option.map_eq_none_iff.mp hn]
    rfl

/-- What the trees say that a pass keeps is what the trees mean to the pass. -/
theorem eval_trees (r : ListRendering) (pass : Pass) {ns : List Node}
    (h : firstMalformedOf? (pruneList pass.keeps pass.visits ns) = none) :
    (trees r (pruneList pass.keeps pass.visits ns)).map (fun m => (m.1, m.2.eval a)) =
      meanings pass a ns := by
  induction ns using forest with
  | nil => rfl
  | leaf l ns ih =>
    rw [pruneList, prune] at h ⊢
    by_cases hkeep : pass.keeps l = true
    · rw [if_pos hkeep] at h ⊢
      obtain ⟨hl, hns⟩ := firstMalformedOf?_leaf.mp h
      refine eval_trees_cons a rfl ?_ (ih hns)
      rw [tree?, l.eval_tree? a r hl, contributes, hkeep, Bool.true_and, means]
    · rw [if_neg hkeep] at h ⊢
      simpa [meanings, contributes, hkeep] using ih h
  | group children joiner facetBlind ns ihc ih =>
    rw [pruneList, prune] at h ⊢
    by_cases hvisit : pass.visits facetBlind = true
    · rw [if_pos hvisit] at h ⊢
      obtain ⟨hc, hns⟩ := firstMalformedOf?_group.mp h
      refine eval_trees_cons a rfl ?_ (ih hns)
      have hsome : someContributes pass children =
          !(trees r (pruneList pass.keeps pass.visits children)).isEmpty := by
        rw [someContributes_eq a, ← ihc hc, List.isEmpty_map]
      rw [tree?, eval_groupOf?, ihc hc, contributes, hvisit, Bool.true_and, hsome, means]
      cases (trees r (pruneList pass.keeps pass.visits children)).isEmpty <;> rfl
    · rw [if_neg hvisit] at h ⊢
      simpa [meanings, contributes, hvisit] using ih h

/-- So they agree tree by tree, whatever is true. -/
theorem trees_meant (r : ListRendering) (pass : Pass) {ns : List Node}
    (h : firstMalformedOf? (pruneList pass.keeps pass.visits ns) = none) :
    List.Forall₂ (fun m n => ∀ a, m.2.eval a = n.means pass a)
      (trees r (pruneList pass.keeps pass.visits ns)) (ns.filter (contributes pass)) := by
  have heval : ∀ a, (trees r (pruneList pass.keeps pass.visits ns)).map (fun m => (m.1, m.2.eval a)) =
      (ns.filter (contributes pass)).map fun n => (n.connective, n.means pass a) := fun a => by
    rw [eval_trees a r pass h, meanings_eq]
  have hlength : (trees r (pruneList pass.keeps pass.visits ns)).length =
      (ns.filter (contributes pass)).length := by
    simpa using congrArg List.length (heval ⟨fun _ _ _ => true, fun _ _ => true⟩)
  refine List.forall₂_iff_get.mpr ⟨hlength, fun i hi hi' a => ?_⟩
  have hget := congrArg (fun l => (l[i]?).map Prod.snd) (heval a)
  simpa [hi, hi'] using hget

end Node

/-! ### Filters -/

/-- One relation after another, element by element. -/
theorem forall₂_through {α β γ : Type} {R : α → β → Prop} {S : β → γ → Prop} {T : α → γ → Prop}
    (hthrough : ∀ x y z, R x y → S y z → T x z) {xs : List α} {ys : List β} {zs : List γ}
    (hR : List.Forall₂ R xs ys) (hS : List.Forall₂ S ys zs) : List.Forall₂ T xs zs := by
  induction hR generalizing zs with
  | nil =>
    cases hS
    exact .nil
  | cons hxy _ ih =>
    cases hS with
    | cons hyz hmore => exact .cons (hthrough _ _ _ hxy hyz) (ih hmore)

/-- The text has one parse, which is true under the same assignments as the node. -/
def Node.IsMeantBy (pass : Pass) (text : String) (n : Node) : Prop :=
  ∃ d, (∀ d', Parses text.toList d' ↔ d' = d) ∧ ∀ a, d.eval a = n.means pass a

/-- The texts have one parse each, and these are true under the same assignments. -/
def MeanAlike (text text' : String) : Prop :=
  ∃ d d', (∀ e, Parses text.toList e ↔ e = d) ∧ (∀ e, Parses text'.toList e ↔ e = d') ∧
    ∀ a, d.eval a = d'.eval a

theorem Node.IsMeantBy.meanAlike {pass : Pass} {text text' : String} {n : Node}
    (h : n.IsMeantBy pass text) (h' : n.IsMeantBy pass text') : MeanAlike text text' := by
  obtain ⟨d, hd, heval⟩ := h
  obtain ⟨d', hd', heval'⟩ := h'
  exact ⟨d, d', hd, hd', fun a => by rw [heval, heval']⟩

/-- The filters of what a pass keeps, in order, mean what the contributing trees mean. -/
theorem Filters.texts_meant (r : ListRendering) (pass : Pass) {nodes : List Node}
    (h : Node.firstMalformedOf? (Node.pruneList pass.keeps pass.visits nodes) = none) :
    List.Forall₂ (fun text n => n.IsMeantBy pass text)
      (Filters.ofPieces
        (Node.contributions r false (Node.pruneList pass.keeps pass.visits nodes))).texts
      (nodes.filter (Node.contributes pass)) := by
  rw [Filters.texts, Filters.ofPieces, List.map_map, List.forall₂_map_left_iff]
  refine forall₂_through ?_ (Node.contributions_reads r false h) (Node.trees_meant r pass h)
  intro piece m n hread hmeant
  refine ⟨.one (.one m.2), hread.2.only_parse.2, fun a => ?_⟩
  rw [← hmeant a, Disjunction.eval, Conjunction.eval]

/-- **Both renderings mean the trees.**  A pass over a list of trees fails the same way under either
rendering of lists, or it succeeds under both.  Then the two record the same columns, there is a filter
of each for every tree that contributes, and the two filters of a tree mean the same, which is what the
tree means. -/
theorem Filters.compile_means (pass : Pass) (nodes : List Node) :
    (∃ e, ∀ r, Filters.compile r pass nodes = .error e) ∨
    ∃ f g, Filters.compile .membership pass nodes = .ok f ∧
      Filters.compile .orChain pass nodes = .ok g ∧
      f.columns = g.columns ∧
      List.Forall₂ MeanAlike f.texts g.texts ∧
      List.Forall₂ (fun text n => n.IsMeantBy pass text) f.texts
        (nodes.filter (Node.contributes pass)) ∧
      List.Forall₂ (fun text n => n.IsMeantBy pass text) g.texts
        (nodes.filter (Node.contributes pass)) := by
  rcases hbad : Node.firstMalformedOf? (Node.pruneList (fun _ => true) pass.visits nodes) with - | l
  · -- the leaves that are left out as well are well-formed, so those that are kept are
    have hkept : Node.firstMalformedOf? (Node.pruneList pass.keeps pass.visits nodes) = none := by
      rw [← Node.pruneList_groups_first]
      exact Node.firstMalformedOf?_pruneList _ _ hbad
    have hcompile : ∀ r, Filters.compile r pass nodes = .ok (.ofPieces
        (Node.contributions r false (Node.pruneList pass.keeps pass.visits nodes))) := fun r => by
      rw [Filters.compile_eq, hbad]
    have hf := Filters.texts_meant .membership pass hkept
    have hg := Filters.texts_meant .orChain pass hkept
    have halike : List.Forall₂ MeanAlike _ _ :=
      forall₂_through (fun _ _ _ h h' => h.meanAlike h') hf hg.flip
    refine .inr ⟨_, _, hcompile .membership, hcompile .orChain, ?_, halike, hf, hg⟩
    rw [Filters.ofPieces, Filters.ofPieces, Node.seen_contributions .membership false hkept,
      Node.seen_contributions .orChain false hkept]
  · refine .inl ⟨.malformedLeaf l, fun r => ?_⟩
    rw [Filters.compile_eq, hbad]

/-- Inside a group an OR chain stands in its own brackets, and the connective of the first child that is
left joins nothing. -/
example :
    (Filters.compile .orChain (.without "y")
      [.group
        [.leaf { column := "y", operator := .presence .isNull },
         .leaf { column := "c", operator := .list .isIn, operand := .list [.int 1, .int 2],
                 connective := .or },
         .leaf { column := "d", operator := .list .notIn, operand := .list [.int 3, .int 4] }]
        .and false]).toOption.map Filters.texts =
      some ["(('c' = 1 OR 'c' = 2) AND ('d' != 3 AND 'd' != 4))"] := by
  decide +kernel

end SearchClient
