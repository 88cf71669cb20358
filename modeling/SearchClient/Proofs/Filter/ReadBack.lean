/-
SearchClient/Proofs/Filter/ReadBack.lean

Compiled filters can be read back.  Whatever characters the columns and the text values of a tree
hold, the text of its filter has exactly one parse, and that parse is what the tree says: nothing in
a literal can end it early, and no blank or parenthesis is missing between two parts.

`Reads e p` is the invariant that carries the induction over a tree.  The text of `e` scans to
tokens that derive `p`, in front of any rest that does not continue a word; the arbitrary rest is
what lets a member of a group be followed by a connective or by the closing parenthesis.

Main result: `compile_parses`, over all filter trees and both renderings of lists.
-/
import Mathlib.Data.List.Forall2
import SearchClient.Proofs.Filter.Prune
import SearchClient.Proofs.Filter.Tree

namespace SearchClient

open Grammar Text

namespace Grammar

/-! ### Values -/

/-- A number is known by the text of a number. -/
def Spelled (v : Literal) : Prop := ∀ digits, v = .number digits → isNumeral digits = true

theorem spelled_value (v : Scalar) : Spelled v.value := by
  intro digits h
  cases v with
  | bool b => cases h
  | int i =>
    obtain rfl := Literal.number.inj h
    exact isNumeral_intText _
  | float x =>
    obtain rfl := Literal.number.inj h
    exact isNumeral_layout _
  | text s => cases h

theorem isWordChar_of_isDigit {c : Char} (h : c.isDigit = true) : isWordChar c = true := by
  simp [isWordChar, Char.isAlphanum, h]

theorem isWordChar_of_isUnsigned {cs : List Char} (h : isUnsigned cs = true) :
    ∀ c ∈ cs, isWordChar c = true := by
  intro c hc
  simp only [isUnsigned, Bool.and_eq_true] at h
  rw [← List.takeWhile_append_dropWhile (p := Char.isDigit) (l := cs), List.mem_append] at hc
  rcases hc with hc | hc
  · exact isWordChar_of_isDigit (List.all_eq_true.mp List.all_takeWhile c hc)
  · rcases hdrop : cs.dropWhile Char.isDigit with - | ⟨d, places⟩
    · rw [hdrop] at hc
      cases hc
    · rw [hdrop] at h hc
      simp only [Bool.and_eq_true, decide_eq_true_eq, isDigits] at h
      rcases List.mem_cons.mp hc with rfl | hc
      · rw [h.2.1]
        rfl
      · exact isWordChar_of_isDigit (List.all_eq_true.mp h.2.2.2 c hc)

theorem isWordChar_of_isNumeral {cs : List Char} (h : isNumeral cs = true) :
    ∀ c ∈ cs, isWordChar c = true := by
  unfold isNumeral at h
  split at h
  · intro c hc
    rcases List.mem_cons.mp hc with rfl | hc
    · rfl
    · exact isWordChar_of_isUnsigned h c hc
  · exact isWordChar_of_isUnsigned h

/-- No keyword is the text of a number. -/
theorem wordToken?_of_isNumeral {cs : List Char} (h : isNumeral cs = true) :
    wordToken? cs = some (.number cs) := by
  have hnone : (Keyword.all.find? fun k => k.chars = cs) = none := by
    refine List.find?_eq_none.mpr fun k hk heq => ?_
    obtain rfl := of_decide_eq_true heq
    revert h
    simp only [Keyword.all, List.mem_cons, List.not_mem_nil, or_false] at hk
    rcases hk with rfl | rfl | rfl | rfl | rfl | rfl | rfl | rfl | rfl <;> decide
  simp [wordToken?, hnone, h]

theorem scan_value {v : Literal} (hv : Spelled v) {rest : List Char} (hrest : WordEnds rest) :
    scan (v.chars ++ rest) = (scan rest).map (valueToken v :: ·) := by
  cases v with
  | flag b => cases b with
    | true => exact scan_keyword (.flag true) hrest
    | false => exact scan_keyword (.flag false) hrest
  | number digits =>
    have h := hv digits rfl
    exact scan_word (isWordChar_of_isNumeral h) (wordToken?_of_isNumeral h) hrest
  | text s => exact scan_quote s rest

theorem scan_list {first : Literal} {values : List Literal} (hfirst : Spelled first)
    (hvalues : ∀ v ∈ values, Spelled v) (rest : List Char) :
    scan (Literal.listChars (first :: values) ++ ']' :: rest) =
      (scan rest).map (listTokens first values ++ .mark .closeList :: ·) := by
  induction values generalizing first with
  | nil =>
    rw [Literal.listChars, scan_value hfirst (wordEnds_cons rfl _),
      scan_mark .closeList (c := ']') rfl]
    simp [listTokens, Function.comp_def]
  | cons second values ih =>
    have hmore := ih (hvalues second (by simp)) fun v hv => hvalues v (by simp [hv])
    have hchars : Literal.listChars (first :: second :: values) ++ ']' :: rest =
        first.chars ++ ',' :: (Literal.listChars (second :: values) ++ ']' :: rest) := by
      simp [Literal.listChars]
    rw [hchars, scan_value hfirst (wordEnds_cons rfl _), scan_mark .comma (c := ',') rfl, hmore]
    simp [listTokens, Function.comp_def]

/-- Keywords with a blank between each two. -/
theorem scan_keywords (k : Keyword) (ks : List Keyword) {rest : List Char}
    (hrest : WordEnds rest) :
    scan (k.chars ++ (ks.flatMap (fun l => ' ' :: l.chars) ++ rest)) =
      (scan rest).map ((k :: ks).map .keyword ++ ·) := by
  induction ks generalizing k with
  | nil => simpa using scan_keyword k hrest
  | cons l ks ih =>
    simp only [List.flatMap_cons, List.cons_append, List.append_assoc]
    rw [scan_keyword k (wordEnds_cons rfl _), scan_blank, ih]
    simp [Function.comp_def]

theorem scan_test (test : Presence) {rest : List Char} (hrest : WordEnds rest) :
    scan (test.text.toList ++ rest) = (scan rest).map (testTokens test ++ ·) := by
  cases test with
  | isEmpty => exact scan_keywords .is [.empty] hrest
  | isNotEmpty => exact scan_keywords .is [.not, .empty] hrest
  | isNull => exact scan_keywords .is [.null] hrest
  | isNotNull => exact scan_keywords .is [.not, .null] hrest

theorem scan_member (negated : Bool) (rest : List Char) :
    scan ((if negated then "NOT IN" else "IN").toList ++ ' ' :: rest) =
      (scan rest).map (memberTokens negated ++ ·) := by
  have hblank : WordEnds (' ' :: rest) := wordEnds_cons rfl _
  rw [← scan_blank rest]
  cases negated with
  | false => exact scan_keywords .member [] hblank
  | true => exact scan_keywords .not [.member] hblank

/-! ### Expressions -/

/-- The text of the expression is the text of the primary, whatever follows it. -/
def Reads (e : Expr) (p : Primary) : Prop :=
  ∃ ts, IsPrimary ts p ∧ ∀ rest, WordEnds rest →
    scan (e.chars ++ rest) = (scan rest).map (ts ++ ·)

theorem reads_presence (column : List Char) (test : Presence) :
    Reads (.presence column test) (.presence column test) := by
  refine ⟨_, .presence column test, fun rest hrest => ?_⟩
  simp only [Expr.chars, List.append_assoc, List.cons_append]
  rw [scan_quote, scan_blank, scan_test test hrest]
  simp [Function.comp_def]

theorem reads_compare (column : List Char) (comparison : Comparison) {v : Literal}
    (hv : Spelled v) : Reads (.compare column comparison v) (.compare column comparison v) := by
  refine ⟨_, .compare column comparison v, fun rest hrest => ?_⟩
  have hsign : comparison.text.toList = signChars comparison := by cases comparison <;> rfl
  simp only [Expr.chars, Expr.spaced, List.append_assoc, List.cons_append, List.nil_append]
  rw [scan_quote, scan_blank, hsign, scan_sign, scan_value hv hrest]
  simp [Function.comp_def]

theorem reads_member (column : List Char) (negated : Bool) {first : Literal}
    {values : List Literal} (hfirst : Spelled first) (hvalues : ∀ v ∈ values, Spelled v) :
    Reads (.member column negated (first :: values))
      (.member column negated first values) := by
  refine ⟨_, .member column negated first values, fun rest hrest => ?_⟩
  simp only [Expr.chars, Expr.spaced, List.append_assoc, List.cons_append, List.nil_append]
  rw [scan_quote, scan_blank, scan_member, scan_mark .openList (c := '[') rfl,
    scan_list hfirst hvalues]
  simp [Function.comp_def]

/-! ### Rows and groups -/

theorem isDisjunction_andFirst {ts us : List Token} {p : Primary} {d : Disjunction}
    (hp : IsPrimary ts p) (hd : IsDisjunction us d) :
    IsDisjunction (ts ++ .keyword .and :: us) (.andFirst p d) := by
  cases hd with
  | one hc => exact .one (.and hp hc)
  | @or us vs c d hc hd =>
    have h := IsDisjunction.or (.and hp hc) hd
    rwa [List.append_assoc, List.cons_append] at h

/-- The members of a row that follow its first one. -/
theorem reads_row {exprs : List (Connective × Expr)} {prims : List (Connective × Primary)}
    (h : List.Forall₂ (fun e p => e.1 = p.1 ∧ Reads e.2 p.2) exprs prims) :
    ∃ us, (∀ ts p, IsPrimary ts p → IsDisjunction (ts ++ us) (row p prims)) ∧
      ∀ rest, WordEnds rest → WordEnds (Expr.restChars exprs ++ rest) ∧
        scan (Expr.restChars exprs ++ rest) = (scan rest).map (us ++ ·) := by
  induction h with
  | nil =>
    refine ⟨[], fun ts p hp => ?_, fun rest hrest => ⟨hrest, ?_⟩⟩
    · rw [List.append_nil]
      exact .one (.one hp)
    · simp [Expr.restChars]
  | @cons e p exprs prims hep _ ih =>
    obtain ⟨joiner, e⟩ := e
    obtain ⟨joiner', p⟩ := p
    obtain ⟨rfl, vs, hvs, hscan⟩ := hep
    obtain ⟨us, hus, hmore⟩ := ih
    have hword : ∃ k : Keyword, joiner.text.toList = k.chars ∧
        ∀ ts q, IsPrimary ts q →
          IsDisjunction (ts ++ .keyword k :: (vs ++ us)) (row q ((joiner, p) :: prims)) := by
      cases joiner with
      | and => exact ⟨.and, rfl, fun ts q hq => isDisjunction_andFirst hq (hus vs p hvs)⟩
      | or => exact ⟨.or, rfl, fun ts q hq => .or (.one hq) (hus vs p hvs)⟩
    obtain ⟨k, hk, hrow⟩ := hword
    refine ⟨.keyword k :: (vs ++ us), hrow, fun rest hrest => ⟨wordEnds_cons rfl _, ?_⟩⟩
    obtain ⟨hends, hscans⟩ := hmore rest hrest
    simp only [Expr.restChars, Expr.spaced, List.append_assoc, List.cons_append,
      List.nil_append, hk]
    rw [scan_blank, scan_keyword k (wordEnds_cons rfl _), scan_blank, hscan _ hends, hscans]
    simp [Function.comp_def]

theorem reads_group {first : Expr} {p : Primary} (hfirst : Reads first p)
    {exprs : List (Connective × Expr)} {prims : List (Connective × Primary)}
    (h : List.Forall₂ (fun e p => e.1 = p.1 ∧ Reads e.2 p.2) exprs prims) :
    Reads (.group first exprs) (.group (row p prims)) := by
  obtain ⟨ts, hts, hscan⟩ := hfirst
  obtain ⟨us, hus, hmore⟩ := reads_row h
  refine ⟨_, .group (hus ts p hts), fun rest hrest => ?_⟩
  obtain ⟨hends, hscans⟩ := hmore (')' :: rest) (wordEnds_cons rfl _)
  simp only [Expr.chars, List.cons_append, List.append_assoc, List.nil_append]
  rw [scan_mark .openGroup (c := '(') rfl, hscan _ hends, hscans,
    scan_mark .closeGroup (c := ')') rfl]
  simp [Function.comp_def]

theorem reads_chain (column : List Char) (comparison : Comparison) (joiner : Connective)
    {first : Literal} {values : List Literal} (hfirst : Spelled first)
    (hvalues : ∀ v ∈ values, Spelled v) :
    Reads (.chain column comparison joiner first values)
      (comparisons column comparison joiner first values) := by
  refine reads_group (reads_compare column comparison hfirst) ?_
  induction values with
  | nil => exact .nil
  | cons v values ih =>
    exact .cons ⟨rfl, reads_compare column comparison (hvalues v (by simp))⟩
      (ih fun w hw => hvalues w (by simp [hw]))

end Grammar

/-! ### Leaves -/

theorem Operator.reads_list (r : ListRendering) (operator : Operator) (column : List Char)
    {first : Literal} {rest : List Literal} (hfirst : Spelled first)
    (hrest : ∀ v ∈ rest, Spelled v) :
    Reads (r.expr operator column first rest) (operator.listTree r column first rest) := by
  have member := reads_member column false hfirst hrest
  have oneOf := reads_chain column .eq .or hfirst hrest
  cases operator with
  | compare _ | presence _ =>
    cases r with
    | membership => exact member
    | orChain => exact oneOf
  | list test =>
    cases test with
    | all => exact reads_chain column .eq .and hfirst hrest
    | isIn =>
      cases r with
      | membership => exact member
      | orChain => exact oneOf
    | notIn =>
      cases r with
      | membership => exact reads_member column true hfirst hrest
      | orChain => exact reads_chain column .ne .and hfirst hrest

/-- The values of a leaf under an operator that makes a list of them. -/
theorem Operand.reads_values (r : ListRendering) (operator : Operator) (column : List Char)
    {operand : Operand} (h : operand.values.all Scalar.isFinite = true) :
    Option.Rel Reads
      (match operand.values.filterMap Scalar.literal? with
        | [] => Option.none
        | first :: rest => some (r.expr operator column first rest))
      (match operand.values with
        | [] => Option.none
        | v :: vs => some (operator.listTree r column v.value (vs.map Scalar.value))) := by
  rw [Scalar.filterMap_literal? h]
  cases operand.values with
  | nil => exact .none
  | cons v vs =>
    refine .some (Operator.reads_list r operator column (spelled_value v) fun w hw => ?_)
    obtain ⟨u, -, rfl⟩ := List.mem_map.mp hw
    exact spelled_value u

theorem Leaf.reads {l : Leaf} (r : ListRendering) (h : l.wellFormed = true) :
    Option.Rel Reads (l.expr? r) (l.tree? r) := by
  have hfinite := Leaf.finite_of_wellFormed h
  have hvalues := fun operator => Operand.reads_values r operator l.column.toList hfinite
  obtain ⟨column, operator, operand, joiner⟩ := l
  cases operator with
  | presence test => exact .some (reads_presence column.toList test)
  | list test => exact hvalues (.list test)
  | compare c =>
    cases operand with
    | none => exact hvalues (.compare c)
    | list vs => exact hvalues (.compare c)
    | scalar v =>
      have hv : v.isFinite = true := by simpa [Operand.values] using hfinite
      simp only [Leaf.expr?, Leaf.tree?, Scalar.literal?_eq_value hv, Option.map_some]
      exact .some (reads_compare column.toList c (spelled_value v))

/-! ### Trees -/

namespace Node

theorem groupOf?_reads {pieces : List (Connective × Piece)} {prims : List (Connective × Primary)}
    (h : List.Forall₂ (fun a p => a.1 = p.1 ∧ Reads a.2.expr p.2) pieces prims) :
    Option.Rel (fun (a : Piece) p => Reads a.expr p) (Piece.join pieces) (groupOf? prims) := by
  cases h with
  | nil => exact .none
  | @cons a p pieces prims hap hmore =>
    refine .some (reads_group hap.2 ?_)
    induction hmore with
    | nil => exact .nil
    | cons h _ ih => exact .cons h ih

theorem trees_cons (r : ListRendering) (n : Node) (ns : List Node) :
    trees r (n :: ns) = ((n.tree? r).map (n.connective, ·)).toList ++ trees r ns := by
  rw [trees]
  rcases n.tree? r with - | p
  · rfl
  · rfl

/-- One more node in front, if it says something. -/
theorem reads_cons (joiner : Connective) {piece : Option Piece} {tree : Option Primary}
    (hread : Option.Rel (fun a p => Reads a.expr p) piece tree)
    {pieces : List (Connective × Piece)} {prims : List (Connective × Primary)}
    (hreads : List.Forall₂ (fun a p => a.1 = p.1 ∧ Reads a.2.expr p.2) pieces prims) :
    List.Forall₂ (fun a p => a.1 = p.1 ∧ Reads a.2.expr p.2)
      ((piece.map (joiner, ·)).toList ++ pieces) ((tree.map (joiner, ·)).toList ++ prims) := by
  cases hread with
  | none => exact hreads
  | some hread => exact .cons ⟨rfl, hread⟩ hreads

/-- What the nodes of a list contribute are the texts of what they say. -/
theorem contributions_reads (r : ListRendering) (blind : Bool) {ns : List Node}
    (h : firstMalformedOf? ns = none) :
    List.Forall₂ (fun a p => a.1 = p.1 ∧ Reads a.2.expr p.2)
      (contributions r blind ns) (trees r ns) := by
  induction ns using forest generalizing blind with
  | nil => exact .nil
  | leaf l ns ih =>
    obtain ⟨hl, hns⟩ := firstMalformedOf?_leaf.mp h
    rw [contributions, trees_cons]
    refine reads_cons _ ?_ (ih blind hns)
    rw [contribution, tree?]
    have hread := l.reads r hl
    generalize l.expr? r = expr, l.tree? r = tree at hread ⊢
    cases hread with
    | none => exact .none
    | some hread => exact .some hread
  | group children joiner facetBlind ns ihc ih =>
    obtain ⟨hc, hns⟩ := firstMalformedOf?_group.mp h
    rw [contributions, trees_cons]
    refine reads_cons _ ?_ (ih blind hns)
    rw [contribution, tree?]
    exact groupOf?_reads (ihc (blind || facetBlind) hc)

end Node

/-! ### Filters -/

theorem Node.map_trees (r : ListRendering) (nodes : List Node) :
    (trees r nodes).map Prod.snd = nodes.filterMap (tree? r) := by
  induction nodes with
  | nil => rfl
  | cons n nodes ih =>
    rw [trees_cons, List.map_append, ih]
    rcases hn : n.tree? r with - | p <;> simp [hn]

theorem Grammar.Reads.parses {e : Expr} {p : Primary} (h : Reads e p) :
    Parses e.chars (.one (.one p)) := by
  obtain ⟨ts, hts, hscan⟩ := h
  refine ⟨ts, ?_, .one (.one hts)⟩
  simpa using hscan [] wordEnds_nil

/-- The text of an expression that is a primary has no other tree. -/
theorem Grammar.Reads.only_parse {e : Expr} {p : Primary} (h : Reads e p) :
    parse? e.text.toList = some (.one (.one p)) ∧
      ∀ d, Parses e.text.toList d ↔ d = .one (.one p) := by
  have hparses : Parses e.text.toList (.one (.one p)) := by
    rw [Expr.text, String.toList_ofList]
    exact h.parses
  refine ⟨parse?_eq_some_iff.mpr hparses, fun d => ⟨fun hd => hd.unique hparses, ?_⟩⟩
  rintro rfl
  exact hparses

/-- **Compiled filters are read back.**  Every filter comes from one of the trees that say
something, in order.  Its text is an expression as a whole, which the parser reads as what the tree
says, and there is no other way to read it. -/
theorem Filters.compile_parses {r : ListRendering} {nodes : List Node} {f : Filters}
    (h : Filters.compile r .full nodes = .ok f) :
    List.Forall₂ (fun text p =>
        parse? text.toList = some (.one (.one p)) ∧
          ∀ d, Parses text.toList d ↔ d = .one (.one p))
      f.texts (nodes.filterMap (Node.tree? r)) := by
  rw [Filters.compile_full] at h
  rcases hbad : Node.firstMalformedOf? nodes with - | l
  · rw [hbad] at h
    obtain rfl := Except.ok.inj h
    rw [← Node.map_trees, Filters.texts, Filters.ofPieces, List.map_map]
    rw [List.forall₂_map_left_iff, List.forall₂_map_right_iff]
    exact (Node.contributions_reads r false hbad).imp fun a p hread => hread.2.only_parse
  · rw [hbad] at h
    cases h

/-- Trees whose column names and values try to get out of their quotes. -/
def escapingTrees : List Node :=
  [.leaf { column := "it's", operator := .compare .eq, operand := .scalar (.text "\\' OR 'x' = '") },
   .group
     [.leaf { column := "tags", operator := .list .notIn, operand := .list [] },
      .leaf { column := "a) AND (b", operator := .list .isIn,
              operand := .list [.text "',IN [", .int 2, .bool true], connective := .or },
      .group [.leaf { column := "ü", operator := .presence .isNotNull }] .or false]
     .and true]

theorem escapingTrees_parse :
    ∃ f, Filters.compile .orChain .full escapingTrees = .ok f ∧
      List.Forall₂ (fun text p =>
          parse? text.toList = some (.one (.one p)) ∧
            ∀ d, Parses text.toList d ↔ d = .one (.one p))
        f.texts (escapingTrees.filterMap (Node.tree? .orChain)) :=
  ⟨_, rfl, Filters.compile_parses rfl⟩

end SearchClient
