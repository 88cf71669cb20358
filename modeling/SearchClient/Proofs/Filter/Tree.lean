/-
SearchClient/Proofs/Filter/Tree.lean

What a filter tree says, as a tree of the grammar.  A leaf that compares its column with a single
value, or tests whether it is present, is that primary.  A list of values (and a single value under
an operator that takes a list) goes by the operator:

    MATCHES          every value is equal, joined by AND
    NOT IN           a membership test, or every value is unequal, joined by AND
    any other one    a membership test, or some value is equal, joined by OR

where the list rendering chooses between the two.  A list without values says nothing, and a group
says what its members say that say something, each after its own connective.

The numbers in a tree are known by their texts; `isNumeral_intText` and `isNumeral_layout` show that
the texts in use are texts of numbers.
-/
import SearchClient.Proofs.Filter.Grammar
import SearchClient.Proofs.Filter.Leaf

namespace SearchClient

open Grammar

/-! ### Rows -/

/-- A primary joined by AND to the first conjunction. -/
def Grammar.Disjunction.andFirst (p : Primary) : Disjunction → Disjunction
  | .one c => .one (.and p c)
  | .or c d => .or (.and p c) d

/-- The members of a row, split at every OR. -/
def Grammar.row (p : Primary) : List (Connective × Primary) → Disjunction
  | [] => .one (.one p)
  | (.and, q) :: rest => .andFirst p (row q rest)
  | (.or, q) :: rest => .or (.one p) (row q rest)

/-- The comparisons of a column with each of some values, in a group. -/
def Grammar.comparisons (column : List Char) (comparison : Comparison) (joiner : Connective)
    (first : Literal) (rest : List Literal) : Primary :=
  .group (row (.compare column comparison first)
    (rest.map fun v => (joiner, .compare column comparison v)))

/-! ### Leaves -/

/-- What an operator says of the values of a list. -/
def Operator.listTree (r : ListRendering) (column : List Char) (first : Literal)
    (rest : List Literal) : Operator → Primary
  | .list .all => comparisons column .eq .and first rest
  | .list .notIn =>
    match r with
    | .membership => .member column true first rest
    | .orChain => comparisons column .ne .and first rest
  | _ =>
    match r with
    | .membership => .member column false first rest
    | .orChain => comparisons column .eq .or first rest

/-- What a leaf says. -/
def Leaf.tree? (r : ListRendering) (l : Leaf) : Option Primary :=
  match l.operator, l.operand with
  | .presence test, _ => some (.presence l.column.toList test)
  | .compare c, .scalar v => some (.compare l.column.toList c v.value)
  | operator, operand =>
    match operand.values with
    | [] => none
    | v :: vs => some (operator.listTree r l.column.toList v.value (vs.map Scalar.value))

/-! ### Trees -/

namespace Node

/-- The group of a row of members, if there are any. -/
def groupOf? : List (Connective × Primary) → Option Primary
  | [] => none
  | (_, first) :: rest => some (.group (row first rest))

mutual

/-- What a node says. -/
def tree? (r : ListRendering) : Node → Option Primary
  | .leaf l => l.tree? r
  | .group children _ _ => groupOf? (trees r children)

/-- What the nodes of a list say, each with its connective. -/
def trees (r : ListRendering) : List Node → List (Connective × Primary)
  | [] => []
  | n :: ns =>
    match tree? r n with
    | some p => (n.connective, p) :: trees r ns
    | none => trees r ns

end

end Node

/-! ### Texts of numbers -/

namespace Grammar

open Number

theorem isDigits_toDigits (n : Nat) : isDigits (Nat.toDigits 10 n) = true := by
  have hdigits : (Nat.toDigits 10 n).all Char.isDigit = true :=
    List.all_eq_true.mpr fun c hc =>
      Nat.isDigit_of_mem_toDigits (by decide) (by decide) hc
  simp [isDigits, Nat.toDigits_ne_nil, hdigits]

theorem isUnsigned_of_isDigits {cs : List Char} (h : isDigits cs = true) :
    isUnsigned cs = true := by
  simp only [isDigits, Bool.and_eq_true, decide_eq_true_eq] at h
  obtain ⟨htake, hdrop⟩ := Text.takeWhile_run (List.all_eq_true.mp h.2) [] (by simp)
  rw [List.append_nil] at htake hdrop
  simp [isUnsigned, htake, hdrop, h.1]

theorem isUnsigned_point {whole places : List Char} (hw : isDigits whole = true)
    (hp : isDigits places = true) : isUnsigned (whole ++ '.' :: places) = true := by
  simp only [isDigits, Bool.and_eq_true, decide_eq_true_eq] at hw
  obtain ⟨htake, hdrop⟩ := Text.takeWhile_run (List.all_eq_true.mp hw.2) ('.' :: places)
    (by simp)
  simp [isUnsigned, htake, hdrop, hw.1, hp]

theorem isNumeral_of_isUnsigned {cs : List Char} (h : isUnsigned cs = true) :
    isNumeral cs = true := by
  unfold isNumeral
  split
  · simp [isUnsigned] at h
  · exact h

theorem isNumeral_sign {negative : Bool} {cs : List Char} (h : isUnsigned cs = true) :
    isNumeral (if negative then '-' :: cs else cs) = true := by
  cases negative
  · exact isNumeral_of_isUnsigned h
  · exact h

theorem isNumeral_intText (i : Int) : isNumeral (Json.intText i) = true := by
  have h := isUnsigned_of_isDigits (isDigits_toDigits i.natAbs)
  unfold Json.intText
  split
  · exact h
  · exact isNumeral_of_isUnsigned h

theorem isDigits_append {as bs : List Char} (ha : isDigits as = true)
    (hb : bs.all Char.isDigit = true) : isDigits (as ++ bs) = true := by
  simp only [isDigits, Bool.and_eq_true, decide_eq_true_eq] at ha ⊢
  simp [ha.1, ha.2, hb]

theorem isDigits_of_all {cs : List Char} (hne : 0 < cs.length)
    (h : cs.all Char.isDigit = true) : isDigits cs = true := by
  simp [isDigits, h, List.ne_nil_of_length_pos hne]

/-- A point before the last `places` of some digits. -/
theorem isUnsigned_split {cs : List Char} {places : Nat} (h : cs.all Char.isDigit = true)
    (hpos : 0 < places) (hlt : places < cs.length) :
    isUnsigned (cs.take (cs.length - places) ++ '.' :: cs.drop (cs.length - places)) = true := by
  have hin : ∀ c ∈ cs, c.isDigit = true := List.all_eq_true.mp h
  refine isUnsigned_point (isDigits_of_all ?_ ?_) (isDigits_of_all ?_ ?_)
  · rw [List.length_take]
    omega
  · exact List.all_eq_true.mpr fun c hc => hin c (List.mem_of_mem_take hc)
  · rw [List.length_drop]
    omega
  · exact List.all_eq_true.mpr fun c hc => hin c (List.mem_of_mem_drop hc)

/-- A decimal that is written out, without a point after a whole number. -/
theorem isUnsigned_positional (d : Decimal) : isUnsigned (d.positional false) = true := by
  have hdigits := isDigits_toDigits d.digits
  unfold Decimal.positional
  split
  · refine isUnsigned_of_isDigits ?_
    have hzeros : (List.replicate d.power.toNat '0').all Char.isDigit = true := by
      simp [List.all_replicate]
    simpa using isDigits_append hdigits hzeros
  · -- the padding leaves at least one digit before the point
    simp only [isDigits, Bool.and_eq_true] at hdigits
    refine isUnsigned_split ?_ (by omega) ?_
    · simp [List.all_replicate, hdigits.2]
    · simp only [List.length_append, List.length_replicate]
      omega

theorem isNumeral_layout (x : Double) : isNumeral (filterNumberLayout.text x) = true :=
  isNumeral_sign (isUnsigned_positional _)

end Grammar

end SearchClient
