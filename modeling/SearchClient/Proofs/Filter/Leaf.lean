/-
SearchClient/Proofs/Filter/Leaf.lean

Well-formed leaves.  Their numbers are finite, so each of their values has a literal
(`Scalar.filterMap_literal?`), and the only ones that leave nothing in the filters are those with an
empty list (`Leaf.isSome_expr?`).
-/
import SearchClient.Filter.Compile

namespace SearchClient

/-! ### Values -/

/-- The value as it is written. -/
def Scalar.value : Scalar → Literal
  | .bool b => .flag b
  | .int i => .number (Json.intText i.toInt)
  | .float x => .number (filterNumberLayout.text x)
  | .text s => .text s.toList

theorem Scalar.literal?_eq_value {v : Scalar} (h : v.isFinite = true) :
    v.literal? = some v.value := by
  cases v with
  | float x =>
    have hx : x.isFinite = true := h
    simp [Scalar.literal?, Scalar.value, hx]
  | _ => rfl

theorem Scalar.filterMap_literal? {vs : List Scalar} (h : vs.all Scalar.isFinite = true) :
    vs.filterMap Scalar.literal? = vs.map Scalar.value := by
  induction vs with
  | nil => rfl
  | cons v vs ih =>
    simp only [List.all_cons, Bool.and_eq_true] at h
    rw [List.filterMap_cons_some (literal?_eq_value h.1), ih h.2, List.map_cons]

/-! ### Leaves -/

namespace Leaf

/-- Whether the leaf leaves something in the filters. -/
def contributes (l : Leaf) : Bool := l.operand ≠ .list []

theorem finite_of_wellFormed {l : Leaf} (h : l.wellFormed = true) :
    l.operand.values.all Scalar.isFinite = true := by
  obtain ⟨column, operator, operand, joiner⟩ := l
  cases operand with
  | none => rfl
  | scalar v | list vs =>
    simp only [wellFormed, Bool.and_eq_true] at h
    exact h.2.2

/-- A well-formed leaf has an expression unless its list is empty. -/
theorem isSome_expr? {l : Leaf} (r : ListRendering) (h : l.wellFormed = true) :
    (l.expr? r).isSome = l.contributes := by
  have hfinite := finite_of_wellFormed h
  obtain ⟨column, operator, operand, joiner⟩ := l
  simp only [wellFormed, Bool.and_eq_true] at h
  obtain ⟨-, h⟩ := h
  cases operand with
  | none =>
    cases operator with
    | presence test => rfl
    | _ => cases h
  | scalar v =>
    have hv : v.isFinite = true := by simpa [Operand.values] using hfinite
    have hliteral := Scalar.literal?_eq_value hv
    cases operator with
    | presence test => rfl
    | _ => simp [expr?, contributes, Operand.values, hliteral]
  | list vs =>
    have hliterals : vs.filterMap Scalar.literal? = vs.map Scalar.value :=
      Scalar.filterMap_literal? hfinite
    cases operator with
    | presence test => cases h
    | _ => cases vs <;> simp [expr?, contributes, Operand.values, hliterals]

end Leaf

end SearchClient
