/-
SearchClient/Proofs/Text/Quoted.lean

Quoted literals in front of other text.  `Scans` says by rules what a literal at the front of a text says and
where it ends: a backslash makes the next character an ordinary one, and the first quote without one ends the
literal.  `scan` finds just that (`scan_eq_some_iff`), and from what was written it finds what was to be
written, whatever stands behind it.

So the literals are a prefix code, and so are the filters that compare a column with a text: their column,
their sign and their value can be told from any text that starts with them, and with it where they end.

Main result: `quote_decodes`.
-/
import Mathlib.Data.List.Nodup
import SearchClient.Filter.Expression

namespace SearchClient

/-! ### Literals -/

namespace Text.Quoted

/-- The inside of a literal: what it says up to its closing quote, and what follows the quote. -/
inductive Inside : List Char → List Char → List Char → Prop
  | close (rest : List Char) : Inside ('\'' :: rest) [] rest
  /-- A backslash says nothing itself and makes the next character an ordinary one. -/
  | escaped {text s rest : List Char} (c : Char) (h : Inside text s rest) :
      Inside ('\\' :: c :: text) (c :: s) rest
  | plain {text s rest : List Char} {c : Char} (hquote : c ≠ '\'') (hback : c ≠ '\\')
      (h : Inside text s rest) : Inside (c :: text) (c :: s) rest

/-- A literal at the front of a text: what it says, and what follows it. -/
inductive Scans : List Char → List Char → List Char → Prop
  | literal {text s rest : List Char} (h : Inside text s rest) : Scans ('\'' :: text) s rest

theorem Inside.scanInside_eq {text s rest : List Char} (h : Inside text s rest) :
    scanInside text = some (s, rest) := by
  induction h with
  | close rest => rfl
  | escaped c _ ih => rw [scanInside, ih, Option.map_some]
  | plain hquote hback _ ih => simp [scanInside, hback, ih]

theorem inside_of_scanInside {text s rest : List Char} (h : scanInside text = some (s, rest)) :
    Inside text s rest := by
  fun_induction scanInside text generalizing s with
  | case1 => cases h
  | case2 after =>
    obtain ⟨rfl, rfl⟩ := Prod.mk.inj (Option.some.inj h)
    exact .close after
  | case3 => cases h
  | case4 c text ih =>
    obtain ⟨⟨s', rest'⟩, hrest, heq⟩ := Option.map_eq_some_iff.mp h
    obtain ⟨rfl, rfl⟩ := Prod.mk.inj heq
    exact .escaped c (ih hrest)
  | case5 c text hquote hlone hpair ih =>
    obtain ⟨⟨s', rest'⟩, hrest, heq⟩ := Option.map_eq_some_iff.mp h
    obtain ⟨rfl, rfl⟩ := Prod.mk.inj heq
    have hback : c ≠ '\\' := by
      intro hc
      cases text with
      | nil => exact hlone hc rfl
      | cons d text => exact hpair d text hc rfl
    exact .plain hquote hback (ih hrest)

theorem scan_eq_some_iff {text s rest : List Char} :
    scan text = some (s, rest) ↔ Scans text s rest := by
  constructor
  · intro h
    unfold scan at h
    split at h
    · exact .literal (inside_of_scanInside h)
    · cases h
  · rintro ⟨h⟩
    exact h.scanInside_eq

/-- A text starts with the literal of one text at most. -/
theorem quote_append_inj {s s' rest rest' : List Char} :
    quote s ++ rest = quote s' ++ rest' ↔ s = s' ∧ rest = rest' := by
  constructor
  · intro h
    have hscan := congrArg scan h
    rw [scan_quote_append, scan_quote_append] at hscan
    exact Prod.mk.inj (Option.some.inj hscan)
  · rintro ⟨rfl, rfl⟩
    rfl

end Text.Quoted

/-! ### Comparisons -/

namespace Expr

/-- A sign between blanks tells itself from every other one, by the three characters it starts with. -/
theorem spaced_append_inj {c c' : Comparison} {rest rest' : List Char} :
    spaced c.text ++ rest = spaced c'.text ++ rest' ↔ c = c' ∧ rest = rest' := by
  constructor
  · intro h
    have hstart : ∀ (c : Comparison) (rest : List Char),
        (spaced c.text ++ rest).take 3 = (spaced c.text).take 3 := by
      intro c rest
      cases c <;> rfl
    have hall : ∀ c : Comparison, c ∈ [Comparison.eq, .ne, .gt, .ge, .lt, .le] := by
      intro c
      cases c <;> decide
    have hdistinct : ([Comparison.eq, .ne, .gt, .ge, .lt, .le].map fun c =>
        (spaced c.text).take 3).Nodup := by decide
    have hsign : c = c' := by
      apply List.inj_on_of_nodup_map hdistinct (hall c) (hall c')
      rw [← hstart c rest, h, hstart]
    subst hsign
    exact ⟨rfl, List.append_cancel_left h⟩
  · rintro ⟨rfl, rfl⟩
    rfl

end Expr

namespace Text.Quoted

/-- **Literals end where they were ended.**  A written literal is read back to what it says and what follows
it, by the scanner and by the rules alike, and so a text starts with the literal of one text at most.  A
comparison with a text is known, and where it ends, from any text that starts with it: neither its column nor
its value can end early or go on into what follows. -/
theorem quote_decodes :
    (∀ s rest, scan (quote s ++ rest) = some (s, rest)) ∧
    (∀ s rest said after, Scans (quote s ++ rest) said after ↔ said = s ∧ after = rest) ∧
    (∀ s rest s' rest', quote s ++ rest = quote s' ++ rest' ↔ s = s' ∧ rest = rest') ∧
    ∀ column c value rest column' c' value' rest',
      (Expr.compare column c (.text value)).chars ++ rest =
          (Expr.compare column' c' (.text value')).chars ++ rest' ↔
        column = column' ∧ c = c' ∧ value = value' ∧ rest = rest' := by
  refine ⟨scan_quote_append, ?_, fun _ _ _ _ => quote_append_inj, ?_⟩
  · intro s rest said after
    rw [← scan_eq_some_iff, scan_quote_append]
    constructor
    · intro h
      obtain ⟨hsaid, hafter⟩ := Prod.mk.inj (Option.some.inj h)
      exact ⟨hsaid.symm, hafter.symm⟩
    · rintro ⟨rfl, rfl⟩
      rfl
  · intro column c value rest column' c' value' rest'
    simp only [Expr.chars, Literal.chars, List.append_assoc, quote_append_inj,
      Expr.spaced_append_inj]

end Text.Quoted

end SearchClient
