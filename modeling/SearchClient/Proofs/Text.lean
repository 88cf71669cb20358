/-
SearchClient/Proofs/Text.lean

Runs of characters.  A reader takes the characters of one kind from the front of a text, up to the
first one of another kind, and gets back what a writer put there (`takeWhile_run`).  The digits of a
number are such a run, and they do not start with a zero unless the number is zero.
-/
namespace SearchClient.Text

/-- A run of characters of one kind is taken up to the first character of another kind. -/
theorem takeWhile_run {p : Char → Bool} {w : List Char} (hw : ∀ c ∈ w, p c = true)
    (rest : List Char) (hrest : ∀ c ∈ rest.head?, p c = false) :
    (w ++ rest).takeWhile p = w ∧ (w ++ rest).dropWhile p = rest := by
  rw [List.takeWhile_append_of_pos hw, List.dropWhile_append_of_pos hw]
  rcases rest with - | ⟨c, rest⟩
  · simp
  · have hc : p c = false := hrest c rfl
    simp [hc]

/-! ### Digits -/

theorem toList_toString (n : UInt64) : (toString n).toList = Nat.toDigits 10 n.toNat :=
  String.toList_ofList

theorem toString_inj {n m : UInt64} : toString n = toString m ↔ n = m := by
  rw [← String.toList_inj, toList_toString, toList_toString, ← UInt64.toNat_inj]
  constructor
  · intro h
    have hvalue := congrArg (Nat.ofDigitChars 10 · 0) h
    simpa only [Nat.ofDigitChars_ten_toDigits] using hvalue
  · exact congrArg (Nat.toDigits 10)

theorem isDigit_of_mem_toDigits {n : Nat} {c : Char} (h : c ∈ Nat.toDigits 10 n) :
    c.isDigit = true :=
  Nat.isDigit_of_mem_toDigits (by decide) (by decide) h

theorem isDigit_of_mem_zeros {k : Nat} {c : Char} (h : c ∈ List.replicate k '0') :
    c.isDigit = true := by
  rw [List.eq_of_mem_replicate h]
  rfl

/-- The digits of a number that is not zero do not start with a zero. -/
theorem head?_toDigits {n : Nat} (hn : n ≠ 0) : (Nat.toDigits 10 n).head? ≠ some '0' := by
  induction n using Nat.strongRecOn with
  | _ n ih =>
    rw [Nat.toDigits_eq_if (by decide)]
    split
    · next hlt =>
      have hdigit : ∀ d < 10, d ≠ 0 → [d.digitChar].head? ≠ some '0' := by decide
      exact hdigit n hlt hn
    · next hge =>
      rw [List.head?_append, Option.or_of_isSome (List.isSome_head?.mpr Nat.toDigits_ne_nil)]
      exact ih (n / 10) (by omega) (by omega)

end SearchClient.Text
