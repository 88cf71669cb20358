/-
SearchClient/Proofs/Number/Rounding.lean

Rounding to a binary format.  A number that is not negative is rounded at one exponent (`Fits`): the
least one of the format, or the one at which it fills the precision.  There it goes to the closest
multiple of the unit, and to an even one from halfway.

So rounding is off by half a unit at most, and it never crosses a value of the format: such a value lies
below a number exactly if it lies below what the number is rounded to, and in the same way above
(`Rounds.le`, `Rounds.ge`).
-/
import Mathlib.Algebra.Order.Field.Basic
import Mathlib.Algebra.Order.Field.Power
import Mathlib.Data.Rat.Lemmas
import Mathlib.Data.Nat.Log
import Mathlib.Tactic.FieldSimp
import Mathlib.Tactic.Linarith
import Mathlib.Tactic.Positivity
import Mathlib.Tactic.Ring
import SearchClient.Number.Double

namespace SearchClient.Number

/-! ### The closest integer -/

section roundDiv

variable {num den k : Nat}

theorem roundDiv_eq (num den : Nat) : roundDiv num den =
    if 2 * (num % den) < den then num / den
    else if den < 2 * (num % den) then num / den + 1 else num / den + num / den % 2 :=
  rfl

theorem roundDiv_bounds (num : Nat) (hden : 0 < den) :
    (2 * num < (2 * roundDiv num den + 1) * den ∧ 2 * roundDiv num den * den < 2 * num + den) ∨
      (2 * num = (2 * roundDiv num den + 1) * den ∨ 2 * roundDiv num den * den = 2 * num + den) ∧
        roundDiv num den % 2 = 0 := by
  have hdiv := Nat.div_add_mod num den
  have hmod := Nat.mod_lt num hden
  rw [roundDiv_eq]
  generalize num / den = k at *
  generalize num % den = r at *
  split_ifs
  · refine .inl ⟨?_, ?_⟩ <;> linarith
  · refine .inl ⟨?_, ?_⟩ <;> linarith
  · have hhalf : 2 * r = den := by omega
    refine .inr ⟨?_, by omega⟩
    rcases Nat.mod_two_eq_zero_or_one k with h | h
    · rw [h]
      left
      linarith
    · rw [h]
      right
      linarith

/-- It is off by less than half, or it is even and off by half. -/
theorem abs_roundDiv_sub (num : Nat) (hden : 0 < den) :
    |(roundDiv num den : ℚ) - num / den| < 1 / 2 ∨
      |(roundDiv num den : ℚ) - num / den| = 1 / 2 ∧ roundDiv num den % 2 = 0 := by
  have hden' : (0 : ℚ) < den := by exact_mod_cast hden
  have hquot : (num / den : ℚ) * den = num := div_mul_cancel₀ _ hden'.ne'
  rcases roundDiv_bounds num hden with ⟨hlow, hhigh⟩ | ⟨h | h, heven⟩
  · have hlow : (2 * num : ℚ) < (2 * roundDiv num den + 1) * den := by exact_mod_cast hlow
    have hhigh : (2 * roundDiv num den * den : ℚ) < 2 * num + den := by exact_mod_cast hhigh
    left
    rw [abs_lt]
    constructor <;> nlinarith
  · have h : (2 * num : ℚ) = (2 * roundDiv num den + 1) * den := by exact_mod_cast h
    have hoff : (roundDiv num den : ℚ) - num / den = -(1 / 2) := by
      field_simp
      linarith
    exact .inr ⟨by rw [hoff, abs_neg, abs_of_pos (by norm_num)], heven⟩
  · have h : (2 * roundDiv num den * den : ℚ) = 2 * num + den := by exact_mod_cast h
    have hoff : (roundDiv num den : ℚ) - num / den = 1 / 2 := by
      field_simp
      linarith
    exact .inr ⟨by rw [hoff, abs_of_pos (by norm_num)], heven⟩

theorem le_roundDiv (hden : 0 < den) (h : (k : ℚ) ≤ num / den) : k ≤ roundDiv num den := by
  by_contra hlt
  have hoff : (roundDiv num den : ℚ) + 1 ≤ k := by exact_mod_cast Nat.not_le.mp hlt
  rcases abs_roundDiv_sub num hden with hnear | ⟨hnear, -⟩
  · linarith [(abs_lt.mp hnear).1]
  · linarith [(abs_le.mp hnear.le).1]

end roundDiv

/-! ### Scaled integers -/

theorem scaled_eq (m : Nat) (e : Int) : scaled m e = m * (2 : ℚ) ^ e := by
  rw [scaled, Rat.mkRat_eq_div]
  rcases e.eq_nat_or_neg with ⟨n, rfl | rfl⟩
  · simp
  · simp [div_eq_mul_inv]

namespace BinaryFormat

/-- The quotient of which the mantissa is the closest integer. -/
theorem stretched_div (num den : Nat) (e : Int) :
    ((num * Nat.pow 2 (-e).toNat : Nat) : ℚ) / (den * Nat.pow 2 e.toNat : Nat) =
      num / den / (2 : ℚ) ^ e := by
  rcases e.eq_nat_or_neg with ⟨n, rfl | rfl⟩
  · simp [div_div]
  · simp [div_eq_mul_inv]
    ring

/-- The mantissa is off by less than half a unit, or it is even and off by half a unit. -/
theorem abs_mantissaAt_sub (num : Nat) {den : Nat} (hden : 0 < den) (e : Int) :
    |(mantissaAt num den e : ℚ) * 2 ^ e - num / den| < 2 ^ e / 2 ∨
      |(mantissaAt num den e : ℚ) * 2 ^ e - num / den| = 2 ^ e / 2 ∧
        mantissaAt num den e % 2 = 0 := by
  have hunit : (0 : ℚ) < 2 ^ e := by positivity
  have hpow : 0 < den * Nat.pow 2 e.toNat := Nat.mul_pos hden (Nat.pow_pos (by decide))
  have hoff := abs_roundDiv_sub (num * Nat.pow 2 (-e).toNat) hpow
  rw [stretched_div] at hoff
  have hfactor : (mantissaAt num den e : ℚ) * 2 ^ e - num / den =
      (mantissaAt num den e - num / den / 2 ^ e) * 2 ^ e := by
    rw [sub_mul, div_mul_cancel₀ _ hunit.ne']
  have hhalf : (2 : ℚ) ^ e / 2 = 1 / 2 * 2 ^ e := by ring
  rw [hfactor, abs_mul, abs_of_pos hunit, hhalf, mul_lt_mul_iff_left₀ hunit,
    mul_left_inj' hunit.ne']
  exact hoff

/-! ### The exponent -/

/-- The exponent at which a number is rounded. -/
structure Fits (f : BinaryFormat) (q : ℚ) (e : Int) : Prop where
  least_le : f.leastExponent ≤ e
  lt : q < 2 ^ (e + f.precision)
  full : e = f.leastExponent ∨ 2 ^ (e + f.precision - 1) ≤ q

/-- There is only one. -/
theorem Fits.unique {f : BinaryFormat} {q : ℚ} {e e' : Int} (h : f.Fits q e) (h' : f.Fits q e') :
    e = e' := by
  have hle : ∀ {a b : Int}, f.Fits q a → f.Fits q b → a ≤ b := by
    intro a b ha hb
    rcases ha.full with rfl | hfull
    · exact hb.least_le
    · -- it fills the precision at the one exponent and stays below it at the other
      have hpow := (zpow_lt_zpow_iff_right₀ one_lt_two).mp (hfull.trans_lt hb.lt)
      omega
  exact le_antisymm (hle h h') (hle h' h)

/-- A number that is far above the least ones fills the precision. -/
theorem Fits.full_of_le {f : BinaryFormat} {q : ℚ} {e n : Int} (h : f.Fits q e)
    (hn : f.leastExponent + f.precision ≤ n) (hq : (2 : ℚ) ^ n ≤ q) :
    (2 : ℚ) ^ (e + f.precision - 1) ≤ q := by
  refine h.full.resolve_left ?_
  rintro rfl
  have := (zpow_lt_zpow_iff_right₀ one_lt_two).mp (hq.trans_lt h.lt)
  omega

theorem log2_bounds {n : Nat} (hn : n ≠ 0) :
    (2 : ℚ) ^ (n.log2 : Int) ≤ n ∧ (n : ℚ) < 2 ^ ((n.log2 : Int) + 1) := by
  constructor
  · exact_mod_cast Nat.log2_self_le hn
  · exact_mod_cast (Nat.lt_log2_self (n := n))

/-- A quotient lies between powers of two that are next but one to each other. -/
theorem quotient_bounds {num den : Nat} (hnum : num ≠ 0) (hden : den ≠ 0) :
    (2 : ℚ) ^ ((num.log2 : Int) - den.log2 - 1) < num / den ∧
      (num / den : ℚ) < 2 ^ ((num.log2 : Int) - den.log2 + 1) := by
  obtain ⟨hnum₁, hnum₂⟩ := log2_bounds hnum
  obtain ⟨hden₁, hden₂⟩ := log2_bounds hden
  have hden' : (0 : ℚ) < den := by exact_mod_cast Nat.pos_of_ne_zero hden
  have htwo : (2 : ℚ) ≠ 0 := by norm_num
  constructor
  · rw [lt_div_iff₀ hden']
    calc (2 : ℚ) ^ ((num.log2 : Int) - den.log2 - 1) * den
        < 2 ^ ((num.log2 : Int) - den.log2 - 1) * 2 ^ ((den.log2 : Int) + 1) :=
          mul_lt_mul_of_pos_left hden₂ (by positivity)
      _ = 2 ^ (num.log2 : Int) := by rw [← zpow_add₀ htwo]; congr 1; omega
      _ ≤ num := hnum₁
  · rw [div_lt_iff₀ hden']
    calc (num : ℚ) < 2 ^ ((num.log2 : Int) + 1) := hnum₂
      _ = 2 ^ ((num.log2 : Int) - den.log2 + 1) * 2 ^ (den.log2 : Int) := by
          rw [← zpow_add₀ htwo]; congr 1; omega
      _ ≤ 2 ^ ((num.log2 : Int) - den.log2 + 1) * den :=
          mul_le_mul_of_nonneg_left hden₁ (by positivity)

/-- The comparison by which the exponent is chosen. -/
theorem fills_iff (f : BinaryFormat) (num : Nat) {den : Nat} (hden : den ≠ 0) (e : Int) :
    den * Nat.pow 2 e.toNat * Nat.pow 2 f.precision ≤ num * Nat.pow 2 (-e).toNat ↔
      (2 : ℚ) ^ (e + f.precision) ≤ num / den := by
  have hpow : 0 < den * Nat.pow 2 e.toNat :=
    Nat.mul_pos (Nat.pos_of_ne_zero hden) (Nat.pow_pos (by decide))
  have hpow' : (0 : ℚ) < (den * Nat.pow 2 e.toNat : Nat) := by exact_mod_cast hpow
  rw [← Nat.cast_le (α := ℚ), Nat.cast_mul, ← le_div_iff₀' hpow', stretched_div,
    le_div_iff₀ (by positivity), zpow_add₀ (by norm_num), zpow_natCast, mul_comm]
  simp

theorem exponentOf_fits (f : BinaryFormat) (num : Nat) {den : Nat} (hden : den ≠ 0) :
    f.Fits (num / den) (f.exponentOf num den) := by
  by_cases hnum : num = 0
  · subst hnum
    rw [exponentOf, if_pos rfl]
    refine ⟨le_refl _, ?_, .inl rfl⟩
    rw [Nat.cast_zero, zero_div]
    positivity
  · obtain ⟨hlow, hhigh⟩ := quotient_bounds hnum hden
    rw [exponentOf, if_neg hnum]
    -- the exponent at which the smaller power of two fills the precision, or the least one
    generalize hguess : (num.log2 : Int) - den.log2 - f.precision = guess
    have hbelow : guess + f.precision - 1 = (num.log2 : Int) - den.log2 - 1 := by omega
    have habove : guess + f.precision + 1 = (num.log2 : Int) - den.log2 + 1 := by omega
    rw [← hbelow] at hlow
    rw [← habove] at hhigh
    extract_lets e
    have hguess_le : guess ≤ e := le_max_left _ _
    have hleast_le : f.leastExponent ≤ e := le_max_right _ _
    split_ifs with hfills <;> rw [fills_iff f num hden] at hfills
    · refine ⟨by omega, hhigh.trans_le (zpow_le_zpow_right₀ one_le_two (by omega)), .inr ?_⟩
      rwa [Int.add_right_comm, Int.add_sub_cancel]
    · refine ⟨hleast_le, not_le.mp hfills, ?_⟩
      rcases le_total guess f.leastExponent with hle | hle
      · exact .inl (max_eq_right hle)
      · have he : e = guess := max_eq_left hle
        exact .inr (he ▸ hlow.le)

/-! ### Rounding -/

/-- What a number is rounded to: the closest multiple of the unit at its exponent, and an even one from
halfway. -/
structure Rounds (f : BinaryFormat) (q : ℚ) (m : Nat) (e : Int) : Prop extends f.Fits q e where
  near : |(m : ℚ) * 2 ^ e - q| < 2 ^ e / 2 ∨ |(m : ℚ) * 2 ^ e - q| = 2 ^ e / 2 ∧ m % 2 = 0

theorem round_rounds (f : BinaryFormat) (num : Nat) {den : Nat} (hden : den ≠ 0) :
    f.Rounds (num / den) (f.round num den).1 (f.round num den).2 where
  toFits := exponentOf_fits f num hden
  near := abs_mantissaAt_sub num (Nat.pos_of_ne_zero hden) _

section Rounds

variable {f : BinaryFormat} {q g : ℚ} {m : Nat} {e : Int}

theorem Rounds.near_le (h : f.Rounds q m e) : |(m : ℚ) * 2 ^ e - q| ≤ 2 ^ e / 2 := by
  rcases h.near with h | ⟨h, -⟩
  · exact h.le
  · exact h.le

/-- There is only one such value. -/
theorem Rounds.unique {m' : Nat} {e' : Int} (h : f.Rounds q m e) (h' : f.Rounds q m' e') :
    m = m' ∧ e = e' := by
  obtain rfl := h.toFits.unique h'.toFits
  refine ⟨?_, rfl⟩
  have hunit : (0 : ℚ) < 2 ^ e := by positivity
  have hle : ∀ {a b : Nat}, f.Rounds q a e → f.Rounds q b e → a ≤ b := by
    intro a b ha hb
    by_contra hlt
    have hsucc : ((b : ℚ) + 1) * 2 ^ e ≤ a * 2 ^ e :=
      mul_le_mul_of_nonneg_right (by exact_mod_cast Nat.not_le.mp hlt) hunit.le
    have hupper := abs_le.mp ha.near_le
    have hlower := abs_le.mp hb.near_le
    -- they are next to each other, with the number halfway, and cannot both be even
    have hab : (a : ℚ) * 2 ^ e = (b + 1) * 2 ^ e := by linarith
    have hnext : a = b + 1 := by exact_mod_cast mul_right_cancel₀ hunit.ne' hab
    have heven : ∀ {c : Nat}, f.Rounds q c e → |(c : ℚ) * 2 ^ e - q| = 2 ^ e / 2 → c % 2 = 0 :=
      fun hc hhalf => hc.near.elim (fun hlt => absurd hhalf hlt.ne) And.right
    have ha₂ := heven ha (by rw [abs_of_nonneg] <;> linarith)
    have hb₂ := heven hb (by rw [abs_of_nonpos] <;> linarith)
    omega
  exact le_antisymm (hle h h') (hle h' h)

/-- A multiple of the unit is not crossed. -/
theorem Rounds.le_of_multiple (h : f.Rounds q m e) {k : Nat} (hk : (k : ℚ) * 2 ^ e ≤ q) :
    (k : ℚ) * 2 ^ e ≤ m * 2 ^ e := by
  have hunit : (0 : ℚ) < 2 ^ e := by positivity
  refine mul_le_mul_of_nonneg_right ?_ hunit.le
  have hnear := abs_le.mp h.near_le
  by_contra hlt
  have hsucc : ((m : ℚ) + 1) * 2 ^ e ≤ k * 2 ^ e :=
    mul_le_mul_of_nonneg_right (by exact_mod_cast not_le.mp hlt) hunit.le
  linarith

theorem Rounds.multiple_le (h : f.Rounds q m e) {k : Nat} (hk : q ≤ (k : ℚ) * 2 ^ e) :
    (m : ℚ) * 2 ^ e ≤ k * 2 ^ e := by
  have hunit : (0 : ℚ) < 2 ^ e := by positivity
  refine mul_le_mul_of_nonneg_right ?_ hunit.le
  have hnear := abs_le.mp h.near_le
  by_contra hlt
  have hsucc : ((k : ℚ) + 1) * 2 ^ e ≤ m * 2 ^ e :=
    mul_le_mul_of_nonneg_right (by exact_mod_cast not_le.mp hlt) hunit.le
  linarith

/-- The values of the format. -/
def Represents (f : BinaryFormat) (g : ℚ) : Prop :=
  ∃ (m : Nat) (e : Int), g = m * 2 ^ e ∧ m ≤ 2 ^ f.precision ∧ f.leastExponent ≤ e

/-- Powers of two are values, from the least exponent on. -/
theorem represents_two_zpow (f : BinaryFormat) {e : Int} (he : f.leastExponent ≤ e) :
    f.Represents (2 ^ e) :=
  ⟨1, e, by simp, Nat.one_le_two_pow, he⟩

/-- A value is a multiple of the unit at which a number is rounded, or it is below a multiple that is
below the number. -/
theorem Represents.multiple (hg : f.Represents g) (hprecision : f.precision ≠ 0) (h : f.Fits q e) :
    ∃ k : Nat, g = k * 2 ^ e ∨ g ≤ k * 2 ^ e ∧ (k : ℚ) * 2 ^ e ≤ q := by
  obtain ⟨n, e', rfl, hn, hleast⟩ := hg
  have htwo : (2 : ℚ) ≠ 0 := by norm_num
  rcases le_or_gt e e' with hle | hlt
  · refine ⟨n * 2 ^ (e' - e).toNat, .inl ?_⟩
    have hsplit : (2 : ℚ) ^ e' = 2 ^ (e' - e).toNat * 2 ^ e := by
      rw [← zpow_natCast, ← zpow_add₀ htwo, Int.toNat_of_nonneg (by omega), sub_add_cancel]
    rw [hsplit]
    push_cast
    ring
  · -- the number fills the precision, so the value is not above the power of two below it
    have hpower : ((2 ^ (f.precision - 1) : Nat) : ℚ) * 2 ^ e = 2 ^ (e + f.precision - 1) := by
      rw [Nat.cast_pow, Nat.cast_ofNat, ← zpow_natCast, ← zpow_add₀ htwo]
      congr 1
      omega
    refine ⟨2 ^ (f.precision - 1), .inr ⟨?_, ?_⟩⟩
    · have hn : (n : ℚ) ≤ 2 ^ f.precision := by exact_mod_cast hn
      calc (n : ℚ) * 2 ^ e' ≤ 2 ^ f.precision * 2 ^ e' :=
            mul_le_mul_of_nonneg_right hn (by positivity)
        _ = 2 ^ (f.precision + e') := by rw [zpow_add₀ htwo, zpow_natCast]
        _ ≤ 2 ^ (e + f.precision - 1) := zpow_le_zpow_right₀ one_le_two (by omega)
        _ = _ := hpower.symm
    · rw [hpower]
      exact h.full.resolve_left (by omega)

/-- Rounding does not cross a value of the format. -/
theorem Rounds.le (h : f.Rounds q m e) (hprecision : f.precision ≠ 0) (hg : f.Represents g)
    (hle : g ≤ q) : g ≤ m * 2 ^ e := by
  obtain ⟨k, rfl | ⟨hgk, hk⟩⟩ := hg.multiple hprecision h.toFits
  · exact h.le_of_multiple hle
  · exact hgk.trans (h.le_of_multiple hk)

theorem Rounds.ge (h : f.Rounds q m e) (hprecision : f.precision ≠ 0) (hg : f.Represents g)
    (hle : q ≤ g) : m * 2 ^ e ≤ g := by
  obtain ⟨k, rfl | ⟨hgk, hk⟩⟩ := hg.multiple hprecision h.toFits
  · exact h.multiple_le hle
  · -- number and value are the same
    have hq : q = k * 2 ^ e := le_antisymm (hle.trans hgk) hk
    exact (h.multiple_le hq.le).trans (hk.trans hle)

theorem Rounds.mantissa_le (h : f.Rounds q m e) : m ≤ 2 ^ f.precision := by
  have htop : q ≤ ((2 ^ f.precision : Nat) : ℚ) * 2 ^ e := by
    have hlt := h.lt
    rw [add_comm, zpow_add₀ (by norm_num), zpow_natCast] at hlt
    exact_mod_cast hlt.le
  exact_mod_cast le_of_mul_le_mul_right (h.multiple_le htop) (by positivity)

theorem Rounds.represents (h : f.Rounds q m e) : f.Represents (m * 2 ^ e) :=
  ⟨m, e, rfl, h.mantissa_le, h.least_le⟩

/-- What is rounded to a value is rounded at an exponent that is not above that of a larger number. -/
theorem Rounds.exponent_le {y : ℚ} {e' : Int} (h : f.Rounds q m e) (hprecision : f.precision ≠ 0)
    (hy : f.Fits y e') (hle : (m : ℚ) * 2 ^ e ≤ y) : e ≤ e' := by
  rcases h.full with rfl | hfull
  · exact hy.least_le
  · have hleast := h.least_le
    have hpower := h.le hprecision (f.represents_two_zpow (by omega)) hfull
    have hlt := (hpower.trans hle).trans_lt hy.lt
    have := (zpow_lt_zpow_iff_right₀ one_lt_two).mp hlt
    omega

theorem Rounds.unit_le {y : ℚ} {e' : Int} (h : f.Rounds q m e) (hprecision : f.precision ≠ 0)
    (hy : f.Fits y e') (hle : (m : ℚ) * 2 ^ e ≤ y) : (2 : ℚ) ^ e ≤ 2 ^ e' :=
  zpow_le_zpow_right₀ one_le_two (h.exponent_le hprecision hy hle)

/-- A value is rounded to itself. -/
theorem Rounds.eq_of_represents (h : f.Rounds q m e) (hprecision : f.precision ≠ 0)
    (hq : f.Represents q) : m * 2 ^ e = q :=
  le_antisymm (h.ge hprecision hq le_rfl) (h.le hprecision hq le_rfl)

/-! ### The next value -/

/-- One unit more is a value again. -/
theorem Fits.represents_succ (h : f.Fits (m * 2 ^ e) e) : f.Represents ((m + 1) * 2 ^ e) := by
  have hlt : (m : ℚ) * 2 ^ e < (2 ^ f.precision : Nat) * 2 ^ e := by
    rw [Nat.cast_pow, Nat.cast_ofNat, ← zpow_natCast, ← zpow_add₀ two_ne_zero, add_comm]
    exact h.lt
  have hlt : m < 2 ^ f.precision := by exact_mod_cast lt_of_mul_lt_mul_right hlt (by positivity)
  exact ⟨m + 1, e, by rw [Nat.cast_succ], hlt, h.least_le⟩

/-- There is no value in between. -/
theorem Represents.succ_le (hg : f.Represents g) (hprecision : f.precision ≠ 0)
    (h : f.Fits (m * 2 ^ e) e) (hlt : m * 2 ^ e < g) : (m + 1) * 2 ^ e ≤ g := by
  obtain ⟨k, rfl | ⟨hgk, hk⟩⟩ := hg.multiple hprecision h
  · have hlt : m < k := by exact_mod_cast lt_of_mul_lt_mul_right hlt (by positivity)
    refine mul_le_mul_of_nonneg_right ?_ (by positivity)
    exact_mod_cast hlt
  · exact absurd (hgk.trans hk) hlt.not_ge

end Rounds

/-! ### The nearest value -/

section nearest

variable {f : BinaryFormat} {q g : ℚ}

theorem num_div_den (hq : 0 ≤ q) : (q.num.toNat : ℚ) / q.den = q := by
  have hnum : ((q.num.toNat : Int) : ℚ) = q.num :=
    congrArg _ (Int.toNat_of_nonneg (Rat.num_nonneg.mpr hq))
  rw [Int.cast_natCast] at hnum
  rw [hnum, Rat.num_div_den]

theorem nearest_rounds (f : BinaryFormat) (hq : 0 ≤ q) :
    ∃ m e, f.Rounds q m e ∧ f.nearest q = m * 2 ^ e := by
  refine ⟨_, _, num_div_den hq ▸ f.round_rounds q.num.toNat q.den_nz, ?_⟩
  rw [nearest, scaled_eq]

theorem nearest_nonneg (f : BinaryFormat) (q : ℚ) : 0 ≤ f.nearest q := by
  rw [nearest, scaled_eq]
  positivity

theorem nearest_represents (f : BinaryFormat) (hq : 0 ≤ q) : f.Represents (f.nearest q) := by
  obtain ⟨m, e, hround, hnearest⟩ := f.nearest_rounds hq
  exact hnearest ▸ hround.represents

theorem Represents.le_nearest (hg : f.Represents g) (hprecision : f.precision ≠ 0) (hq : 0 ≤ q)
    (hle : g ≤ q) : g ≤ f.nearest q := by
  obtain ⟨m, e, hround, hnearest⟩ := f.nearest_rounds hq
  exact hnearest ▸ hround.le hprecision hg hle

/-- A value is a multiple of the unit at which it is rounded. -/
theorem Represents.exists_fits (hg : f.Represents g) (hprecision : f.precision ≠ 0) (h : 0 ≤ g) :
    ∃ (m : Nat) (e : Int), g = m * 2 ^ e ∧ f.Fits (m * 2 ^ e) e := by
  obtain ⟨m, e, hround, -⟩ := f.nearest_rounds h
  have hg := hround.eq_of_represents hprecision hg
  exact ⟨m, e, hg.symm, hg ▸ hround.toFits⟩

end nearest

end BinaryFormat

/-! ### Binary64 numbers -/

theorem Double.mantissa_lt (x : Double) : x.mantissa < 2 ^ 53 := by
  have hfraction : x.fractionField < Nat.pow 2 52 := Nat.mod_lt _ (Nat.pow_pos (by decide))
  have hpow : Nat.pow 2 52 + Nat.pow 2 52 = 2 ^ 53 := rfl
  rw [mantissa]
  split <;> omega

theorem Double.leastExponent_le (x : Double) : -1074 ≤ x.exponent := by
  rw [exponent]
  omega

theorem BinaryFormat.double_precision_ne_zero : double.precision ≠ 0 := by decide

theorem Double.represents_magnitude (x : Double) : BinaryFormat.double.Represents x.magnitude :=
  ⟨x.mantissa, x.exponent, scaled_eq _ _, x.mantissa_lt.le, x.leastExponent_le⟩

end SearchClient.Number
