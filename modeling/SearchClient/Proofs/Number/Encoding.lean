/-
SearchClient/Proofs/Number/Encoding.lean

Binary64 numbers and the rationals that become them.  A finite number is the encoding of its own sign,
mantissa and exponent (`Double.ofParts_parts`).  The rationals around it that are rounded to it reach
halfway to its neighbours (`Double.Covers`); just below a power of two the neighbour is closer, and what
is covered there rounds at a smaller exponent to the same bits.

Main result: whatever a number covers is encoded as that number (`Double.Covers.ofRatio_eq`).  A decimal
is a ratio here whatever its exponent is: the powers of ten that `ofDecimal` cuts off are far from every
number that is finite and not zero (`Double.Covers.ofDecimal_eq`).
-/
import SearchClient.Proofs.Number.Rounding

namespace SearchClient.Number

open BinaryFormat

namespace Double

/-! ### Bits -/

theorem fractionField_lt (x : Double) : x.fractionField < 2 ^ 52 := Nat.mod_lt _ (by decide)

theorem exponentField_le (x : Double) : x.exponentField ≤ 2047 :=
  Nat.le_of_lt_succ (Nat.mod_lt _ (by decide))

/-- The bits are made of sign, exponent and fraction. -/
theorem toNat_bits (x : Double) :
    x.bits.toNat = signBit x.isNegative + (x.exponentField * 2 ^ 52 + x.fractionField) := by
  have hbits : x.bits.toNat < 2 ^ 64 := x.bits.toNat_lt
  simp only [signBit, isNegative, exponentField, fractionField, decide_eq_true_eq, Nat.pow_eq]
  split <;> omega

/-- The distance of a finite number from zero, in the order in which finite numbers are encoded. -/
theorem exponent_mantissa (x : Double) :
    (x.exponent + 1074).toNat * 2 ^ 52 + x.mantissa = x.exponentField * 2 ^ 52 + x.fractionField := by
  simp only [exponent, mantissa, Nat.pow_eq]
  split <;> omega

/-- A finite number is encoded from its own parts. -/
theorem ofParts_parts {x : Double} (hx : x.isFinite = true) :
    ofParts x.isNegative x.mantissa x.exponent = x := by
  have hfield : x.exponentField ≠ 2047 := of_decide_eq_true hx
  have hfield_le := x.exponentField_le
  have hfraction := x.fractionField_lt
  have hbelow : x.exponentField * 2 ^ 52 + x.fractionField ≤ 2047 * 2 ^ 52 := by omega
  rw [ofParts, Nat.pow_eq, exponent_mantissa, min_eq_left hbelow, ← toNat_bits, UInt64.ofNat_toNat]

/-- A full mantissa is the least one at the next exponent: the encoding goes on without a gap. -/
theorem ofParts_two_mul (negative : Bool) {e : Int} (he : -1074 ≤ e) :
    ofParts negative (2 ^ 53) e = ofParts negative (2 ^ 52) (e + 1) := by
  have hplace : (e + 1074).toNat * Nat.pow 2 52 + 2 ^ 53 =
      (e + 1 + 1074).toNat * Nat.pow 2 52 + 2 ^ 52 := by
    rw [Nat.pow_eq]
    omega
  rw [ofParts, ofParts, hplace]

/-! ### What is rounded to a number -/

/-- How far below a number the rationals that are rounded to it reach, in units of its last digit. -/
def reach (x : Double) : ℚ := if x.fractionField = 0 ∧ 1 < x.exponentField then 1 / 4 else 1 / 2

/-- The rationals that are rounded to the absolute value of a number: they lie between it and the
points halfway to its neighbours, and on such a point only if the mantissa is even. -/
structure Covers (x : Double) (q : ℚ) : Prop where
  low_le : (x.mantissa - x.reach) * 2 ^ x.exponent ≤ q
  le_high : q ≤ (x.mantissa + 1 / 2) * 2 ^ x.exponent
  ends : x.mantissa % 2 = 0 ∨
    (x.mantissa - x.reach) * 2 ^ x.exponent < q ∧ q < (x.mantissa + 1 / 2) * 2 ^ x.exponent

section Covers

variable {x : Double} {q : ℚ}

theorem Covers.lt (h : x.Covers q) : q < 2 ^ (x.exponent + 53) := by
  have hunit : (0 : ℚ) < 2 ^ x.exponent := by positivity
  have hm : (x.mantissa : ℚ) + 1 ≤ 2 ^ (53 : Int) := by exact_mod_cast x.mantissa_lt
  calc q ≤ (x.mantissa + 1 / 2) * 2 ^ x.exponent := h.le_high
    _ < 2 ^ (53 : Int) * 2 ^ x.exponent := mul_lt_mul_of_pos_right (by linarith) hunit
    _ = 2 ^ (x.exponent + 53) := by rw [← zpow_add₀ (by norm_num), add_comm]

/-- Unless it lies below a power of two, what a number covers is within half a unit of it. -/
theorem Covers.within (h : x.Covers q)
    (hwide : x.reach = 1 / 2 ∨ (x.mantissa : ℚ) * 2 ^ x.exponent ≤ q) :
    (x.mantissa - 1 / 2) * 2 ^ x.exponent ≤ q ∧
      (x.mantissa % 2 = 0 ∨ (x.mantissa - 1 / 2) * 2 ^ x.exponent < q ∧
        q < (x.mantissa + 1 / 2) * 2 ^ x.exponent) := by
  rcases hwide with hreach | habove
  · have hlow := h.low_le
    have hends := h.ends
    rw [hreach] at hlow hends
    exact ⟨hlow, hends⟩
  · have hunit : (0 : ℚ) < 2 ^ x.exponent := by positivity
    have hbelow : (x.mantissa - 1 / 2) * 2 ^ x.exponent < q := by linarith
    exact ⟨hbelow.le, h.ends.imp_right fun hends => ⟨hbelow, hends.2⟩⟩

theorem Covers.fits (h : x.Covers q)
    (hwide : x.reach = 1 / 2 ∨ (x.mantissa : ℚ) * 2 ^ x.exponent ≤ q) :
    double.Fits q x.exponent := by
  refine ⟨x.leastExponent_le, h.lt, ?_⟩
  by_cases hfield : x.exponentField ≤ 1
  · left
    show x.exponent = -1074
    rw [exponent]
    omega
  right
  have hunit : (0 : ℚ) < 2 ^ x.exponent := by positivity
  have hm : (x.mantissa : ℚ) = 2 ^ 52 + x.fractionField := by
    rw [mantissa, if_neg (by omega), Nat.cast_add]
    norm_num
  have htop : (2 : ℚ) ^ (x.exponent + 53 - 1) = 2 ^ 52 * 2 ^ x.exponent := by
    rw [← zpow_natCast, ← zpow_add₀ (by norm_num)]
    congr 1
    push_cast
    ring
  show (2 : ℚ) ^ (x.exponent + 53 - 1) ≤ q
  rw [htop]
  rcases hwide with hreach | habove
  · -- the fraction is not zero, so half a unit below the number is not below the power of two
    have hfraction : (1 : ℚ) ≤ x.fractionField := by
      have hne : x.fractionField ≠ 0 := by
        intro hzero
        rw [reach, if_pos ⟨hzero, by omega⟩] at hreach
        norm_num at hreach
      exact_mod_cast Nat.one_le_iff_ne_zero.mpr hne
    have hlow := h.low_le
    rw [hreach, hm] at hlow
    exact le_trans (mul_le_mul_of_nonneg_right (by linarith) hunit.le) hlow
  · have hfraction : (0 : ℚ) ≤ x.fractionField := Nat.cast_nonneg _
    rw [hm] at habove
    exact le_trans (mul_le_mul_of_nonneg_right (by linarith) hunit.le) habove

/-- Unless it lies below a power of two, what a number covers is rounded to its own parts. -/
theorem Covers.rounds (h : x.Covers q)
    (hwide : x.reach = 1 / 2 ∨ (x.mantissa : ℚ) * 2 ^ x.exponent ≤ q) :
    double.Rounds q x.mantissa x.exponent := by
  obtain ⟨hlow, hends⟩ := h.within hwide
  have hhigh := h.le_high
  have hnear : |(x.mantissa : ℚ) * 2 ^ x.exponent - q| ≤ 2 ^ x.exponent / 2 := by
    rw [abs_le]
    constructor <;> linarith
  refine ⟨h.fits hwide, ?_⟩
  rcases hnear.lt_or_eq with hlt | heq
  · exact .inl hlt
  · -- off by half a unit is an end of what is covered
    refine .inr ⟨heq, hends.resolve_right ?_⟩
    rintro ⟨hlow, hhigh⟩
    rcases eq_or_eq_neg_of_abs_eq heq with hoff | hoff
    · linarith
    · linarith

/-- Below a power of two, what a number covers is rounded to twice as many units of half the size. -/
theorem Covers.rounds_narrow (h : x.Covers q) (hnarrow : x.reach ≠ 1 / 2)
    (hbelow : q < x.mantissa * 2 ^ x.exponent) :
    x.mantissa = 2 ^ 52 ∧ double.Rounds q (2 ^ 53) (x.exponent - 1) := by
  obtain ⟨hfraction, hfield⟩ : x.fractionField = 0 ∧ 1 < x.exponentField := by
    by_contra hwide
    exact hnarrow (if_neg hwide)
  have hreach : x.reach = 1 / 4 := if_pos ⟨hfraction, hfield⟩
  have hm : x.mantissa = 2 ^ 52 := by
    rw [mantissa, if_neg (by omega), hfraction]
    rfl
  -- a quarter of a unit is half of the unit below
  have hunit : (2 : ℚ) ^ x.exponent = 2 * 2 ^ (x.exponent - 1) := by
    rw [← zpow_one_add₀ (by norm_num), add_sub_cancel]
  have hpos : (0 : ℚ) < 2 ^ (x.exponent - 1) := by positivity
  have hlow := h.low_le
  rw [hm, hreach, hunit] at hlow
  rw [hm, hunit] at hbelow
  push_cast at hlow hbelow
  have hsplit : ∀ n : Nat, (2 : ℚ) ^ (x.exponent - 1 + n) = 2 ^ n * 2 ^ (x.exponent - 1) := by
    intro n
    rw [zpow_add₀ (by norm_num), zpow_natCast, mul_comm]
  refine ⟨hm, ⟨?_, ?_, .inr ?_⟩, ?_⟩
  · show -1074 ≤ x.exponent - 1
    rw [exponent]
    omega
  · show q < 2 ^ (x.exponent - 1 + (53 : Nat))
    rw [hsplit]
    linarith
  · show (2 : ℚ) ^ (x.exponent - 1 + (53 : Nat) - 1) ≤ q
    have htop : x.exponent - 1 + (53 : Nat) - 1 = x.exponent - 1 + (52 : Nat) := by omega
    rw [htop, hsplit]
    linarith
  · have hnear : |((2 ^ 53 : Nat) : ℚ) * 2 ^ (x.exponent - 1) - q| ≤ 2 ^ (x.exponent - 1) / 2 := by
      push_cast
      rw [abs_le]
      constructor <;> linarith
    rcases hnear.lt_or_eq with hlt | heq
    · exact .inl hlt
    · exact .inr ⟨heq, by norm_num⟩

/-- Whatever a finite number covers is encoded as that number. -/
theorem Covers.ofRatio_eq {num den : Nat} (h : x.Covers (num / den)) (hx : x.isFinite = true)
    (hden : den ≠ 0) : ofRatio x.isNegative num den = x := by
  have hround := double.round_rounds num hden
  rw [ofRatio]
  by_cases hwide : x.reach = 1 / 2 ∨ (x.mantissa : ℚ) * 2 ^ x.exponent ≤ num / den
  · obtain ⟨hm, he⟩ := hround.unique (h.rounds hwide)
    rw [hm, he, ofParts_parts hx]
  · obtain ⟨hnarrow, hbelow⟩ := not_or.mp hwide
    obtain ⟨hmantissa, hrounds⟩ := h.rounds_narrow hnarrow (not_le.mp hbelow)
    obtain ⟨hm, he⟩ := hround.unique hrounds
    have hplace := ofParts_two_mul x.isNegative hrounds.least_le
    rw [sub_add_cancel] at hplace
    rw [hm, he, hplace, ← hmantissa, ofParts_parts hx]

/-! ### Decimals -/

/-- The powers of ten that are cut off are beyond the powers of two of all finite numbers. -/
theorem two_zpow_lt : (2 : ℚ) ^ (1075 : Int) < 10 ^ (330 : Int) := by
  have h : (2 : Nat) ^ 1075 < 10 ^ 330 := by decide +kernel
  exact_mod_cast h

theorem exponent_le (hx : x.isFinite = true) : x.exponent ≤ 971 := by
  have hfield : x.exponentField ≠ 2047 := of_decide_eq_true hx
  have hfield_le := x.exponentField_le
  rw [exponent]
  omega

theorem Covers.lt_cutOff (h : x.Covers q) (hx : x.isFinite = true) : q < 10 ^ (330 : Int) := by
  have hexponent := exponent_le hx
  calc q < 2 ^ (x.exponent + 53) := h.lt
    _ ≤ 2 ^ (1075 : Int) := zpow_le_zpow_right₀ (by norm_num) (by omega)
    _ < 10 ^ (330 : Int) := two_zpow_lt

theorem Covers.cutOff_lt (h : x.Covers q) (hm : x.mantissa ≠ 0) : 10 ^ (-330 : Int) < q := by
  have hleast : (2 : ℚ) ^ (-1074 : Int) ≤ 2 ^ x.exponent :=
    zpow_le_zpow_right₀ (by norm_num) x.leastExponent_le
  have hreach : x.reach ≤ 1 / 2 := by
    rw [reach]
    split <;> norm_num
  have hone : (1 : ℚ) ≤ x.mantissa := by exact_mod_cast Nat.one_le_iff_ne_zero.mpr hm
  calc (10 : ℚ) ^ (-330 : Int) = (10 ^ (330 : Int))⁻¹ := zpow_neg _ _
    _ < (2 ^ (1075 : Int))⁻¹ := inv_strictAnti₀ (by positivity) two_zpow_lt
    _ = 1 / 2 * 2 ^ (-1074 : Int) := by
        rw [← zpow_neg, one_div, ← zpow_neg_one, ← zpow_add₀ (by norm_num)]
        rfl
    _ ≤ (x.mantissa - x.reach) * 2 ^ x.exponent := by gcongr <;> linarith
    _ ≤ q := h.low_le

/-- A decimal as the quotient that is rounded. -/
theorem decimal_div (digits : Nat) (power : Int) :
    ((digits * Nat.pow 10 power.toNat : Nat) : ℚ) / (Nat.pow 10 (-power).toNat : Nat) =
      digits * 10 ^ power := by
  rcases power.eq_nat_or_neg with ⟨n, rfl | rfl⟩
  · simp
  · simp [div_eq_mul_inv]

/-- A decimal that a number covers is read as that number. -/
theorem Covers.ofDecimal_eq {digits : Nat} {power : Int} (h : x.Covers (digits * 10 ^ power))
    (hx : x.isFinite = true) (hm : x.mantissa ≠ 0) : ofDecimal x.isNegative digits power = x := by
  have hten : (0 : ℚ) < 10 ^ power := by positivity
  have habove := h.cutOff_lt hm
  have hbelow := h.lt_cutOff hx
  have hdigits : digits ≠ 0 := by
    rintro rfl
    rw [Nat.cast_zero, zero_mul] at habove
    exact habove.not_ge (by positivity)
  -- neither cut is made
  have hsmall : ¬(digits = 0 ∨ (digits.log2 + 1 : Int) + power < -330) := by
    rintro (hzero | hcut)
    · exact hdigits hzero
    refine habove.not_ge ?_
    calc (digits : ℚ) * 10 ^ power ≤ 10 ^ (digits.log2 + 1 : Int) * 10 ^ power := by
          gcongr
          refine (log2_bounds hdigits).2.le.trans ?_
          exact_mod_cast Nat.pow_le_pow_left (by decide : 2 ≤ 10) (digits.log2 + 1)
      _ = 10 ^ (digits.log2 + 1 + power : Int) := (zpow_add₀ (by norm_num) _ _).symm
      _ ≤ 10 ^ (-330 : Int) := zpow_le_zpow_right₀ (by norm_num) hcut.le
  have hlarge : ¬(330 < (digits.log2 / 3 + power : Int) ∧ 330 < power) := by
    rintro ⟨-, hcut⟩
    refine hbelow.not_ge ?_
    have hone : (1 : ℚ) ≤ digits := by exact_mod_cast Nat.one_le_iff_ne_zero.mpr hdigits
    calc (10 : ℚ) ^ (330 : Int) ≤ 10 ^ power := zpow_le_zpow_right₀ (by norm_num) hcut.le
      _ ≤ digits * 10 ^ power := le_mul_of_one_le_left hten.le hone
  rw [ofDecimal, if_neg hsmall, if_neg hlarge]
  exact Covers.ofRatio_eq (decimal_div digits power ▸ h) hx
    (Nat.pow_pos (by decide : 0 < 10)).ne'

/-- Zero has no digits that count, and is read from any power of ten. -/
theorem ofDecimal_zero (negative : Bool) (power : Int) :
    ofDecimal negative 0 power = ofParts negative 0 (-1074) := by
  rw [ofDecimal, if_pos (.inl rfl)]

/-- A finite number without digits is the zero of its sign. -/
theorem eq_ofParts_zero (hx : x.isFinite = true) (hm : x.mantissa = 0) :
    x = ofParts x.isNegative 0 (-1074) := by
  have hexponent : x.exponent = -1074 := by
    by_cases hfield : x.exponentField = 0
    · rw [exponent, hfield]
      rfl
    · rw [mantissa, if_neg hfield] at hm
      have h52 : 0 < Nat.pow 2 52 := by decide
      omega
  rw [← hm, ← hexponent, ofParts_parts hx]

end Covers

end Double

end SearchClient.Number
