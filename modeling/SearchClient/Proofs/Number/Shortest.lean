/-
SearchClient/Proofs/Number/Shortest.lean

The shortest decimal of a number is one of those that read back to it.  The test of a grid point
compares natural numbers; read as rationals it asks whether the number covers the point
(`Interval.contains_ofDouble`).

The walk over the grids ends with a hit (`Interval.search_contains`): the grid that it reaches last has
a step below half a unit of the number, so the first point above the number is covered.

Main result: `Double.shortest_covers`.
-/
import Mathlib.Data.Nat.Cast.Order.Field
import SearchClient.Number.Shortest
import SearchClient.Proofs.Number.Encoding

namespace SearchClient.Number

/-! ### Numbers of digits -/

theorem lt_decimalLength (n : Nat) : n < 10 ^ decimalLength n :=
  (Nat.length_toDigits_le_iff (by decide) Nat.length_toDigits_pos).mp le_rfl

theorem decimalLength_pos (n : Nat) : 0 < decimalLength n := Nat.length_toDigits_pos

theorem pow_decimalLength_le {n : Nat} (hn : n ≠ 0) : 10 ^ (decimalLength n - 1) ≤ n := by
  by_contra hlt
  have hpos := decimalLength_pos n
  rcases Nat.eq_zero_or_pos (decimalLength n - 1) with hzero | hmore
  · rw [hzero] at hlt
    omega
  · have hshort : decimalLength n ≤ decimalLength n - 1 :=
      (Nat.length_toDigits_le_iff (by decide) hmore).mpr (not_le.mp hlt)
    omega

namespace Interval

variable {i : Interval}

/-! ### The points of a grid -/

/-- A comparison with a grid point, without its denominators. -/
theorem le_point_iff (hden : i.den ≠ 0) (a c : Nat) (k : Int) :
    a * Nat.pow 10 (-k).toNat ≤ c * Nat.pow 10 k.toNat * i.den ↔
      (a : ℚ) / i.den ≤ c * 10 ^ k := by
  have hden' : (0 : ℚ) < i.den := by exact_mod_cast Nat.pos_of_ne_zero hden
  have hten : (0 : ℚ) < (Nat.pow 10 (-k).toNat : Nat) := by
    exact_mod_cast Nat.pow_pos (by decide : 0 < 10)
  rw [← Double.decimal_div, div_le_div_iff₀ hden' hten]
  norm_cast

theorem point_le_iff (hden : i.den ≠ 0) (a c : Nat) (k : Int) :
    c * Nat.pow 10 k.toNat * i.den ≤ a * Nat.pow 10 (-k).toNat ↔
      c * 10 ^ k ≤ (a : ℚ) / i.den := by
  have hden' : (0 : ℚ) < i.den := by exact_mod_cast Nat.pos_of_ne_zero hden
  have hten : (0 : ℚ) < (Nat.pow 10 (-k).toNat : Nat) := by
    exact_mod_cast Nat.pow_pos (by decide : 0 < 10)
  rw [← Double.decimal_div, div_le_div_iff₀ hten hden']
  norm_cast

theorem contains_iff (hden : i.den ≠ 0) (c : Nat) (k : Int) :
    i.contains c k = true ↔
      (i.low : ℚ) / i.den ≤ c * 10 ^ k ∧ c * 10 ^ k ≤ (i.high : ℚ) / i.den ∧
        (i.closed = true ∨
          (i.low : ℚ) / i.den < c * 10 ^ k ∧ c * 10 ^ k < (i.high : ℚ) / i.den) := by
  simp only [contains]
  split
  · next hclosed =>
    simp only [Bool.and_eq_true, decide_eq_true_eq, le_point_iff hden, point_le_iff hden, hclosed,
      true_or, and_true]
  · next hopen =>
    simp only [Bool.and_eq_true, decide_eq_true_eq, ← not_le, le_point_iff hden,
      point_le_iff hden, hopen]
    constructor
    · rintro ⟨hlow, hhigh⟩
      exact ⟨(not_le.mp hlow).le, (not_le.mp hhigh).le, .inr ⟨hlow, hhigh⟩⟩
    · rintro ⟨-, -, h | h⟩
      · cases h
      · exact h

/-- A point is found on a grid only if it passes the test. -/
theorem contains_of_onGrid {tie : Tie} {k : Int} {c : Nat} (h : i.onGrid tie k = some c) :
    i.contains c k = true := by
  simp only [onGrid] at h
  generalize hbelow : i.value * Nat.pow 10 (-k).toNat / (i.den * Nat.pow 10 k.toNat) = below at h
  split at h
  · cases h
  · next hfirst _ =>
    obtain rfl := Option.some.inj h
    exact hfirst
  · next _ hsecond =>
    obtain rfl := Option.some.inj h
    exact hsecond
  · next hfirst hsecond =>
    have hneighbour : c = below ∨ c = below + 1 := by
      split_ifs at h
      · exact .inl (Option.some.inj h).symm
      · exact .inr (Option.some.inj h).symm
      · cases tie
        · have := Option.some.inj h
          omega
        · exact .inr (Option.some.inj h).symm
    rcases hneighbour with rfl | rfl
    · exact hfirst
    · exact hsecond

/-- The grid has a point if the one above the number passes the test. -/
theorem exists_onGrid (tie : Tie) {k : Int}
    (h : i.contains (i.value * Nat.pow 10 (-k).toNat / (i.den * Nat.pow 10 k.toNat) + 1) k = true) :
    ∃ c, i.onGrid tie k = some c := by
  simp only [onGrid, h]
  generalize i.value * Nat.pow 10 (-k).toNat / (i.den * Nat.pow 10 k.toNat) = below
  cases i.contains below k
  · exact ⟨_, rfl⟩
  · simp only
    split_ifs
    · exact ⟨_, rfl⟩
    · exact ⟨_, rfl⟩
    · cases tie
      · exact ⟨_, rfl⟩
      · exact ⟨_, rfl⟩

/-- The walk ends with a point that passes the test, if one of the grids has such a point. -/
theorem search_contains (tie : Tie) {n j : Nat} {k : Int} (hj : j < n)
    (h : ∃ c, i.onGrid tie (k - j) = some c) :
    i.contains (i.search tie n k).digits (i.search tie n k).power = true := by
  induction n generalizing k j with
  | zero => omega
  | succ n ih =>
    rw [search]
    split
    · next c hc => exact contains_of_onGrid hc
    · next hnone =>
      cases j with
      | zero =>
        obtain ⟨c, hc⟩ := h
        rw [Nat.cast_zero, sub_zero, hnone] at hc
        cases hc
      | succ j =>
        apply ih (Nat.lt_of_succ_lt_succ hj)
        have hstep : k - 1 - (j : Int) = k - (j + 1 : Nat) := by omega
        rw [hstep]
        exact h

/-! ### The interval of a number -/

section ofDouble

variable {x : Double}

theorem ofDouble_den_ne_zero (x : Double) : (ofDouble x).den ≠ 0 := by
  have hpow : 0 < Nat.pow 2 (-x.exponent).toNat := Nat.pow_pos (by decide)
  show 4 * Nat.pow 2 (-x.exponent).toNat ≠ 0
  omega

theorem ofDouble_closed (x : Double) : (ofDouble x).closed = true ↔ x.mantissa % 2 = 0 :=
  decide_eq_true_iff

/-- A quarter of the unit, with the denominator of the interval. -/
theorem quarters_div (n : Nat) (e : Int) :
    ((n * Nat.pow 2 e.toNat : Nat) : ℚ) / (4 * Nat.pow 2 (-e).toNat : Nat) = n / 4 * 2 ^ e := by
  rcases e.eq_nat_or_neg with ⟨k, rfl | rfl⟩
  · simp
    ring
  · simp [div_eq_mul_inv]
    ring

theorem ofDouble_value (x : Double) :
    ((ofDouble x).value : ℚ) / (ofDouble x).den = x.mantissa * 2 ^ x.exponent := by
  show ((4 * x.mantissa * Nat.pow 2 x.exponent.toNat : Nat) : ℚ) / _ = _
  rw [show (ofDouble x).den = 4 * Nat.pow 2 (-x.exponent).toNat from rfl, quarters_div]
  push_cast
  ring

theorem ofDouble_high (x : Double) :
    ((ofDouble x).high : ℚ) / (ofDouble x).den = (x.mantissa + 1 / 2) * 2 ^ x.exponent := by
  have hhigh : (ofDouble x).high = (4 * x.mantissa + 2) * Nat.pow 2 x.exponent.toNat := by
    rw [Nat.add_mul]
    rfl
  rw [hhigh, show (ofDouble x).den = 4 * Nat.pow 2 (-x.exponent).toNat from rfl, quarters_div]
  push_cast
  ring

theorem ofDouble_low (hm : x.mantissa ≠ 0) :
    ((ofDouble x).low : ℚ) / (ofDouble x).den = (x.mantissa - x.reach) * 2 ^ x.exponent := by
  have hlow : (ofDouble x).low = (4 * x.mantissa -
      if x.fractionField = 0 ∧ 1 < x.exponentField then 1 else 2) * Nat.pow 2 x.exponent.toNat := by
    rw [Nat.sub_mul, ite_mul, one_mul]
    rfl
  rw [hlow, show (ofDouble x).den = 4 * Nat.pow 2 (-x.exponent).toNat from rfl, quarters_div,
    Double.reach]
  split
  · rw [Nat.cast_sub (by omega)]
    push_cast
    ring
  · rw [Nat.cast_sub (by omega)]
    push_cast
    ring

/-- The test of a grid point asks whether the number covers it. -/
theorem contains_ofDouble (hm : x.mantissa ≠ 0) (c : Nat) (k : Int) :
    (ofDouble x).contains c k = true ↔ x.Covers (c * 10 ^ k) := by
  rw [contains_iff (ofDouble_den_ne_zero x), ofDouble_closed, ofDouble_low hm, ofDouble_high]
  exact ⟨fun ⟨hlow, hhigh, hends⟩ => ⟨hlow, hhigh, hends⟩,
    fun h => ⟨h.low_le, h.le_high, h.ends⟩⟩

/-- On a grid with steps below half a unit there is a point. -/
theorem exists_onGrid_of_fine (tie : Tie) (hm : x.mantissa ≠ 0) {k : Int}
    (hfine : (10 : ℚ) ^ k < 2 ^ x.exponent / 2) : ∃ c, (ofDouble x).onGrid tie k = some c := by
  have hden := ofDouble_den_ne_zero x
  have hunit : (0 : ℚ) < 2 ^ x.exponent := by positivity
  apply exists_onGrid
  rw [contains_ofDouble hm]
  generalize hbelow : (ofDouble x).value * Nat.pow 10 (-k).toNat /
    ((ofDouble x).den * Nat.pow 10 k.toNat) = below
  have hstep : 0 < (ofDouble x).den * Nat.pow 10 k.toNat :=
    Nat.mul_pos (Nat.pos_of_ne_zero hden) (Nat.pow_pos (by decide))
  -- the number lies between the two points
  have hle : (below : ℚ) * 10 ^ k ≤ x.mantissa * 2 ^ x.exponent := by
    rw [← ofDouble_value, ← point_le_iff hden, ← hbelow]
    have := Nat.div_mul_le_self ((ofDouble x).value * Nat.pow 10 (-k).toNat)
      ((ofDouble x).den * Nat.pow 10 k.toNat)
    linarith
  have hlt : (x.mantissa : ℚ) * 2 ^ x.exponent < ((below + 1 : Nat) : ℚ) * 10 ^ k := by
    rw [← ofDouble_value, ← not_le, ← point_le_iff hden, ← hbelow, not_le]
    have := Nat.lt_mul_div_succ ((ofDouble x).value * Nat.pow 10 (-k).toNat) hstep
    linarith
  have hreach : 0 < x.reach := by
    rw [Double.reach]
    split <;> norm_num
  have hlow : (x.mantissa - x.reach) * 2 ^ x.exponent < (x.mantissa : ℚ) * 2 ^ x.exponent :=
    mul_lt_mul_of_pos_right (by linarith) hunit
  have hhigh : ((below + 1 : Nat) : ℚ) * 10 ^ k < (x.mantissa + 1 / 2) * 2 ^ x.exponent := by
    push_cast
    linarith
  exact ⟨(hlow.trans hlt).le, hhigh.le, .inr ⟨hlow.trans hlt, hhigh⟩⟩

end ofDouble

/-- The first grid is at most three steps above the leading digit. -/
theorem zpow_top_le (hvalue : i.value ≠ 0) (hden : i.den ≠ 0) :
    (10 : ℚ) ^ (decimalLength (i.value / i.den) - decimalLength (i.den / i.value) - 1 : Int) ≤
      i.value / i.den := by
  have hvalue' : (0 : ℚ) < i.value := by exact_mod_cast Nat.pos_of_ne_zero hvalue
  have hden' : (0 : ℚ) < i.den := by exact_mod_cast Nat.pos_of_ne_zero hden
  rcases lt_or_ge i.value i.den with hlt | hge
  · -- below one: the reciprocal is less than the power of ten with as many zeros as it has digits
    have hzero : decimalLength (i.value / i.den) = 1 := by rw [Nat.div_eq_of_lt hlt]; rfl
    have hrec : (i.den : ℚ) ≤ 10 ^ decimalLength (i.den / i.value) * i.value := by
      have hdigits := lt_decimalLength (i.den / i.value)
      exact_mod_cast ((Nat.div_lt_iff_lt_mul (Nat.pos_of_ne_zero hvalue)).mp hdigits).le
    rw [hzero, Nat.cast_one, sub_sub_cancel_left, zpow_neg, zpow_natCast, le_div_iff₀ hden',
      inv_mul_le_iff₀ (by positivity)]
    exact hrec
  · have hone : decimalLength (i.den / i.value) = 1 := by
      have hle : i.den / i.value ≤ 1 := Nat.div_le_of_le_mul (by omega)
      have hshort : decimalLength (i.den / i.value) ≤ 1 :=
        (Nat.length_toDigits_le_iff (by decide) Nat.one_pos).mpr (by omega)
      exact le_antisymm hshort (decimalLength_pos _)
    have hwhole : i.value / i.den ≠ 0 := (Nat.div_pos hge (Nat.pos_of_ne_zero hden)).ne'
    have hpos := decimalLength_pos (i.value / i.den)
    rw [hone]
    calc (10 : ℚ) ^ (decimalLength (i.value / i.den) - (1 : Nat) - 1 : Int)
        ≤ 10 ^ ((decimalLength (i.value / i.den) - 1 : Nat) : Int) :=
          zpow_le_zpow_right₀ (by norm_num) (by omega)
      _ ≤ (i.value / i.den : Nat) := by
          exact_mod_cast pow_decimalLength_le hwhole
      _ ≤ (i.value : ℚ) / i.den := Nat.cast_div_le

end Interval

/-- The shortest decimal of a number that is not zero reads back to it. -/
theorem Double.shortest_covers {x : Double} (tie : Tie) (hm : x.mantissa ≠ 0) :
    x.Covers ((x.shortest tie).digits * 10 ^ (x.shortest tie).power) := by
  rw [shortest, if_neg hm]
  extract_lets i top
  rw [← Interval.contains_ofDouble hm]
  have hden := Interval.ofDouble_den_ne_zero x
  have hunit : (0 : ℚ) < 2 ^ x.exponent := by positivity
  have hvalue : i.value ≠ 0 := by
    have hpow : 0 < Nat.pow 2 x.exponent.toNat := Nat.pow_pos (by decide)
    show 4 * x.mantissa * Nat.pow 2 x.exponent.toNat ≠ 0
    have := Nat.pos_of_ne_zero hm
    positivity
  have htop : (10 : ℚ) ^ (top - 3) ≤ x.mantissa * 2 ^ x.exponent := by
    have hnumber : (i.value : ℚ) / i.den = x.mantissa * 2 ^ x.exponent :=
      Interval.ofDouble_value x
    rw [← hnumber]
    refine le_trans (le_of_eq ?_) (Interval.zpow_top_le hvalue hden)
    congr 1
    omega
  -- twenty grids below, a step is less than the last of seventeen digits
  have hfine : (10 : ℚ) ^ (top - (23 : Nat)) < 2 ^ x.exponent / 2 := by
    have hm' : (x.mantissa : ℚ) ≤ 2 ^ 53 := by exact_mod_cast x.mantissa_lt.le
    calc (10 : ℚ) ^ (top - (23 : Nat)) = 10 ^ (top - 3) * 10 ^ (-20 : Int) := by
          rw [← zpow_add₀ (by norm_num)]
          congr 1
          push_cast
          ring
      _ ≤ x.mantissa * 2 ^ x.exponent * 10 ^ (-20 : Int) := by gcongr
      _ ≤ 2 ^ 53 * 2 ^ x.exponent * 10 ^ (-20 : Int) := by gcongr
      _ = 2 ^ x.exponent * (2 ^ 53 * 10 ^ (-20 : Int)) := by ring
      _ < 2 ^ x.exponent * (1 / 2) := by gcongr; norm_num
      _ = 2 ^ x.exponent / 2 := by ring
  exact Interval.search_contains tie (by decide : 23 < 24)
    (Interval.exists_onGrid_of_fine tie hm hfine)

end SearchClient.Number
