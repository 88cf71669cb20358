/-
SearchClient/Proofs/Backoff.lean

Delays do not shrink.  A length of time is scaled as a binary64 number of seconds, which is off in three
places: the whole seconds and the rest are rounded, and so is their sum.  Together that is at most one unit in
the last place (`Duration.le_seconds_add`), and a factor above one makes up for it, because the next number of
the format is the least that the product is rounded to.  What comes back is at least as long
(`Duration.le_of_scale?`), so delays grow from the first one on (`Backoff.le_delayAfterCheck`).

A delay that has reached the ceiling stays there, so the ceiling may be applied to the first delay or to the
last one (`Backoff.grown_min`): polling and retrying, which differ in that, follow one schedule.

Main result: `Backoff.schedules_agree`.
-/
import SearchClient.Backoff
import SearchClient.Proofs.Number.Rounding

namespace SearchClient

open Number BinaryFormat

namespace Duration

/-! ### Seconds -/

theorem seconds_eq (d : Duration) : d.seconds =
    double.nearest (double.nearest ((d / perSecond : Nat) : ℚ) +
      double.nearest (((d % perSecond : Nat) : ℚ) / (perSecond : Nat))) := by
  rw [seconds, ← Int.natCast_ediv, ← Int.natCast_emod, Rat.mkRat_eq_div, Rat.mkRat_eq_div,
    Int.cast_natCast, Int.cast_natCast, Nat.cast_one, div_one]

theorem whole_add_part (d : Duration) : ((d / perSecond : Nat) : ℚ) +
    ((d % perSecond : Nat) : ℚ) / (perSecond : Nat) = (d : Nat) / (perSecond : Nat) := by
  have hsecond : ((perSecond : Nat) : ℚ) ≠ 0 := by norm_num [perSecond]
  rw [eq_div_iff hsecond, add_mul, div_mul_cancel₀ _ hsecond]
  exact_mod_cast Nat.div_add_mod' d perSecond

/-- A number of whole seconds is exact, or a unit is two seconds at least. -/
theorem whole_exact_or {n m : Nat} {e : Int} (h : double.Rounds n m e) :
    (m : ℚ) * 2 ^ e = n ∨ (2 : ℚ) ≤ 2 ^ e := by
  rcases le_or_gt n (2 ^ 53) with hsmall | hlarge
  · left
    exact h.eq_of_represents double_precision_ne_zero ⟨n, 0, by simp, hsmall, by decide⟩
  · right
    have hlt : (2 : ℚ) ^ (53 : Int) < 2 ^ (e + 53) := by
      refine lt_trans ?_ h.lt
      exact_mod_cast hlarge
    have hpower := (zpow_lt_zpow_iff_right₀ one_lt_two).mp hlt
    calc (2 : ℚ) = 2 ^ (1 : Int) := (zpow_one 2).symm
      _ ≤ 2 ^ e := zpow_le_zpow_right₀ one_le_two (by omega)

/-- A sum of whole seconds and a part of one, all three rounded, is off by one unit in the last place
at most. -/
theorem le_nearest_add {n : Nat} {part : ℚ} (hpart : 0 ≤ part) (hpart₁ : part < 1) {e : Int}
    (h : double.Fits (double.nearest (double.nearest n + double.nearest part)) e) :
    n + part ≤ double.nearest (double.nearest n + double.nearest part) + 2 ^ e := by
  obtain ⟨ma, ea, ha, haeq⟩ := double.nearest_rounds (Nat.cast_nonneg (α := ℚ) n)
  obtain ⟨mb, eb, hb, hbeq⟩ := double.nearest_rounds hpart
  rw [haeq, hbeq] at h ⊢
  have hsum : (0 : ℚ) ≤ ma * 2 ^ ea + mb * 2 ^ eb := by positivity
  obtain ⟨mc, ec, hc, hceq⟩ := double.nearest_rounds hsum
  rw [hceq] at h ⊢
  -- the units of all three roundings are at most that of the result
  have hale : (ma : ℚ) * 2 ^ ea ≤ mc * 2 ^ ec :=
    hc.le double_precision_ne_zero ha.represents (le_add_of_nonneg_right (by positivity))
  have hble : (mb : ℚ) * 2 ^ eb ≤ mc * 2 ^ ec :=
    hc.le double_precision_ne_zero hb.represents (le_add_of_nonneg_left (by positivity))
  have hae := ha.unit_le double_precision_ne_zero h hale
  have hbe := hb.unit_le double_precision_ne_zero h hble
  have hce := hc.unit_le double_precision_ne_zero h le_rfl
  have hb₂ := abs_le.mp hb.near_le
  have hc₂ := abs_le.mp hc.near_le
  rcases whole_exact_or ha with hexact | htwo
  · linarith
  · -- the part of a second is less than half a unit
    have ha₂ := abs_le.mp ha.near_le
    linarith

/-- The seconds of a length of time are off by one unit in the last place at most. -/
theorem le_seconds_add {d : Duration} {e : Int} (h : double.Fits d.seconds e) :
    ((d : Nat) : ℚ) / (perSecond : Nat) ≤ d.seconds + 2 ^ e := by
  have hpart : (0 : ℚ) ≤ ((d % perSecond : Nat) : ℚ) / (perSecond : Nat) := by positivity
  have hpart₁ : ((d % perSecond : Nat) : ℚ) / (perSecond : Nat) < 1 := by
    rw [div_lt_one (by norm_num [perSecond])]
    exact_mod_cast Nat.mod_lt d (by norm_num [perSecond])
  rw [seconds_eq] at h ⊢
  rw [← whole_add_part]
  exact le_nearest_add hpart hpart₁ h

theorem seconds_represents (d : Duration) : double.Represents d.seconds := by
  rw [seconds_eq]
  exact double.nearest_represents (add_nonneg (nearest_nonneg _ _) (nearest_nonneg _ _))

/-- A length of time that is not zero is far above the least numbers of the format. -/
theorem seconds_ge {d : Duration} (hd : 0 < d) : (2 : ℚ) ^ (-30 : Int) ≤ d.seconds := by
  have hprecision := double_precision_ne_zero
  have hrep : double.Represents ((2 : ℚ) ^ (-30 : Int)) :=
    double.represents_two_zpow (by decide)
  have hwhole : (0 : ℚ) ≤ ((d / perSecond : Nat) : ℚ) := by positivity
  have hpart : (0 : ℚ) ≤ ((d % perSecond : Nat) : ℚ) / (perSecond : Nat) := by positivity
  rw [seconds_eq]
  refine hrep.le_nearest hprecision (add_nonneg (nearest_nonneg _ _) (nearest_nonneg _ _)) ?_
  -- one of the two summands is not zero, and is far above that number itself
  rcases Nat.eq_zero_or_pos (d / perSecond) with h0 | hpos
  · have hlt : d < perSecond := (Nat.div_eq_zero_iff.mp h0).resolve_left (by norm_num [perSecond])
    refine (hrep.le_nearest hprecision hpart ?_).trans
      (le_add_of_nonneg_left (nearest_nonneg _ _))
    rw [Nat.mod_eq_of_lt hlt, le_div_iff₀ (by norm_num [perSecond])]
    have hd' : (1 : ℚ) ≤ (d : Nat) := by exact_mod_cast hd
    refine le_trans ?_ hd'
    norm_num [perSecond]
  · refine (hrep.le_nearest hprecision hwhole ?_).trans
      (le_add_of_nonneg_right (nearest_nonneg _ _))
    have hone : (1 : ℚ) ≤ ((d / perSecond : Nat) : ℚ) := by exact_mod_cast hpos
    exact le_trans (by norm_num) hone

/-! ### Scaling -/

/-- The least number above one. -/
theorem magnitude_ge {x : Double} (h : 1 < x.magnitude) : 1 + 2 ^ (-52 : Int) ≤ x.magnitude := by
  have hone : ((2 ^ 52 : Nat) : ℚ) * 2 ^ (-52 : Int) = 1 := by norm_num
  have hfits : double.Fits ((2 ^ 52 : Nat) * 2 ^ (-52 : Int)) (-52) := by
    rw [hone]
    exact ⟨by decide, by norm_num [double], .inr (by norm_num [double])⟩
  have hnext := x.represents_magnitude.succ_le double_precision_ne_zero hfits (by rwa [hone])
  rwa [add_mul, hone, one_mul] at hnext

/-- A factor above one makes up for a unit in the last place. -/
theorem seconds_add_le {factor : Double} (hfactor : 1 < factor.magnitude) {d : Duration} (hd : 0 < d)
    {e : Int} (h : double.Fits d.seconds e) : d.seconds + 2 ^ e ≤ d.seconds * factor.magnitude := by
  have hlong := seconds_ge hd
  have hnonneg : 0 ≤ d.seconds := le_trans (by positivity) hlong
  have hfull : (2 : ℚ) ^ (e + 53 - 1) ≤ d.seconds := h.full_of_le (by decide) hlong
  calc d.seconds + (2 : ℚ) ^ e = d.seconds + 2 ^ (e + 53 - 1) * 2 ^ (-52 : Int) := by
        rw [← zpow_add₀ two_ne_zero]
        congr 2
        omega
    _ ≤ d.seconds + d.seconds * 2 ^ (-52 : Int) := by gcongr
    _ = d.seconds * (1 + 2 ^ (-52 : Int)) := by ring
    _ ≤ d.seconds * factor.magnitude := by gcongr; exact magnitude_ge hfactor

/-- The product is rounded to no less than the length of time. -/
theorem le_nearest_mul {factor : Double} (hfactor : 1 < factor.magnitude) {d : Duration}
    (hd : 0 < d) :
    ((d : Nat) : ℚ) / (perSecond : Nat) ≤ double.nearest (d.seconds * factor.magnitude) := by
  have hnonneg : 0 ≤ d.seconds := le_trans (by positivity) (seconds_ge hd)
  obtain ⟨m, e, hmultiple, hfits⟩ :=
    (seconds_represents d).exists_fits double_precision_ne_zero hnonneg
  have hnext : double.Represents (d.seconds + 2 ^ e) := by
    rw [hmultiple, ← add_one_mul]
    exact hfits.represents_succ
  rw [← hmultiple] at hfits
  exact (le_seconds_add hfits).trans (hnext.le_nearest double_precision_ne_zero
    (mul_nonneg hnonneg (by linarith)) (seconds_add_le hfactor hd hfits))

/-- A factor above one does not shorten a length of time. -/
theorem le_of_scale? {factor : Double} (hfactor : 1 < factor.magnitude) {d grown : Duration}
    (h : scale? factor d = some grown) : d ≤ grown := by
  rcases Nat.eq_zero_or_pos d with rfl | hd
  · exact Nat.zero_le grown
  rw [scale?, ofRat?] at h
  split at h
  · cases h
  · obtain rfl := Option.some.inj h
    have hsecond : (0 : ℚ) < (perSecond : Nat) := by norm_num [perSecond]
    refine le_roundDiv (Rat.den_pos _) ?_
    rw [Nat.cast_mul, mul_div_right_comm, num_div_den (nearest_nonneg _ _)]
    exact (div_le_iff₀ hsecond).mp (le_nearest_mul hfactor hd)

end Duration

namespace Backoff

variable (b : Backoff)

/-! ### Delays -/

/-- A factor that makes delays grow does not shorten them.  Nothing else about the arithmetic is used
from here on. -/
theorem le_scaled (hgrows : grows b.factor = true) {d scaled : Duration}
    (h : Duration.scale? b.factor d = some scaled) : d ≤ scaled := by
  have hfactor : 1 < b.factor.magnitude := of_decide_eq_true (Bool.and_eq_true_iff.mp hgrows).2
  exact Duration.le_of_scale? hfactor h

/-- A delay is scaled to no less, and then kept under the ceiling; one that cannot be scaled is as good as
scaled beyond it. -/
theorem exists_grow_eq (d : Duration) : ∃ scaled, d ≤ scaled ∧ b.grow d = min scaled b.ceiling := by
  rw [grow]
  split
  · next hgrows =>
    rw [growBy]
    split
    · next scaled hscaled => exact ⟨scaled, b.le_scaled hgrows hscaled, rfl⟩
    · exact ⟨max d b.ceiling, le_max_left _ _, (min_eq_right (le_max_right _ _)).symm⟩
  · exact ⟨d, le_rfl, rfl⟩

/-- Up to the ceiling, a delay does not shrink. -/
theorem le_grow {d : Duration} (hd : d ≤ b.ceiling) : d ≤ b.grow d := by
  obtain ⟨scaled, hscaled, hgrow⟩ := b.exists_grow_eq d
  rw [hgrow]
  exact le_min hscaled hd

theorem grow_le (d : Duration) : b.grow d ≤ b.ceiling := by
  obtain ⟨scaled, -, hgrow⟩ := b.exists_grow_eq d
  rw [hgrow]
  exact min_le_right _ _

/-- From the ceiling on, a delay grows to the ceiling. -/
theorem grow_of_ceiling_le {d : Duration} (hd : b.ceiling ≤ d) : b.grow d = b.ceiling := by
  obtain ⟨scaled, hscaled, hgrow⟩ := b.exists_grow_eq d
  rw [hgrow]
  exact min_eq_right (hd.trans hscaled)

/-- It does not matter for what comes next whether a delay is bounded first. -/
theorem grow_min (d : Duration) : b.grow (min d b.ceiling) = b.grow d := by
  rcases le_total d b.ceiling with hd | hd
  · rw [min_eq_left hd]
  · rw [min_eq_right hd, b.grow_of_ceiling_le hd, b.grow_of_ceiling_le le_rfl]

theorem grown_succ (n : Nat) (d : Duration) : b.grown (n + 1) d = b.grow (b.grown n d) := by
  induction n generalizing d with
  | zero => rfl
  | succ n ih => exact ih (b.grow d)

theorem le_grown {d : Duration} (n : Nat) (hd : d ≤ b.ceiling) : d ≤ b.grown n d := by
  induction n generalizing d with
  | zero => exact le_rfl
  | succ n ih => exact (b.le_grow hd).trans (ih (b.grow_le d))

theorem grown_le {d : Duration} (n : Nat) (hd : d ≤ b.ceiling) : b.grown n d ≤ b.ceiling := by
  cases n with
  | zero => exact hd
  | succ n =>
    rw [b.grown_succ]
    exact b.grow_le _

/-- To bound the first delay is to bound the last one. -/
theorem grown_min (n : Nat) (d : Duration) :
    b.grown n (min d b.ceiling) = min (b.grown n d) b.ceiling := by
  cases n with
  | zero => rfl
  | succ n =>
    have hbound : b.grown (n + 1) d ≤ b.ceiling := b.grown_le n (b.grow_le d)
    rw [min_eq_left hbound, grown, b.grow_min, grown]

/-- A delay that the factor does not make grow stays what it is under the ceiling. -/
theorem grown_constant (hgrows : grows b.factor = false) {d : Duration} (n : Nat)
    (hd : d ≤ b.ceiling) : b.grown n d = d := by
  have hgrow : b.grow d = d := by
    rw [grow, hgrows]
    exact min_eq_left hd
  induction n with
  | zero => rfl
  | succ n ih => rw [grown, hgrow, ih]

theorem grows_eq_false_iff (factor : Double) : grows factor = false ↔
    factor.isFinite = false ∨ factor.isNegative = true ∨ factor.magnitude ≤ 1 := by
  simp only [grows, Bool.and_eq_false_iff, Bool.not_eq_false', decide_eq_false_iff_not, not_lt,
    or_assoc]

/-! ### Schedules -/

/-- No delay between checks is shorter than the first one. -/
theorem le_delayAfterCheck (check : Nat) : min b.initial b.ceiling ≤ b.delayAfterCheck check :=
  b.le_grown _ (min_le_right _ _)

theorem delayAfterCheck_le (check : Nat) : b.delayAfterCheck check ≤ b.ceiling :=
  b.grown_le _ (min_le_right _ _)

theorem delayAfterCheck_mono : Monotone b.delayAfterCheck := by
  refine monotone_nat_of_le_succ fun check => ?_
  cases check with
  | zero => exact le_rfl
  | succ check =>
    -- one more check is one more time that the delay has grown
    show b.grown check _ ≤ b.grown (check + 1) _
    rw [b.grown_succ]
    exact b.le_grow (b.grown_le check (min_le_right _ _))

/-- **The two schedules are one.**  Whether the ceiling bounds the delay before it grows, as between
checks, or after it has grown, as between attempts, the delays are the same.  They are never above the
ceiling and never below the first delay under it, and they do not shrink; with a factor that is no finite
number above one, they are all the same. -/
theorem schedules_agree :
    (∀ n, b.delayAfterCheck n = b.delayAfterAttempt n) ∧
    (∀ n, b.delayAfterCheck n ≤ b.ceiling) ∧
    (∀ n, min b.initial b.ceiling ≤ b.delayAfterCheck n) ∧
    Monotone b.delayAfterCheck ∧
    (b.factor.isFinite = false ∨ b.factor.isNegative = true ∨ b.factor.magnitude ≤ 1 →
      ∀ n, b.delayAfterCheck n = min b.initial b.ceiling) := by
  refine ⟨fun n => b.grown_min _ _, b.delayAfterCheck_le, b.le_delayAfterCheck,
    b.delayAfterCheck_mono, fun hfactor n => ?_⟩
  exact b.grown_constant ((grows_eq_false_iff _).mpr hfactor) _ (min_le_right _ _)

end Backoff

end SearchClient
