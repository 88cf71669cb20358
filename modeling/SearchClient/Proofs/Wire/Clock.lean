/-
SearchClient/Proofs/Wire/Clock.lean

How waits end.  A wait never ends before it started, and a longer wait never ends before a shorter
one, whatever the grain and the reach of the clock: both are roundings up, and rounding up keeps the
order.
-/
import SearchClient.Wire.Clock

namespace SearchClient

theorem Duration.le_ceilTo {grain : Nat} (h : 0 < grain) (d : Nat) :
    d ≤ Duration.ceilTo grain d := by
  have hmod : (d + grain - 1) % grain < grain := Nat.mod_lt _ h
  have hsplit : grain * ((d + grain - 1) / grain) + (d + grain - 1) % grain = d + grain - 1 :=
    Nat.div_add_mod _ _
  have hceil : Duration.ceilTo grain d = grain * ((d + grain - 1) / grain) := Nat.mul_comm _ _
  rw [hceil]
  omega

theorem Duration.ceilTo_mono (grain : Nat) {d e : Nat} (h : d ≤ e) :
    Duration.ceilTo grain d ≤ Duration.ceilTo grain e := by
  have hnum : d + grain - 1 ≤ e + grain - 1 := by omega
  exact Nat.mul_le_mul_right grain (Nat.div_le_div_right hnum)

namespace Clock

theorem bound_mono (c : Clock) {d e : Duration} (h : d ≤ e) : c.bound d ≤ c.bound e := by
  unfold bound
  split
  · next longest _ =>
    have hd : min d longest ≤ e := Nat.le_trans (Nat.min_le_left d longest) h
    exact Nat.le_min.mpr ⟨hd, Nat.min_le_right d longest⟩
  · exact h

/-- A wait ends no earlier than it started. -/
theorem le_after (c : Clock) (t d : Duration) : t ≤ c.after t d := by
  unfold after
  split
  · exact Nat.le_refl t
  · exact Nat.le_trans (Nat.le_add_right t _) (Duration.le_ceilTo c.grain_pos _)

/-- A longer wait ends no earlier. -/
theorem after_mono (c : Clock) (t : Duration) {d e : Duration} (h : d ≤ e) :
    c.after t d ≤ c.after t e := by
  by_cases hd : d = 0
  · have hstart : c.after t d = t := by rw [after, if_pos hd]
    rw [hstart]
    exact c.le_after t e
  · have he : e ≠ 0 := fun he => hd (Nat.le_zero.mp (he ▸ h))
    rw [after, if_neg hd, after, if_neg he]
    exact Duration.ceilTo_mono c.grain (Nat.add_le_add_left (c.bound_mono h) t)

/-- The exact clock. -/
theorem nanoseconds_after (t d : Duration) : nanoseconds.after t d = t + d := by
  rw [after]
  split
  · next h => rw [h, Nat.add_zero]
  · show (t + d + 1 - 1) / 1 * 1 = t + d
    rw [Nat.add_sub_cancel, Nat.div_one, Nat.mul_one]

end Clock

end SearchClient
