/-
SearchClient/Proofs/Sample/Fair.lean

Fair generators.  A generator is fair if from every state on every word of either size comes up
(`Generator.Fair`); `Generator.ComesUp` says so of one word, as the rounds of a loop see it, now or later.

SplitMix64 is fair.  Its counter grows by an odd number and so comes to every state
(`SplitMix.counter_reaches`), and mixing loses nothing: a word and its own shift add up to different
words for different words (`SplitMix.xorShift_injective`), and so do its products with an odd number.

Main result: `splitMix_fair`.
-/
import SearchClient.Sample.SplitMix
import Mathlib.Data.Fintype.EquivFin

namespace SearchClient.Sample

variable {γ : Type}

/-! ### Words to come -/

/-- The next word and the state after it. -/
def Generator.step (g : Generator γ) : Width → γ → Nat × γ
  | .w32, s => ((g.next32 s).1.toNat, (g.next32 s).2)
  | .w64, s => ((g.next64 s).1.toNat, (g.next64 s).2)

theorem word_eq (g : Generator γ) (w : Width) (s : γ) : word g w s = some (g.step w s) := by
  cases w <;> rfl

/-- The word comes up, from a state on. -/
inductive Generator.ComesUp (g : Generator γ) (w : Width) (v : Nat) : γ → Prop
  | now {s : γ} : (g.step w s).1 = v → ComesUp g w v s
  | later {s : γ} : ComesUp g w v (g.step w s).2 → ComesUp g w v s

/-- From every state on, every word comes up. -/
def Generator.Fair (g : Generator γ) : Prop :=
  ∀ w s v, v < Nat.pow 2 w.bits → g.ComesUp w v s

/-! ### SplitMix64 -/

namespace SplitMix

/-- A word that is its own shift is zero. -/
theorem eq_zero_of_shift {d k : UInt64} (hk : 0 < k.toNat % 64) (h : d >>> k = d) : d = 0 := by
  have hnat : d.toNat / 2 ^ (k.toNat % 64) = d.toNat := by
    rw [← Nat.shiftRight_eq_div_pow, ← UInt64.toNat_shiftRight, h]
  refine UInt64.toNat_inj.mp ?_
  by_contra hpos
  have hlt : d.toNat / 2 ^ (k.toNat % 64) < d.toNat :=
    Nat.div_lt_self (Nat.pos_of_ne_zero hpos) (Nat.one_lt_two_pow (by omega))
  omega

theorem xorShift_injective {k : UInt64} (hk : 0 < k.toNat % 64) :
    Function.Injective fun z : UInt64 => z ^^^ z >>> k := by
  intro x y h
  have hsame : x ^^^ x >>> k ^^^ (y ^^^ y >>> k) = 0 := UInt64.xor_eq_zero_iff.mpr h
  have hsum : (x ^^^ y) ^^^ (x ^^^ y) >>> k = 0 := by
    rw [UInt64.shiftRight_xor, ← hsame]
    ac_rfl
  exact UInt64.xor_eq_zero_iff.mp (eq_zero_of_shift hk (UInt64.xor_eq_zero_iff.mp hsum).symm)

theorem mul_injective {c c' : UInt64} (h : c * c' = 1) : Function.Injective fun z : UInt64 => z * c := by
  intro x y hxy
  have hback : x * c * c' = y * c * c' := congrArg (· * c') hxy
  rwa [UInt64.mul_assoc, UInt64.mul_assoc, h, UInt64.mul_one, UInt64.mul_one] at hback

theorem mix_injective : Function.Injective mix := by
  have hfirst : Function.Injective fun z : UInt64 => (z ^^^ z >>> 30) * 0xBF58476D1CE4E5B9 :=
    (mul_injective (show 0xBF58476D1CE4E5B9 * 0x96DE1B173F119089 = (1 : UInt64) by decide)).comp
      (xorShift_injective (by decide))
  have hsecond : Function.Injective fun z : UInt64 => (z ^^^ z >>> 27) * 0x94D049BB133111EB :=
    (mul_injective (show 0x94D049BB133111EB * 0x319642B2D24D8EC3 = (1 : UInt64) by decide)).comp
      (xorShift_injective (by decide))
  exact ((xorShift_injective (k := 31) (by decide)).comp hsecond).comp hfirst

theorem mix_surjective : Function.Surjective mix := by
  have : Finite UInt64 := Finite.of_injective UInt64.toFin fun x y h => UInt64.toFin_inj.mp h
  exact Finite.surjective_of_injective mix_injective

/-- The step of the counter. -/
def stride : UInt64 := 0x9E3779B97F4A7C15

theorem step_w32 (s : UInt64) : splitMix.step .w32 s =
    ((mix (s + stride) >>> 32).toUInt32.toNat, s + stride) := rfl

theorem step_w64 (s : UInt64) :
    splitMix.step .w64 s = ((mix (s + stride)).toNat, s + stride) := rfl

/-- The counter comes to every state, after one step or more. -/
theorem counter_reaches (s z : UInt64) : ∃ n, z = s + UInt64.ofNat n * stride + stride := by
  have hodd : (0xF1DE83E19937733D : UInt64) * stride = 1 := by decide
  refine ⟨((z - s - stride) * 0xF1DE83E19937733D).toNat, ?_⟩
  rw [UInt64.ofNat_toNat, UInt64.mul_assoc, hodd, UInt64.mul_one]
  grind

/-- Whatever is true when the counter is at some state comes up. -/
theorem comesUp_of_reached {w : Width} {v : Nat} {z : UInt64}
    (hstate : ∀ s, (splitMix.step w s).2 = s + stride)
    (hword : ∀ s, s + stride = z → (splitMix.step w s).1 = v) (n : Nat) (s : UInt64)
    (hz : z = s + UInt64.ofNat n * stride + stride) : splitMix.ComesUp w v s := by
  induction n generalizing s with
  | zero => exact .now (hword s (by rw [hz]; simp))
  | succ n ih =>
    refine .later (ih _ ?_)
    rw [hz, hstate, UInt64.ofNat_add]
    grind

end SplitMix

open SplitMix in
/-- **SplitMix64 is fair.** -/
theorem splitMix_fair : splitMix.Fair := by
  intro w s v hv
  cases w with
  | w64 =>
    obtain ⟨z, hz⟩ := mix_surjective (UInt64.ofNat v)
    obtain ⟨n, hn⟩ := counter_reaches s z
    refine comesUp_of_reached (fun s => by rw [step_w64]) (fun t ht => ?_) n s hn
    rw [step_w64, ht, hz]
    exact UInt64.toNat_ofNat_of_lt' hv
  | w32 =>
    -- a word whose upper half is `v`
    obtain ⟨z, hz⟩ := mix_surjective (UInt64.ofNat (v * 2 ^ 32))
    obtain ⟨n, hn⟩ := counter_reaches s z
    refine comesUp_of_reached (fun s => by rw [step_w32]) (fun t ht => ?_) n s hn
    have hsmall : v < 2 ^ 32 := hv
    have hroom : v * 2 ^ 32 < UInt64.size := by
      show v * 2 ^ 32 < 2 ^ 64
      omega
    rw [step_w32, ht, hz, UInt64.toNat_toUInt32, UInt64.toNat_shiftRight,
      UInt64.toNat_ofNat_of_lt' hroom, Nat.shiftRight_eq_div_pow]
    show v * 2 ^ 32 / 2 ^ 32 % 2 ^ 32 = v
    omega

end SearchClient.Sample
