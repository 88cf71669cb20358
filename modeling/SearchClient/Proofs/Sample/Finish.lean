/-
SearchClient/Proofs/Sample/Finish.lean

Draws that finish.  Every loop of a draw has a bound on its rounds, and a draw that reaches a bound gives
nothing.  So a draw is looked at under all bounds at once, as a family of draws, and two things are said
of such a family.  It grows: what was given under a bound is given under every larger one (`Grows`).  It
ends: from every state some bound is enough (`Ends`).  Both go along the steps of a draw and along its
loops.

Whether a draw ends is up to the generator.  A fair one gives every word again and again
(`Generator.Fair`), and that is enough: a bounded number asks for one accepted word, and zero always is
one; a number that was not drawn before asks for one word that stands for such a number, and as long as
numbers are left there is one (`exists_word`).

Main result: `drawOffsets_sample`.  What a finished draw gives is a sample without repetition that does
not depend on the bound, and with a fair generator every draw finishes.
-/
import SearchClient.Proofs.Sample.Draw
import SearchClient.Proofs.Sample.Fair
import Mathlib.Data.List.Perm.Subperm

namespace SearchClient.Sample

variable {γ α β : Type}

/-! ### Draws under all bounds -/

/-- What is given under a bound is given under every larger one. -/
def Grows (d : Nat → Drawing γ α) : Prop :=
  ∀ n m, n ≤ m → ∀ s r, d n s = some r → d m s = some r

/-- From every state, some bound is enough. -/
def Ends (d : Nat → Drawing γ α) : Prop := ∀ s, ∃ n r, d n s = some r

theorem grows_const (d : Drawing γ α) : Grows fun _ => d := fun _ _ _ _ _ h => h

theorem ends_pure (x : α) : Ends fun _ => (pure x : Drawing γ α) := fun s => ⟨0, (x, s), rfl⟩

section

variable {d : Nat → Drawing γ α} {f : Nat → α → Drawing γ β} {P : α → Prop}

theorem Grows.bind (hd : Grows d) (hf : ∀ x, Grows fun n => f n x) : Grows fun n => d n >>= f n := by
  intro n m hnm s r hrun
  obtain ⟨⟨x, t⟩, hx, hrest⟩ := Option.bind_eq_some_iff.mp hrun
  exact Option.bind_eq_some_iff.mpr ⟨(x, t), hd n m hnm s _ hx, hf x n m hnm t r hrest⟩

/-- A draw that ends, and another one that ends after whatever the first one gives. -/
theorem Grows.ends_bind (hgrows : Grows d) (hends : Ends d) (hgives : ∀ n, (d n).Gives P)
    (hfgrows : ∀ x, Grows fun n => f n x) (hfends : ∀ x, P x → Ends fun n => f n x) :
    Ends fun n => d n >>= f n := by
  intro s
  obtain ⟨n, ⟨x, t⟩, hx⟩ := hends s
  obtain ⟨m, r, hr⟩ := hfends x (hgives n s x t hx) t
  refine ⟨max n m, r, Option.bind_eq_some_iff.mpr ⟨(x, t), ?_, ?_⟩⟩
  · exact hgrows n _ (Nat.le_max_left n m) s _ hx
  · exact hfgrows x m _ (Nat.le_max_right n m) t r hr

end

theorem Grows.map {d : Nat → Drawing γ α} (h : Grows d) (f : α → β) : Grows fun n => f <$> d n := by
  simp only [map_eq_pure_bind]
  exact h.bind fun x => grows_const _

/-- A draw that ends, and a use of what it gives that draws nothing more. -/
theorem Grows.ends_step {d : Nat → Drawing γ α} (hgrows : Grows d) (hends : Ends d) (f : α → β) :
    Ends fun n => d n >>= fun x => pure (f x) :=
  hgrows.ends_bind (P := fun _ => True) hends (fun _ _ _ _ _ => trivial)
    (fun _ => grows_const _) fun x _ => ends_pure (f x)

theorem Ends.map {d : Nat → Drawing γ α} (h : Ends d) (f : α → β) : Ends fun n => f <$> d n := by
  simp only [map_eq_pure_bind]
  intro s
  obtain ⟨n, ⟨x, t⟩, hx⟩ := h s
  exact ⟨n, (f x, t), Option.bind_eq_some_iff.mpr ⟨(x, t), hx, rfl⟩⟩

theorem grows_foldlM {f : Nat → α → β → Drawing γ α} (items : List β) {a : α}
    (h : ∀ a b, Grows fun n => f n a b) : Grows fun n => items.foldlM (f n) a := by
  induction items generalizing a with
  | nil => exact grows_const _
  | cons b items ih =>
    simp only [List.foldlM_cons]
    exact (h a b).bind fun a' => ih

/-- A loop of which every round ends, as long as an invariant is kept that knows the items left. -/
theorem ends_foldlM {f : Nat → α → β → Drawing γ α} {I : List β → α → Prop} (items : List β) {a : α}
    (hinit : I items a) (hgrows : ∀ a b, Grows fun n => f n a b)
    (hgives : ∀ n a b rest, I (b :: rest) a → (f n a b).Gives (I rest))
    (hends : ∀ a b rest, I (b :: rest) a → Ends fun n => f n a b) :
    Ends fun n => items.foldlM (f n) a := by
  induction items generalizing a with
  | nil => exact ends_pure a
  | cons b items ih =>
    simp only [List.foldlM_cons]
    refine (hgrows a b).ends_bind (P := I items) (hends a b items hinit) ?_ ?_ ?_
    · exact fun n => hgives n a b items hinit
    · exact fun a' => grows_foldlM items hgrows
    · exact fun a' ha' => ih ha'

/-! ### Larger bounds -/

section

variable (g : Generator γ)

/-- One round of a bounded number. -/
theorem highHalf_succ (w : Width) (r zone n : Nat) (s : γ) :
    highHalf g w r zone (n + 1) s =
      if (g.step w s).1 * r % Nat.pow 2 w.bits ≤ zone then
        some ((g.step w s).1 * r / Nat.pow 2 w.bits, (g.step w s).2)
      else highHalf g w r zone n (g.step w s).2 := by
  have hstep : highHalf g w r zone (n + 1) s = (word g w s).bind fun p =>
      (if p.1 * r % Nat.pow 2 w.bits ≤ zone then pure (p.1 * r / Nat.pow 2 w.bits)
        else highHalf g w r zone n) p.2 := rfl
  rw [hstep, word_eq, Option.bind_some]
  split <;> rfl

theorem grows_highHalf (w : Width) (r zone : Nat) : Grows (highHalf g w r zone) := by
  intro n
  induction n with
  | zero =>
    intro m _ s p hrun
    cases hrun
  | succ n ih =>
    intro m hnm s p hrun
    obtain ⟨m, rfl⟩ : ∃ k, m = k + 1 := ⟨m - 1, by omega⟩
    rw [highHalf_succ] at hrun ⊢
    split
    · next hzone => rwa [if_pos hzone] at hrun
    · next hzone =>
      rw [if_neg hzone] at hrun
      exact ih m (by omega) _ p hrun

theorem grows_within (w : Width) (least greatest : Nat) :
    Grows fun rounds => within g rounds w least greatest := by
  simp only [within]
  split
  · exact grows_const _
  · exact (grows_highHalf g w _ _).bind fun _ => grows_const _

theorem grows_below (w : Width) (bound : Nat) : Grows fun rounds => below g rounds w bound :=
  grows_highHalf g w _ _

theorem grows_shuffle (amount : Nat) (drawn : Array Nat) :
    Grows fun rounds => shuffle g rounds amount drawn :=
  grows_foldlM _ fun _ i => (grows_within g .w32 0 (i + 1)).bind fun _ => grows_const _

theorem grows_floyd (length amount : Nat) : Grows fun rounds => floyd g rounds length amount := by
  simp only [floyd]
  refine (grows_foldlM _ fun _ i => ?_).bind fun drawn => ?_
  · exact (grows_within g .w32 0 _).bind fun _ => grows_const _
  · split
    · exact grows_const _
    · exact (grows_shuffle g amount _).map _

theorem grows_inPlace (length amount : Nat) : Grows fun rounds => inPlace g rounds length amount := by
  refine (grows_foldlM _ fun _ i => ?_).bind fun _ => grows_const _
  exact (grows_within g .w32 i _).bind fun _ => grows_const _

/-- One number that may have been drawn before. -/
theorem fresh_succ (rounds : Nat) (w : Width) (length : Nat) (drawn : List Nat) (n : Nat) (s : γ) :
    fresh g rounds w length drawn (n + 1) s = (below g rounds w length s).bind fun p =>
      if drawn.contains p.1 then fresh g rounds w length drawn n p.2 else some p := by
  have hstep : fresh g rounds w length drawn (n + 1) s = (below g rounds w length s).bind fun p =>
      (if drawn.contains p.1 then fresh g rounds w length drawn n else pure p.1) p.2 := rfl
  rw [hstep]
  congr 1
  funext p
  split <;> rfl

/-- Both bounds may be larger, and the first number may be drawn from another state. -/
theorem fresh_grows {w : Width} {length : Nat} {drawn : List Nat} {n m k l : Nat} {s t : γ}
    {r : Nat × γ} (hnm : n ≤ m) (hkl : k ≤ l)
    (hfirst : ∀ p, below g n w length s = some p → below g m w length t = some p)
    (hrun : fresh g n w length drawn k s = some r) : fresh g m w length drawn l t = some r := by
  induction k generalizing l s t with
  | zero => cases hrun
  | succ k ih =>
    obtain ⟨l, rfl⟩ : ∃ j, l = j + 1 := ⟨l - 1, by omega⟩
    rw [fresh_succ] at hrun ⊢
    obtain ⟨p, hp, hrest⟩ := Option.bind_eq_some_iff.mp hrun
    refine Option.bind_eq_some_iff.mpr ⟨p, hfirst p hp, ?_⟩
    split
    · next hmem =>
      rw [if_pos hmem] at hrest
      exact ih (by omega) (grows_below g w length n m hnm p.2) hrest
    · next hmem => rwa [if_neg hmem] at hrest

theorem grows_fresh (w : Width) (length : Nat) (drawn : List Nat) :
    Grows fun rounds => fresh g rounds w length drawn rounds :=
  fun n m hnm s _ => fresh_grows g hnm hnm (grows_below g w length n m hnm s)

theorem grows_rejection (w : Width) (length amount : Nat) :
    Grows fun rounds => rejection g rounds w length amount := by
  refine (grows_foldlM _ fun drawn _ => ?_).bind fun _ => grows_const _
  exact (grows_fresh g w length drawn).bind fun _ => grows_const _

theorem grows_drawOffsets (total requested : Nat) :
    Grows fun rounds => drawOffsets g rounds total requested := by
  simp only [drawOffsets]
  split
  · exact grows_floyd g total _
  · exact grows_inPlace g total _
  · exact grows_rejection g _ total _

end

/-! ### Fair generators -/

section

variable {g : Generator γ}

/-- Zero is accepted wherever it comes up. -/
theorem ends_highHalf (hfair : g.Fair) (w : Width) (r zone : Nat) : Ends (highHalf g w r zone) := by
  intro s
  induction hfair w s 0 (Nat.two_pow_pos _) with
  | @now s hzero => exact ⟨1, _, by rw [highHalf_succ, hzero, if_pos (by simp)]⟩
  | @later s _ ih =>
    obtain ⟨n, x, hx⟩ := ih
    by_cases hzone : (g.step w s).1 * r % Nat.pow 2 w.bits ≤ zone
    · exact ⟨1, _, by rw [highHalf_succ, if_pos hzone]⟩
    · exact ⟨n + 1, x, by rw [highHalf_succ, if_neg hzone, hx]⟩

theorem ends_within (hfair : g.Fair) (w : Width) (least greatest : Nat) :
    Ends fun rounds => within g rounds w least greatest := by
  simp only [within]
  split
  · exact fun s => ⟨0, g.step w s, word_eq g w s⟩
  · exact (grows_highHalf g w _ _).ends_step (ends_highHalf hfair w _ _) _

/-! ### Strategies that finish -/

/-- A loop that draws one number in every round, each from a range of its own. -/
theorem ends_foldlM_within (hfair : g.Fair) (least greatest : Nat → Nat) (next : α → Nat → Nat → α)
    (items : List Nat) (a : α) :
    Ends fun rounds => items.foldlM (fun a i => do
      let k ← within g rounds .w32 (least i) (greatest i)
      pure (next a i k)) a := by
  refine ends_foldlM (I := fun _ _ => True) items trivial (fun a i => ?_) ?_ fun a i _ _ => ?_
  · exact (grows_within g .w32 _ _).bind fun _ => grows_const _
  · exact fun _ _ _ _ _ _ _ _ _ => trivial
  · exact (grows_within g .w32 _ _).ends_step (ends_within hfair .w32 _ _) _

theorem ends_shuffle (hfair : g.Fair) (amount : Nat) (drawn : Array Nat) :
    Ends fun rounds => shuffle g rounds amount drawn :=
  ends_foldlM_within hfair (fun _ => 0) (fun i => i + 1) _ _ _

theorem ends_floyd (hfair : g.Fair) (length amount : Nat) :
    Ends fun rounds => floyd g rounds length amount := by
  simp only [floyd]
  refine Grows.ends_bind (P := fun _ => True) ?_ ?_ (fun _ _ _ _ _ => trivial) ?_ fun drawn _ => ?_
  · refine grows_foldlM _ fun _ i => ?_
    exact (grows_within g .w32 0 _).bind fun _ => grows_const _
  · exact ends_foldlM_within hfair (fun _ => 0) _ _ _ _
  · intro drawn
    split
    · exact grows_const _
    · exact (grows_shuffle g amount _).map _
  · split
    · exact ends_pure drawn
    · exact (ends_shuffle hfair amount _).map _

theorem ends_inPlace (hfair : g.Fair) (length amount : Nat) :
    Ends fun rounds => inPlace g rounds length amount := by
  refine Grows.ends_step ?_ (ends_foldlM_within hfair (fun i => i) _ _ _ _) _
  refine grows_foldlM _ fun _ i => ?_
  exact (grows_within g .w32 i _).bind fun _ => grows_const _

/-- Every number below a bound has a word that stands for it and is accepted. -/
theorem exists_word {size bound x : Nat} (hbound : bound ≤ size) (hx : x < bound) :
    ∃ v, v < size ∧ v * bound / size = x ∧
      v * bound % size ≤ size - 1 - (size - bound) % bound := by
  -- the least word whose product with the bound reaches `x * size`
  obtain ⟨v, hlow, hhigh⟩ : ∃ v, x * size ≤ v * bound ∧ v * bound < x * size + bound := by
    refine ⟨(x * size + bound - 1) / bound, ?_, ?_⟩
    · have := Nat.lt_div_mul_add (a := x * size + bound - 1) (b := bound) (by omega)
      omega
    · have := Nat.div_mul_le_self (x * size + bound - 1) bound
      omega
  have hsplit : v * bound = x * size + (v * bound - x * size) := by omega
  have hbelow : (size - bound) % bound ≤ size - bound := Nat.mod_le _ _
  refine ⟨v, ?_, ?_, ?_⟩
  · have htop : (x + 1) * size ≤ bound * size := Nat.mul_le_mul_right size hx
    rw [Nat.add_mul] at htop
    refine Nat.lt_of_mul_lt_mul_right (a := bound) ?_
    rw [Nat.mul_comm size bound]
    omega
  · rw [hsplit, Nat.add_comm, Nat.add_mul_div_right _ _ (by omega), Nat.div_eq_of_lt (by omega),
      Nat.zero_add]
  · rw [hsplit, Nat.add_comm, Nat.add_mul_mod_self_right, Nat.mod_eq_of_lt (by omega)]
    omega

/-- A word that stands for a number that was not drawn before, and that comes up. -/
theorem exists_fresh {w : Width} {length v : Nat} {drawn : List Nat} {s : γ} (h : g.ComesUp w v s)
    (hzone : v * length % Nat.pow 2 w.bits ≤
      Nat.pow 2 w.bits - 1 - (Nat.pow 2 w.bits - length) % length)
    (hnew : v * length / Nat.pow 2 w.bits ∉ drawn) :
    ∃ n r, fresh g n w length drawn n s = some r := by
  -- each of the words up to `v` is refused, or gives a number
  induction h with
  | @now s hword =>
    have hfirst : below g 1 w length s =
        some (v * length / Nat.pow 2 w.bits, (g.step w s).2) := by
      rw [below, highHalf_succ, hword, if_pos hzone]
    exact ⟨1, _, by rw [fresh_succ, hfirst, Option.bind_some, if_neg (by simpa using hnew)]⟩
  | @later s _ ih =>
    obtain ⟨n, r, hr⟩ := ih
    rcases hword : below g 1 w length s with - | p
    · -- the word is refused, and the first number is that from the next state
      refine ⟨n + 1, r, fresh_grows g (by omega) (by omega) (fun p hp => ?_) hr⟩
      rw [below, highHalf_succ] at hword ⊢
      split at hword
      · cases hword
      · next hrefused => rwa [if_neg hrefused]
    · have hstate : p.2 = (g.step w s).2 := by
        rw [below, highHalf_succ] at hword
        split at hword
        · rw [← Option.some.inj hword]
        · cases hword
      have hfirst : below g (n + 1) w length s = some p :=
        grows_below g w length 1 (n + 1) (by omega) s p hword
      by_cases hmem : drawn.contains p.1 = true
      · have hmore : fresh g (n + 1) w length drawn n p.2 = some r := by
          rw [hstate]
          exact fresh_grows g (by omega) (by omega)
            (grows_below g w length n (n + 1) (by omega) _) hr
        exact ⟨n + 1, r, by rw [fresh_succ, hfirst, Option.bind_some, if_pos hmem, hmore]⟩
      · exact ⟨n + 1, p, by rw [fresh_succ, hfirst, Option.bind_some, if_neg hmem]⟩

/-- As long as numbers are left, one of them is drawn. -/
theorem ends_fresh (hfair : g.Fair) (w : Width) {length count : Nat} {drawn : List Nat}
    (hlength : length ≤ Nat.pow 2 w.bits) (hdrawn : Distinct count length drawn)
    (hcount : count < length) : Ends fun rounds => fresh g rounds w length drawn rounds := by
  obtain ⟨x, hx, hnew⟩ : ∃ x, x < length ∧ x ∉ drawn := by
    by_contra hnone
    simp only [not_exists, not_and, not_not] at hnone
    have hsub : (List.range length).Subperm drawn :=
      List.nodup_range.subperm fun x hx => hnone x (List.mem_range.mp hx)
    have hle := hsub.length_le
    rw [List.length_range, hdrawn.length] at hle
    omega
  obtain ⟨v, hv, rfl, hzone⟩ := exists_word hlength hx
  exact fun s => exists_fresh (hfair w s v hv) hzone hnew

theorem ends_rejection (hfair : g.Fair) (w : Width) {length amount : Nat} (h : amount ≤ length)
    (hlength : length ≤ Nat.pow 2 w.bits) : Ends fun rounds => rejection g rounds w length amount := by
  have hgrows : ∀ (drawn : List Nat) (_ : Nat), Grows fun rounds =>
      fresh g rounds w length drawn rounds >>= fun x => pure (x :: drawn) := fun drawn _ =>
    (grows_fresh g w length drawn).bind fun _ => grows_const _
  refine (grows_foldlM _ hgrows).ends_step ?_ List.reverse
  -- with `rest.length` numbers to go, the others are drawn
  refine ends_foldlM (I := fun rest drawn => rest.length ≤ amount ∧
    Distinct (amount - rest.length) length drawn) _ ?_ hgrows ?_ ?_
  · simp only [List.length_range, Nat.le_refl, Nat.sub_self, true_and]
    exact ⟨rfl, .nil, by simp⟩
  · intro n drawn i rest hdrawn
    obtain ⟨hrest, hdrawn⟩ := hdrawn
    rw [List.length_cons] at hrest hdrawn
    have hone : amount - (rest.length + 1) + 1 = amount - rest.length := by omega
    have hmore := gives_fresh_cons g n w (by omega) hdrawn
    rw [hone] at hmore
    exact hmore.mono fun drawn hdrawn => ⟨by omega, hdrawn⟩
  · intro drawn i rest hdrawn
    obtain ⟨hrest, hdrawn⟩ := hdrawn
    rw [List.length_cons] at hrest hdrawn
    exact (grows_fresh g w length drawn).ends_step (ends_fresh hfair w hlength hdrawn (by omega)) _

end

/-! ### Samples -/

/-- Words of the chosen size reach every offset. -/
theorem le_of_strategy_eq_rejection {length amount : Nat} {w : Width}
    (h : strategy length amount = .rejection w) (hlength : length ≤ Nat.pow 2 64) :
    length ≤ Nat.pow 2 w.bits := by
  rw [strategy] at h
  split at h
  · obtain rfl := Strategy.rejection.inj h
    exact hlength
  · next hsmall =>
    cases w with
    | w32 => exact Nat.le_of_lt (Nat.lt_of_not_le hsmall)
    | w64 => exact hlength

/-- As many distinct numbers below a bound as there are are all of them. -/
theorem Distinct.perm_range {n : Nat} {drawn : List Nat} (h : Distinct n n drawn) :
    drawn.Perm (List.range n) := by
  have hsub : drawn.Subperm (List.range n) :=
    h.nodup.subperm fun o ho => List.mem_range.mpr (h.lt o ho)
  exact hsub.perm_of_length_le (by simp [h.length])

/-- **A draw is a sample without repetition.**  Whichever strategy the sizes select, and whatever the
generator does, a draw that finishes gives as many offsets as are requested, or as there are; they are
distinct and in range, so all that there are come in some order; and the bound on the rounds has no part
in it.  With a fair generator every draw of up to `2 ^ 64` offsets finishes. -/
theorem drawOffsets_sample (g : Generator γ) (total requested : Nat) (s : γ) :
    (∀ rounds offsets s', drawOffsets g rounds total requested s = some (offsets, s') →
      offsets.length = min requested total ∧ offsets.Nodup ∧ (∀ o ∈ offsets, o < total) ∧
      (total ≤ requested → offsets.Perm (List.range total)) ∧
      ∀ more ≥ rounds, drawOffsets g more total requested s = some (offsets, s')) ∧
    (g.Fair → total ≤ Nat.pow 2 64 →
      ∃ rounds offsets s', drawOffsets g rounds total requested s = some (offsets, s')) := by
  constructor
  · intro rounds offsets s' hrun
    have hdistinct := gives_drawOffsets g rounds total requested s offsets s' hrun
    refine ⟨hdistinct.length, hdistinct.nodup, hdistinct.lt, fun hall => ?_, fun more hmore => ?_⟩
    · rw [Nat.min_eq_right hall] at hdistinct
      exact hdistinct.perm_range
    · exact grows_drawOffsets g total requested rounds more hmore s _ hrun
  · intro hfair htotal
    have hends : Ends fun rounds => drawOffsets g rounds total requested := by
      simp only [drawOffsets]
      split
      · exact ends_floyd hfair total _
      · exact ends_inPlace hfair total _
      · next w hstrategy =>
        refine ends_rejection hfair w (Nat.min_le_right requested total) ?_
        exact le_of_strategy_eq_rejection hstrategy htotal
    obtain ⟨rounds, ⟨offsets, s'⟩, hrun⟩ := hends s
    exact ⟨rounds, offsets, s', hrun⟩

/-- All of six offsets, in the order in which SplitMix64 draws them; and, of far more than fit in 32
bits, a few hundred. -/
theorem drawOffsets_sample_splitMix :
    (∃ s', drawOffsets splitMix 9 6 9 1 = some ([0, 1, 5, 3, 4, 2], s') ∧
      [0, 1, 5, 3, 4, 2].Perm (List.range 6)) ∧
    splitMix.Fair ∧ ∃ rounds offsets s',
      drawOffsets splitMix rounds 50000000000 300 9 = some (offsets, s') ∧
        offsets.length = 300 ∧ offsets.Nodup := by
  have hsix : drawOffsets splitMix 9 6 9 1 = some ([0, 1, 5, 3, 4, 2], 12036054880848365863) := by
    decide +kernel
  refine ⟨⟨_, hsix, ?_⟩, splitMix_fair, ?_⟩
  · exact ((drawOffsets_sample splitMix 6 9 1).1 9 _ _ hsix).2.2.2.1 (by decide)
  · obtain ⟨rounds, offsets, s', hrun⟩ :=
      (drawOffsets_sample splitMix 50000000000 300 9).2 splitMix_fair (by decide)
    obtain ⟨hlength, hnodup, -⟩ :=
      (drawOffsets_sample splitMix 50000000000 300 9).1 rounds offsets s' hrun
    exact ⟨rounds, offsets, s', hrun, hlength, hnodup⟩

/-- Every strategy is selected by some sizes. -/
example : strategy 100 5 = .floyd ∧ strategy 1000000 60 = .floyd ∧ strategy 50 20 = .inPlace ∧
    strategy 1000000 200 = .rejection .w32 ∧ strategy 50000000000 3 = .rejection .w64 := by
  decide +kernel

end SearchClient.Sample
