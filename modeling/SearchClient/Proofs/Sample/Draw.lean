/-
SearchClient/Proofs/Sample/Draw.lean

Draws give distinct numbers.  A draw need not finish, so what is said of it is said of every run that
does: `d.Gives P` says that `P` is true of whatever the draw `d` gives, from any state of the generator.
Like what is true at the end of an action this goes along the steps of a draw, and along a loop by an
invariant (`Drawing.gives_foldlM_range`).

A single number stays in its range, whatever the words of the generator are (`gives_within`,
`gives_below`).  Each strategy keeps an invariant of its own: Floyd's method has drawn distinct numbers
below a bound that grows by one in every round, a shuffle has permuted a list, and drawing again has
drawn distinct numbers.

Main result: `gives_drawOffsets`.
-/
import SearchClient.Sample.Draw
import Mathlib.Data.List.Nodup

namespace SearchClient.Sample

variable {γ α β : Type}

/-! ### What draws give -/

/-- Whatever the draw gives when it finishes. -/
def Drawing.Gives (d : Drawing γ α) (P : α → Prop) : Prop :=
  ∀ s x s', d s = some (x, s') → P x

namespace Drawing

variable {d : Drawing γ α} {P Q : α → Prop}

theorem Gives.mono (h : d.Gives P) (hPQ : ∀ x, P x → Q x) : d.Gives Q :=
  fun s x s' hrun => hPQ x (h s x s' hrun)

theorem gives_pure {x : α} (h : P x) : (pure x : Drawing γ α).Gives P := by
  intro s y s' hrun
  obtain ⟨rfl, -⟩ := Prod.mk.inj (Option.some.inj hrun)
  exact h

/-- A draw that goes on for ever. -/
theorem gives_none : Gives (fun _ => none : Drawing γ α) P := by
  intro s x s' hrun
  cases hrun

theorem Gives.bind {f : α → Drawing γ β} {R : β → Prop} (h : d.Gives P)
    (hf : ∀ x, P x → (f x).Gives R) : (d >>= f).Gives R := by
  intro s y s' hrun
  obtain ⟨⟨x, t⟩, hd, hrest⟩ := Option.bind_eq_some_iff.mp hrun
  exact hf x (h s x t hd) t y s' hrest

theorem Gives.map {f : α → β} {R : β → Prop} (h : d.Gives P) (hf : ∀ x, P x → R (f x)) :
    (f <$> d).Gives R := by
  rw [map_eq_pure_bind]
  exact h.bind fun x hx => gives_pure (hf x hx)

/-- A loop that keeps an invariant. -/
theorem gives_foldlM {f : α → β → Drawing γ α} {I : α → Prop} (items : List β) {a : α}
    (hinit : I a) (hstep : ∀ a, ∀ b ∈ items, I a → (f a b).Gives I) :
    (items.foldlM f a).Gives I := by
  induction items generalizing a with
  | nil => exact gives_pure hinit
  | cons b items ih =>
    rw [List.foldlM_cons]
    refine (hstep a b (by simp) hinit).bind fun a' ha' => ih ha' fun a c hc => ?_
    exact hstep a c (by simp [hc])

/-- A loop over the numbers below `n` whose invariant tells how far it has come. -/
theorem gives_foldlM_range {f : α → Nat → Drawing γ α} {I : Nat → α → Prop} (n : Nat) {a : α}
    (hinit : I 0 a) (hstep : ∀ i a, i < n → I i a → (f a i).Gives (I (i + 1))) :
    ((List.range n).foldlM f a).Gives (I n) := by
  induction n with
  | zero => exact gives_pure hinit
  | succ n ih =>
    rw [List.range_succ, List.foldlM_append]
    refine (ih fun i a hi => hstep i a (by omega)).bind fun a' ha' => ?_
    rw [List.foldlM_cons]
    exact (hstep n a' (by omega) ha').bind fun a'' ha'' => gives_pure ha''

end Drawing

open Drawing

/-! ### Single numbers -/

section

variable (g : Generator γ) (rounds : Nat)

theorem gives_word (w : Width) : (word g w).Gives fun v => v < Nat.pow 2 w.bits := by
  cases w with
  | w32 =>
    intro s v s' hrun
    -- a word is drawn in one step, which cannot fail
    obtain ⟨rfl, -⟩ := Prod.mk.inj (Option.some.inj hrun)
    exact UInt32.toNat_lt _
  | w64 =>
    intro s v s' hrun
    obtain ⟨rfl, -⟩ := Prod.mk.inj (Option.some.inj hrun)
    exact UInt64.toNat_lt _

/-- The high half of the product of a word with `r` is below `r`. -/
theorem gives_highHalf (w : Width) {r : Nat} (hr : 0 < r) (zone n : Nat) :
    (highHalf g w r zone n).Gives (· < r) := by
  induction n with
  | zero => exact gives_none
  | succ n ih =>
    rw [highHalf]
    refine (gives_word g w).bind fun v hv => ?_
    -- the word is taken, or another one is drawn
    split
    · refine gives_pure (Nat.div_lt_of_lt_mul ?_)
      exact Nat.mul_lt_mul_of_pos_right hv hr
    · exact ih

/-- A number of a range stays in it, be it all there is room for in a word. -/
theorem gives_within (w : Width) {least greatest : Nat} (h : least ≤ greatest)
    (hroom : greatest < Nat.pow 2 w.bits) :
    (within g rounds w least greatest).Gives fun k => least ≤ k ∧ k ≤ greatest := by
  rw [within]
  dsimp only
  split
  · next hfull =>
    -- the range is that of all words
    have hsize : Nat.pow 2 w.bits ≤ greatest - least + 1 :=
      Nat.le_of_dvd (by omega) (Nat.dvd_of_mod_eq_zero hfull)
    exact (gives_word g w).mono fun v hv => by omega
  · next hpart =>
    have hsize : greatest - least + 1 < Nat.pow 2 w.bits ∨
        greatest - least + 1 = Nat.pow 2 w.bits := by omega
    rcases hsize with hsize | hsize
    · -- a number below the size of the range, and the least one added to it
      rw [Nat.mod_eq_of_lt hsize]
      refine (gives_highHalf g w (by omega) _ rounds).bind fun high hhigh => ?_
      exact gives_pure (by omega)
    · exact absurd (hsize ▸ Nat.mod_self _) hpart

theorem gives_below (w : Width) {bound : Nat} (h : 0 < bound) :
    (below g rounds w bound).Gives (· < bound) :=
  gives_highHalf g w h _ rounds

/-! ### Floyd's method -/

theorem insertBefore_perm (x : Nat) {y : Nat} {drawn : List Nat} (h : y ∈ drawn) :
    (insertBefore x y drawn).Perm (x :: drawn) := by
  induction drawn with
  | nil => cases h
  | cons z zs ih =>
    rw [insertBefore]
    split
    · exact .refl _
    · next hne =>
      rcases List.mem_cons.mp h with rfl | h
      · exact absurd rfl hne
      · exact ((ih h).cons z).trans (.swap x z zs)

/-- A step adds one number: the one that was drawn, or the greatest it could be. -/
theorem floydStep_perm (inOrder : Bool) (drawn : List Nat) (j t : Nat) :
    (floydStep inOrder drawn j t).Perm ((if drawn.contains t then j else t) :: drawn) := by
  rw [floydStep]
  split
  · next hmem =>
    split
    · exact insertBefore_perm j (List.contains_iff_mem.mp hmem)
    · exact List.perm_append_singleton j drawn
  · exact List.perm_append_singleton t drawn

/-- Distinct numbers below a bound. -/
structure Distinct (count bound : Nat) (drawn : List Nat) : Prop where
  length : drawn.length = count
  nodup : drawn.Nodup
  lt : ∀ o ∈ drawn, o < bound

theorem Distinct.perm {count bound : Nat} {drawn drawn' : List Nat} (h : Distinct count bound drawn)
    (hperm : drawn'.Perm drawn) : Distinct count bound drawn' where
  length := hperm.length_eq.trans h.length
  nodup := hperm.nodup_iff.mpr h.nodup
  lt o ho := h.lt o (hperm.mem_iff.mp ho)

/-- One more number that was not drawn before. -/
theorem Distinct.cons {count bound bound' x : Nat} {drawn : List Nat}
    (h : Distinct count bound drawn) (hnew : x ∉ drawn) (hx : x < bound') (hle : bound ≤ bound') :
    Distinct (count + 1) bound' (x :: drawn) where
  length := congrArg (· + 1) h.length
  nodup := List.nodup_cons.mpr ⟨hnew, h.nodup⟩
  lt o ho := by
    rcases List.mem_cons.mp ho with rfl | ho
    · exact hx
    · exact Nat.lt_of_lt_of_le (h.lt o ho) hle

/-- Numbers below `j`, and a step with a number up to `j`. -/
theorem Distinct.floydStep {count j t : Nat} {drawn : List Nat} (inOrder : Bool)
    (h : Distinct count j drawn) (ht : t ≤ j) :
    Distinct (count + 1) (j + 1) (floydStep inOrder drawn j t) := by
  refine Distinct.perm ?_ (floydStep_perm inOrder drawn j t)
  split
  · -- `j` itself is new, for all that was drawn is below it
    exact h.cons (fun hj => Nat.lt_irrefl j (h.lt j hj)) (by omega) (by omega)
  · next hmem => exact h.cons (fun ht => hmem (List.contains_iff_mem.mpr ht)) (by omega) (by omega)

theorem swapIfInBounds_perm (a : Array Nat) (i k : Nat) :
    (a.swapIfInBounds i k).toList.Perm a.toList := by
  unfold Array.swapIfInBounds
  split
  · split
    · exact (Array.swap_perm _ _).toList
    · exact .refl _
  · exact .refl _

theorem gives_shuffle (amount : Nat) (drawn : Array Nat) :
    (shuffle g rounds amount drawn).Gives fun a => a.toList.Perm drawn.toList := by
  rw [shuffle]
  refine gives_foldlM _ (.refl _) fun a i _ ha => ?_
  exact Gives.bind (P := fun _ => True) (fun _ _ _ _ => trivial) fun k _ =>
    gives_pure ((swapIfInBounds_perm a (i + 1) k).trans ha)

theorem gives_floyd {length amount : Nat} (h : amount ≤ length) (hroom : length ≤ Nat.pow 2 32) :
    (floyd g rounds length amount).Gives (Distinct amount length) := by
  rw [floyd]
  dsimp only
  refine Gives.bind (P := Distinct amount length) ?_ fun drawn hdrawn => ?_
  · -- after `i` rounds, `i` numbers below the `i`-th bound
    have hloop := gives_foldlM_range (a := ([] : List Nat))
      (f := fun drawn i => do
        let t ← within g rounds .w32 0 (length - amount + i)
        pure (floydStep (amount < 50) drawn (length - amount + i) t))
      (I := fun i drawn => Distinct i (length - amount + i) drawn) amount
      ⟨rfl, .nil, by simp⟩ fun i drawn hi hdrawn => ?_
    · have hbound : length - amount + amount = length := by omega
      rw [hbound] at hloop
      exact hloop
    · refine (gives_within g rounds .w32 (Nat.zero_le _) ?_).bind fun t ht => ?_
      · show length - amount + i < Nat.pow 2 32
        omega
      · exact gives_pure (hdrawn.floydStep _ ht.2)
  · -- a few numbers are in random order already, many are shuffled
    split
    · exact gives_pure hdrawn
    · exact (gives_shuffle g rounds amount _).map fun a ha => hdrawn.perm ha

/-! ### The other strategies -/

theorem gives_inPlace {length amount : Nat} (h : amount ≤ length) :
    (inPlace g rounds length amount).Gives (Distinct amount length) := by
  rw [inPlace]
  refine Gives.bind (P := fun a => a.toList.Perm (List.range length)) ?_ fun a ha => ?_
  · -- which entries are swapped does not matter for a permutation
    refine gives_foldlM _ (by simp) fun a i _ ha => ?_
    exact Gives.bind (P := fun _ => True) (fun _ _ _ _ => trivial) fun k _ =>
      gives_pure ((swapIfInBounds_perm a i k).trans ha)
  · have hnodup : a.toList.Nodup := ha.nodup_iff.mpr List.nodup_range
    refine gives_pure ⟨?_, hnodup.sublist (List.take_sublist _ _), fun o ho => ?_⟩
    · rw [List.length_take, ha.length_eq, List.length_range]
      omega
    · exact List.mem_range.mp (ha.mem_iff.mp (List.mem_of_mem_take ho))

theorem gives_fresh (w : Width) {length : Nat} (h : 0 < length) (drawn : List Nat) (n : Nat) :
    (fresh g rounds w length drawn n).Gives fun x => x ∉ drawn ∧ x < length := by
  induction n with
  | zero => exact gives_none
  | succ n ih =>
    rw [fresh]
    refine (gives_below g rounds w h).bind fun x hx => ?_
    split
    · exact ih
    · next hmem => exact gives_pure ⟨fun h => hmem (List.contains_iff_mem.mpr h), hx⟩

/-- A round of drawing again adds one number. -/
theorem gives_fresh_cons (w : Width) {count length : Nat} {drawn : List Nat} (h : 0 < length)
    (hdrawn : Distinct count length drawn) :
    (fresh g rounds w length drawn rounds >>= fun x => pure (x :: drawn)).Gives
      (Distinct (count + 1) length) :=
  (gives_fresh g rounds w h drawn rounds).bind fun _ hx =>
    gives_pure (hdrawn.cons hx.1 hx.2 (Nat.le_refl _))

theorem gives_rejection (w : Width) {length amount : Nat} (h : amount ≤ length) :
    (rejection g rounds w length amount).Gives (Distinct amount length) := by
  rw [rejection]
  refine Gives.bind (P := Distinct amount length) ?_ fun drawn hdrawn =>
    gives_pure (hdrawn.perm (List.reverse_perm drawn))
  refine gives_foldlM_range (I := fun i => Distinct i length) amount ⟨rfl, .nil, by simp⟩
    fun i drawn hi hdrawn => ?_
  exact gives_fresh_cons g rounds w (by omega) hdrawn

/-! ### Offsets -/

/-- What does not fit in 32 bits is left to words of 64 bits. -/
theorem lt_of_strategy_eq_floyd {length amount : Nat} (h : strategy length amount = .floyd) :
    length < Nat.pow 2 32 := by
  rw [strategy] at h
  split at h
  · cases h
  · omega

/-- **A draw gives distinct offsets**, as many as are requested or as there are, whichever strategy it
takes and whatever the generator does. -/
theorem gives_drawOffsets (total requested : Nat) :
    (drawOffsets g rounds total requested).Gives (Distinct (min requested total) total) := by
  have hamount : min requested total ≤ total := Nat.min_le_right requested total
  rw [drawOffsets]
  split
  · next hstrategy =>
    exact gives_floyd g rounds hamount (Nat.le_of_lt (lt_of_strategy_eq_floyd hstrategy))
  · exact gives_inPlace g rounds hamount
  · exact gives_rejection g rounds _ hamount

end

end SearchClient.Sample
