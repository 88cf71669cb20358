/-
SearchClient/Proofs/Wire/Alike.lean

Two actions side by side.  `Alike S R a b` says that, started in worlds that `S` relates, the actions
`a` and `b` end in such worlds again, and come to the same: values that `R` relates, or one and the same
error.  Like what is true at the end of a single action, this goes along its steps (`Alike.bind`), so
two programs that differ in one step are alike as soon as that step is.
-/
import SearchClient.Proofs.Wire.Run

namespace SearchClient

variable {σ α β γ δ ε : Type}

/-- Both give values, which are related, or both end with one error. -/
inductive Both (R : α → β → Prop) : Except ε α → Except ε β → Prop where
  | ok {x : α} {y : β} (h : R x y) : Both R (.ok x) (.ok y)
  | error (e : ε) : Both R (.error e) (.error e)

theorem Both.self (x : Except ε α) : Both (fun a b => a = b ∧ x = .ok a) x x := by
  cases x with
  | error e => exact .error e
  | ok a => exact .ok ⟨rfl, rfl⟩

theorem Both.eq {x y : Except ε α} (h : Both (· = ·) x y) : x = y := by
  cases h with
  | ok h => rw [h]
  | error => rfl

theorem Both.mono {R T : α → β → Prop} {x : Except ε α} {y : Except ε β} (h : Both R x y)
    (hRT : ∀ a b, R a b → T a b) : Both T x y := by
  cases h with
  | ok h => exact .ok (hRT _ _ h)
  | error e => exact .error e

namespace Action

/-- From worlds that are related, to worlds that are related and ends that are. -/
def Alike (S : World σ → World σ → Prop) (R : α → β → Prop) (a : Action σ α) (b : Action σ β) :
    Prop :=
  ∀ w v, S w v → Both R (a.run.run w).1 (b.run.run v).1 ∧ S (a.run.run w).2 (b.run.run v).2

variable {S : World σ → World σ → Prop} {R : α → β → Prop} {a : Action σ α} {b : Action σ β}

/-- Both actions give a value in any world. -/
theorem Alike.of_ends
    (h : ∀ w v, S w v → ∃ P Q, a.Ends w P ∧ b.Ends v Q ∧
      ∀ x w' y v', P x w' → Q y v' → R x y ∧ S w' v') : Alike S R a b := by
  intro w v hS
  obtain ⟨P, Q, ⟨x, w', ha, hP⟩, ⟨y, v', hb, hQ⟩, hPQ⟩ := h w v hS
  obtain ⟨hR, hS'⟩ := hPQ x w' y v' hP hQ
  rw [ha, hb]
  exact ⟨.ok hR, hS'⟩

theorem Alike.mono {T : α → β → Prop} (h : Alike S R a b) (hRT : ∀ x y, R x y → T x y) :
    Alike S T a b := by
  intro w v hS
  obtain ⟨hends, hS'⟩ := h w v hS
  exact ⟨hends.mono hRT, hS'⟩

theorem alike_pure {x : α} {y : β} (h : R x y) :
    Alike S R (pure x : Action σ α) (pure y : Action σ β) :=
  fun _ _ hS => ⟨.ok h, hS⟩

theorem Alike.bind {f : α → Action σ γ} {g : β → Action σ δ} {T : γ → δ → Prop}
    (h : Alike S R a b) (hfg : ∀ x y, R x y → Alike S T (f x) (g y)) :
    Alike S T (a >>= f) (b >>= g) := by
  intro w v hS
  have hab := h w v hS
  rw [run_bind, run_bind]
  rcases ha : a.run.run w with ⟨x, w'⟩
  rcases hb : b.run.run v with ⟨y, v'⟩
  rw [ha, hb] at hab
  obtain ⟨hends, hS'⟩ := hab
  cases hends with
  | ok hR => exact hfg _ _ hR w' v' hS'
  | error e => exact ⟨.error e, hS'⟩

theorem Alike.map {f : α → γ} {g : β → δ} {T : γ → δ → Prop} (h : Alike S R a b)
    (hfg : ∀ x y, R x y → T (f x) (g y)) : Alike S T (f <$> a) (g <$> b) := by
  rw [map_eq_pure_bind, map_eq_pure_bind]
  exact h.bind fun x y hR => alike_pure (hfg x y hR)

theorem alike_ofExcept {x : Except ClientError α} {y : Except ClientError β} (h : Both R x y) :
    Alike S R (ofExcept x : Action σ α) (ofExcept y : Action σ β) := by
  intro w v hS
  cases h with
  | ok hR => exact ⟨.ok hR, hS⟩
  | error e => exact ⟨.error (Stop.failed e), hS⟩

theorem alike_stall : Alike S R (stall : Action σ α) (stall : Action σ β) :=
  fun _ _ hS => ⟨.error Stop.stalled, hS⟩

theorem alike_word (n : Nat) : Alike S (· = ·) (word n : Action σ UInt64) (word n) := by
  intro w v hS
  rw [run_word, run_word]
  exact ⟨((Both.self _).mono fun _ _ h => h.1), hS⟩

theorem alike_count (m : Metric) (h : ∀ w v, S w v → S (w.counted m) (v.counted m)) :
    Alike S (· = ·) (count m : Action σ Unit) (count m) :=
  fun w v hS => ⟨.ok rfl, h w v hS⟩

end Action

end SearchClient
