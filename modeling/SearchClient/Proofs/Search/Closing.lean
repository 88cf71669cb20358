/-
SearchClient/Proofs/Search/Closing.lean

The end of a search.  The time of a sample is added up answer by answer, and each of the sums has room in a
word if the last one has, so it is the sum of all times or there is none (`Client.sampleTime_eq`).  Then the
search is counted: what is counted depends on how it ended and on nothing else (`Client.closing`), and
makes no difference to what it comes to (`Client.account_run`).
-/
import SearchClient.Search.Run
import SearchClient.Proofs.Wire.Run

namespace SearchClient

variable {σ α β : Type}

/-- The times of some answers. -/
def totalTime : List SearchResponse → Nat
  | [] => 0
  | a :: answers => a.processingTime.toNat + totalTime answers

theorem totalTime_cons (a : SearchResponse) (answers : List SearchResponse) :
    totalTime (a :: answers) = a.processingTime.toNat + totalTime answers := rfl

namespace Client

/-- A sum that has no room in a word only grows. -/
theorem sampleTime_eq (probe : SearchResponse) (points : List SearchResponse) :
    (sampleTime probe points : Action σ UInt64) = Action.word (totalTime (probe :: points)) := by
  -- from any time so far, by induction on the answers that are still to be added
  have hfold : ∀ time : UInt64, (points.foldlM (fun time r =>
      Action.word (time.toNat + r.processingTime.toNat)) time : Action σ UInt64) =
        Action.word (time.toNat + totalTime points) := by
    induction points with
    | nil =>
      intro time
      have hroom : time.toNat < UInt64.size := time.toNat_lt
      show pure time = Action.word (time.toNat + 0)
      rw [Nat.add_zero, Action.word, if_pos hroom, UInt64.ofNat_toNat]
    | cons r points ih =>
      intro time
      rw [List.foldlM_cons, totalTime_cons, ← Nat.add_assoc]
      by_cases hroom : time.toNat + r.processingTime.toNat < UInt64.size
      · have hsum : (UInt64.ofNat (time.toNat + r.processingTime.toNat)).toNat =
            time.toNat + r.processingTime.toNat := UInt64.toNat_ofNat_of_lt hroom
        rw [Action.word, if_pos hroom, pure_bind, ih, hsum]
      · have hmore : ¬ time.toNat + r.processingTime.toNat + totalTime points < UInt64.size := by
          omega
        rw [Action.word, Action.word, if_neg hroom, if_neg hmore]
        rfl
  rw [sampleTime, hfold, totalTime_cons]

/-- What a sample comes to when all of its answers are there. -/
def sampled (probe : SearchResponse) (points : List SearchResponse) : Except Stop SearchResults :=
  if totalTime (probe :: points) < UInt64.size then
    .ok (Sample.results probe points (.ofNat (totalTime (probe :: points))))
  else .error .overflowed

theorem sampled_eq_ok {probe : SearchResponse} {points : List SearchResponse}
    {results : SearchResults} :
    sampled probe points = .ok results ↔
      results.processingTime.toNat = totalTime (probe :: points) ∧
        results = Sample.results probe points results.processingTime := by
  rw [sampled]
  constructor
  · intro h
    split at h
    · next hroom =>
      obtain rfl := Except.ok.inj h
      exact ⟨UInt64.toNat_ofNat_of_lt hroom, rfl⟩
    · cases h
  · rintro ⟨htime, hresults⟩
    have hroom : totalTime (probe :: points) < UInt64.size := htime ▸ results.processingTime.toNat_lt
    rw [if_pos hroom, ← htime, UInt64.ofNat_toNat, ← hresults]

theorem sampled_eq_error {probe : SearchResponse} {points : List SearchResponse} {stop : Stop} :
    sampled probe points = .error stop ↔
      stop = .overflowed ∧ UInt64.size ≤ totalTime (probe :: points) := by
  rw [sampled]
  split
  · next hroom => exact iff_of_false (by rintro ⟨⟩) fun h => Nat.not_le.mpr hroom h.2
  · next hroom =>
    rw [Except.error.injEq, eq_comm]
    exact (and_iff_left (Nat.not_lt.mp hroom)).symm

theorem sampled_run (probe : SearchResponse) (points : List SearchResponse) (w : World σ) :
    ((sampleTime probe points >>= fun time => pure (Sample.results probe points time)) :
      Action σ SearchResults).run.run w = (sampled probe points, w) := by
  rw [sampleTime_eq, Action.run_bind, Action.run_word, sampled]
  by_cases hroom : totalTime (probe :: points) < UInt64.size
  · rw [if_pos hroom, if_pos hroom]
    rfl
  · rw [if_neg hroom, if_neg hroom]

/-- What is counted when a search has come to its end: how it ended, and the time.  Of a search that breaks
off it is the time alone, and of one that is stalled nothing. -/
def closing (kind : SearchKind) : Except Stop α → List Metric
  | .ok _ => [.searched kind true, .searchTimed kind]
  | .error (.failed _) => [.searched kind false, .searchTimed kind]
  | .error .stalled => []
  | .error .overflowed => [.searchTimed kind]

@[simp] theorem closing_map (kind : SearchKind) (f : α → β) (result : Except Stop α) :
    closing kind (f <$> result) = closing kind result := by
  rcases result with (e | - | -) | x <;> rfl

/-- A search runs as it does, and is then counted. -/
theorem account_run (kind : SearchKind) (search : Action σ α) (w : World σ) :
    (account kind search).run.run w =
      ((search.run.run w).1,
        (closing kind (search.run.run w).1).foldl World.counted (search.run.run w).2) := by
  rw [account, Action.run_bind, Action.run_attempt, Action.run_unwinding]
  rcases search.run.run w with ⟨(e | - | -) | x, w'⟩
  · rfl
  · rfl
  · rfl
  · rfl

theorem account_run_ok {kind : SearchKind} {search : Action σ α} {w w' : World σ} {x : α}
    (h : search.run.run w = (.ok x, w')) :
    (account kind search).run.run w =
      (.ok x, (w'.counted (.searched kind true)).counted (.searchTimed kind)) := by
  rw [account_run, h]
  rfl

theorem account_ends {kind : SearchKind} {search : Action σ α} {w : World σ} {P : α → Prop}
    (h : search.Ends w fun x _ => P x) : (account kind search).Ends w fun x _ => P x := by
  obtain ⟨x, w', hrun, hx⟩ := h
  exact ⟨x, _, account_run_ok hrun, hx⟩

end Client

end SearchClient
