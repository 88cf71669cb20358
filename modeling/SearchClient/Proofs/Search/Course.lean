/-
SearchClient/Proofs/Search/Course.lean

The course of plans and samples.  A plan announces its companions, and then its requests are dispatched
(`Planned`).  A sample is probed, and then its points are dispatched, unless there are too few documents or
the draw does not finish (`Sampling`).  If its answers have all that it wants (`Obtains`), its round trips are
counted, and it comes to what they add up to; and only then.  When either has come to its end, that is
counted after everything else (`Client.account_records`).
-/
import SearchClient.Proofs.Search.Exchange
import SearchClient.Proofs.Search.Pages

namespace SearchClient

variable {σ α β : Type}

/-! ### Plans -/

theorem SearchPlan.length_requestsFor (plan : SearchPlan) (index : String) :
    (plan.requestsFor index).length = plan.size := by
  rw [requestsFor, size, List.length_map, List.length_cons, List.length_map, Nat.add_comm]

/-- A plan is split if it takes several requests. -/
theorem SearchPlan.isSplit_eq (plan : SearchPlan) (index : String) :
    plan.isSplit = decide (1 < (plan.requestsFor index).length) := by
  rw [plan.length_requestsFor, isSplit, size]
  cases plan.companions with
  | nil => rfl
  | cons companion companions => simp

/-- What is counted of a plan before anything is sent. -/
def SearchPlan.announced (plan : SearchPlan) : List Event :=
  if plan.isSplit then [.counted (.companions plan.companions.length)] else []

theorem SearchPlan.tells_announced (plan : SearchPlan) : Tells [] []
    (if plan.isSplit then [.companions plan.companions.length] else []) plan.announced := by
  rw [announced]
  split
  · exact ⟨rfl, rfl, rfl⟩
  · exact tells_nil

/-- What is made of the responses to a plan. -/
def Client.Merged (responses : List SearchResponse) (results : SearchResults) : Prop :=
  ∃ main companions, responses = main :: companions ∧ results = .merge main companions ∧
    results.hits = main.hits

/-- How a plan goes: its companions are counted, and then its requests are dispatched, of which there may
be one. -/
inductive Planned (c : Client σ) (index : String) (plan : SearchPlan) :
    Except Stop SearchResults → List Event → Prop where
  | run {sent : List Request} {answers : List (Request × Except String Reply)}
      {outcome : Except Stop (List SearchResponse)} {result : Except Stop SearchResults}
      {events : List Event} (htells : Tells sent answers [] events)
      (hdispatched : Dispatched index (plan.requestsFor index) (c.config.multiSearch && plan.isSplit)
        sent answers outcome)
      (hmerged : Both Client.Merged outcome result) :
      Planned c index plan result (plan.announced ++ events)

/-- A plan works out no number. -/
theorem Planned.ne_overflowed {c : Client σ} {index : String} {plan : SearchPlan}
    {result : Except Stop SearchResults} {events : List Event}
    (h : Planned c index plan result events) : result ≠ .error .overflowed := by
  cases h with
  | run htells hdispatched hmerged =>
    intro hover
    obtain rfl := hover
    cases hmerged with
    | error => exact hdispatched.ne_overflowed rfl

namespace Client

variable (c : Client σ)

/-- A request that goes out alone must not name the index. -/
theorem runPlan_planned (index : String) {plan : SearchPlan}
    (hmain : plan.isSplit = false → plan.main.untagged = plan.main) (w : World σ) :
    (c.runPlan index plan).Records w fun result events _ => Planned c index plan result events := by
  rw [runPlan]
  split
  · next hsplit =>
    have hannounced : plan.announced = [.counted (.companions plan.companions.length)] :=
      if_pos hsplit
    refine Action.Records.of_eq plan.announced (Action.run_bind_ok rfl)
      (congrArg (w.history ++ ·) hannounced.symm) ?_
    refine (c.dispatch_tells index (plan.requestsFor index) _).bind ?_ ?_
    · rintro responses events w₁ - ⟨sent, answers, htells, hdispatched⟩
      rw [← plan.isSplit_eq] at hdispatched
      -- there is a response for each request, of which the first is the main one
      have hlength : responses.length = plan.size := by
        rw [((hdispatched.ok_iff _).mp rfl).1, plan.length_requestsFor]
      cases responses with
      | nil =>
        rw [SearchPlan.size, List.length_nil] at hlength
        omega
      | cons main companions =>
        refine Action.records_pure ?_
        rw [List.append_nil]
        exact .run htells hdispatched
          (.ok ⟨main, companions, rfl, rfl, (SearchResults.merge_hits main companions).1⟩)
    · rintro stop events w₁ ⟨sent, answers, htells, hdispatched⟩
      rw [← plan.isSplit_eq] at hdispatched
      exact .run htells hdispatched (.error stop)
  · next hsingle =>
    have hannounced : plan.announced = [] := if_neg hsingle
    have hnone : plan.companions = [] := by simpa [SearchPlan.isSplit] using hsingle
    have hsingle : plan.isSplit = false := Bool.eq_false_iff.mpr hsingle
    have hrequests : (plan.requestsFor index).map (fun r => r.untagged.alone index) =
        [plan.main.alone index] := by
      rw [SearchPlan.requestsFor, hnone]
      show [plan.main.untagged.alone index] = _
      rw [hmain hsingle]
    have hplanned : ∀ {sent answers outcome result events}, Tells sent answers [] events →
        InTurn SearchResponse.ofJson [plan.main.alone index] sent answers outcome →
        Both Merged outcome result → Planned c index plan result events := by
      intro sent answers outcome result events htells hinTurn hmerged
      have hdispatched : Dispatched index (plan.requestsFor index)
          (c.config.multiSearch && plan.isSplit) sent answers outcome := by
        rw [hsingle, Bool.and_false]
        exact .inTurn (hrequests ▸ hinTurn)
      have hrun := Planned.run (c := c) htells hdispatched hmerged
      rwa [hannounced] at hrun
    rw [map_eq_pure_bind]
    refine (c.call_tells .search (plan.main.method_alone index) SearchResponse.ofJson w).bind ?_ ?_
    · rintro main events w₁ - ⟨final, htells, hresult⟩
      obtain ⟨answer, rfl, hread⟩ := Attempts.result_eq_ok hresult.symm
      refine Action.records_pure ?_
      rw [List.append_nil]
      exact hplanned htells (.next hread .done) (.ok ⟨main, [], rfl, rfl, rfl⟩)
    · rintro stop events w₁ ⟨final, htells, hresult⟩
      rcases Attempts.result_eq_error hresult.symm with ⟨rfl, rfl⟩ | ⟨answer, e, rfl, he, rfl⟩
      · exact hplanned htells (.unanswered _ _) (.error _)
      · exact hplanned htells (.failed _ he) (.error _)

/-! ### Samples -/

/-- A sample from its points on. -/
def samplePoints (q : Query) (filter : List String) (probe : SearchResponse) (offsets : List Nat) :
    Action σ SearchResults := do
  let points ← c.dispatch q.index (Sample.points q filter offsets)
  Action.count (.roundTrips (q.limit.toNat + 1))
  return Sample.results probe points (← sampleTime probe points)

theorem samplePoints_tells (q : Query) (filter : List String) (probe : SearchResponse)
    (offsets : List Nat) (w : World σ) :
    (c.samplePoints q filter probe offsets).Records w fun result events _ =>
      ∃ sent answers outcome,
        Tells sent answers (if outcome.isOk then [.roundTrips (q.limit.toNat + 1)] else []) events ∧
          Dispatched q.index (Sample.points q filter offsets)
            (c.config.multiSearch && decide (1 < offsets.length)) sent answers outcome ∧
          result = outcome >>= sampled probe := by
  have hlength : (Sample.points q filter offsets).length = offsets.length := List.length_map _
  rw [← hlength]
  refine (c.dispatch_tells q.index (Sample.points q filter offsets) w).bind ?_ ?_
  · rintro responses events w₁ - ⟨sent, answers, htells, hdispatched⟩
    have hcounted : Tells [] [] [.roundTrips (q.limit.toNat + 1)]
        [.counted (.roundTrips (q.limit.toNat + 1))] := ⟨rfl, rfl, rfl⟩
    refine Action.records_of_run (sampled_run probe responses _) rfl
      ⟨sent, answers, .ok responses, ?_, hdispatched, rfl⟩
    rw [← List.append_nil sent, ← List.append_nil answers]
    exact htells.append hcounted
  · rintro stop events w₁ ⟨sent, answers, htells, hdispatched⟩
    exact ⟨sent, answers, .error stop, htells, hdispatched, rfl⟩

end Client

/-- How a sample goes, whose filters are known: the requests sent, the answers, what is counted, and what
it comes to. -/
inductive Sampling (c : Client σ) (q : Query) (filter : List String) :
    List Request → List (Request × Except String Reply) → List Metric →
      Except Stop SearchResults → Prop where
  | unprobed {final : Option (Except String Reply)} {stop : Stop}
      (h : Attempts.result (Reply.receivedAs SearchResponse.ofJson) final = .error stop) :
      Sampling c q filter [(Sample.probe q filter).alone q.index]
        (final.toList.map ((Sample.probe q filter).alone q.index, ·)) [] (.error stop)
  /-- There are too few documents, or the draw does not finish. -/
  | undrawn {answer : Except String Reply} {probe : SearchResponse} {stop : Stop}
      (hroom : stop ≠ .overflowed)
      (hprobe : Reply.receivedAs SearchResponse.ofJson answer = .ok probe)
      (hnone : ∀ offsets, Sample.ensureEnough probe.total q.limit = .ok () →
        c.draw probe.total.toNat q.limit.toNat ≠ some offsets) :
      Sampling c q filter [(Sample.probe q filter).alone q.index]
        [((Sample.probe q filter).alone q.index, answer)] [] (.error stop)
  | drawn {answer : Except String Reply} {probe : SearchResponse} {offsets : List Nat}
      {sent : List Request} {answers : List (Request × Except String Reply)}
      {outcome : Except Stop (List SearchResponse)}
      (hprobe : Reply.receivedAs SearchResponse.ofJson answer = .ok probe)
      (henough : Sample.ensureEnough probe.total q.limit = .ok ())
      (hdraw : c.draw probe.total.toNat q.limit.toNat = some offsets)
      (hdispatched : Dispatched q.index (Sample.points q filter offsets)
        (c.config.multiSearch && decide (1 < offsets.length)) sent answers outcome) :
      Sampling c q filter ((Sample.probe q filter).alone q.index :: sent)
        (((Sample.probe q filter).alone q.index, answer) :: answers)
        (if outcome.isOk then [.roundTrips (q.limit.toNat + 1)] else [])
        (outcome >>= Client.sampled probe)

/-- The answers are all that a sample wants: the probe tells that there are enough documents, the draw
finishes, and there is a response for each point. -/
inductive Obtains (c : Client σ) (q : Query) (filter : List String) :
    List (Request × Except String Reply) → SearchResponse → List SearchResponse → Prop where
  | all {answer : Except String Reply} {probe : SearchResponse} {offsets : List Nat}
      {answers : List (Request × Except String Reply)} {responses : List SearchResponse}
      (hprobe : Reply.receivedAs SearchResponse.ofJson answer = .ok probe)
      (henough : Sample.ensureEnough probe.total q.limit = .ok ())
      (hdraw : c.draw probe.total.toNat q.limit.toNat = some offsets)
      (hlength : responses.length = offsets.length)
      (hresponded : Responded q.index (Sample.points q filter offsets)
        (c.config.multiSearch && decide (1 < offsets.length)) answers responses) :
      Obtains c q filter (((Sample.probe q filter).alone q.index, answer) :: answers) probe responses

section Sampling

variable {c : Client σ} {q : Query} {filter : List String} {sent : List Request}
  {answers : List (Request × Except String Reply)} {accounts : List Metric}
  {result : Except Stop SearchResults}

/-- With all that it wants, a sample counts its round trips and comes to what its answers add up to. -/
theorem Sampling.of_obtains (h : Sampling c q filter sent answers accounts result)
    {probe : SearchResponse} {responses : List SearchResponse}
    (hobtains : Obtains c q filter answers probe responses) :
    result = Client.sampled probe responses ∧ accounts = [.roundTrips (q.limit.toNat + 1)] := by
  cases h with
  | @unprobed final stop h =>
    cases final with
    | none => cases hobtains
    | some answer =>
      cases hobtains with
      | all hprobe =>
        rw [Attempts.result, hprobe] at h
        cases h
  | undrawn _ hprobe hnone =>
    -- what is obtained has a draw, and the probe is the one that was read
    cases hobtains with
    | all hprobe' henough hdraw =>
      obtain rfl := Except.ok.inj (hprobe.symm.trans hprobe')
      exact absurd hdraw (hnone _ henough)
  | drawn hprobe henough hdraw hdispatched =>
    cases hobtains with
    | all hprobe' henough' hdraw' hlength hresponded =>
      obtain rfl := Except.ok.inj (hprobe.symm.trans hprobe')
      obtain rfl := Option.some.inj (hdraw.symm.trans hdraw')
      have hlength : responses.length = (Sample.points q filter _).length :=
        hlength.trans (List.length_map _).symm
      rw [(hdispatched.ok_iff responses).mpr ⟨hlength, hresponded⟩]
      exact ⟨rfl, rfl⟩

/-- Otherwise it counts no round trips, and has no sum to come to. -/
theorem Sampling.of_not_obtains (h : Sampling c q filter sent answers accounts result)
    (hnone : ∀ probe responses, ¬ Obtains c q filter answers probe responses) :
    (∃ stop, stop ≠ .overflowed ∧ result = .error stop) ∧ accounts = [] := by
  cases h with
  | @unprobed final stop h =>
    refine ⟨⟨stop, ?_, rfl⟩, rfl⟩
    rintro rfl
    exact Attempts.result_ne_overflowed _ final h
  | undrawn hroom => exact ⟨⟨_, hroom, rfl⟩, rfl⟩
  | @drawn _ _ _ _ _ outcome hprobe henough hdraw hdispatched =>
    cases outcome with
    | error stop =>
      refine ⟨⟨stop, ?_, rfl⟩, rfl⟩
      rintro rfl
      exact hdispatched.ne_overflowed rfl
    | ok responses =>
      obtain ⟨hlength, hresponded⟩ := (hdispatched.ok_iff responses).mp rfl
      rw [Sample.points, List.length_map] at hlength
      exact absurd (.all hprobe henough hdraw hlength hresponded) (hnone _ responses)

end Sampling

namespace Client

variable (c : Client σ)

theorem sample_sampling {q : Query} {filter : List String}
    (hfilter : q.filterTexts c.config.listRendering = .ok filter) (w : World σ) :
    (c.sample q).Records w fun result events _ => ∃ sent answers accounts,
      Tells sent answers accounts events ∧ Sampling c q filter sent answers accounts result := by
  rw [sample, hfilter]
  refine .of_eq_quiet (Action.run_bind_ok (Action.run_ofExcept (.ok filter) w)) rfl ?_
  refine (c.call_tells .search ((Sample.probe q filter).method_alone q.index) SearchResponse.ofJson
    w).bind ?_ ?_
  · rintro probe events w₁ - ⟨final, htells, hresult⟩
    obtain ⟨answer, rfl, hprobe⟩ := Attempts.result_eq_ok hresult.symm
    rcases henough : Sample.ensureEnough probe.total q.limit with e | ⟨⟩
    · -- there are too few documents
      refine Action.records_of_run (Action.run_bind_error (Action.run_ofExcept (.error e) w₁))
        (List.append_nil _).symm
        ⟨_, _, _, by rwa [List.append_nil], .undrawn (by simp) hprobe ?_⟩
      rintro offsets henough'
      rw [henough] at henough'
      cases henough'
    · refine .of_eq_quiet (Action.run_bind_ok (Action.run_ofExcept (.ok ()) w₁)) rfl ?_
      rcases hdraw : c.draw probe.total.toNat q.limit.toNat with - | offsets
      · -- the draw does not finish
        refine Action.records_of_run rfl (List.append_nil _).symm
          ⟨_, _, _, by rwa [List.append_nil], .undrawn (by simp) hprobe ?_⟩
        intro offsets _
        rw [hdraw]
        exact Option.some_ne_none offsets |>.symm
      · refine (c.samplePoints_tells q filter probe offsets w₁).mono ?_
        rintro result more - - ⟨sent, answers, outcome, hmore, hdispatched, rfl⟩
        exact ⟨_, _, _, htells.append hmore, .drawn hprobe henough hdraw hdispatched⟩
  · rintro stop events w₁ ⟨final, htells, hresult⟩
    exact ⟨_, _, _, htells, .unprobed hresult.symm⟩

/-! ### Searches that have come to their end -/

theorem tells_closing (kind : SearchKind) (result : Except Stop α) :
    Tells [] [] (closing kind result) ((closing kind result).map .counted) := by
  rcases result with (e | - | -) | x
  · exact ⟨rfl, rfl, rfl⟩
  · exact tells_nil
  · exact ⟨rfl, rfl, rfl⟩
  · exact ⟨rfl, rfl, rfl⟩

theorem history_counted_all (w : World σ) (metrics : List Metric) :
    (metrics.foldl World.counted w).history = w.history ++ metrics.map .counted := by
  induction metrics generalizing w with
  | nil => exact (List.append_nil _).symm
  | cons m metrics ih =>
    rw [List.foldl_cons, ih]
    exact List.append_assoc _ [_] _

/-- The end is counted after everything else, and makes no difference to what it comes to. -/
theorem account_records {a : Action σ α} {w : World σ} {P : Except Stop α → List Event → Prop}
    (h : a.Records w fun result events _ => P result events) (kind : SearchKind) :
    (account kind a).Records w fun result events _ =>
      ∃ before, P result before ∧ events = before ++ (closing kind result).map .counted := by
  obtain ⟨before, hhistory, hP⟩ := h
  refine Action.records_of_run (account_run kind a w) ?_ ⟨before, hP, rfl⟩
  rw [history_counted_all, hhistory, List.append_assoc]

end Client

/-! ### Queries -/

/-- How a plan is carried out. -/
def SearchPlan.kind (plan : SearchPlan) : SearchKind := if plan.isSplit then .split else .single

namespace Client

variable (c : Client σ)

/-- A query in its order goes as its plan does. -/
theorem search_of_plan {q : Query} {plan : SearchPlan} (horder : q.randomOrder = false)
    (hplan : SearchPlan.ofQuery c.config.listRendering q = .ok plan) (w : World σ) :
    (c.search q).Records w fun result events _ => ∃ before,
      Planned c q.index plan result before ∧
        events = before ++ (closing plan.kind result).map .counted := by
  rw [search, horder, if_neg Bool.false_ne_true, searchInOrder, hplan]
  refine .of_eq_quiet (Action.run_bind_ok (Action.run_ofExcept (.ok plan) w)) rfl ?_
  exact account_records
    (c.runPlan_planned q.index (fun _ => SearchPlan.main_untagged hplan) w) plan.kind

section Built

variable {q : Query} (hbuilt : q.Built)

include hbuilt

theorem search_planned (horder : q.randomOrder = false) (w : World σ) :
    ∃ plan, SearchPlan.ofQuery c.config.listRendering q = .ok plan ∧
      (c.search q).Records w fun result events _ => ∃ before,
        Planned c q.index plan result before ∧
          events = before ++ (closing plan.kind result).map .counted := by
  obtain ⟨plan, hplan⟩ := SearchPlan.exists_ofQuery hbuilt.wellFormed c.config.listRendering
  exact ⟨plan, hplan, c.search_of_plan horder hplan w⟩

/-- A page is asked for by a plan, whatever order the query has. -/
theorem paginate_planned (number perPage : UInt64) (w : World σ) :
    ∃ plan, SearchPlan.ofQuery c.config.listRendering (q.onPage (max number 1) perPage) = .ok plan ∧
      (c.paginate q number perPage).Records w fun result events _ => ∃ results page before,
        Planned c q.index plan results before ∧ result = page <$> results ∧
          events = before ++ (closing plan.kind results).map .counted := by
  -- no page changes the trees
  have hwellFormed : Node.firstMalformedOf? (q.onPage (max number 1) perPage).wheres = none :=
    hbuilt.wellFormed
  obtain ⟨plan, hplan⟩ := SearchPlan.exists_ofQuery hwellFormed c.config.listRendering
  refine ⟨plan, hplan, (c.search_of_plan rfl hplan w).map.mono ?_⟩
  rintro result events - - ⟨results, ⟨before, hplanned, hevents⟩, hresult⟩
  exact ⟨results, _, before, hplanned, hresult, hevents⟩

/-- A sample of something. -/
theorem searchAtRandom_sampling (hsome : q.limit ≠ 0) (w : World σ) :
    (c.searchAtRandom q).Records w fun result events _ => ∃ before,
      (∃ sent answers accounts, Tells sent answers accounts before ∧
        Sampling c q (q.fullFilters c.config.listRendering).texts sent answers accounts result) ∧
        events = before ++ (closing .random result).map .counted := by
  rw [searchAtRandom, if_neg hsome]
  exact account_records (c.sample_sampling (hbuilt.filterTexts _) w) .random

end Built

/-- Queries in one call are one request, in which each has its main request. -/
theorem multiSearch_tells {qs : List Query} (hsome : qs ≠ []) (hbuilt : ∀ q ∈ qs, q.Built)
    (w : World σ) :
    (c.multiSearch qs).Records w fun result events _ => ∃ before answers,
      Tells [SearchRequest.together (qs.map fun q =>
          (SearchRequest.ofQuery q (q.fullFilters c.config.listRendering).texts).forIndex q.index)]
        answers [] before ∧ result ≠ .error .overflowed ∧
        events = before ++ (closing .multi result).map .counted := by
  have hempty : ¬ qs.isEmpty = true := by rwa [List.isEmpty_iff]
  rw [multiSearch, if_neg hempty,
    mapM_ok fun q hq => mainRequest_built (hbuilt q hq) c.config.listRendering]
  refine (account_records (c.searchTogether_tells _ w) .multi).map.mono ?_
  rintro result events - - ⟨outcome, ⟨before, ⟨final, htells, rfl⟩, hevents⟩, rfl⟩
  rw [closing_map]
  exact ⟨before, _, htells,
    fun h => Attempts.result_ne_overflowed _ final (map_eq_error.mp h), hevents⟩

/-- The values of a facet are had by one request. -/
theorem facetSearch_tells (index facet text : String) (w : World σ) :
    (c.facetSearch index facet text).Records w fun result events _ => ∃ before sent answers,
      Tells sent answers [] before ∧ result ≠ .error .overflowed ∧
        events = before ++ (closing .facet result).map .counted := by
  have hwrite : Method.post ≠ .get := by decide
  rw [facetSearch]
  refine (account_records (c.call_tells .facetSearch hwrite _ w) .facet).map.mono ?_
  rintro result events - - ⟨outcome, ⟨before, ⟨final, htells, rfl⟩, hevents⟩, rfl⟩
  rw [closing_map]
  exact ⟨before, _, _, htells,
    fun h => Attempts.result_ne_overflowed _ final (map_eq_error.mp h), hevents⟩

end Client

end SearchClient
