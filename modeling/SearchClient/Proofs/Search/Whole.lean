/-
SearchClient/Proofs/Search/Whole.lean

Searches that belong together succeed or fail as a whole, whatever the transport answers.  One by one or
together, what becomes of them is known from the exchange (`Dispatched`), and nothing comes of the
responses that there were before an error.

What is made of the responses is the business of who sends the searches: the results of a plan have the
hits of the first response, those of a sample the hits of all, in order, if their times can be added up.  So
`AllOrNothing` has it as a relation, and is the same statement for both.

Main result: `Client.search_allOrNothing`.
-/
import SearchClient.Proofs.Search.Course

namespace SearchClient

open Sample

variable {σ α β : Type}

/-! ### Searches of one index -/

/-- What becomes of searches of an index that are sent together or one by one: the requests sent, the
answers, and what it comes to, where `made` tells what is made of one response for each search. -/
structure AllOrNothing (index : String) (searches : List SearchRequest)
    (made : List SearchResponse → α → Prop) (together : Bool) (sent : List Request)
    (answers : List (Request × Except String Reply)) (result : Except Stop α) : Prop where
  /-- One by one, the searches are sent in their order. -/
  inOrder : together = false → sent <+: searches.map fun r => r.untagged.alone index
  /-- One by one, the first answer that stands for an error is the answer to the last request, and its
  error is the error of the whole. -/
  failed : together = false → ∀ k a e, answers[k]? = some a →
    Reply.receivedAs SearchResponse.ofJson a.2 = .error e →
      sent.length = k + 1 ∧ result = .error (.failed e)
  /-- Together, the searches are one request. -/
  once : together = true → sent = [SearchRequest.together (searches.map fun r => r.forIndex index)]
  /-- Together, an answer that stands for an error is the error of the whole. -/
  refused : together = true → ∀ a e, a ∈ answers →
    Reply.receivedAs MultiSearchResponse.ofJson a.2 = .error e → result = .error (.failed e)
  /-- Together, a reply without exactly one response for each search cannot be decoded. -/
  miscounted : together = true → ∀ request reply, (request, .ok reply) ∈ answers →
    reply.isSuccess = true →
      (∀ responses, MultiSearchResponse.ofJson reply.body = .ok ⟨responses⟩ →
        responses.length ≠ searches.length) →
      ∃ cause, result = .error (.failed (.decode cause))
  /-- Nothing is made of less than one response for each search. -/
  succeeded : ∀ x, result = .ok x → ∃ responses, responses.length = searches.length ∧
    Responded index searches together answers responses ∧ made responses x

section AllOrNothing

variable {index : String} {searches : List SearchRequest} {together : Bool} {sent : List Request}
  {answers : List (Request × Except String Reply)} {made : List SearchResponse → α → Prop}

/-- Goes on with what is made of the responses, which may not be made of all of them. -/
theorem AllOrNothing.map {R : α → β → Prop} {result : Except Stop α} {last : Except Stop β}
    {more : List SearchResponse → β → Prop}
    (h : AllOrNothing index searches made together sent answers result)
    (herror : ∀ stop, result = .error stop → last = .error stop)
    (hok : ∀ y, last = .ok y → ∃ x, result = .ok x ∧ R x y)
    (hmore : ∀ responses x y, made responses x → R x y → more responses y) :
    AllOrNothing index searches more together sent answers last := by
  refine
    { inOrder := h.inOrder
      failed := fun htogether k a e ha he => (h.failed htogether k a e ha he).imp_right (herror _)
      once := h.once
      refused := fun htogether a e ha he => herror _ (h.refused htogether a e ha he)
      miscounted := fun htogether request reply ha hs hcount =>
        (h.miscounted htogether request reply ha hs hcount).imp fun _ => herror _
      succeeded := fun y hy => ?_ }
  obtain ⟨x, hx, hxy⟩ := hok y hy
  obtain ⟨responses, hlength, hresponded, hmade⟩ := h.succeeded x hx
  exact ⟨responses, hlength, hresponded, hmore responses x y hmade hxy⟩

/-- One by one the first answer that stands for an error decides, and together the one answer. -/
theorem Dispatched.allOrNothing {result : Except Stop (List SearchResponse)}
    (h : Dispatched index searches together sent answers result) :
    AllOrNothing index searches (fun responses x => x = responses) together sent answers result := by
  have hsucceeded : ∀ x, result = .ok x → ∃ responses, responses.length = searches.length ∧
      Responded index searches together answers responses ∧ x = responses := by
    intro responses hok
    obtain ⟨hlength, hresponded⟩ := (h.ok_iff responses).mp hok
    exact ⟨responses, hlength, hresponded, rfl⟩
  cases h with
  | inTurn h =>
    exact
      { inOrder := fun _ => h.sent_prefix
        failed := fun _ _ _ _ ha he => h.failed_at ha he
        once := (nomatch ·)
        refused := (nomatch ·)
        miscounted := (nomatch ·)
        succeeded := hsucceeded }
  | together final =>
    have hfinal : ∀ a ∈ final.toList.map
        (SearchRequest.together (searches.map fun r => r.forIndex index), ·), final = some a.2 := by
      intro a ha
      obtain ⟨answer, hanswer, rfl⟩ := List.mem_map.mp ha
      exact Option.mem_toList.mp hanswer
    refine
      { inOrder := (nomatch ·)
        failed := (nomatch ·)
        once := fun _ => rfl
        refused := fun _ a e ha he => ?_
        miscounted := fun _ request reply ha hs hcount => ?_
        succeeded := hsucceeded }
    · rw [hfinal a ha, Attempts.result, Reply.oneEach_of_error he]
      rfl
    · obtain ⟨cause, hcause⟩ := Reply.oneEach_of_miscounted hs hcount
      rw [hfinal _ ha, Attempts.result, hcause]
      exact ⟨cause, rfl⟩

/-- What is counted after the searches makes no difference. -/
theorem AllOrNothing.counted {events more : List Event} {result : Except Stop α}
    (h : AllOrNothing index searches made together (events.filterMap Event.sent?) (answersOf events)
      result) (hmore : ∀ event ∈ more, ∃ m, event = .counted m) :
    AllOrNothing index searches made together ((events ++ more).filterMap Event.sent?)
      (answersOf (events ++ more)) result := by
  rwa [filterMap_counted events hmore fun _ => rfl, answersOf,
    filterMap_counted events hmore fun _ => rfl]

end AllOrNothing

namespace Client

variable (c : Client σ)

/-! ### Plans -/

theorem runPlan_records (index : String) {plan : SearchPlan} (hseveral : 2 ≤ plan.size)
    (w : World σ) :
    (c.runPlan index plan).Records w fun result events _ =>
      AllOrNothing index (plan.requestsFor index) Merged c.config.multiSearch
        (events.filterMap Event.sent?) (answersOf events) result := by
  have hsplit : plan.isSplit = true := by
    rw [plan.isSplit_eq index, plan.length_requestsFor]
    exact decide_eq_true hseveral
  have hannounced : plan.announced = [.counted (.companions plan.companions.length)] :=
    if_pos hsplit
  refine (c.runPlan_planned index (fun hsingle => by simp [hsplit] at hsingle) w).mono ?_
  intro result events _ _ hplanned
  cases hplanned with
  | @run sent answers outcome _ events htells hdispatched hmerged =>
    rw [hsplit, Bool.and_true] at hdispatched
    -- the companions, which are counted before, tell nothing of requests and answers
    rw [hannounced]
    show AllOrNothing _ _ _ _ (events.filterMap Event.sent?) (answersOf events) _
    rw [htells.sent, htells.answers]
    refine hdispatched.allOrNothing.map (R := Merged) ?_ ?_
      fun responses x y hx hmerged => hx ▸ hmerged
    · rintro stop rfl
      cases hmerged
      rfl
    · rintro y rfl
      cases hmerged with
      | @ok x _ hmerged => exact ⟨x, rfl, hmerged⟩

/-- It makes no difference that the end of the searches is accounted for. -/
theorem account_allOrNothing {index : String} {searches : List SearchRequest}
    {made : List SearchResponse → α → Prop} {together : Bool} {a : Action σ α} {w : World σ}
    (h : a.Records w fun result events _ =>
      AllOrNothing index searches made together (events.filterMap Event.sent?) (answersOf events)
        result) (kind : SearchKind) :
    (account kind a).Records w fun result events _ =>
      AllOrNothing index searches made together (events.filterMap Event.sent?) (answersOf events)
        result := by
  refine (account_records h kind).mono fun result events _ _ h => ?_
  obtain ⟨before, hwhole, rfl⟩ := h
  refine hwhole.counted fun event hevent => ?_
  obtain ⟨m, -, rfl⟩ := List.mem_map.mp hevent
  exact ⟨m, rfl⟩

/-! ### Samples -/

/-- What is made of the responses to the points of a sample. -/
def Sampled (probe : SearchResponse) (responses : List SearchResponse) (results : SearchResults) :
    Prop :=
  results = Sample.results probe responses results.processingTime ∧
    results.processingTime.toNat = totalTime (probe :: responses) ∧
    results.hits = responses.flatMap SearchResponse.hits

theorem sample_run_points {q : Query} {filter : List String} {probe : SearchResponse}
    {offsets : List Nat} {w w₁ : World σ}
    (hfilter : q.filterTexts c.config.listRendering = .ok filter)
    (hprobe : (c.searchOne q.index (Sample.probe q filter)).run.run w = (.ok probe, w₁))
    (henough : Sample.ensureEnough probe.total q.limit = .ok ())
    (hdraw : c.draw probe.total.toNat q.limit.toNat = some offsets) :
    (c.sample q).run.run w = (c.samplePoints q filter probe offsets).run.run w₁ := by
  rw [sample, hfilter, Action.run_bind_ok (Action.run_ofExcept (.ok filter) w),
    Action.run_bind_ok hprobe, henough, hdraw]
  exact Action.run_bind_ok (Action.run_ofExcept (.ok ()) w₁)

theorem samplePoints_records (q : Query) (filter : List String) (probe : SearchResponse)
    {offsets : List Nat} (hseveral : 2 ≤ offsets.length) (w : World σ) :
    (c.samplePoints q filter probe offsets).Records w fun result events _ =>
      AllOrNothing q.index (Sample.points q filter offsets) (Sampled probe) c.config.multiSearch
        (events.filterMap Event.sent?) (answersOf events) result := by
  have hseveral : 1 < offsets.length := hseveral
  refine (c.samplePoints_tells q filter probe offsets w).mono ?_
  rintro result events - - ⟨sent, answers, outcome, htells, hdispatched, rfl⟩
  rw [decide_eq_true hseveral, Bool.and_true] at hdispatched
  rw [htells.sent, htells.answers]
  refine hdispatched.allOrNothing.map (R := fun responses results =>
    sampled probe responses = .ok results) ?_ (fun results hok => bind_eq_ok.mp hok) ?_
  · rintro stop rfl
    rfl
  · rintro responses _ results rfl hsampled
    obtain ⟨htime, hresults⟩ := sampled_eq_ok.mp hsampled
    exact ⟨hresults, htime, congrArg SearchResults.hits hresults⟩

/-! ### Main result -/

/-- **Searches succeed or fail as a whole.**  So it is with the several requests of the plan of a query
in its order; and with the points of a random sample, from its probe on, if there are several. -/
theorem search_allOrNothing (q : Query) (w : World σ) :
    (∀ plan, q.randomOrder = false → SearchPlan.ofQuery c.config.listRendering q = .ok plan →
      2 ≤ plan.size → (c.search q).Records w fun result events _ =>
        AllOrNothing q.index (plan.requestsFor q.index) Merged c.config.multiSearch
          (events.filterMap Event.sent?) (answersOf events) result) ∧
    ∀ filter probe offsets w₁, q.filterTexts c.config.listRendering = .ok filter →
      q.limit ≠ 0 →
      (c.searchOne q.index (Sample.probe q filter)).run.run w = (.ok probe, w₁) →
      Sample.ensureEnough probe.total q.limit = .ok () →
      c.draw probe.total.toNat q.limit.toNat = some offsets → 2 ≤ offsets.length →
      ∃ events, ((c.searchAtRandom q).run.run w).2.history = w₁.history ++ events ∧
        AllOrNothing q.index (Sample.points q filter offsets) (Sampled probe) c.config.multiSearch
          (events.filterMap Event.sent?) (answersOf events) ((c.searchAtRandom q).run.run w).1 := by
  constructor
  · intro plan hrandom hplan hseveral
    rw [search, hrandom, if_neg Bool.false_ne_true, searchInOrder, hplan]
    exact .of_eq_quiet (Action.run_bind_ok (Action.run_ofExcept (.ok plan) w)) rfl
      (account_allOrNothing (c.runPlan_records q.index hseveral w) _)
  · intro filter probe offsets w₁ hfilter hsome hprobe henough hdraw hseveral
    -- the run is that of the points, from the world after the probe
    have hrun := c.sample_run_points hfilter hprobe henough hdraw
    have hrest : (account .random (c.sample q)).run.run w =
        (account .random (c.samplePoints q filter probe offsets)).run.run w₁ := by
      rw [account_run, account_run, hrun]
    rw [searchAtRandom, if_neg hsome, hrest]
    exact account_allOrNothing (c.samplePoints_records q filter probe hseveral w₁) .random

/-- Black phones take three searches, here one by one; and two of three phones are a sample of two
points, here together. -/
theorem search_allOrNothing_blackPhones :
    (∃ plan, SearchPlan.ofQuery .membership blackPhones = .ok plan ∧ plan.size = 3 ∧
      ((FilterCount.client false .membership).search blackPhones).Records { line := () }
        fun result events _ =>
          AllOrNothing "products" (plan.requestsFor "products") Merged false
            (events.filterMap Event.sent?) (answersOf events) result) ∧
    ∃ filter probe, ∃ w₁ : World Unit, ∃ events, w₁.sends.length = 1 ∧
      (((OneList.client [.int 1, .int 2, .int 3] 0 true 7).searchAtRandom
        (OneList.anyPhones 2)).run.run { line := () }).2.history = w₁.history ++ events ∧
      AllOrNothing "products" (Sample.points (OneList.anyPhones 2) filter [0, 2]) (Sampled probe) true
        (events.filterMap Event.sent?) (answersOf events)
        (((OneList.client [.int 1, .int 2, .int 3] 0 true 7).searchAtRandom
          (OneList.anyPhones 2)).run.run { line := () }).1 := by
  constructor
  · have hplan := SearchPlan.ofQuery_split blackPhones_built rfl .membership
    exact ⟨_, hplan, rfl, ((FilterCount.client false .membership).search_allOrNothing blackPhones
      { line := () }).1 _ rfl hplan (by decide)⟩
  · obtain ⟨probe, w₁, hprobe, htotal, hsends, -⟩ :=
      probe_run (c := OneList.client [.int 1, .int 2, .int 3] 0 true 7) (OneList.evaluates _ 0)
        (OneList.lists _ 0 (by decide)) (OneList.anyPhones 2) .membership { line := () }
    have hdraw : drawOffsets splitMix 64 3 2 7 = some ([0, 2], 15755400384260043846) := by
      decide +kernel
    have htotal : probe.total.toNat = 3 := htotal
    have henough : ensureEnough probe.total 2 = .ok () := by
      rw [ensureEnough, if_neg]
      rw [UInt64.lt_iff_toNat_lt, htotal]
      decide
    have hoffsets : (drawOffsets splitMix 64 probe.total.toNat 2 7).map Prod.fst = some [0, 2] := by
      rw [htotal, hdraw, Option.map_some]
    obtain ⟨events, hevents, hwhole⟩ :=
      ((OneList.client [.int 1, .int 2, .int 3] 0 true 7).search_allOrNothing (OneList.anyPhones 2)
        { line := () }).2 _ probe [0, 2] w₁ ((OneList.anyPhones_built 2).filterTexts _) (by decide)
          hprobe henough hoffsets (by decide)
    exact ⟨_, probe, w₁, events, congrArg List.length hsends, hevents, hwhole⟩

end Client

end SearchClient
