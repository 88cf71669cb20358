/-
SearchClient/Proofs/Search/Account.lean

What is counted of searches.  Every call for a search is counted once, at its end and as what it came to,
under the way it was carried out; what the requests have of failures and retries is counted apart from that.
A plan with companions counts these before it sends anything (`SearchPlan.Accounted`), and a sample counts its
round trips if its answers are all that it wants (`SampleAccounted`).  Only a sample may break off, when the
times of its answers are added up, and then the call is not counted
(`Client.searchAtRandom_unaccounted`).

No case is left out by where a call ends: what a plan or a sample tells up to there counts nothing else
(`Planned`, `Sampling`), and its end is counted wherever that is (`Client.account_records`).

Main result: `Client.searches_accounted`.
-/
import SearchClient.Proofs.Search.Course
import SearchClient.Proofs.Search.Several

namespace SearchClient

variable {σ α : Type}

/-! ### Plans -/

/-- The companions of a plan are counted before anything else happens, its end after everything else, and
nothing in between.  It does not break off. -/
structure SearchPlan.Accounted (plan : SearchPlan) (result : Except Stop α) (events : List Event) :
    Prop where
  ends : result ≠ .error .overflowed
  single : plan.companions = [] → accountsOf events = Client.closing .single result
  split : plan.companions ≠ [] → ∃ more,
    events = .counted (.companions plan.companions.length) :: more ∧
      accountsOf more = Client.closing .split result

theorem Planned.accounted {c : Client σ} {index : String} {plan : SearchPlan}
    {result : Except Stop SearchResults} {events : List Event}
    (h : Planned c index plan result events) :
    plan.Accounted result (events ++ (Client.closing plan.kind result).map .counted) := by
  have hends := h.ne_overflowed
  cases h with
  | @run sent answers outcome _ events htells _ _ =>
    have hmore := htells.append (Client.tells_closing plan.kind result)
    rw [List.append_assoc]
    refine ⟨hends, ?_, ?_⟩
    · intro hnone
      have hsplit : plan.isSplit = false := by
        rw [SearchPlan.isSplit, hnone]
        rfl
      have hannounced : plan.announced = [] := if_neg (Bool.eq_false_iff.mp hsplit)
      have hkind : plan.kind = .single := if_neg (Bool.eq_false_iff.mp hsplit)
      rw [hkind] at hmore ⊢
      rw [hannounced]
      exact hmore.accounts
    · intro hsome
      have hsplit : plan.isSplit = true := by
        rw [SearchPlan.isSplit, List.isEmpty_eq_false_iff.mpr hsome]
        rfl
      have hannounced : plan.announced = [.counted (.companions plan.companions.length)] :=
        if_pos hsplit
      have hkind : plan.kind = .split := if_pos hsplit
      rw [hkind] at hmore ⊢
      rw [hannounced]
      exact ⟨_, rfl, hmore.accounts⟩

/-- What is made of the results makes no difference. -/
theorem SearchPlan.Accounted.map {β : Type} {plan : SearchPlan} {result : Except Stop α}
    {events : List Event} (h : plan.Accounted result events) (f : α → β) :
    plan.Accounted (f <$> result) events where
  ends hover := h.ends (map_eq_error.mp hover)
  single := by simpa using h.single
  split := by simpa using h.split

/-! ### Samples -/

/-- If its answers are all that it wants, a sample counts its round trips before its end, and comes to what
the answers add up to.  Otherwise it counts its end alone, and does not break off. -/
structure SampleAccounted (c : Client σ) (q : Query) (result : Except Stop SearchResults)
    (events : List Event) : Prop where
  obtained : ∀ probe responses, Obtains c q (q.fullFilters c.config.listRendering).texts
      (answersOf events) probe responses →
    result = Client.sampled probe responses ∧
      accountsOf events = .roundTrips (q.limit.toNat + 1) :: Client.closing .random result
  unobtained : (∀ probe responses, ¬ Obtains c q (q.fullFilters c.config.listRendering).texts
      (answersOf events) probe responses) →
    (∃ stop, stop ≠ .overflowed ∧ result = .error stop) ∧
      accountsOf events = Client.closing .random result

/-- A sample that does not fail or stall has its answers. -/
theorem SampleAccounted.exists_obtains {c : Client σ} {q : Query}
    {result : Except Stop SearchResults} {events : List Event} (h : SampleAccounted c q result events)
    (hresult : ∀ stop, result = .error stop → stop = .overflowed) :
    ∃ probe responses, Obtains c q (q.fullFilters c.config.listRendering).texts (answersOf events)
      probe responses := by
  by_contra hnone
  obtain ⟨⟨stop, hstop, herror⟩, -⟩ := h.unobtained fun probe responses hobtains =>
    hnone ⟨probe, responses, hobtains⟩
  exact hstop (hresult stop herror)

namespace Client

variable (c : Client σ)

/-- The round trips of a sample are counted, and then its end. -/
theorem searchAtRandom_accounted {q : Query} (hbuilt : q.Built) (hsome : q.limit ≠ 0) (w : World σ) :
    (c.searchAtRandom q).Records w fun result events _ => SampleAccounted c q result events := by
  refine (c.searchAtRandom_sampling hbuilt hsome w).mono ?_
  rintro result events - - ⟨before, ⟨sent, answers, accounts, htells, hsampling⟩, rfl⟩
  have hall := htells.append (tells_closing .random result)
  rw [List.append_nil answers] at hall
  constructor
  · intro probe responses hobtains
    rw [hall.answers] at hobtains
    obtain ⟨hresult, rfl⟩ := hsampling.of_obtains hobtains
    exact ⟨hresult, hall.accounts⟩
  · intro hnone
    rw [hall.answers] at hnone
    obtain ⟨hresult, rfl⟩ := hsampling.of_not_obtains hnone
    exact ⟨hresult, hall.accounts⟩

/-! ### Main result -/

/-- **Calls for searches are counted once.**  A built query in its order counts as split, after its
companions, if its plan has any, and else as single; so does a page of it, whatever its order.  A sample
counts as random, after its round trips if it obtains all that it wants, unless it breaks off; a sample of
nothing is not counted at all.  Queries in one call count as one, and no queries as none; so does a search
among the values of a facet.  Each counts as a success exactly if it comes to a result. -/
theorem searches_accounted (w : World σ) :
    (∀ q : Query, q.Built →
      (q.randomOrder = false → ∃ plan, SearchPlan.ofQuery c.config.listRendering q = .ok plan ∧
        (c.search q).Records w fun result events _ => plan.Accounted result events) ∧
      (∀ number perPage, ∃ plan,
        SearchPlan.ofQuery c.config.listRendering (q.onPage (max number 1) perPage) = .ok plan ∧
        (c.paginate q number perPage).Records w fun result events _ =>
          plan.Accounted result events) ∧
      (q.randomOrder = true → c.search q = c.searchAtRandom q) ∧
      (q.limit = 0 → (c.searchAtRandom q).run.run w = (.ok {}, w)) ∧
      (q.limit ≠ 0 → (c.searchAtRandom q).Records w fun result events _ =>
        SampleAccounted c q result events)) ∧
    (∀ qs : List Query, qs ≠ [] → (∀ q ∈ qs, q.Built) →
      (c.multiSearch qs).Records w fun result events _ =>
        accountsOf events = closing .multi result ∧ result ≠ .error .overflowed) ∧
    (c.multiSearch []).run.run w = (.ok [], w) ∧
    ∀ index facet text, (c.facetSearch index facet text).Records w fun result events _ =>
      accountsOf events = closing .facet result ∧ result ≠ .error .overflowed := by
  refine ⟨?_, ?_, rfl, ?_⟩
  · intro q hbuilt
    refine ⟨?_, ?_, ?_, ?_, ?_⟩
    · intro horder
      obtain ⟨plan, hplan, hsearch⟩ := c.search_planned hbuilt horder w
      refine ⟨plan, hplan, hsearch.mono ?_⟩
      rintro result events - - ⟨before, hplanned, rfl⟩
      exact hplanned.accounted
    · intro number perPage
      obtain ⟨plan, hplan, hpage⟩ := c.paginate_planned hbuilt number perPage w
      refine ⟨plan, hplan, hpage.mono ?_⟩
      rintro result events - - ⟨results, page, before, hplanned, rfl, rfl⟩
      exact hplanned.accounted.map page
    · intro horder
      rw [search, if_pos horder]
    · intro hnone
      rw [searchAtRandom, if_pos hnone]
      rfl
    · intro hsome
      exact c.searchAtRandom_accounted hbuilt hsome w
  · intro qs hsome hbuilt
    refine (c.multiSearch_tells hsome hbuilt w).mono ?_
    rintro result events - - ⟨before, answers, htells, hends, rfl⟩
    exact ⟨(htells.append (tells_closing .multi result)).accounts, hends⟩
  · intro index facet text
    refine (c.facetSearch_tells index facet text w).mono ?_
    rintro result events - - ⟨before, sent, answers, htells, hends, rfl⟩
    exact ⟨(htells.append (tells_closing .facet result)).accounts, hends⟩

/-- Black phones have two companions; a sample of two phones takes three round trips; and three queries in
one call count as one. -/
theorem searches_accounted_blackPhones :
    (((FilterCount.client false .membership).search blackPhones).Records { line := () }
      fun result events _ => ∃ more, events = .counted (.companions 2) :: more ∧
        accountsOf more = closing .split result) ∧
    (((OneList.client [.int 1, .int 2, .int 3] 0 true 7).searchAtRandom (OneList.anyPhones 2)).Records
      { line := () } fun _ events _ =>
        accountsOf events = [.roundTrips 3, .searched .random true, .searchTimed .random]) ∧
    (tallyClient.multiSearch phonesAndBooks).Records { line := 4 } fun result events _ =>
      accountsOf events = closing .multi result := by
  refine ⟨?_, ?_, ?_⟩
  · obtain ⟨plan, hplan, hphones⟩ :=
      (((FilterCount.client false .membership).searches_accounted { line := () }).1 blackPhones
        blackPhones_built).1 rfl
    refine hphones.mono ?_
    intro result events _ _ haccounted
    obtain rfl := Except.ok.inj
      ((SearchPlan.ofQuery_split blackPhones_built rfl .membership).symm.trans hplan)
    exact haccounted.split (by decide +kernel)
  · obtain ⟨-, -, -, -, hsample⟩ :=
      ((OneList.client [.int 1, .int 2, .int 3] 0 true 7).searches_accounted { line := () }).1
        (OneList.anyPhones 2) (OneList.anyPhones_built 2)
    obtain ⟨events, hevents, haccounted⟩ := hsample (by decide)
    obtain ⟨results, hok⟩ := OneList.exists_sample_phones
    rw [hok] at haccounted
    obtain ⟨probe, responses, hobtains⟩ := haccounted.exists_obtains nofun
    exact ⟨events, hevents, (haccounted.obtained probe responses hobtains).2⟩
  · refine ((tallyClient.searches_accounted { line := 4 }).2.1 phonesAndBooks (by decide) fun q hq =>
      (phonesAndBooks_plain q hq).built).mono ?_
    exact fun result events _ _ h => h.1

/-- **A sample may not be counted.**  Its round trips are, since it has all of its answers, and the time that
it took, but not the call. -/
theorem searchAtRandom_unaccounted :
    (OneList.lone.searchAtRandom (OneList.anyPhones 1)).Records { line := () } fun _ events _ =>
      accountsOf events = [.roundTrips 2, .searchTimed .random] := by
  obtain ⟨events, hevents, haccounted⟩ :=
    OneList.lone.searchAtRandom_accounted (OneList.anyPhones_built 1) (by decide) { line := () }
  rw [OneList.lone_overflows] at haccounted
  obtain ⟨probe, responses, hobtains⟩ := haccounted.exists_obtains fun stop hstop =>
    (Except.error.inj hstop).symm
  exact ⟨events, hevents, (haccounted.obtained probe responses hobtains).2⟩

end Client

end SearchClient
