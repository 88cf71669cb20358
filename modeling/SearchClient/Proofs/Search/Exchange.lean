/-
SearchClient/Proofs/Search/Exchange.lean

What searches leave behind.  Whatever the transport answers, the history of a search tells the requests
that were sent, the answers that came, and what was counted of searches (`Tells`).  A call for searches is
sent once, and counts nothing of them.  One by one, searches are sent in their order up to the first answer
that stands for an error, which is then the error of the whole (`InTurn`); together, they are one request,
whose answer must hold one response for each (`Reply.oneEach`).

Whichever way the client is set, that is how searches of one index go (`Client.dispatch_tells`), and they come
to one response for each exactly if the answers can be read so (`Dispatched.ok_iff`).
-/
import SearchClient.Proofs.Search.Sample
import SearchClient.Proofs.Wire.Retry

namespace SearchClient

variable {σ α β ι : Type}

/-! ### What the history tells -/

/-- What an event counts of searches; failures that the engine reports and retries are counted of the
requests. -/
def Event.account? : Event → Option Metric
  | .counted (.apiError _ _) => none
  | .counted (.retried _) => none
  | .counted m => some m
  | _ => none

/-- What was counted of searches, in order. -/
def accountsOf (history : List Event) : List Metric := history.filterMap Event.account?

/-- Some events send these requests, bring these answers, and count this of searches. -/
structure Tells (sent : List Request) (answers : List (Request × Except String Reply))
    (accounts : List Metric) (events : List Event) : Prop where
  sent : events.filterMap Event.sent? = sent
  answers : answersOf events = answers
  accounts : accountsOf events = accounts

theorem tells_nil : Tells [] [] [] [] := ⟨rfl, rfl, rfl⟩

theorem Tells.append {sent sent' : List Request} {answers answers' : List (Request × Except String Reply)}
    {accounts accounts' : List Metric} {events more : List Event}
    (h : Tells sent answers accounts events) (h' : Tells sent' answers' accounts' more) :
    Tells (sent ++ sent') (answers ++ answers') (accounts ++ accounts') (events ++ more) where
  sent := by rw [List.filterMap_append, h.sent, h'.sent]
  answers := by rw [← h.answers, ← h'.answers, answersOf, List.filterMap_append]; rfl
  accounts := by rw [← h.accounts, ← h'.accounts, accountsOf, List.filterMap_append]; rfl

/-! ### Calls that are made once -/

/-- A write is sent once, and comes to what the answer to it stands for. -/
theorem Client.call_tells (c : Client σ) (operation : Operation) {request : Request}
    (hwrite : request.method ≠ .get) (read : Json → Decoded α) (w : World σ) :
    (c.call operation request read).Records w fun result events _ =>
      ∃ final : Option (Except String Reply),
        Tells [request] (final.toList.map (request, ·)) [] events ∧
          result = Attempts.result (Reply.receivedAs read) final := by
  refine (c.call_records operation request read w).mono fun result events _ _ h => ?_
  obtain ⟨final, hattempts, rfl⟩ := h
  rw [c.allowed_write hwrite] at hattempts
  cases hattempts with
  | unanswered => exact ⟨none, ⟨rfl, rfl, rfl⟩, rfl⟩
  | @last made answer asides _ hasides =>
    -- what stands beside the answer tells nothing
    have hsent : asides.filterMap Event.sent? = [] :=
      filterMap_asides hasides fun event h => by cases h <;> rfl
    have hanswer : asides.filterMap Event.answer? = [] :=
      filterMap_asides hasides fun event h => by cases h <;> rfl
    have haccount : asides.filterMap Event.account? = [] :=
      filterMap_asides hasides fun event h => by cases h <;> rfl
    refine ⟨some answer, ⟨?_, ?_, haccount⟩, rfl⟩
    · show request :: asides.filterMap Event.sent? = _
      rw [hsent]
    · show (request, answer) :: asides.filterMap Event.answer? = _
      rw [hanswer]
      rfl
  | again _ _ hleft => omega

/-- A search is posted, so it is no read, and is sent once. -/
theorem SearchRequest.method_alone (r : SearchRequest) (index : String) :
    (r.alone index).method ≠ .get := by
  intro h
  cases h

theorem SearchRequest.method_together (requests : List SearchRequest) :
    (SearchRequest.together requests).method ≠ .get := by
  intro h
  cases h

/-! ### Calls one after the other -/

/-- How calls go that are made one after the other: the requests sent, the answers, and what it comes
to. -/
inductive InTurn (read : Json → Decoded α) :
    List Request → List Request → List (Request × Except String Reply) → Except Stop (List α) →
      Prop where
  | done : InTurn read [] [] [] (.ok [])
  | unanswered (request : Request) (later : List Request) :
      InTurn read (request :: later) [request] [] (.error .stalled)
  | failed {request : Request} {answer : Except String Reply} {e : ClientError} (later : List Request)
      (h : Reply.receivedAs read answer = .error e) :
      InTurn read (request :: later) [request] [(request, answer)] (.error (.failed e))
  | next {request : Request} {answer : Except String Reply} {x : α} {later sent : List Request}
      {answers : List (Request × Except String Reply)} {result : Except Stop (List α)}
      (h : Reply.receivedAs read answer = .ok x) (hrest : InTurn read later sent answers result) :
      InTurn read (request :: later) (request :: sent) ((request, answer) :: answers)
        ((x :: ·) <$> result)

section InTurn

variable {read : Json → Decoded α} {requests sent : List Request}
  {answers : List (Request × Except String Reply)} {result : Except Stop (List α)}

/-- What is sent are the first requests. -/
theorem InTurn.sent_prefix (h : InTurn read requests sent answers result) : sent <+: requests := by
  induction h with
  | done => exact List.prefix_rfl
  | unanswered request later => exact ⟨later, rfl⟩
  | failed later _ => exact ⟨later, rfl⟩
  | next _ _ ih => exact List.cons_prefix_cons.mpr ⟨rfl, ih⟩

/-- An answer that stands for an error is the last one. -/
theorem InTurn.failed_at (h : InTurn read requests sent answers result) {k : Nat}
    {a : Request × Except String Reply} {e : ClientError} (ha : answers[k]? = some a)
    (he : Reply.receivedAs read a.2 = .error e) :
    sent.length = k + 1 ∧ result = .error (.failed e) := by
  induction h generalizing k with
  | done => cases ha
  | unanswered => cases ha
  | failed later h =>
    cases k with
    | zero =>
      obtain rfl := Option.some.inj ha
      obtain rfl := Except.error.inj (h.symm.trans he)
      exact ⟨rfl, rfl⟩
    | succ k => cases ha
  | next h _ ih =>
    cases k with
    | zero =>
      obtain rfl := Option.some.inj ha
      cases h.symm.trans he
    | succ k =>
      obtain ⟨hlength, rfl⟩ := ih ha
      exact ⟨congrArg Nat.succ hlength, rfl⟩

/-- If all goes well, every request was sent, and every answer is used in its place. -/
theorem InTurn.of_ok {xs : List α} (h : InTurn read requests sent answers result)
    (hok : result = .ok xs) :
    sent = requests ∧ answers.map Prod.fst = requests ∧
      List.Forall₂ (fun a x => Reply.receivedAs read a.2 = .ok x) answers xs := by
  induction h generalizing xs with
  | done =>
    obtain rfl := Except.ok.inj hok
    exact ⟨rfl, rfl, .nil⟩
  | unanswered => cases hok
  | failed => cases hok
  | @next request answer x later sent answers result h _ ih =>
    cases result with
    | error e => cases hok
    | ok rest =>
      obtain rfl := Except.ok.inj hok
      obtain ⟨rfl, rfl, hrest⟩ := ih rfl
      exact ⟨rfl, rfl, .cons h hrest⟩

/-- As many answers as there are requests, all of which can be used, are what it comes to. -/
theorem InTurn.ok_of_answers {xs : List α} (h : InTurn read requests sent answers result)
    (hrequests : answers.map Prod.fst = requests)
    (hanswers : List.Forall₂ (fun a x => Reply.receivedAs read a.2 = .ok x) answers xs) :
    result = .ok xs := by
  induction h generalizing xs with
  | done =>
    cases hanswers
    rfl
  | unanswered => cases hrequests
  | failed later h =>
    cases hanswers with
    | cons hx _ => cases h.symm.trans hx
  | next h _ ih =>
    cases hanswers with
    | cons hx hrest =>
      obtain rfl := Except.ok.inj (h.symm.trans hx)
      rw [ih (List.tail_eq_of_cons_eq hrequests) hrest]
      rfl

theorem InTurn.ne_overflowed (h : InTurn read requests sent answers result) :
    result ≠ .error .overflowed := by
  induction h with
  | done => simp
  | unanswered => simp
  | failed => simp
  | @next _ _ _ _ _ _ result _ _ ih =>
    cases result with
    | error stop => exact ih
    | ok xs => simp

end InTurn

theorem Client.mapM_call_inTurn (c : Client σ) (operation : Operation) (write : ι → Request)
    (hwrite : ∀ i, (write i).method ≠ .get) (read : Json → Decoded α) (items : List ι)
    (w : World σ) :
    (items.mapM fun i => c.call operation (write i) read).Records w fun result events _ =>
      ∃ sent answers, Tells sent answers [] events ∧
        InTurn read (items.map write) sent answers result := by
  induction items generalizing w with
  | nil => exact Action.records_pure ⟨[], [], tells_nil, .done⟩
  | cons i items ih =>
    rw [List.mapM_cons]
    refine (c.call_tells operation (hwrite i) read w).bind ?_ ?_
    · rintro x events w₁ - ⟨final, htells, hresult⟩
      obtain ⟨answer, rfl, hx⟩ := Attempts.result_eq_ok hresult.symm
      refine (ih w₁).bind ?_ ?_
      · rintro xs more w₂ - ⟨sent, answers, hmore, hrest⟩
        refine Action.records_pure ⟨_, _, ?_, .next hx hrest⟩
        rw [List.append_nil]
        exact htells.append hmore
      · rintro e more w₂ ⟨sent, answers, hmore, hrest⟩
        exact ⟨_, _, htells.append hmore, .next hx hrest⟩
    · -- the searches end here, and the other items are not sent
      rintro e events w₁ ⟨final, htells, hresult⟩
      rcases Attempts.result_eq_error hresult.symm with ⟨rfl, rfl⟩ | ⟨answer, cause, rfl, he, rfl⟩
      · exact ⟨_, _, htells, .unanswered _ _⟩
      · exact ⟨_, _, htells, .failed _ he⟩

/-! ### Searches together -/

/-- The answer to a request for several searches, read as one response for each. -/
def Reply.oneEach (count : Nat) (answer : Except String Reply) :
    Except ClientError (List SearchResponse) := do
  let m ← receivedAs MultiSearchResponse.ofJson answer
  if m.results.length = count then .ok m.results
  else .error (.decode (.resultCount m.results.length count))

theorem Reply.oneEach_of_error {count : Nat} {answer : Except String Reply} {e : ClientError}
    (h : receivedAs MultiSearchResponse.ofJson answer = .error e) :
    oneEach count answer = .error e := by
  rw [oneEach, h, error_bind]

theorem Reply.oneEach_eq_ok {count : Nat} {answer : Except String Reply}
    {responses : List SearchResponse} : oneEach count answer = .ok responses ↔
      receivedAs MultiSearchResponse.ofJson answer = .ok ⟨responses⟩ ∧ responses.length = count := by
  constructor
  · intro h
    obtain ⟨m, hm, h⟩ := bind_eq_ok.mp h
    split at h
    · next hlength =>
      obtain rfl := Except.ok.inj h
      exact ⟨hm, hlength⟩
    · cases h
  · rintro ⟨hm, hlength⟩
    rw [oneEach, hm, ok_bind, if_pos hlength]

/-- A reply is not what was asked for unless it has one response for each search. -/
theorem Reply.oneEach_of_miscounted {count : Nat} {reply : Reply} (hs : reply.isSuccess = true)
    (hcount : ∀ responses, MultiSearchResponse.ofJson reply.body = .ok ⟨responses⟩ →
      responses.length ≠ count) : ∃ cause, oneEach count (.ok reply) = .error (.decode cause) := by
  rcases hread : MultiSearchResponse.ofJson reply.body with cause | m
  · refine ⟨cause, oneEach_of_error ?_⟩
    rw [receivedAs, received, if_pos hs, ok_bind, decode, hread]
    rfl
  · rw [oneEach, receivedAs_ok hs hread, ok_bind, if_neg (hcount m.results hread)]
    exact ⟨_, rfl⟩

/-- What becomes of searches that are sent together: nothing but the one answer decides. -/
theorem Client.searchTogether_tells (c : Client σ) (requests : List SearchRequest) (w : World σ) :
    (c.searchTogether requests).Records w fun result events _ =>
      ∃ final : Option (Except String Reply),
        Tells [SearchRequest.together requests]
            (final.toList.map (SearchRequest.together requests, ·)) [] events ∧
          result = Attempts.result (Reply.oneEach requests.length) final := by
  refine (c.call_tells .multiSearch (SearchRequest.method_together requests)
    MultiSearchResponse.ofJson w).bind ?_ ?_
  · rintro m events w₁ - ⟨final, htells, hresult⟩
    obtain ⟨answer, rfl, hread⟩ := Attempts.result_eq_ok hresult.symm
    -- the responses are counted here as they are in `oneEach`
    have hone : Attempts.result (Reply.oneEach requests.length) (some answer) =
        if m.results.length = requests.length then .ok m.results
        else .error (.failed (.decode (.resultCount m.results.length requests.length))) := by
      rw [Attempts.result, Reply.oneEach, hread, ok_bind]
      split <;> rfl
    split
    · next hlength =>
      rw [if_neg hlength] at hone
      exact Action.records_of_run rfl (List.append_nil _).symm
        ⟨some answer, by rwa [List.append_nil], hone.symm⟩
    · next hlength =>
      rw [if_pos (not_not.mp hlength)] at hone
      exact Action.records_pure ⟨some answer, by rwa [List.append_nil], hone.symm⟩
  · rintro stop events w₁ ⟨final, htells, hresult⟩
    refine ⟨final, htells, ?_⟩
    rcases Attempts.result_eq_error hresult.symm with ⟨rfl, rfl⟩ | ⟨answer, e, rfl, he, rfl⟩
    · rfl
    · rw [Attempts.result, Reply.oneEach_of_error he]
      rfl

/-! ### Searches of one index -/

/-- What becomes of searches of an index, sent together or one by one: the requests sent, the answers,
and what it comes to. -/
inductive Dispatched (index : String) (searches : List SearchRequest) :
    Bool → List Request → List (Request × Except String Reply) →
      Except Stop (List SearchResponse) → Prop where
  | together (final : Option (Except String Reply)) :
      Dispatched index searches true
        [SearchRequest.together (searches.map fun r => r.forIndex index)]
        (final.toList.map (SearchRequest.together (searches.map fun r => r.forIndex index), ·))
        (Attempts.result (Reply.oneEach searches.length) final)
  | inTurn {sent : List Request} {answers : List (Request × Except String Reply)}
      {result : Except Stop (List SearchResponse)}
      (h : InTurn SearchResponse.ofJson (searches.map fun r => r.untagged.alone index) sent answers
        result) : Dispatched index searches false sent answers result

/-- The answers to searches of an index, read as one response for each, in order. -/
inductive Responded (index : String) (searches : List SearchRequest) :
    Bool → List (Request × Except String Reply) → List SearchResponse → Prop where
  | together {answer : Except String Reply} {responses : List SearchResponse}
      (h : Reply.receivedAs MultiSearchResponse.ofJson answer = .ok ⟨responses⟩) :
      Responded index searches true
        [(SearchRequest.together (searches.map fun r => r.forIndex index), answer)] responses
  | inTurn {answers : List (Request × Except String Reply)} {responses : List SearchResponse}
      (hrequests : answers.map Prod.fst = searches.map fun r => r.untagged.alone index)
      (h : List.Forall₂ (fun a x => Reply.receivedAs SearchResponse.ofJson a.2 = .ok x)
        answers responses) : Responded index searches false answers responses

/-- The searches come to responses exactly if these can be read off the answers, one for each search. -/
theorem Dispatched.ok_iff {index : String} {searches : List SearchRequest} {together : Bool}
    {sent : List Request} {answers : List (Request × Except String Reply)}
    {result : Except Stop (List SearchResponse)}
    (h : Dispatched index searches together sent answers result) (responses : List SearchResponse) :
    result = .ok responses ↔
      responses.length = searches.length ∧ Responded index searches together answers responses := by
  cases h with
  | together final =>
    constructor
    · intro hok
      obtain ⟨answer, rfl, hanswer⟩ := Attempts.result_eq_ok hok
      obtain ⟨hread, hlength⟩ := Reply.oneEach_eq_ok.mp hanswer
      exact ⟨hlength, .together hread⟩
    · rintro ⟨hlength, hresponded⟩
      cases final with
      | none => cases hresponded
      | some answer =>
        cases hresponded with
        | together hread =>
          rw [Attempts.result, Reply.oneEach_eq_ok.mpr ⟨hread, hlength⟩]
          rfl
  | inTurn h =>
    constructor
    · intro hok
      obtain ⟨-, hrequests, hresponses⟩ := h.of_ok hok
      refine ⟨?_, .inTurn hrequests hresponses⟩
      rw [← hresponses.length_eq, ← List.length_map Prod.fst, hrequests, List.length_map]
    · rintro ⟨-, hresponded⟩
      cases hresponded with
      | inTurn hrequests hresponses => exact h.ok_of_answers hrequests hresponses

theorem Dispatched.ne_overflowed {index : String} {searches : List SearchRequest} {together : Bool}
    {sent : List Request} {answers : List (Request × Except String Reply)}
    {result : Except Stop (List SearchResponse)}
    (h : Dispatched index searches together sent answers result) : result ≠ .error .overflowed := by
  cases h with
  | together final => exact Attempts.result_ne_overflowed _ final
  | inTurn h => exact h.ne_overflowed

namespace Client

variable (c : Client σ)

/-- The searches go out together if the client is set so and there are several of them. -/
theorem dispatch_tells (index : String) (searches : List SearchRequest) (w : World σ) :
    (c.dispatch index searches).Records w fun result events _ => ∃ sent answers,
      Tells sent answers [] events ∧
        Dispatched index searches (c.config.multiSearch && decide (1 < searches.length)) sent answers
          result := by
  rw [dispatch]
  split
  · next htogether =>
    rw [htogether]
    have htogether := c.searchTogether_tells (searches.map fun r => r.forIndex index) w
    rw [List.length_map] at htogether
    refine htogether.mono fun result events _ _ h => ?_
    obtain ⟨final, htells, rfl⟩ := h
    exact ⟨_, _, htells, .together final⟩
  · next hinTurn =>
    rw [Bool.eq_false_iff.mpr hinTurn]
    refine (c.mapM_call_inTurn .search (fun r => r.untagged.alone index)
      (fun r => r.untagged.method_alone index) SearchResponse.ofJson searches w).mono ?_
    rintro result events - - ⟨sent, answers, htells, h⟩
    exact ⟨sent, answers, htells, .inTurn h⟩

end Client

end SearchClient
