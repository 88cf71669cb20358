/-
SearchClient/Proofs/Sums.lean

Sums of numbers that the engine tells.  The time of a sample is the sum of the times of its responses, and
where the next page of a listing starts is the sum of two numbers of a page.  The numbers are taken as they
come, each of them up to the largest one there is, and nothing keeps their sums below the number of words.  A
sum that has no room in a word is neither reduced nor cut off: the call breaks off, and otherwise the sums are
exact (`Client.sums_exact_iff`).  So it is also where the answers are all that the call needs
(`Repeater.sums_overflow`).
-/
import SearchClient.Proofs.Index.Listing
import SearchClient.Proofs.Search.Account

namespace SearchClient

variable {σ : Type}

/-! ### Listings -/

/-- A page of a listing, and the offset that is asked for after it. -/
structure Turn where
  page : IndexPage
  next : UInt64

/-- How a listing goes from an offset on: one call after the other, with a turn between two of them, and
perhaps a page that the last call comes to. -/
inductive Listing (c : Client σ) : UInt64 → List Turn → Option IndexPage → List Event → Prop where
  /-- There are no rounds left. -/
  | out (offset : UInt64) : Listing c offset [] none []
  | last {offset : UInt64} {events : List Event} {final : Option (Except String Reply)}
      (h : Attempts (IndexPage.request offset) (c.allowed (IndexPage.request offset)) 0 events final) :
      Listing c offset [] (Attempts.result (Reply.receivedAs IndexPage.ofJson) final).toOption events
  | turn {offset : UInt64} {events more : List Event} {answer : Except String Reply} {t : Turn}
      {turns : List Turn} {last : Option IndexPage}
      (h : Attempts (IndexPage.request offset) (c.allowed (IndexPage.request offset)) 0 events
        (some answer))
      (hpage : Reply.receivedAs IndexPage.ofJson answer = .ok t.page)
      (hrest : Listing c t.next turns last more) : Listing c offset (t :: turns) last (events ++ more)

/-- Every page but the last one is followed by the one that starts after it, and the listing breaks off
exactly if there is no word after the last page. -/
structure Listing.Exact (turns : List Turn) (last : Option IndexPage)
    (result : Except Stop (List IndexInfo)) : Prop where
  next : ∀ t ∈ turns, t.next.toNat = t.page.offset.toNat + t.page.results.length
  overflowed : result = .error .overflowed ↔
    ∃ page, last = some page ∧ UInt64.size ≤ page.offset.toNat + page.results.length

theorem Listing.Exact.cons {t : Turn} {turns : List Turn} {last : Option IndexPage}
    {result : Except Stop (List IndexInfo)} (h : Listing.Exact turns last result)
    (ht : t.next.toNat = t.page.offset.toNat + t.page.results.length) :
    Listing.Exact (t :: turns) last result :=
  ⟨List.forall_mem_cons.mpr ⟨ht, h.next⟩, h.overflowed⟩

namespace Client

variable (c : Client σ)

theorem listIndexesFrom_listing (rounds : Nat) (offset : UInt64) (found : List IndexInfo)
    (w : World σ) :
    (c.listIndexesFrom rounds offset found).Records w fun result events _ => ∃ turns last,
      Listing c offset turns last events ∧ Listing.Exact turns last result := by
  induction rounds generalizing offset found w with
  | zero =>
    refine Action.records_of_run rfl (List.append_nil _).symm
      ⟨[], none, .out offset, by simp, iff_of_false (fun h => by cases h) ?_⟩
    rintro ⟨page, hpage, -⟩
    cases hpage
  | succ rounds ih =>
    rw [listIndexesFrom]
    refine (c.call_records .listIndexes (IndexPage.request offset) IndexPage.ofJson w).bind ?_ ?_
    · rintro page events w₁ - ⟨final, hattempts, hresult⟩
      have hlisting : Listing c offset [] (some page) events := by
        have hlast := Listing.last (c := c) hattempts
        rwa [← hresult] at hlast
      obtain ⟨answer, rfl, hpage⟩ := Attempts.result_eq_ok hresult.symm
      -- where the next page starts is added up before it is asked whether there is one
      rcases Nat.lt_or_ge page.next UInt64.size with hroom | hover
      · have hword := Action.run_word_ok hroom w₁
        refine .of_eq_quiet (Action.run_bind_ok hword) rfl ?_
        cases hlast : page.isLast with
        | true =>
          -- the page ends the listing, and there would have been a word after it
          refine Action.records_pure ⟨[], some page, by rwa [List.append_nil], by simp,
            iff_of_false (fun h => by cases h) ?_⟩
          rintro ⟨page', hpage', hover⟩
          obtain rfl := Option.some.inj hpage'
          exact Nat.not_le.mpr hroom hover
        | false =>
          refine (ih (.ofNat page.next) (found ++ page.results) w₁).mono ?_
          rintro result more - - ⟨turns, last, hrest, hexact⟩
          exact ⟨⟨page, .ofNat page.next⟩ :: turns, last, .turn hattempts hpage hrest,
            hexact.cons (UInt64.toNat_ofNat_of_lt hroom)⟩
      · have hword := Action.run_word_error hover w₁
        exact Action.records_of_run (Action.run_bind_error hword) (List.append_nil _).symm
          ⟨[], some page, by rwa [List.append_nil], by simp, iff_of_true rfl ⟨page, rfl, hover⟩⟩
    · -- the call fails, and so comes to no page
      rintro stop events w₁ ⟨final, hattempts, hresult⟩
      have hlisting := Listing.last (c := c) hattempts
      rw [← hresult] at hlisting
      refine ⟨[], none, hlisting, by simp, iff_of_false ?_ ?_⟩
      · rintro hstop
        exact Attempts.result_ne_overflowed _ final (hresult.symm.trans (Except.error.inj hstop ▸ rfl))
      · rintro ⟨page, hpage, -⟩
        cases hpage

end Client

/-! ### Sums -/

/-- A sample with all of its answers has the sum of their times, if that has room in a word, and else breaks
off; without them there is no such sum. -/
structure SampleSums (c : Client σ) (q : Query) (result : Except Stop SearchResults)
    (events : List Event) : Prop where
  exact_iff : ∀ probe responses, Obtains c q (q.fullFilters c.config.listRendering).texts
      (answersOf events) probe responses →
    (totalTime (probe :: responses) < UInt64.size ↔
      ∃ results, result = .ok results ∧
        results.processingTime.toNat = totalTime (probe :: responses)) ∧
    (UInt64.size ≤ totalTime (probe :: responses) ↔ result = .error .overflowed)
  obtained : (∃ results, result = .ok results) ∨ result = .error .overflowed →
    ∃ probe responses, Obtains c q (q.fullFilters c.config.listRendering).texts (answersOf events)
      probe responses

theorem SampleAccounted.sums {c : Client σ} {q : Query} {result : Except Stop SearchResults}
    {events : List Event} (h : SampleAccounted c q result events) : SampleSums c q result events := by
  constructor
  · intro probe responses hobtains
    rw [(h.obtained probe responses hobtains).1]
    constructor
    · constructor
      · exact fun hroom => ⟨_, if_pos hroom, UInt64.toNat_ofNat_of_lt hroom⟩
      · rintro ⟨results, -, htime⟩
        exact htime ▸ results.processingTime.toNat_lt
    · rw [Client.sampled_eq_error]
      exact (and_iff_right rfl).symm
  · rintro hresult
    refine h.exists_obtains fun stop hstop => ?_
    rcases hresult with ⟨results, hok⟩ | hover
    · cases hok.symm.trans hstop
    · exact Except.error.inj (hstop.symm.trans hover)

/-- **Sums are exact or there are none.**  Whatever the transport answers, a sample with all of its answers
has the sum of their times if and only if it is below the number of words, and breaks off otherwise; and every
page of a listing is followed by the one that starts after it, unless there is no word for that, when the
listing breaks off. -/
theorem Client.sums_exact_iff (c : Client σ) (w : World σ) :
    (∀ q : Query, q.Built → q.limit ≠ 0 →
      (c.searchAtRandom q).Records w fun result events _ => SampleSums c q result events) ∧
    c.listIndexes.Records w fun result events _ => ∃ turns last,
      Listing c 0 turns last events ∧ Listing.Exact turns last result :=
  ⟨fun _ hbuilt hsome => (c.searchAtRandom_accounted hbuilt hsome w).mono
      fun _ _ _ _ haccounted => haccounted.sums,
    c.listIndexesFrom_listing c.session.rounds 0 [] w⟩

/-! ### An engine that repeats itself -/

namespace Repeater

variable (time offset : UInt64)

/-- The answer to a search: one product was found, in some time. -/
def answer : Json :=
  .obj [("processingTimeMs", .ofUInt64 time), ("page", .int 1), ("totalHits", .int 1)]

/-- A page with one index of two, which starts at some offset. -/
def page : Json :=
  .obj [("results", .arr [.obj [("uid", .str "phones")]]), ("offset", .ofUInt64 offset),
    ("limit", .int 1), ("total", .int 2)]

def reply (r : Request) : Reply := ⟨200, if r.endpoint = .indexes then page offset else answer time⟩

def transport : Transport Unit where
  depart _ _ := (some 0, ())
  arrive r _ := (.ok (reply time offset r), ())

/-- The client makes two rounds, and always draws the first product. -/
def client : Client Unit where
  session := { transport := transport time offset, rounds := 2 }
  draw := fun _ _ => some [0]

/-- One of the products, whichever. -/
def anyProduct : Query := { index := "products", limit := 1, randomOrder := true }

theorem anyProduct_built : anyProduct.Built := ⟨"products", [.random, .limit 1], _, rfl, rfl⟩

/-- The requests of a sample. -/
def probe : Request := (Sample.probe anyProduct []).alone "products"

def point : Request := ((SearchRequest.ofFilter anyProduct []).window 0 1).alone "products"

def response : SearchResponse :=
  { indexUid := none, hits := [], query := "", processingTime := time, facets := none,
    pagination := .paged 1 0 0 1 }

/-- What happens in a sample, until it is counted. -/
def exchanges : List Event :=
  [.sent probe, .answered probe (.ok ⟨200, answer time⟩), .sent point,
    .answered point (.ok ⟨200, answer time⟩)]

/-- A call for the first page of a listing, and what it comes to. -/
def call : List Event :=
  [.sent (IndexPage.request 0), .answered (IndexPage.request 0) (.ok ⟨200, page offset⟩)]

def shown : IndexPage := { results := [{ uid := "phones" }], offset, limit := 1, total := 2 }

/-- Two answers of 40 are 80. -/
theorem sums_exact_iff_small :
    (((client 40 0).searchAtRandom anyProduct).Records { line := () } fun result events _ =>
      result = .ok { total := some 1, processingTime := 80 } ∧
        SampleSums (client 40 0) anyProduct result events) ∧
    (client 40 0).listIndexes.Records { line := () } fun result events _ => ∃ turns last,
      Listing (client 40 0) 0 turns last events ∧ Listing.Exact turns last result := by
  obtain ⟨hsample, hlisting⟩ := (client 40 0).sums_exact_iff { line := () }
  obtain ⟨events, hevents, hsums⟩ := hsample anyProduct anyProduct_built (by decide)
  exact ⟨⟨events, hevents, rfl, hsums⟩, hlisting⟩

/-- **Sums have no room.**  Two responses took half of the number of words each, and there is no sample of
them.  A page starts at the last offset there is, and there is no listing with it, although nothing is left
after it. -/
theorem sums_overflow :
    (((client 9223372036854775808 0).searchAtRandom anyProduct).Records { line := () }
      fun result events _ => ∃ probe responses,
        Obtains (client 9223372036854775808 0) anyProduct [] (answersOf events) probe responses ∧
          totalTime (probe :: responses) = UInt64.size ∧ result = .error .overflowed) ∧
    (client 0 18446744073709551615).listIndexes.Records { line := () } fun result events _ => ∃ page,
      Listing (client 0 18446744073709551615) 0 [] (some page) events ∧
        page.offset.toNat + page.results.length = UInt64.size ∧
        page.total.toNat < page.offset.toNat + page.results.length ∧ result = .error .overflowed := by
  constructor
  · refine ⟨exchanges 9223372036854775808 ++ [.counted (.roundTrips 2),
      .counted (.searchTimed .random)], rfl, ?_⟩
    have hanswer : Reply.receivedAs SearchResponse.ofJson (.ok ⟨200, answer 9223372036854775808⟩) =
        .ok (response 9223372036854775808) := rfl
    refine ⟨response 9223372036854775808, [response 9223372036854775808], ?_, rfl, rfl⟩
    exact .all hanswer rfl rfl rfl (.inTurn rfl (.cons hanswer .nil))
  · have hcall : Attempts (IndexPage.request 0)
        ((client 0 18446744073709551615).allowed (IndexPage.request 0)) 0 (call 18446744073709551615)
        (some (.ok ⟨200, page 18446744073709551615⟩)) := by
      refine .last ?_ (by simp)
      intro e he
      cases he
    exact ⟨call 18446744073709551615, rfl, shown 18446744073709551615, .last hcall, rfl, by decide,
      rfl⟩

end Repeater

end SearchClient
