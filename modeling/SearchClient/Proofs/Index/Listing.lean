/-
SearchClient/Proofs/Index/Listing.lean

Listing the indexes page by page.  `Client.Lists` is the walk without a bound on its rounds: every page is
asked for where the page before it said that the next one starts, for which there has to be room in a word,
and there is another one exactly as long as a page is not the last.  A session that allows as many rounds as
there are pages follows it (`Client.listIndexesFrom_run`), so how long a walk takes is said of the walk.

Which pages there are is up to the engine.  One that keeps its indexes in an order and gives a slice of them
(`Catalogues`) is listed completely, in as few pages as have room for all indexes
(`Client.listIndexes_complete`).  Of other answers it matters that the next page starts after the one that was
asked for, and at a word: then a walk has no more pages than the largest number of indexes that is ever told
(`Client.listIndexes_ends`).  Where it starts is told by the answer alone, and an answer may tell nothing:
a page that always is the first one is asked for again and again (`FirstPage.listIndexes_endless`).
-/
import Mathlib.Algebra.Order.Floor.Div
import SearchClient.Index.Catalogue
import SearchClient.Proofs.Search.Engine
import SearchClient.Proofs.Text

namespace SearchClient

variable {σ : Type}

/-! ### Exchanges in a row -/

/-- Requests were sent one after the other, each was answered with success, and nothing else happened. -/
inductive Answered : List Request → List Event → Prop where
  | none : Answered [] []
  | next {request : Request} {reply : Reply} {requests : List Request} {events : List Event}
      (hs : reply.isSuccess = true) (hrest : Answered requests events) :
      Answered (request :: requests) (.sent request :: .answered request (.ok reply) :: events)

/-! ### Pages -/

namespace IndexPage

/-- The request for so many indexes from an offset on. -/
def requestUpTo (offset limit : UInt64) : Request :=
  { method := .get
    endpoint := .indexes
    query := [("offset", toString offset), ("limit", toString limit)] }

/-- The page is a slice of a list of indexes, no longer than was asked for and than is given at most, and
tells where it starts, how long it may be and how long the list is. -/
structure Shows (indexes : List IndexInfo) (most : Nat) (offset limit : UInt64) (page : IndexPage) :
    Prop where
  results : page.results = (indexes.drop offset.toNat).take (min limit.toNat most)
  offset : page.offset = offset
  limit : page.limit.toNat = min limit.toNat most
  total : page.total.toNat = indexes.length

section Shows

variable {indexes : List IndexInfo} {most : Nat} {offset limit : UInt64} {page : IndexPage}

theorem Shows.length_results (h : page.Shows indexes most offset limit) :
    page.results.length = min (min limit.toNat most) (indexes.length - offset.toNat) := by
  rw [h.results, List.length_take, List.length_drop]

/-- The next page starts after this one, or at the end of the list. -/
theorem Shows.next_eq (h : page.Shows indexes most offset limit)
    (hoffset : offset.toNat ≤ indexes.length) :
    page.next = min (offset.toNat + min limit.toNat most) indexes.length := by
  rw [next, h.offset, h.length_results]
  omega

/-- There is no index behind the last word. -/
theorem Shows.next_lt (h : page.Shows indexes most offset limit) : page.next < UInt64.size := by
  have hsize : indexes.length < UInt64.size := h.total ▸ page.total.toNat_lt
  have hword : offset.toNat < UInt64.size := offset.toNat_lt
  rw [next, h.offset, h.length_results]
  omega

theorem isLast_iff {page : IndexPage} : page.isLast = true ↔
    page.results = [] ∨ page.total.toNat ≤ page.next ∨ page.limit = 0 := by
  rw [isLast, Bool.or_eq_true, Bool.or_eq_true, List.isEmpty_iff, decide_eq_true_iff,
    decide_eq_true_iff, or_assoc]

/-- A page is the last one if no indexes are left after it. -/
theorem Shows.isLast_iff (h : page.Shows indexes most offset limit)
    (hoffset : offset.toNat ≤ indexes.length) (hlimit : 0 < min limit.toNat most) :
    page.isLast = true ↔ indexes.length ≤ offset.toNat + min limit.toNat most := by
  have hnonzero : page.limit ≠ 0 := by
    intro h0
    rw [← h.limit, h0] at hlimit
    exact Nat.lt_irrefl 0 hlimit
  have hempty : page.results = [] ↔ indexes.length ≤ offset.toNat := by
    rw [h.results, List.take_eq_nil_iff, List.drop_eq_nil_iff]
    omega
  rw [IndexPage.isLast_iff, h.total, h.next_eq hoffset, hempty]
  simp only [hnonzero, or_false]
  omega

/-- A slice that is not the last one is not empty, and the next page starts after it. -/
theorem Shows.lt_next (h : page.Shows indexes most offset limit) (hmore : page.isLast = false) :
    offset.toNat < page.next := by
  have hresults : page.results ≠ [] := by
    intro hempty
    rw [IndexPage.isLast_iff.mpr (.inl hempty)] at hmore
    cases hmore
  rw [h.results, Ne, List.take_eq_nil_iff, List.drop_eq_nil_iff] at hresults
  rw [h.next_eq (by omega)]
  omega

end Shows

end IndexPage

/-- Whatever its state, the transport replies to a request for a page with one, and so. -/
def GivesPages (t : Transport σ) (P : UInt64 → IndexPage → Prop) : Prop :=
  ∀ offset, t.Replies (IndexPage.request offset) fun reply =>
    reply.isSuccess = true ∧ ∃ page, IndexPage.ofJson reply.body = .ok page ∧ P offset page

/-- The transport answers as an engine that keeps indexes in an order, and that gives so many of them at
most at a time. -/
def Catalogues (t : Transport σ) (indexes : List IndexInfo) (most : Nat) : Prop :=
  ∀ offset limit, t.Replies (IndexPage.requestUpTo offset limit) fun reply =>
    reply.isSuccess = true ∧
      ∃ page, IndexPage.ofJson reply.body = .ok page ∧ page.Shows indexes most offset limit

theorem Catalogues.givesPages {t : Transport σ} {indexes : List IndexInfo} {most : Nat}
    (h : Catalogues t indexes most) :
    GivesPages t fun offset page => page.Shows indexes most offset IndexPage.size :=
  fun offset => h offset IndexPage.size

/-- Such an engine moves on. -/
theorem Catalogues.advances {t : Transport σ} {indexes : List IndexInfo} {most : Nat}
    (h : Catalogues t indexes most) : GivesPages t fun offset page =>
      page.total.toNat ≤ indexes.length ∧ page.next < UInt64.size ∧
        (page.isLast = false → offset.toNat < page.next) := by
  intro offset line
  obtain ⟨latency, reply, line', hanswers, hs, page, hpage, hshows⟩ := h.givesPages offset line
  exact ⟨latency, reply, line', hanswers, hs, page, hpage, hshows.total.le, hshows.next_lt,
    hshows.lt_next⟩

/-! ### The walk -/

namespace Client

/-- A page is asked for, and comes with the first answer. -/
structure HasPage (c : Client σ) (offset : UInt64) (w : World σ) (page : IndexPage) (w' : World σ) :
    Prop where
  run : (c.call .listIndexes (IndexPage.request offset) IndexPage.ofJson).run.run w = (.ok page, w')
  events : ∃ reply : Reply, reply.isSuccess = true ∧ w'.history = w.history ++
    [.sent (IndexPage.request offset), .answered (IndexPage.request offset) (.ok reply)]

theorem HasPage.sends {c : Client σ} {offset : UInt64} {w w' : World σ} {page : IndexPage}
    (h : c.HasPage offset w page w') : w'.sends = w.sends ++ [IndexPage.request offset] := by
  obtain ⟨reply, -, hevents⟩ := h.events
  rw [World.sends, hevents, List.filterMap_append]
  rfl

/-- The pages that are had from an offset on, each with the offset it was asked for at, and the world after
them. -/
inductive Lists (c : Client σ) :
    UInt64 → World σ → List (UInt64 × IndexPage) → World σ → Prop where
  | last {offset : UInt64} {page : IndexPage} {w w' : World σ} (hpage : c.HasPage offset w page w')
      (hroom : page.next < UInt64.size) (hlast : page.isLast = true) :
      Lists c offset w [(offset, page)] w'
  | next {offset : UInt64} {page : IndexPage} {pages : List (UInt64 × IndexPage)} {w w' w'' : World σ}
      (hpage : c.HasPage offset w page w') (hroom : page.next < UInt64.size)
      (hmore : page.isLast = false) (hrest : Lists c (.ofNat page.next) w' pages w'') :
      Lists c offset w ((offset, page) :: pages) w''

variable {c : Client σ} {offset : UInt64} {pages : List (UInt64 × IndexPage)} {w w' : World σ}

/-- As many rounds as there are pages are enough, and more make no difference. -/
theorem listIndexesFrom_run (h : c.Lists offset w pages w') {rounds : Nat}
    (hrounds : pages.length ≤ rounds) (found : List IndexInfo) :
    (c.listIndexesFrom rounds offset found).run.run w =
      (.ok (found ++ pages.flatMap fun p => p.2.results), w') := by
  induction h generalizing rounds found with
  | @last offset page w w' hpage hroom hlast =>
    obtain ⟨rounds, rfl⟩ := Nat.exists_eq_add_one.mpr (Nat.lt_of_lt_of_le Nat.zero_lt_one hrounds)
    rw [listIndexesFrom, Action.run_bind_ok hpage.run, Action.run_bind_ok (Action.run_word_ok hroom w')]
    simp only [hlast, if_true, List.flatMap_singleton]
    rfl
  | @next offset page pages w w' w'' hpage hroom hmore _ ih =>
    obtain ⟨rounds, rfl⟩ := Nat.exists_eq_add_one.mpr
      (Nat.lt_of_lt_of_le (Nat.succ_pos _) hrounds)
    rw [listIndexesFrom, Action.run_bind_ok hpage.run, Action.run_bind_ok (Action.run_word_ok hroom w')]
    simp only [hmore, Bool.false_eq_true, if_false]
    rw [ih (Nat.le_of_succ_le_succ hrounds), List.flatMap_cons, List.append_assoc]

theorem listIndexes_run (h : c.Lists 0 w pages w') (hrounds : pages.length ≤ c.session.rounds) :
    c.listIndexes.run.run w = (.ok (pages.flatMap fun p => p.2.results), w') :=
  listIndexesFrom_run h hrounds []

/-- A walk is one exchange for each page. -/
theorem Lists.answered (h : c.Lists offset w pages w') : ∃ events,
    w'.history = w.history ++ events ∧
      Answered (pages.map fun p => IndexPage.request p.1) events := by
  induction h with
  | last hpage _ _ =>
    obtain ⟨reply, hs, hevents⟩ := hpage.events
    exact ⟨_, hevents, .next hs .none⟩
  | next hpage _ _ _ ih =>
    obtain ⟨reply, hs, hevents⟩ := hpage.events
    obtain ⟨events, hrest, hanswered⟩ := ih
    exact ⟨_, by rw [hrest, hevents, List.append_assoc]; rfl, .next hs hanswered⟩

/-- Every page that is asked for is had. -/
theorem exists_hasPage {P : UInt64 → IndexPage → Prop} (hpages : GivesPages c.session.transport P)
    (offset : UInt64) (w : World σ) : ∃ page w', c.HasPage offset w page w' ∧ P offset page := by
  obtain ⟨latency, reply, line, hanswers, hs, page, hpage, hP⟩ := hpages offset w.line
  exact ⟨page, _, ⟨call_run_ok hanswers hs hpage, reply, hs, rfl⟩, hP⟩

/-! ### An engine that keeps its indexes in an order -/

section

variable {indexes : List IndexInfo} {most step : Nat}

/-- The page after some full ones. -/
theorem exists_slice (hpages : Catalogues c.session.transport indexes most)
    (hstep : step = min 100 most) (hpos : 0 < step) {before : Nat} (hoffset : offset.toNat = before * step)
    (hwithin : before * step ≤ indexes.length) (w : World σ) :
    ∃ page w', c.HasPage offset w page w' ∧
      page.results = (indexes.drop (before * step)).take step ∧
      page.next = min ((before + 1) * step) indexes.length ∧ page.next < UInt64.size ∧
      (page.isLast = true ↔ indexes.length ≤ (before + 1) * step) := by
  obtain ⟨page, w', hpage, hshows⟩ := exists_hasPage hpages.givesPages offset w
  have hlimit : min IndexPage.size.toNat most = step := hstep.symm
  have hresults := hshows.results
  have hnext := hshows.next_eq (by rwa [hoffset])
  have hlast := hshows.isLast_iff (by rwa [hoffset]) (by rwa [hlimit])
  rw [hlimit, hoffset] at hresults
  rw [hlimit, hoffset, ← Nat.succ_mul] at hnext hlast
  exact ⟨page, w', hpage, hresults, hnext, hshows.next_lt, hlast⟩

/-- From a page on, when there are so many after it. -/
theorem exists_lists (hpages : Catalogues c.session.transport indexes most)
    (hstep : step = min 100 most) (hpos : 0 < step) (left before : Nat) (offset : UInt64)
    (hoffset : offset.toNat = before * step) (hwithin : before * step ≤ indexes.length)
    (hleft : before + left + 1 = max 1 (indexes.length ⌈/⌉ step)) (w : World σ) :
    ∃ pages w', c.Lists offset w pages w' ∧
      pages.map (fun p => p.1.toNat) = (List.range' before (left + 1)).map (· * step) ∧
      pages.flatMap (fun p => p.2.results) = indexes.drop (before * step) := by
  -- on the pages that are left, with the number of those before
  induction left generalizing before offset w with
  | zero =>
    obtain ⟨page, w₁, hpage, hresults, -, hroom, hlast⟩ :=
      exists_slice hpages hstep hpos hoffset hwithin w
    have hend : indexes.length ≤ (before + 1) * step := by
      rw [Nat.mul_comm, ← ceilDiv_le_iff_le_mul hpos]
      omega
    refine ⟨[(offset, page)], w₁, .last hpage hroom (hlast.mpr hend), by simp [hoffset], ?_⟩
    rw [List.flatMap_singleton, hresults, List.take_of_length_le]
    rw [List.length_drop, Nat.sub_le_iff_le_add', ← Nat.succ_mul]
    exact hend
  | succ left ih =>
    obtain ⟨page, w₁, hpage, hresults, hnext, hroom, hlast⟩ :=
      exists_slice hpages hstep hpos hoffset hwithin w
    have hmore : (before + 1) * step < indexes.length := by
      rw [← not_le, Nat.mul_comm, ← ceilDiv_le_iff_le_mul hpos]
      omega
    rw [Nat.min_eq_left hmore.le] at hnext
    obtain ⟨pages, w', hlists, hoffsets, hfound⟩ := ih (before + 1) (.ofNat page.next)
      ((UInt64.toNat_ofNat_of_lt hroom).trans hnext) hmore.le (by omega) w₁
    refine ⟨(offset, page) :: pages, w', .next hpage hroom ?_ hlists, ?_, ?_⟩
    · rw [Bool.eq_false_iff, Ne, hlast]
      omega
    · rw [List.map_cons, hoffsets, hoffset]
      rfl
    · rw [List.flatMap_cons, hfound, hresults, Nat.succ_mul, ← List.drop_drop]
      exact List.take_append_drop step _

/-- **Every index is listed once.**  An engine that keeps its indexes in an order, and gives so many of them
at most at a time, is asked for them page by page, without a gap and without a failure, in as few pages as
have room for all indexes, but one at least; together they are the list.  The session has to allow one round
for each page. -/
theorem listIndexes_complete (hpages : Catalogues c.session.transport indexes most) (hmost : 0 < most)
    (hrounds : max 1 (indexes.length ⌈/⌉ min 100 most) ≤ c.session.rounds) (w : World σ) :
    ∃ (offsets : List UInt64) (events : List Event) (w' : World σ),
      c.listIndexes.run.run w = (.ok indexes, w') ∧ offsets.map UInt64.toNat =
        (List.range (max 1 (indexes.length ⌈/⌉ min 100 most))).map (· * min 100 most) ∧
      w'.history = w.history ++ events ∧ Answered (offsets.map IndexPage.request) events := by
  have hpos : 0 < min 100 most := by omega
  have hleft : 0 + (max 1 (indexes.length ⌈/⌉ min 100 most) - 1) + 1 =
      max 1 (indexes.length ⌈/⌉ min 100 most) := by omega
  obtain ⟨pages, w', hlists, hoffsets, hfound⟩ := exists_lists hpages rfl hpos
    (max 1 (indexes.length ⌈/⌉ min 100 most) - 1) 0 0 (Nat.zero_mul _).symm (by omega) hleft w
  rw [Nat.zero_add] at hleft
  rw [hleft, ← List.range_eq_range'] at hoffsets
  rw [Nat.zero_mul, List.drop_zero] at hfound
  have hlength : pages.length = max 1 (indexes.length ⌈/⌉ min 100 most) := by
    simpa using congrArg List.length hoffsets
  obtain ⟨events, hevents, hanswered⟩ := hlists.answered
  refine ⟨pages.map Prod.fst, events, w', ?_, ?_, hevents, ?_⟩
  · rw [listIndexes_run hlists (hlength ▸ hrounds), hfound]
  · rw [List.map_map]
    exact hoffsets
  · rw [List.map_map]
    exact hanswered

end

/-! ### Any answers -/

/-- From an offset on, if every page that is not the last one moves it on. -/
theorem exists_lists_of_advancing {bound : Nat}
    (hpages : GivesPages c.session.transport fun offset page =>
      page.total.toNat ≤ bound ∧ page.next < UInt64.size ∧
        (page.isLast = false → offset.toNat < page.next))
    (left : Nat) (offset : UInt64) (hleft : bound ≤ offset.toNat + left) (w : World σ) :
    ∃ pages w', c.Lists offset w pages w' ∧ pages.length ≤ max 1 left ∧
      (pages.map Prod.fst).Pairwise (· < ·) ∧ ∀ asked ∈ pages.map Prod.fst, offset ≤ asked := by
  -- on the numbers from the offset up to the bound, of which every page but the last one takes some
  induction left generalizing offset w with
  | zero =>
    obtain ⟨page, w₁, hpage, hbound, hroom, hadvance⟩ := exists_hasPage hpages offset w
    have hlast : page.isLast = true := by
      by_contra hmore
      have hnext := hadvance (Bool.eq_false_iff.mpr hmore)
      rw [IndexPage.isLast_iff] at hmore
      omega
    exact ⟨[(offset, page)], w₁, .last hpage hroom hlast, Nat.le_max_left 1 0, by simp, by simp⟩
  | succ left ih =>
    obtain ⟨page, w₁, hpage, hbound, hroom, hadvance⟩ := exists_hasPage hpages offset w
    cases hlast : page.isLast with
    | true =>
      exact ⟨[(offset, page)], w₁, .last hpage hroom hlast, Nat.le_max_left 1 _, by simp, by simp⟩
    | false =>
      have hnext := hadvance hlast
      have hword : (UInt64.ofNat page.next).toNat = page.next := UInt64.toNat_ofNat_of_lt hroom
      have hlt : offset < .ofNat page.next := 
        UInt64.lt_iff_toNat_lt.mpr (hnext.trans_eq hword.symm)
      have hbefore : page.next < page.total.toNat := by
        rw [Bool.eq_false_iff, Ne, IndexPage.isLast_iff] at hlast
        omega
      obtain ⟨pages, w', hlists, hlength, hsorted, hfrom⟩ :=
        ih (.ofNat page.next) (by omega) w₁
      refine ⟨(offset, page) :: pages, w', .next hpage hroom hlast hlists, ?_, ?_, ?_⟩
      · rw [List.length_cons]
        omega
      · rw [List.map_cons, List.pairwise_cons]
        exact ⟨fun asked hasked => UInt64.lt_of_lt_of_le hlt (hfrom asked hasked), hsorted⟩
      · rw [List.map_cons, List.forall_mem_cons]
        exact ⟨UInt64.le_refl offset, fun asked hasked =>
          UInt64.le_trans (UInt64.le_of_lt hlt) (hfrom asked hasked)⟩

/-- **A listing that moves on ends.**  Whatever pages an engine gives, as long as it tells no more indexes
than a bound, and as long as the next page always starts at a word and after the one that was asked for, the
offsets that are asked for increase, and there are no more pages than the bound, but one at least.  The
session has to allow one round for each page. -/
theorem listIndexes_ends {bound : Nat}
    (hpages : GivesPages c.session.transport fun offset page =>
      page.total.toNat ≤ bound ∧ page.next < UInt64.size ∧
        (page.isLast = false → offset.toNat < page.next))
    (hrounds : max 1 bound ≤ c.session.rounds) (w : World σ) :
    ∃ (offsets : List UInt64) (found : List IndexInfo) (events : List Event) (w' : World σ),
      c.listIndexes.run.run w = (.ok found, w') ∧ offsets.Pairwise (· < ·) ∧
        offsets.length ≤ max 1 bound ∧
        w'.history = w.history ++ events ∧ Answered (offsets.map IndexPage.request) events := by
  obtain ⟨pages, w', hlists, hlength, hsorted, -⟩ :=
    exists_lists_of_advancing hpages bound 0 (Nat.le_add_left _ _) w
  obtain ⟨events, hevents, hanswered⟩ := hlists.answered
  refine ⟨pages.map Prod.fst, pages.flatMap fun p => p.2.results, events, w',
    listIndexes_run hlists (hlength.trans hrounds), hsorted, ?_, hevents, ?_⟩
  · rw [List.length_map]
    exact hlength
  · rw [List.map_map]
    exact hanswered

end Client

/-! ### An engine with a shelf of indexes -/

namespace Shelf

variable (indexes : List IndexInfo) (most : Nat)

/-- A number among the query pairs of a request. -/
def number? (r : Request) (name : String) : Option Nat :=
  (r.query.lookup name).map fun s => Nat.ofDigitChars 10 s.toList 0

def page (offset limit : UInt64) : Json :=
  .obj [("results", .arr (((indexes.drop offset.toNat).take (min limit.toNat most)).map
      IndexInfo.toJson)),
    ("offset", Json.ofUInt64 offset),
    ("limit", Json.ofUInt64 (.ofNat (min limit.toNat most))),
    ("total", Json.ofUInt64 (.ofNat indexes.length))]

/-- The engine reads what the request asks for. -/
def answer (r : Request) : Reply :=
  match number? r "offset", number? r "limit" with
  | some offset, some limit => ⟨200, page indexes most (.ofNat offset) (.ofNat limit)⟩
  | _, _ => ⟨400, .null⟩

def transport : Transport Unit where
  depart _ _ := (some 0, ())
  arrive r _ := (.ok (answer indexes most r), ())

theorem ofDigitChars_toString (n : UInt64) : Nat.ofDigitChars 10 (toString n).toList 0 = n.toNat := by
  rw [Text.toList_toString, Nat.ofDigitChars_ten_toDigits]

theorem answer_requestUpTo (offset limit : UInt64) :
    answer indexes most (IndexPage.requestUpTo offset limit) = ⟨200, page indexes most offset limit⟩ := by
  have hoffset : number? (IndexPage.requestUpTo offset limit) "offset" = some offset.toNat :=
    congrArg some (ofDigitChars_toString offset)
  have hlimit : number? (IndexPage.requestUpTo offset limit) "limit" = some limit.toNat :=
    congrArg some (ofDigitChars_toString limit)
  simp only [answer, hoffset, hlimit, UInt64.ofNat_toNat]

theorem ofJson_info (i : IndexInfo) : IndexInfo.ofJson i.toJson = .ok i := by
  obtain ⟨uid, primaryKey, createdAt, updatedAt⟩ := i
  cases primaryKey <;> cases createdAt <;> cases updatedAt <;> rfl

theorem ofJson_page (offset limit : UInt64) : IndexPage.ofJson (page indexes most offset limit) =
    .ok { results := (indexes.drop offset.toNat).take (min limit.toNat most), offset
          limit := .ofNat (min limit.toNat most), total := .ofNat indexes.length } := by
  have hresults := Json.asList_map ofJson_info
    ((indexes.drop offset.toNat).take (min limit.toNat most))
  obtain ⟨record, hrecord⟩ : ∃ record,
      (page indexes most offset limit).asRecord ["results", "offset", "limit", "total"] = .ok record :=
    ⟨_, rfl⟩
  have hfield : ∀ name, record.field? name = Json.Record.field? ⟨_, false⟩ name :=
    fun name => congrArg (Json.Record.field? · name) (Except.ok.inj hrecord).symm
  have hnumber : ∀ (name : String) (n : UInt64), record.field? name = some (Json.ofUInt64 n) →
      record.orElse name 0 Json.asUInt64 = .ok n := by
    intro name n h
    rw [Json.Record.orElse_present h, Json.asUInt64_ofUInt64]
  rw [IndexPage.ofJson, hrecord, ok_bind, Json.Record.required_eq (hfield "results"), hresults, ok_bind,
    hnumber "offset" offset (hfield "offset"), ok_bind, hnumber "limit" _ (hfield "limit"), ok_bind,
    hnumber "total" _ (hfield "total"), ok_bind]

theorem catalogues (hsize : indexes.length < UInt64.size) :
    Catalogues (transport indexes most) indexes most := by
  intro offset limit line
  have harrive : (transport indexes most).arrive (IndexPage.requestUpTo offset limit) () =
      (.ok ⟨200, page indexes most offset limit⟩, ()) :=
    congrArg (fun reply => (Except.ok reply, ())) (answer_requestUpTo indexes most offset limit)
  refine ⟨0, _, (), ⟨(), rfl, harrive⟩, rfl, _, ofJson_page indexes most offset limit, rfl, rfl,
    ?_, ?_⟩
  · exact UInt64.toNat_ofNat_of_lt (Nat.lt_of_le_of_lt (Nat.min_le_left _ _) limit.toNat_lt)
  · exact UInt64.toNat_ofNat_of_lt hsize

def client (rounds : Nat) : Client Unit :=
  { session := { transport := transport indexes most, rounds } }

def phones : List IndexInfo :=
  [{ uid := "phones" }, { uid := "tablets", primaryKey := some "sku" }, { uid := "cases" },
    { uid := "chargers", createdAt := some "2024-05-01" }, { uid := "cables" }]

/-- Five indexes, two at a time, are three pages. -/
theorem listIndexes_complete_phones :
    ∃ (offsets : List UInt64) (events : List Event) (w' : World Unit),
      (client phones 2 3).listIndexes.run.run { line := () } = (.ok phones, w') ∧
        offsets.map UInt64.toNat = [0, 2, 4] ∧ w'.history = events ∧
          Answered (offsets.map IndexPage.request) events :=
  Client.listIndexes_complete (c := client phones 2 3) (catalogues phones 2 (by decide)) (by decide)
    (by decide) { line := () }

/-- They would be five at most. -/
theorem listIndexes_ends_phones :
    ∃ (offsets : List UInt64) (found : List IndexInfo) (events : List Event) (w' : World Unit),
      (client phones 2 5).listIndexes.run.run { line := () } = (.ok found, w') ∧
        offsets.Pairwise (· < ·) ∧ offsets.length ≤ 5 ∧ w'.history = events ∧
          Answered (offsets.map IndexPage.request) events :=
  Client.listIndexes_ends (c := client phones 2 5) (catalogues phones 2 (by decide)).advances
    (by decide) { line := () }

end Shelf

/-! ### An engine that always gives the first page -/

namespace FirstPage

/-- One index of two, and not a word on where the page starts. -/
def body : Json :=
  .obj [("results", .arr [.obj [("uid", .str "phones")]]), ("limit", .int 1), ("total", .int 2)]

def transport : Transport Unit where
  depart _ _ := (some 0, ())
  arrive _ _ := (.ok ⟨200, body⟩, ())

def client (rounds : Nat) : Client Unit := { session := { transport, rounds } }

def page : IndexPage := { results := [{ uid := "phones" }], limit := 1, total := 2 }

theorem givesPages : GivesPages transport fun _ shown => shown = page := fun _ _ =>
  ⟨0, ⟨200, body⟩, (), ⟨(), rfl, rfl⟩, rfl, page, rfl, rfl⟩

/-- Wherever a page is asked for, the next one is to start at 1. -/
theorem listIndexesFrom_step (c : Client Unit) (hc : c.session.transport = transport) (rounds : Nat)
    (offset : UInt64) (found : List IndexInfo) (w : World Unit) : ∃ w',
      (c.listIndexesFrom (rounds + 1) offset found).run.run w =
        (c.listIndexesFrom rounds 1 (found ++ page.results)).run.run w' ∧
      w'.sends = w.sends ++ [IndexPage.request offset] := by
  obtain ⟨shown, w', hpage, rfl⟩ := Client.exists_hasPage (hc ▸ givesPages) offset w
  refine ⟨w', ?_, hpage.sends⟩
  rw [Client.listIndexesFrom, Action.run_bind_ok hpage.run]
  rfl

theorem listIndexesFrom_stays (c : Client Unit) (hc : c.session.transport = transport) (rounds : Nat)
    (found : List IndexInfo) (w : World Unit) : ∃ w',
      (c.listIndexesFrom rounds 1 found).run.run w = (.error .stalled, w') ∧
        w'.sends = w.sends ++ List.replicate rounds (IndexPage.request 1) := by
  induction rounds generalizing found w with
  | zero => exact ⟨w, rfl, (List.append_nil _).symm⟩
  | succ rounds ih =>
    obtain ⟨w₁, hrun, hsends⟩ := listIndexesFrom_step c hc rounds 1 found w
    obtain ⟨w', hrest, hmore⟩ := ih (found ++ page.results) w₁
    refine ⟨w', hrun.trans hrest, ?_⟩
    rw [hmore, hsends, List.append_assoc, List.replicate_succ]
    rfl

/-- **A listing may have no end.**  Two indexes are told at most, and yet the listing does not end in any
number of rounds: from the second page on it asks for the same one. -/
theorem listIndexes_endless :
    (GivesPages transport fun _ shown => shown.total.toNat ≤ 2) ∧
    ∀ rounds, ∃ w', (client (rounds + 1)).listIndexes.run.run { line := () } = (.error .stalled, w') ∧
      w'.sends = IndexPage.request 0 :: List.replicate rounds (IndexPage.request 1) := by
  refine ⟨fun offset line => ?_, fun rounds => ?_⟩
  · obtain ⟨latency, reply, line', hanswers, hs, shown, hpage, rfl⟩ := givesPages offset line
    exact ⟨latency, reply, line', hanswers, hs, page, hpage, le_rfl⟩
  · obtain ⟨w₁, hrun, hsends⟩ :=
      listIndexesFrom_step (client (rounds + 1)) rfl rounds 0 [] { line := () }
    obtain ⟨w', hrest, hmore⟩ :=
      listIndexesFrom_stays (client (rounds + 1)) rfl rounds page.results w₁
    refine ⟨w', hrun.trans hrest, ?_⟩
    rw [hmore, hsends]
    rfl

end FirstPage

end SearchClient
