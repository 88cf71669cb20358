/-
SearchClient/Proofs/Search/Pages.lean

Walking the pages of a query.  An engine `Pages` its matches when the words, the filters, the sort and
the attributes of a search determine a list of documents, of which the page with a number is a slice, told
with the exact numbers of pages and of documents.

Whatever paging or order a query has of its own, a page of it is asked for as a page, and whichever way
its plan is carried out, hits and paging are those of the answer to the main request
(`Client.runPlan_shows`).  So one page is what the engine has there (`Client.paginate_shows`), and the
page numbers go up to the first one that has all documents before it or on it.

Main result: `Client.paginate_walks`.
-/
import Mathlib.Algebra.Order.Floor.Div
import SearchClient.Proofs.Search.Sample

namespace SearchClient

variable {σ τ : Type}

/-! ### Engines that page their matches -/

/-- The documents of an index that match some words, under filters, in some attributes, in the order that
a sort gives them. -/
abbrev Ranking :=
  (index words : String) → (filter sort : List String) → Option (List String) → List Json

/-- What a request looks for, in its order. -/
def SearchRequest.ranked (r : SearchRequest) (found : Ranking) (index : String) : List Json :=
  found index r.q r.filter r.sort r.attributes

theorem toNat_pos {n : UInt64} (h : n ≠ 0) : 0 < n.toNat :=
  Nat.pos_of_ne_zero fun h0 => h (UInt64.toNat_inj.mp h0)

/-- The documents of a page, counted from 1. -/
def pageOf (documents : List Json) (number perPage : UInt64) : List Json :=
  (documents.drop ((number.toNat - 1) * perPage.toNat)).take perPage.toNat

/-- With what comes after them, they are what there is from the page on. -/
theorem pageOf_append (documents : List Json) {number : UInt64} (h : number ≠ 0) (perPage : UInt64) :
    pageOf documents number perPage ++ documents.drop (number.toNat * perPage.toNat) =
      documents.drop ((number.toNat - 1) * perPage.toNat) := by
  have hsplit : number.toNat * perPage.toNat =
      (number.toNat - 1) * perPage.toNat + perPage.toNat := by
    rw [← Nat.succ_mul, Nat.succ_eq_add_one, Nat.sub_add_cancel (toNat_pos h)]
  rw [pageOf, hsplit, ← List.drop_drop, List.take_append_drop]

/-- The engine answers a request for a page from the list of what is looked for, whatever its state. -/
structure Evaluator.Pages (e : Evaluator τ) (found : Ranking) : Prop where
  hits : ∀ index (r : SearchRequest) state number perPage, number ≠ 0 → perPage ≠ 0 →
    (e ((r.paged number perPage).search index) state).1.hits =
      pageOf (r.ranked found index) number perPage
  pagination : ∀ index (r : SearchRequest) state number perPage, number ≠ 0 → perPage ≠ 0 →
    ∃ totalPages total : UInt64,
      (e ((r.paged number perPage).search index) state).1.pagination =
        .paged number perPage totalPages total ∧
      totalPages.toNat = (r.ranked found index).length ⌈/⌉ perPage.toNat ∧
      total.toNat = (r.ranked found index).length

/-- What a built query looks for, in its order. -/
def Query.ranked (q : Query) (found : Ranking) (r : ListRendering) : List Json :=
  found q.index q.search (q.fullFilters r).texts q.sort q.attributes

/-! ### Plans for a page -/

/-- The query for a page. -/
def Query.onPage (q : Query) (number perPage : UInt64) : Query :=
  { q with page := some number, hitsPerPage := some perPage, randomOrder := false }

/-- The main request for a page is one for that page of what the query looks for. -/
theorem SearchPlan.ofQuery_onPage {q : Query} (h : q.Built) (r : ListRendering)
    (number perPage : UInt64) :
    ∃ plan, ∃ base : SearchRequest, ofQuery r (q.onPage number perPage) = .ok plan ∧
      plan.main = base.paged number perPage ∧
      ∀ found : Ranking, base.ranked found q.index = q.ranked found r := by
  have hfull : (q.onPage number perPage).filters r .full = .ok (q.fullFilters r) := (h.filters r).1
  have hcompanion : ∀ column, companion r (q.onPage number perPage) column =
      .ok ⟨column, (q.onPage number perPage).countsRequest (q.filtersWithout r column) column⟩ := by
    intro column
    have hwithout : (q.onPage number perPage).filters r (.without column) =
        .ok (q.filtersWithout r column) := (h.filters r).2 column
    rw [companion, hwithout]
    rfl
  rw [ofQuery, hfull, ok_bind]
  split
  · exact ⟨_, { SearchRequest.ofFilter q (q.fullFilters r).texts with
      sort := q.sort, facets := q.facets }, rfl, rfl, fun _ => rfl⟩
  · rw [mapM_ok fun column _ => hcompanion column, ok_bind]
    exact ⟨_, { SearchRequest.ofFilter q (q.fullFilters r).texts with
      sort := q.sort
      facets := q.facets.filter fun name => !(q.fullFilters r).columns.blindOnly.contains name },
      rfl, rfl, fun _ => rfl⟩

namespace Client

variable {c : Client σ} {view : σ → τ} {e : Evaluator τ} {found : Ranking}

section

variable (hc : EvaluatesSearches c.session.transport view e)

include hc

/-- Hits and paging of a plan are those of the answer to the main request. -/
theorem runPlan_shows (index : String) {plan : SearchPlan} (hmain : plan.main.untagged = plan.main)
    (w : World σ) :
    (c.runPlan index plan).Ends w fun results _ => ∃ state,
      results.hits = (e (plan.main.search index) state).1.hits ∧
        results.pagination = some (e (plan.main.search index) state).1.pagination := by
  rw [runPlan]
  split
  · refine (Action.ends_count (P := fun _ _ => True) trivial).bind fun _ w₁ _ => ?_
    refine (dispatch_puts hc index _ w₁).bind fun answers w₂ hanswers => ?_
    obtain ⟨hshown, -, -⟩ := hanswers
    cases answers with
    | nil => cases hshown
    | cons main companions =>
      obtain ⟨hhits, hpagination, -⟩ := SearchResults.merge_hits main companions
      have hfirst : SearchResults.ofResponse main =
          .ofResponse (e (plan.main.search index) (view w₁.line)).1 :=
        List.head_eq_of_cons_eq hshown
      refine Action.ends_pure ⟨view w₁.line, ?_, ?_⟩
      · rw [hhits]
        exact congrArg SearchResults.hits hfirst
      · rw [hpagination]
        exact congrArg SearchResults.pagination hfirst
  · have hputs := searchOne_puts hc index plan.main w
    rw [hmain] at hputs
    obtain ⟨answer, w', hrun, hshown, -, -⟩ := hputs
    have hfirst : SearchResults.ofResponse answer =
        .ofResponse (e (plan.main.search index) (view w.line)).1 := List.head_eq_of_cons_eq hshown
    exact ⟨.ofResponse answer, w', by rw [Action.run_map, hrun], view w.line,
      congrArg SearchResults.hits hfirst, congrArg SearchResults.pagination hfirst⟩

end

end Client

/-! ### One page -/

/-- Pages are counted from 1. -/
theorem fromOne_eq {number : UInt64} (h : number ≠ 0) : max number 1 = number := by
  show (if number ≤ 1 then 1 else number) = number
  split
  · next hle =>
    have hle : number.toNat ≤ 1 := UInt64.le_iff_toNat_le.mp hle
    have hone : number.toNat = (1 : UInt64).toNat := Nat.le_antisymm hle (toNat_pos h)
    exact (UInt64.toNat_inj.mp hone).symm
  · rfl

theorem fromOne_ne_zero (number : UInt64) : max number 1 ≠ 0 := by
  by_cases h : number = 0
  · subst h
    decide
  · rwa [fromOne_eq h]

/-- The page has the documents of the list that are on it, and tells its number, how many pages there are
and how many documents. -/
structure Page.Shows (documents : List Json) (number perPage : UInt64) (page : Page) : Prop where
  items : page.items = pageOf documents number perPage
  total : page.total.toNat = documents.length
  totalPages : page.totalPages.toNat = documents.length ⌈/⌉ perPage.toNat
  number : page.number = number
  perPage : page.perPage = perPage

/-- There are more pages exactly if documents are left. -/
theorem Page.Shows.hasMore_iff {documents : List Json} {number perPage : UInt64} {page : Page}
    (h : page.Shows documents number perPage) (hper : perPage ≠ 0) :
    page.hasMore = true ↔ number.toNat * perPage.toNat < documents.length := by
  rw [hasMore, decide_eq_true_iff, UInt64.lt_iff_toNat_lt, h.number, h.totalPages, ← not_le,
    ceilDiv_le_iff_le_mul (toNat_pos hper), not_le, Nat.mul_comm]

/-- A number of a page is not the last one, because the number of pages is one. -/
theorem Page.Shows.toNat_succ {documents : List Json} {number perPage : UInt64} {page : Page}
    (h : page.Shows documents number perPage)
    (hbefore : number.toNat < documents.length ⌈/⌉ perPage.toNat) :
    (number + 1).toNat = number.toNat + 1 := by
  rw [UInt64.toNat_add]
  refine Nat.mod_eq_of_lt ?_
  have hlt := page.totalPages.toNat_lt
  have htotalPages := h.totalPages
  show number.toNat + 1 < 2 ^ 64
  omega

/-- Pages one after the other, from a number on, have all documents from there on. -/
structure Page.Follow (documents : List Json) (perPage number : UInt64) (pages : List Page) :
    Prop where
  items : pages.flatMap Page.items = documents.drop ((number.toNat - 1) * perPage.toNat)
  each : ∀ i page, pages[i]? = some page →
    page.number.toNat = number.toNat + i ∧ page.total.toNat = documents.length

theorem Page.Shows.follow_last {documents : List Json} {number perPage : UInt64} {page : Page}
    (h : page.Shows documents number perPage) (hnumber : number ≠ 0)
    (hend : documents.length ≤ number.toNat * perPage.toNat) :
    Follow documents perPage number [page] where
  items := by
    rw [← pageOf_append documents hnumber, List.drop_of_length_le hend, List.append_nil,
      List.flatMap_singleton, h.items]
  each i shown hi := by
    cases i with
    | zero =>
      obtain rfl := Option.some.inj hi
      exact ⟨congrArg UInt64.toNat h.number, h.total⟩
    | succ i => cases hi

theorem Page.Shows.follow_cons {documents : List Json} {number perPage : UInt64} {page : Page}
    {pages : List Page} (h : page.Shows documents number perPage) (hnumber : number ≠ 0)
    (hnext : (number + 1).toNat = number.toNat + 1)
    (hrest : Follow documents perPage (number + 1) pages) :
    Follow documents perPage number (page :: pages) where
  items := by
    rw [List.flatMap_cons, hrest.items, hnext, Nat.add_sub_cancel, h.items,
      pageOf_append documents hnumber]
  each i shown hi := by
    cases i with
    | zero =>
      obtain rfl := Option.some.inj hi
      exact ⟨congrArg UInt64.toNat h.number, h.total⟩
    | succ i =>
      obtain ⟨hi, htotal⟩ := hrest.each i shown hi
      exact ⟨by omega, htotal⟩

namespace Client

variable {c : Client σ} {view : σ → τ} {e : Evaluator τ} {found : Ranking}

section

variable (hc : EvaluatesSearches c.session.transport view e) (hpages : e.Pages found)

include hc hpages

/-- The first page is also page 0. -/
theorem paginate_shows {q : Query} (hbuilt : q.Built) (number : UInt64) {perPage : UInt64}
    (hper : perPage ≠ 0) (w : World σ) :
    (c.paginate q number perPage).Ends w fun page _ =>
      page.Shows (q.ranked found c.config.listRendering) (max number 1) perPage := by
  have hnumber := fromOne_ne_zero number
  obtain ⟨plan, base, hplan, hmain, hranked⟩ :=
    SearchPlan.ofQuery_onPage hbuilt c.config.listRendering (max number 1) perPage
  have hsearch : (c.search (q.onPage (max number 1) perPage)).Ends w fun results _ => ∃ state,
      results.hits = (e (plan.main.search q.index) state).1.hits ∧
        results.pagination = some (e (plan.main.search q.index) state).1.pagination :=
    searchInOrder_ends hplan (runPlan_shows hc q.index (SearchPlan.main_untagged hplan) w)
  refine hsearch.bind fun results w' hresults => ?_
  obtain ⟨state, hhits, hpagination⟩ := hresults
  rw [hmain] at hhits hpagination
  obtain ⟨totalPages, total, hpaged, htotalPages, htotal⟩ :=
    hpages.pagination q.index base state _ _ hnumber hper
  rw [hpages.hits _ _ _ _ _ hnumber hper, hranked] at hhits
  rw [hranked] at htotalPages htotal
  rw [hpagination, hpaged]
  exact Action.ends_pure ⟨hhits, htotal, htotalPages, rfl, rfl⟩

end

/-! ### Walks -/

/-- The pages of a query that are had from a number on by asking for one more as long as there are more,
with the world after that. -/
inductive Walks (c : Client σ) (q : Query) (perPage : UInt64) :
    UInt64 → World σ → List Page → World σ → Prop where
  | last {number : UInt64} {page : Page} {w w' : World σ}
      (hrun : (c.paginate q number perPage).run.run w = (.ok page, w'))
      (hmore : page.hasMore = false) : Walks c q perPage number w [page] w'
  | next {number : UInt64} {page : Page} {pages : List Page} {w w' w'' : World σ}
      (hrun : (c.paginate q number perPage).run.run w = (.ok page, w'))
      (hmore : page.hasMore = true) (hrest : Walks c q perPage (number + 1) w' pages w'') :
      Walks c q perPage number w (page :: pages) w''

/-- There is no choice on the way. -/
theorem Walks.unique {q : Query} {perPage number : UInt64} {w w₁ w₂ : World σ}
    {pages₁ pages₂ : List Page} (h₁ : c.Walks q perPage number w pages₁ w₁)
    (h₂ : c.Walks q perPage number w pages₂ w₂) : pages₁ = pages₂ ∧ w₁ = w₂ := by
  induction h₁ generalizing pages₂ w₂ with
  | last hrun hmore =>
    cases h₂ with
    | last hrun₂ _ =>
      obtain ⟨hpage, rfl⟩ := Prod.mk.inj (hrun.symm.trans hrun₂)
      exact ⟨by rw [Except.ok.inj hpage], rfl⟩
    | next hrun₂ hmore₂ _ =>
      obtain ⟨hpage, -⟩ := Prod.mk.inj (hrun.symm.trans hrun₂)
      rw [← Except.ok.inj hpage, hmore] at hmore₂
      cases hmore₂
  | next hrun hmore _ ih =>
    cases h₂ with
    | last hrun₂ hmore₂ =>
      obtain ⟨hpage, -⟩ := Prod.mk.inj (hrun.symm.trans hrun₂)
      rw [← Except.ok.inj hpage, hmore] at hmore₂
      cases hmore₂
    | next hrun₂ _ hrest₂ =>
      obtain ⟨hpage, rfl⟩ := Prod.mk.inj (hrun.symm.trans hrun₂)
      obtain ⟨rfl, rfl⟩ := ih hrest₂
      exact ⟨by rw [Except.ok.inj hpage], rfl⟩

section

variable (hc : EvaluatesSearches c.session.transport view e) (hpages : e.Pages found)

include hc hpages

/-- From a page on, when there are so many after it. -/
theorem walks_from {q : Query} (hbuilt : q.Built) {perPage : UInt64} (hper : perPage ≠ 0)
    {documents : List Json} (hdocuments : q.ranked found c.config.listRendering = documents)
    (left : Nat) (number : UInt64) (hnumber : number ≠ 0)
    (hleft : number.toNat + left = max 1 (documents.length ⌈/⌉ perPage.toNat)) (w : World σ) :
    ∃ pages w', c.Walks q perPage number w pages w' ∧ pages.length = left + 1 ∧
      Page.Follow documents perPage number pages := by
  -- on the pages that are left, with the number of the page that is next
  induction left generalizing number w with
  | zero =>
    obtain ⟨page, w₁, hrun, hpage⟩ := paginate_shows hc hpages hbuilt number hper w
    rw [fromOne_eq hnumber, hdocuments] at hpage
    have hend : documents.length ≤ number.toNat * perPage.toNat := by
      rw [Nat.mul_comm, ← ceilDiv_le_iff_le_mul (toNat_pos hper)]
      omega
    refine ⟨[page], w₁, .last hrun ?_, rfl, hpage.follow_last hnumber hend⟩
    rw [Bool.eq_false_iff, Ne, hpage.hasMore_iff hper]
    omega
  | succ left ih =>
    obtain ⟨page, w₁, hrun, hpage⟩ := paginate_shows hc hpages hbuilt number hper w
    rw [fromOne_eq hnumber, hdocuments] at hpage
    have hbefore : number.toNat < documents.length ⌈/⌉ perPage.toNat := by
      have hfirst := toNat_pos hnumber
      omega
    have hnext := hpage.toNat_succ hbefore
    obtain ⟨pages, w', hwalks, hlength, hfollow⟩ := ih (number + 1)
      (fun h0 => by simp [h0] at hnext) (by omega) w₁
    refine ⟨page :: pages, w', .next hrun ?_ hwalks, by rw [List.length_cons, hlength],
      hpage.follow_cons hnumber hnext hfollow⟩
    rw [hpage.hasMore_iff hper, ← not_le, Nat.mul_comm, ← ceilDiv_le_iff_le_mul (toNat_pos hper)]
    omega

/-- **A walk has every document once.**  Whatever paging, order and facets a built query has of its own,
the pages that are had of it one after the other, from the first one on and as long as there are more,
are as few as have room for all documents, but one at least; together they have the documents in their
order, and each tells its number and how many documents there are.  Page 0 is page 1. -/
theorem paginate_walks {q : Query} (hbuilt : q.Built) {perPage : UInt64} (hper : perPage ≠ 0)
    (w : World σ) :
    let documents := q.ranked found c.config.listRendering
    (∃ pages w', c.Walks q perPage 1 w pages w' ∧
      pages.length = max 1 (documents.length ⌈/⌉ perPage.toNat) ∧
      pages.flatMap Page.items = documents ∧
      ∀ i page, pages[i]? = some page →
        page.number.toNat = i + 1 ∧ page.total.toNat = documents.length) ∧
    c.paginate q 0 perPage = c.paginate q 1 perPage := by
  intro documents
  have hdocuments : q.ranked found c.config.listRendering = documents := rfl
  have hone : (1 : UInt64).toNat = 1 := rfl
  obtain ⟨pages, w', hwalks, hlength, hitems, hall⟩ := walks_from hc hpages hbuilt hper hdocuments
    (max 1 (documents.length ⌈/⌉ perPage.toNat) - 1) 1 (by decide) (by omega) w
  refine ⟨⟨pages, w', hwalks, by omega, ?_, fun i page hi => ?_⟩, rfl⟩
  · rw [hitems, hone, Nat.sub_self, Nat.zero_mul, List.drop_zero]
  · obtain ⟨hnumber, htotal⟩ := hall i page hi
    exact ⟨by rw [hnumber]; exact Nat.add_comm 1 i, htotal⟩

end

end Client

/-! ### An engine that pages one list -/

namespace OneList

variable (documents : List Json)

/-- The answers with the exact number of pages. -/
def respondPaged (r : SearchRequest) : SearchResponse :=
  match r.page with
  | some number =>
    let perPage := r.hitsPerPage.getD 20
    answer 0 (pageOf documents number perPage) (.paged number perPage
      (.ofNat (documents.length ⌈/⌉ perPage.toNat)) (total documents))
  | none => respond documents 0 r

theorem evaluates_paged :
    EvaluatesSearches (Stateless.transport fun r => body (respondPaged documents r)) id
      (Stateless.evaluator (respondPaged documents)) := by
  refine Stateless.evaluates _ _ (fun r => ?_) fun _ _ => rfl
  unfold respondPaged respond
  split
  · exact ofJson_body _ _ _
  · split <;> exact ofJson_body _ _ _

theorem pages (hsize : documents.length < UInt64.size) :
    (Stateless.evaluator (respondPaged documents)).Pages fun _ _ _ _ _ => documents where
  hits index r state number perPage _ _ := by
    show (Stateless.answer _ _).hits = _
    rw [SearchRequest.search, Stateless.answer_toJson]
    rfl
  pagination index r state number perPage _ hper := by
    have hcount : documents.length ⌈/⌉ perPage.toNat ≤ documents.length := by
      rw [ceilDiv_le_iff_le_mul (toNat_pos hper)]
      exact Nat.le_mul_of_pos_left _ (toNat_pos hper)
    refine ⟨.ofNat (documents.length ⌈/⌉ perPage.toNat), total documents, ?_,
      UInt64.toNat_ofNat_of_lt (Nat.lt_of_le_of_lt hcount hsize), UInt64.toNat_ofNat_of_lt hsize⟩
    show (Stateless.answer _ _).pagination = _
    rw [SearchRequest.search, Stateless.answer_toJson]
    rfl

def pagingClient (multiSearch : Bool) : Client Unit :=
  { session :=
      { transport := Stateless.transport fun r => body (respondPaged documents r), rounds := 1 }
    config := { multiSearch } }

/-- Black phones in random order, no more than none of them, and a page of their own. -/
def anyBlackPhones : Query := { blackPhones with limit := 0, page := some 9, randomOrder := true }

theorem anyBlackPhones_built : anyBlackPhones.Built :=
  ⟨"products", blackPhonesSteps ++ [.random, .limit 0, .page 9], _, rfl, rfl⟩

/-- They are walked like any other query: three phones are on two pages of two. -/
theorem paginate_walks_phones : ∃ pages w',
    (pagingClient [.int 1, .int 2, .int 3] true).Walks anyBlackPhones 2 1 { line := () } pages w' ∧
      pages.length = 2 ∧ pages.flatMap Page.items = [.int 1, .int 2, .int 3] := by
  obtain ⟨⟨pages, w', hwalks, hlength, hitems, -⟩, -⟩ :=
    Client.paginate_walks (c := pagingClient [.int 1, .int 2, .int 3] true) (evaluates_paged _)
      (pages _ (by decide)) anyBlackPhones_built (by decide : (2 : UInt64) ≠ 0) { line := () }
  exact ⟨pages, w', hwalks, hlength, hitems⟩

end OneList

end SearchClient
