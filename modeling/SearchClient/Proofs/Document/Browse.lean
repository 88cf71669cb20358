/-
SearchClient/Proofs/Document/Browse.lean

What a browse comes to when it fails.  Two mappings follow each other: the error of a reply
(`Reply.error`), and that of a browse, which takes what is left of the client errors for a refusal of
its parameters (`ClientError.ofBrowse`).

`Reply.Reports` says which code and which message a body has, and `Reply.Refuses` which replies refuse
the parameters.  A refusal is an error of the parameters, with its message, unless the message is about
an attribute; anything else that fails is the error that it was (`Client.getDocuments_refused`).
-/
import SearchClient.Document.Access
import SearchClient.Proofs.Attribute
import SearchClient.Proofs.Wire.Retry
import SearchClient.Wire.Script

namespace SearchClient

variable {σ : Type}

/-! ### What a body reports -/

namespace Reply

/-- The code and the message of a reply that reports a failure.  There is a code if the body has a
member for it that is a text; otherwise the body itself is the message. -/
inductive Reports (r : Reply) : Option String → String → Prop where
  | worded {code message : String} (hcode : r.body.member? "code" = some (.str code))
      (hmessage : r.body.member? "message" = some (.str message)) : Reports r (some code) message
  | wordless {code : String} (hcode : r.body.member? "code" = some (.str code))
      (hmessage : ∀ message, r.body.member? "message" ≠ some (.str message)) :
      Reports r (some code) ""
  | text {s : String} (hbody : r.body = .str s) : Reports r none s
  | empty (hbody : r.body = .null) : Reports r none ""
  | other (hcode : ∀ code, r.body.member? "code" ≠ some (.str code)) (htext : ∀ s, r.body ≠ .str s)
      (hnull : r.body ≠ .null) : Reports r none r.body.text

variable {r : Reply} {code : Option String} {message : String}

theorem failure_of_reports (h : r.Reports code message) :
    r.failure = (code.getD "unknown", message) := by
  cases h with
  | worded hcode hmessage => simp only [failure, errorParts?, hcode, hmessage, Option.getD_some]
  | wordless hcode hmessage => simp only [failure, errorParts?, hcode, Option.getD_some]
  | text hbody => simp only [failure, errorParts?, hbody, Json.member?, Option.getD_none]
  | empty hbody => simp only [failure, errorParts?, hbody, Json.member?, Option.getD_none]
  | other hcode htext hnull =>
    have hparts : r.errorParts? = none := by simp only [errorParts?]
    simp only [failure, hparts, Option.getD_none]

theorem exists_reports (r : Reply) : ∃ code message, r.Reports code message := by
  by_cases hcode : ∃ code, r.body.member? "code" = some (.str code)
  · obtain ⟨code, hcode⟩ := hcode
    by_cases hmessage : ∃ message, r.body.member? "message" = some (.str message)
    · obtain ⟨message, hmessage⟩ := hmessage
      exact ⟨some code, message, .worded hcode hmessage⟩
    · exact ⟨some code, "", .wordless hcode (not_exists.mp hmessage)⟩
  · by_cases hnull : r.body = .null
    · exact ⟨none, "", .empty hnull⟩
    · by_cases htext : ∃ s, r.body = .str s
      · obtain ⟨s, hs⟩ := htext
        exact ⟨none, s, .text hs⟩
      · exact ⟨none, _, .other (not_exists.mp hcode) (not_exists.mp htext) hnull⟩

/-- The reply refuses what was asked: the client is at fault, but not by its key, and no code stands
for an error of its own. -/
structure Refuses (r : Reply) (code : Option String) : Prop where
  fault : 400 ≤ r.status ∧ r.status < 500
  key : r.status ≠ 401 ∧ r.status ≠ 403
  code : ∀ c ∈ code, c ∉ ["index_already_exists", "index_not_found", "missing_document_id"]

end Reply

/-! ### The error of a browse -/

namespace ClientError

/-- An error that has been given a name of its own is left as it is. -/
theorem ofBrowse_ofCode? {code message : String} {e : ClientError}
    (h : ofCode? code message = some e) : e.ofBrowse = e := by
  rcases ofCode?_eq_some h with rfl | rfl | rfl <;> rfl

theorem ofBrowse_ofAttributeMessage? {message : String} {e : ClientError}
    (h : ofAttributeMessage? message = some e) : e.ofBrowse = e := by
  obtain ⟨found, -, rfl⟩ := Option.map_eq_some_iff.mp h
  rfl

variable {r : Reply} {code : Option String} {message : String}

/-- A refusal is an error of the parameters, unless it is about an attribute. -/
theorem ofBrowse_of_refuses (hreports : r.Reports code message) (h : r.Refuses code)
    (hmessage : ofAttributeMessage? message = none) :
    r.error.ofBrowse = .invalidParameter message := by
  have hcode : ofCode? (code.getD "unknown") message = none := by
    refine ofCode?_eq_none_iff.mpr ?_
    cases code with
    | none => decide
    | some c => exact h.code c rfl
  rw [r.error_eq, Reply.failure_of_reports hreports, if_neg (not_or.mpr h.key), if_pos h.fault,
    hmessage, Option.none_or, hcode, Option.getD_none, ofBrowse, if_pos h.fault]

/-- Any other failure is left as it is. -/
theorem ofBrowse_of_not_refuses (hreports : r.Reports code message) (h : ¬ r.Refuses code) :
    r.error.ofBrowse = r.error := by
  rw [r.error_eq, Reply.failure_of_reports hreports]
  split
  · rfl
  · next hkey =>
    split
    · next hfault =>
      cases hmessage : ofAttributeMessage? message with
      | some e =>
        rw [Option.some_or, Option.getD_some]
        exact ofBrowse_ofAttributeMessage? hmessage
      | none =>
        rw [Option.none_or]
        cases hcode : ofCode? (code.getD "unknown") message with
        | some e =>
          rw [Option.getD_some]
          exact ofBrowse_ofCode? hcode
        | none =>
          -- then the code has no error of its own, and the reply is a refusal after all
          refine absurd ⟨hfault, not_or.mp hkey, fun c hc hmem => ?_⟩ h
          obtain rfl : code = some c := hc
          exact ofCode?_eq_none_iff.mp hcode hmem
    · next hfault =>
      rw [Option.none_or]
      cases hcode : ofCode? (code.getD "unknown") message with
      | some e =>
        rw [Option.getD_some]
        exact ofBrowse_ofCode? hcode
      | none => rw [Option.getD_none, ofBrowse, if_neg hfault]

end ClientError

/-! ### Browsing -/

/-- The request of a browse. -/
def DocumentsQuery.request (index : String) (query : DocumentsQuery) : Request :=
  { method := .post, endpoint := .fetchDocuments index, body := some query.toJson }

/-- What the answer to a browse stands for. -/
def DocumentsPage.receivedAs (answer : Except String Reply) : Except ClientError DocumentsPage :=
  (Reply.received answer).mapError ClientError.ofBrowse >>= Reply.decode DocumentsPage.ofJson

namespace Client

variable {c : Client σ} {w : World σ} {latency : Duration} {answer : Except String Reply} {line : σ}

theorem getDocuments_run {index : String} {query : DocumentsQuery}
    (h : c.session.transport.Answers (query.request index) w.line latency answer line) :
    ((c.getDocuments index query).run.run w).1 =
      (DocumentsPage.receivedAs answer).mapError .failed := by
  obtain ⟨w', hrun⟩ := c.send_run_write .getDocuments (show Method.post ≠ .get by decide) h
  have hattempt : (Action.attempt (c.send .getDocuments (query.request index))).run.run w =
      (.ok (Reply.received answer), w') := by
    rw [Action.run_attempt, hrun]
    cases Reply.received answer <;> rfl
  show ((Action.attempt (c.send .getDocuments (query.request index)) >>= _).run.run w).1 = _
  rw [Action.run_bind_ok hattempt, Action.run_bind, Action.run_ofExcept, DocumentsPage.receivedAs]
  cases Reply.received answer with
  | error e => rfl
  | ok reply => exact congrArg Prod.fst (Action.run_ofExcept _ w')

/-- A browse that fails ends with the error of the reply, given the name of its parameters if it has none
of its own. -/
theorem getDocuments_run_error {index : String} {query : DocumentsQuery} {reply : Reply}
    (h : c.session.transport.Answers (query.request index) w.line latency (.ok reply) line)
    (hs : reply.isSuccess = false) :
    ((c.getDocuments index query).run.run w).1 = .error (.failed reply.error.ofBrowse) := by
  rw [getDocuments_run h, DocumentsPage.receivedAs, Reply.received, if_neg (by simp [hs])]
  rfl

/-- **A refused browse is an error of its parameters.**  A reply that refuses what was asked makes the
browse end with that error and the message of the reply, unless the message is about an attribute.
After any other failure of the engine, and after one of the transport, it ends with the error that the
failure is. -/
theorem getDocuments_refused {index : String} {query : DocumentsQuery}
    (h : c.session.transport.Answers (query.request index) w.line latency answer line) :
    (∀ reply, answer = .ok reply → reply.isSuccess = false →
      (∃ code message, reply.Reports code message) ∧
      ∀ code message, reply.Reports code message →
        (reply.Refuses code → (∀ before name use, ¬ ClientError.Says message.toList before name use) →
          ((c.getDocuments index query).run.run w).1 = .error (.failed (.invalidParameter message))) ∧
        (¬ reply.Refuses code →
          ((c.getDocuments index query).run.run w).1 = .error (.failed reply.error))) ∧
    ∀ failure, answer = .error failure →
      ((c.getDocuments index query).run.run w).1 = .error (.failed (.transport failure)) := by
  refine ⟨?_, ?_⟩
  · rintro reply rfl hs
    refine ⟨reply.exists_reports, fun code message hreports =>
      ⟨fun hrefuses hwords => ?_, fun hnot => ?_⟩⟩
    · have hmessage : ClientError.ofAttributeMessage? message = none := by
        refine Option.eq_none_iff_forall_ne_some.mpr fun e he => ?_
        obtain ⟨before, name, use, hfirst, -⟩ := ClientError.ofAttributeMessage?_eq_some_iff.mp he
        exact hwords before name use hfirst.stands
      rw [getDocuments_run_error h hs, ClientError.ofBrowse_of_refuses hreports hrefuses hmessage]
    · rw [getDocuments_run_error h hs, ClientError.ofBrowse_of_not_refuses hreports hnot]
  · rintro failure rfl
    rw [getDocuments_run h]
    rfl

/-- A client of an engine that gives one answer. -/
def answeredBy (answer : Except String Reply) : Client Script :=
  { session := Script.session { answers := [answer] } }

theorem answeredBy_answers (answer : Except String Reply) (request : Request) :
    (answeredBy answer).session.transport.Answers request { answers := [answer] } 0 answer
      { answers := [] } := ⟨_, rfl, rfl⟩

/-- A refusal in a body without a code. -/
def tooDeep : Reply := { status := 422, body := .obj [("errors", .arr [.str "too deep", .int 1])] }

/-- A failure whose code has an error of its own. -/
def gone : Reply where
  status := 404
  body := .obj [("code", .str "index_not_found"), ("message", .str "Index `products` not found.")]

theorem getDocuments_refused_tooDeep :
    (tooDeep.isSuccess = false ∧ tooDeep.Reports none "\x7b\"errors\":[\"too deep\",1]\x7d" ∧
      tooDeep.Refuses none ∧
      ((answeredBy (.ok tooDeep)).getDocuments "products" {} |>.run.run
          { line := { answers := [.ok tooDeep] } }).1 =
        .error (.failed (.invalidParameter "\x7b\"errors\":[\"too deep\",1]\x7d"))) ∧
    (gone.isSuccess = false ∧
      gone.Reports (some "index_not_found") "Index `products` not found." ∧
      ¬ gone.Refuses (some "index_not_found") ∧
      ((answeredBy (.ok gone)).getDocuments "products" {} |>.run.run
          { line := { answers := [.ok gone] } }).1 = .error (.failed gone.error)) ∧
    ((answeredBy (.error "timeout")).getDocuments "products" {} |>.run.run
        { line := { answers := [.error "timeout"] } }).1 =
      .error (.failed (.transport "timeout")) := by
  have hreports : tooDeep.Reports none "\x7b\"errors\":[\"too deep\",1]\x7d" := by
    have htext : tooDeep.body.text = "\x7b\"errors\":[\"too deep\",1]\x7d" := by decide
    have hcode : tooDeep.body.member? "code" = none := rfl
    rw [← htext]
    exact .other (by simp [hcode]) (by simp [tooDeep]) (by simp [tooDeep])
  have hrefuses : tooDeep.Refuses none := ⟨by decide, by decide, by simp⟩
  have hwords : ∀ before name use, ¬ ClientError.Says
      "\x7b\"errors\":[\"too deep\",1]\x7d".toList before name use := by
    intro before name use h
    have hnone : ClientError.findAttribute? "\x7b\"errors\":[\"too deep\",1]\x7d".toList = none := by
      decide
    have hsome := ClientError.isSome_findAttribute? h
    rw [hnone] at hsome
    cases hsome
  have hgone : gone.Reports (some "index_not_found") "Index `products` not found." := .worded rfl rfl
  have hfound : ¬ gone.Refuses (some "index_not_found") := fun h => h.code _ rfl (by decide)
  exact ⟨⟨by decide, hreports, hrefuses,
      (((getDocuments_refused (answeredBy_answers _ _)).1 _ rfl (by decide)).2 _ _ hreports).1
        hrefuses hwords⟩,
    ⟨by decide, hgone, hfound,
      (((getDocuments_refused (answeredBy_answers _ _)).1 _ rfl (by decide)).2 _ _ hgone).2 hfound⟩,
    (getDocuments_refused (answeredBy_answers _ _)).2 _ rfl⟩

/-- A refusal of a filter that is about an attribute. -/
def unfilterable : Reply where
  status := 400
  body := .obj [("code", .str "invalid_document_filter"),
    ("message", .str "Attribute `color` is not filterable.")]

/-- A refusal that is about an attribute is not an error of the parameters. -/
theorem getDocuments_unfilterable :
    unfilterable.isSuccess = false ∧
      unfilterable.Reports (some "invalid_document_filter") "Attribute `color` is not filterable." ∧
      unfilterable.Refuses (some "invalid_document_filter") ∧
      (((answeredBy (.ok unfilterable)).getDocuments "products"
          { filter := ["'color' = 'red'"] }).run.run { line := { answers := [.ok unfilterable] } }).1 =
        .error (.failed (.attributeNot .filterable "color")) ∧
      ClientError.attributeNot .filterable "color" ≠
        .invalidParameter "Attribute `color` is not filterable." := by
  have herror : unfilterable.error = .attributeNot .filterable "color" := by decide
  refine ⟨by decide, .worded rfl rfl, ⟨by decide, by decide, by decide⟩, ?_, by decide⟩
  rw [getDocuments_run_error (answeredBy_answers _ _) (by decide), herror]
  rfl

end Client

end SearchClient
