/-
SearchClient/Proofs/Filter/Grammar.lean

The grammar of filter expressions, on tokens:

    disjunction  =  conjunction { OR conjunction }
    conjunction  =  primary { AND primary }
    primary      =  ( disjunction )  |  column sign value  |  column test
                 |  column [NOT] IN [ value , ... ]

so AND binds tighter than OR, and parentheses stay visible in the tree.  The grammar is stated
twice.  `IsDisjunction ts d` is the declarative side: the tokens `ts` derive the tree `d`.
`parse?` is a recursive-descent parser, which takes the whole text or nothing.

Main result: `parse?_eq_some_iff`.  The parser finds exactly what the grammar derives, so every
text has at most one tree (`Parses.unique`).  Completeness needs to know what may follow: a
conjunction takes every AND that it can get, so the rest must not start with one, and likewise for
a disjunction and OR.
-/
import SearchClient.Proofs.Filter.Token

namespace SearchClient.Grammar

/-! ### Trees -/

mutual

/-- A condition that AND and OR do not take apart. -/
inductive Primary where
  | group (inner : Disjunction)
  | compare (column : List Char) (comparison : Comparison) (value : Literal)
  | presence (column : List Char) (test : Presence)
  | member (column : List Char) (negated : Bool) (first : Literal) (rest : List Literal)

inductive Conjunction where
  | one (p : Primary)
  | and (p : Primary) (c : Conjunction)

inductive Disjunction where
  | one (c : Conjunction)
  | or (c : Conjunction) (d : Disjunction)

end

/-! ### Tokens of the parts without nesting -/

def valueToken : Literal → Token
  | .flag b => .keyword (.flag b)
  | .number digits => .number digits
  | .text s => .quoted s

/-- The values of a list, with commas between them. -/
def listTokens (first : Literal) : List Literal → List Token
  | [] => [valueToken first]
  | second :: rest => valueToken first :: .mark .comma :: listTokens second rest

def testTokens : Presence → List Token
  | .isEmpty => [.keyword .is, .keyword .empty]
  | .isNotEmpty => [.keyword .is, .keyword .not, .keyword .empty]
  | .isNull => [.keyword .is, .keyword .null]
  | .isNotNull => [.keyword .is, .keyword .not, .keyword .null]

def memberTokens (negated : Bool) : List Token :=
  if negated then [.keyword .not, .keyword .member] else [.keyword .member]

/-! ### Derivations -/

mutual

/-- The tokens are a primary with this tree. -/
inductive IsPrimary : List Token → Primary → Prop
  | group {ts d} : IsDisjunction ts d →
      IsPrimary (.mark .openGroup :: (ts ++ [.mark .closeGroup])) (.group d)
  | compare (column comparison value) :
      IsPrimary [.quoted column, .comparison comparison, valueToken value]
        (.compare column comparison value)
  | presence (column test) : IsPrimary (.quoted column :: testTokens test) (.presence column test)
  | member (column negated first rest) :
      IsPrimary (.quoted column :: (memberTokens negated ++
          .mark .openList :: (listTokens first rest ++ [.mark .closeList])))
        (.member column negated first rest)

/-- The tokens are a conjunction with this tree. -/
inductive IsConjunction : List Token → Conjunction → Prop
  | one {ts p} : IsPrimary ts p → IsConjunction ts (.one p)
  | and {ts us p c} : IsPrimary ts p → IsConjunction us c →
      IsConjunction (ts ++ .keyword .and :: us) (.and p c)

/-- The tokens are a disjunction with this tree. -/
inductive IsDisjunction : List Token → Disjunction → Prop
  | one {ts c} : IsConjunction ts c → IsDisjunction ts (.one c)
  | or {ts us c d} : IsConjunction ts c → IsDisjunction us d →
      IsDisjunction (ts ++ .keyword .or :: us) (.or c d)

end

/-- The whole text is an expression with this tree. -/
def Parses (cs : List Char) (d : Disjunction) : Prop :=
  ∃ ts, scan cs = some ts ∧ IsDisjunction ts d

/-! ### The parser -/

def value? : Token → Option Literal
  | .keyword (.flag b) => some (.flag b)
  | .number digits => some (.number digits)
  | .quoted s => some (.text s)
  | _ => none

/-- The values up to the end of a list. -/
def readList : List Token → Option ((Literal × List Literal) × List Token)
  | t :: .mark .comma :: ts => do
    let first ← value? t
    let ((second, rest), ts) ← readList ts
    some ((first, second :: rest), ts)
  | t :: .mark .closeList :: ts => (value? t).map fun v => ((v, []), ts)
  | _ => none

/-- What is said of a column. -/
def readTest (column : List Char) : List Token → Option (Primary × List Token)
  | .comparison c :: t :: ts => (value? t).map fun v => (.compare column c v, ts)
  | .keyword .is :: .keyword .empty :: ts => some (.presence column .isEmpty, ts)
  | .keyword .is :: .keyword .null :: ts => some (.presence column .isNull, ts)
  | .keyword .is :: .keyword .not :: .keyword .empty :: ts =>
    some (.presence column .isNotEmpty, ts)
  | .keyword .is :: .keyword .not :: .keyword .null :: ts =>
    some (.presence column .isNotNull, ts)
  | .keyword .member :: .mark .openList :: ts =>
    (readList ts).map fun r => (.member column false r.1.1 r.1.2, r.2)
  | .keyword .not :: .keyword .member :: .mark .openList :: ts =>
    (readList ts).map fun r => (.member column true r.1.1 r.1.2, r.2)
  | _ => none

mutual

/-- A primary at the front.  The number bounds the depth of the calls. -/
def readPrimary : Nat → List Token → Option (Primary × List Token)
  | 0, _ => none
  | n + 1, ts =>
    match ts with
    | .mark .openGroup :: ts =>
      match readDisjunction n ts with
      | some (d, .mark .closeGroup :: rest) => some (.group d, rest)
      | _ => none
    | .quoted column :: ts => readTest column ts
    | _ => none

/-- A conjunction at the front, as long as it can be. -/
def readConjunction : Nat → List Token → Option (Conjunction × List Token)
  | 0, _ => none
  | n + 1, ts =>
    match readPrimary n ts with
    | some (p, .keyword .and :: rest) =>
      (readConjunction n rest).map fun r => (.and p r.1, r.2)
    | some (p, rest) => some (.one p, rest)
    | none => none

/-- A disjunction at the front, as long as it can be. -/
def readDisjunction : Nat → List Token → Option (Disjunction × List Token)
  | 0, _ => none
  | n + 1, ts =>
    match readConjunction n ts with
    | some (c, .keyword .or :: rest) =>
      (readDisjunction n rest).map fun r => (.or c r.1, r.2)
    | some (c, rest) => some (.one c, rest)
    | none => none

end

/-- The tree of a text that is an expression as a whole. -/
def parse? (cs : List Char) : Option Disjunction :=
  match scan cs with
  | none => none
  | some ts =>
    match readDisjunction (3 * ts.length + 2) ts with
    | some (d, []) => some d
    | _ => none

/-! ### What the parser finds is derived -/

theorem value?_eq_some_iff {t : Token} {v : Literal} : value? t = some v ↔ t = valueToken v := by
  constructor
  · intro h
    fun_cases value? t <;> simp_all [value?] <;> subst h <;> rfl
  · rintro rfl
    cases v <;> rfl

theorem readList_sound {ts rest : List Token} {first : Literal} {values : List Literal}
    (h : readList ts = some ((first, values), rest)) :
    ts = listTokens first values ++ .mark .closeList :: rest := by
  fun_induction readList ts generalizing first values with
  | case1 t ts ih =>
    simp only [Option.bind_eq_bind, Option.bind_eq_some_iff] at h
    obtain ⟨v, hv, ⟨⟨second, more⟩, rest'⟩, hr, heq⟩ := h
    simp only [Option.some.injEq, Prod.mk.injEq] at heq
    obtain ⟨⟨rfl, rfl⟩, rfl⟩ := heq
    rw [value?_eq_some_iff.mp hv, ih hr]
    rfl
  | case2 t ts =>
    simp only [Option.map_eq_some_iff, Prod.mk.injEq] at h
    obtain ⟨v, hv, ⟨rfl, rfl⟩, rfl⟩ := h
    rw [value?_eq_some_iff.mp hv]
    rfl
  | case3 => cases h

theorem readTest_sound {column : List Char} {ts rest : List Token} {p : Primary}
    (h : readTest column ts = some (p, rest)) :
    ∃ us, .quoted column :: ts = us ++ rest ∧ IsPrimary us p := by
  fun_cases readTest column ts with
  | case1 c t ts =>
    simp only [readTest, Option.map_eq_some_iff, Prod.mk.injEq] at h
    obtain ⟨v, hv, rfl, rfl⟩ := h
    rw [value?_eq_some_iff.mp hv]
    exact ⟨_, rfl, .compare column c v⟩
  | case2 | case3 | case4 | case5 =>
    simp only [readTest, Option.some.injEq, Prod.mk.injEq] at h
    obtain ⟨rfl, rfl⟩ := h
    exact ⟨_, rfl, .presence column _⟩
  | case6 ts | case7 ts =>
    simp only [readTest, Option.map_eq_some_iff, Prod.mk.injEq] at h
    obtain ⟨⟨⟨first, values⟩, rest'⟩, hr, rfl, rfl⟩ := h
    rw [readList_sound hr]
    refine ⟨_, ?_, .member column _ first values⟩
    simp [memberTokens]
  | case8 => simp_all [readTest]

/-- What the readers find with a bound on the depth of their calls is derived. -/
structure Sound (n : Nat) : Prop where
  primary : ∀ {ts p rest}, readPrimary n ts = some (p, rest) →
    ∃ us, ts = us ++ rest ∧ IsPrimary us p
  conjunction : ∀ {ts c rest}, readConjunction n ts = some (c, rest) →
    ∃ us, ts = us ++ rest ∧ IsConjunction us c
  disjunction : ∀ {ts d rest}, readDisjunction n ts = some (d, rest) →
    ∃ us, ts = us ++ rest ∧ IsDisjunction us d

namespace Sound

variable {n : Nat} {ts rest : List Token}

theorem readPrimary_succ (ih : Sound n) {p : Primary}
    (h : readPrimary (n + 1) ts = some (p, rest)) : ∃ us, ts = us ++ rest ∧ IsPrimary us p := by
  simp only [readPrimary] at h
  split at h
  · split at h
    · next d rest' hd =>
      simp only [Option.some.injEq, Prod.mk.injEq] at h
      obtain ⟨rfl, rfl⟩ := h
      obtain ⟨us, rfl, hus⟩ := ih.disjunction hd
      exact ⟨_, by simp, .group hus⟩
    · cases h
  · exact readTest_sound h
  · cases h

theorem readConjunction_succ (ih : Sound n) {c : Conjunction}
    (h : readConjunction (n + 1) ts = some (c, rest)) :
    ∃ us, ts = us ++ rest ∧ IsConjunction us c := by
  simp only [readConjunction] at h
  split at h
  · next p rest' hp =>
    simp only [Option.map_eq_some_iff, Prod.mk.injEq] at h
    obtain ⟨⟨c', rest''⟩, hc, rfl, rfl⟩ := h
    obtain ⟨us, rfl, hus⟩ := ih.primary hp
    obtain ⟨vs, rfl, hvs⟩ := ih.conjunction hc
    exact ⟨_, by simp, .and hus hvs⟩
  · next p rest' _ hp =>
    simp only [Option.some.injEq, Prod.mk.injEq] at h
    obtain ⟨rfl, rfl⟩ := h
    obtain ⟨us, rfl, hus⟩ := ih.primary hp
    exact ⟨us, rfl, .one hus⟩
  · cases h

theorem readDisjunction_succ (ih : Sound n) {d : Disjunction}
    (h : readDisjunction (n + 1) ts = some (d, rest)) :
    ∃ us, ts = us ++ rest ∧ IsDisjunction us d := by
  simp only [readDisjunction] at h
  split at h
  · next c rest' hc =>
    simp only [Option.map_eq_some_iff, Prod.mk.injEq] at h
    obtain ⟨⟨d', rest''⟩, hd, rfl, rfl⟩ := h
    obtain ⟨us, rfl, hus⟩ := ih.conjunction hc
    obtain ⟨vs, rfl, hvs⟩ := ih.disjunction hd
    exact ⟨_, by simp, .or hus hvs⟩
  · next c rest' _ hc =>
    simp only [Option.some.injEq, Prod.mk.injEq] at h
    obtain ⟨rfl, rfl⟩ := h
    obtain ⟨us, rfl, hus⟩ := ih.conjunction hc
    exact ⟨us, rfl, .one hus⟩
  · cases h

end Sound

/-- Induction on the bound: what a reader calls has a bound that is less by one. -/
theorem sound (n : Nat) : Sound n := by
  induction n with
  | zero =>
    constructor <;> intro ts _ rest h <;>
      simp [readPrimary, readConjunction, readDisjunction] at h
  | succ n ih => exact ⟨ih.readPrimary_succ, ih.readConjunction_succ, ih.readDisjunction_succ⟩

/-! ### What is derived is found -/

theorem readList_listTokens (first : Literal) (values : List Literal) (rest : List Token) :
    readList (listTokens first values ++ .mark .closeList :: rest) =
      some ((first, values), rest) := by
  induction values generalizing first with
  | nil => simp [listTokens, readList, value?_eq_some_iff.mpr rfl]
  | cons second values ih =>
    simp [listTokens, readList, value?_eq_some_iff.mpr rfl, ih]

theorem readTest_presence (column : List Char) (test : Presence) (rest : List Token) :
    readTest column (testTokens test ++ rest) = some (.presence column test, rest) := by
  cases test <;> rfl

theorem readTest_member (column : List Char) (negated : Bool) (first : Literal)
    (values : List Literal) (rest : List Token) :
    readTest column (memberTokens negated ++
        .mark .openList :: (listTokens first values ++ .mark .closeList :: rest)) =
      some (.member column negated first values, rest) := by
  cases negated <;> simp [memberTokens, readTest, readList_listTokens]

/-- What is derived is found with a large enough bound, and what follows it is left over.  The
bound leaves three calls for each token, one in every reader. -/
structure Complete (n : Nat) : Prop where
  primary : ∀ {ts p}, IsPrimary ts p → 3 * ts.length ≤ n → ∀ rest,
    readPrimary n (ts ++ rest) = some (p, rest)
  conjunction : ∀ {ts c}, IsConjunction ts c → 3 * ts.length + 1 ≤ n →
    ∀ rest, rest.head? ≠ some (.keyword .and) →
      readConjunction n (ts ++ rest) = some (c, rest)
  disjunction : ∀ {ts d}, IsDisjunction ts d → 3 * ts.length + 2 ≤ n →
    ∀ rest, rest.head? ≠ some (.keyword .and) → rest.head? ≠ some (.keyword .or) →
      readDisjunction n (ts ++ rest) = some (d, rest)

theorem IsPrimary.length_pos {ts : List Token} {p : Primary} (h : IsPrimary ts p) :
    0 < ts.length := by
  cases h <;> simp

namespace Complete

variable {n : Nat} {ts : List Token}

theorem readPrimary_succ (ih : Complete n) {p : Primary} (h : IsPrimary ts p)
    (hn : 3 * ts.length ≤ n + 1) (rest : List Token) :
    readPrimary (n + 1) (ts ++ rest) = some (p, rest) := by
  cases h with
  | @group ts d hd =>
    have hlen : 3 * ts.length + 2 ≤ n := by simp at hn; omega
    have hread := ih.disjunction hd hlen (.mark .closeGroup :: rest) (by simp) (by simp)
    simp [readPrimary, hread]
  | compare column comparison value =>
    simp [readPrimary, readTest, value?_eq_some_iff.mpr rfl]
  | presence column test => simp [readPrimary, readTest_presence]
  | member column negated first values => simp [readPrimary, readTest_member]

theorem readConjunction_succ (ih : Complete n) {c : Conjunction} (h : IsConjunction ts c)
    (hn : 3 * ts.length + 1 ≤ n + 1) (rest : List Token)
    (hand : rest.head? ≠ some (.keyword .and)) :
    readConjunction (n + 1) (ts ++ rest) = some (c, rest) := by
  cases h with
  | one hp =>
    simp only [readConjunction, ih.primary hp (by omega)]
    -- the reader stops here, as no AND follows
    rcases rest with - | ⟨t, rest⟩
    · rfl
    · split
      · simp_all
      · simp_all
      · simp_all
  | @and us vs p c hp hc =>
    simp only [List.length_append, List.length_cons] at hn
    have hfirst := ih.primary hp (by omega) (.keyword .and :: (vs ++ rest))
    have hmore := ih.conjunction hc (by omega) rest hand
    simp [readConjunction, hfirst, hmore]

theorem readDisjunction_succ (ih : Complete n) {d : Disjunction} (h : IsDisjunction ts d)
    (hn : 3 * ts.length + 2 ≤ n + 1) (rest : List Token)
    (hand : rest.head? ≠ some (.keyword .and)) (hor : rest.head? ≠ some (.keyword .or)) :
    readDisjunction (n + 1) (ts ++ rest) = some (d, rest) := by
  cases h with
  | one hc =>
    simp only [readDisjunction, ih.conjunction hc (by omega) rest hand]
    -- the reader stops here, as no OR follows
    rcases rest with - | ⟨t, rest⟩
    · rfl
    · split
      · simp_all
      · simp_all
      · simp_all
  | @or us vs c d hc hd =>
    simp only [List.length_append, List.length_cons] at hn
    have hfirst := ih.conjunction hc (by omega) (.keyword .or :: (vs ++ rest)) (by simp)
    have hmore := ih.disjunction hd (by omega) rest hand hor
    simp [readDisjunction, hfirst, hmore]

end Complete

/-- Induction on the bound, which goes down by one with every call. -/
theorem complete (n : Nat) : Complete n := by
  induction n with
  | zero =>
    refine ⟨?_, ?_, ?_⟩
    · intro ts p h hn
      have := h.length_pos
      omega
    · intro ts c h hn
      omega
    · intro ts d h hn
      omega
  | succ n ih => exact ⟨ih.readPrimary_succ, ih.readConjunction_succ, ih.readDisjunction_succ⟩

/-! ### The parser and the grammar -/

theorem parse?_eq_some_iff {cs : List Char} {d : Disjunction} :
    parse? cs = some d ↔ Parses cs d := by
  constructor
  · intro h
    unfold parse? at h
    split at h
    · cases h
    · next ts hts =>
      split at h
      · next d' hd =>
        obtain rfl := Option.some.inj h
        obtain ⟨us, rfl, hus⟩ := (sound _).disjunction hd
        exact ⟨us, by simpa using hts, hus⟩
      · cases h
  · rintro ⟨ts, hts, hd⟩
    have hread := (complete _).disjunction hd (Nat.le_refl _) [] (by simp) (by simp)
    rw [List.append_nil] at hread
    simp [parse?, hts, hread]

/-- A text has at most one tree. -/
theorem Parses.unique {cs : List Char} {d e : Disjunction} (hd : Parses cs d)
    (he : Parses cs e) : d = e :=
  Option.some.inj ((parse?_eq_some_iff.mpr hd).symm.trans (parse?_eq_some_iff.mpr he))

end SearchClient.Grammar
