/-
SearchClient/Proofs/Query/Wording.lean

Loosely written words.  Operators, connectives and directions are read from text in which the case of ASCII
letters, the blanks around it and, for operators, the blanks between its words do not matter.  All three
readings look for the one choice whose own spelling is that of the text, so they are one reading
(`ReadsLoosely.of_find`) with three ways to spell.

What a text spells is said by the relations `Splits` and `Trims`, not by the functions that compute them.  For
an operator the words of the text count one by one, or joined by single blanks, which comes to the same
(`Operator.spells_iff_unwords`).  What does not matter about a text is said by single changes to it
(`Restyles`, `Respaces`), of which there may be any number, in any order.

Main result: `readings_loose`.
-/
import Mathlib.Data.List.Nodup
import Mathlib.Logic.Relation
import SearchClient.Proofs.Text.Blank
import SearchClient.Query.Build

namespace SearchClient

open Text

/-! ### Spellings -/

/-- The words of the text, in upper case, are those of the operator. -/
def Operator.Spells (s : String) (op : Operator) : Prop :=
  ∃ ws, Splits s.toList ws ∧ Splits op.text.toList (ws.map upper)

/-- Without the blanks around it, the text is the word, but for the case of ASCII letters. -/
def SpellsWord (s word : String) : Prop := ∃ kept, Trims s.toList kept ∧ SameButCase kept word.toList

/-! ### Changes that do not matter -/

/-- A change to the case of ASCII letters, or to the blanks around a text. -/
inductive Restyles : List Char → List Char → Prop
  | recase {cs ds : List Char} (h : SameButCase cs ds) : Restyles cs ds
  | padBefore {gap : List Char} (cs : List Char) (h : Blanks gap) : Restyles (gap ++ cs) cs
  | padAfter {gap : List Char} (cs : List Char) (h : Blanks gap) : Restyles (cs ++ gap) cs

/-- The same, or a change to the blanks between two words: some for some others, never for none. -/
inductive Respaces : List Char → List Char → Prop
  | restyle {cs ds : List Char} (h : Restyles cs ds) : Respaces cs ds
  | gap {gap gap' : List Char} (cs ds : List Char) (h : Blanks gap) (hne : gap ≠ [])
      (h' : Blanks gap') (hne' : gap' ≠ []) : Respaces (cs ++ gap ++ ds) (cs ++ gap' ++ ds)

/-- What no single change makes a difference to, no sequence of them does. -/
theorem eq_of_eqvGen {α β : Type} {r : α → α → Prop} {f : α → β} (h : ∀ a b, r a b → f a = f b)
    {a b : α} (hab : Relation.EqvGen r a b) : f a = f b := by
  induction hab with
  | rel a b hab => exact h a b hab
  | refl a => rfl
  | symm a b _ ih => exact ih.symm
  | trans a b c _ _ ih ih' => exact ih.trans ih'

theorem Restyles.lower_trim {cs ds : List Char} (h : Restyles cs ds) :
    lower (trim cs) = lower (trim ds) := by
  cases h with
  | recase h =>
    have hcase : cs.map Char.toLower = ds.map Char.toLower := h
    rw [lower, lower, ← trim_map isBlank_toLower, ← trim_map isBlank_toLower, hcase]
  | padBefore cs h => rw [trim_blanks_append h]
  | padAfter cs h => rw [trim_append_blanks h]

theorem Restyles.upper_trim {cs ds : List Char} (h : Restyles cs ds) :
    upper (trim cs) = upper (trim ds) :=
  upper_eq_iff.mpr h.lower_trim

theorem Respaces.upper_words {cs ds : List Char} (h : Respaces cs ds) :
    (words cs).map upper = (words ds).map upper := by
  cases h with
  | restyle h =>
    cases h with
    | recase h =>
      have hcase : cs.map Char.toUpper = ds.map Char.toUpper := upper_eq_iff.mpr h
      show (words cs).map (List.map Char.toUpper) = (words ds).map (List.map Char.toUpper)
      rw [← words_map isBlank_toUpper, ← words_map isBlank_toUpper, hcase]
    | padBefore cs h => rw [words_blanks_append h]
    | padAfter cs h => rw [words_append_blanks h]
  | gap cs ds h hne h' hne' => rw [words_gap h hne, words_gap h' hne']

/-! ### Reading -/

/-- The reading takes the spellings of each choice and refuses every other text, which it quotes as it is. -/
structure ReadsLoosely {α : Type} (read : String → Except ClientError α)
    (Spells : String → α → Prop) (refusal : String → ClientError)
    (Alike : List Char → List Char → Prop) : Prop where
  accepts : ∀ s x, read s = .ok x ↔ Spells s x
  refuses : ∀ s, read s = .error (refusal s) ↔ ∀ x, ¬ Spells s x
  /-- The words of a refusal have the text in them, at the same place for every text. -/
  quotes : ∃ before after, ∀ s, (refusal s).message = before ++ s ++ after
  /-- No text is taken for two choices. -/
  one : ∀ s x y, Spells s x → Spells s y → x = y
  /-- Texts that differ in what does not matter are taken for the same choice, or both refused. -/
  alike : ∀ s s', Relation.EqvGen Alike s.toList s'.toList →
    ∀ x, read s = .ok x ↔ read s' = .ok x

/-- A reading that looks for the choice with the spelling of the text, where no two choices are spelled the
same. -/
theorem ReadsLoosely.of_find {α κ : Type} [DecidableEq κ] {read : String → Except ClientError α}
    {Spells : String → α → Prop} {refusal : String → ClientError}
    {Alike : List Char → List Char → Prop} (ofText? : String → Option α) (all : List α) (key : α → κ)
    (spelled : List Char → κ)
    (hread : ∀ s, read s = (ofText? s).elim (.error (refusal s)) .ok)
    (hfind : ∀ s, ofText? s = all.find? fun x => key x = spelled s.toList)
    (hall : ∀ x, x ∈ all) (hkeys : (all.map key).Nodup)
    (hspells : ∀ s x, Spells s x ↔ key x = spelled s.toList)
    (hquotes : ∃ before after, ∀ s, (refusal s).message = before ++ s ++ after)
    (halike : ∀ cs ds, Alike cs ds → spelled cs = spelled ds) :
    ReadsLoosely read Spells refusal Alike := by
  have hinj : ∀ x y, key x = key y → x = y := fun x y =>
    List.inj_on_of_nodup_map hkeys (hall x) (hall y)
  have hfound : ∀ s x, ofText? s = some x ↔ Spells s x := by
    intro s x
    rw [hspells, hfind]
    constructor
    · intro h
      simpa using List.find?_some h
    · intro h
      cases hresult : all.find? fun x => key x = spelled s.toList with
      | none => exact absurd (decide_eq_true h) (List.find?_eq_none.mp hresult x (hall x))
      | some y =>
        have hy : key y = spelled s.toList := by simpa using List.find?_some hresult
        rw [hinj y x (hy.trans h.symm)]
  have haccepts : ∀ s x, read s = .ok x ↔ Spells s x := by
    intro s x
    rw [← hfound, hread]
    cases ofText? s with
    | none => simp
    | some y => simp
  have hrefuses : ∀ s, read s = .error (refusal s) ↔ ∀ x, ¬ Spells s x := by
    intro s
    simp only [← hfound]
    rw [hread]
    cases ofText? s with
    | none => simp
    | some y => simp
  refine ⟨haccepts, hrefuses, hquotes, ?_, ?_⟩
  · intro s x y hx hy
    exact hinj x y (((hspells s x).mp hx).trans ((hspells s y).mp hy).symm)
  · intro s s' hss x
    rw [haccepts, haccepts, hspells, hspells, eq_of_eqvGen halike hss]

/-! ### The three readings -/

theorem Operator.spells_iff (s : String) (op : Operator) :
    op.Spells s ↔ words op.text.toList = (words s.toList).map upper := by
  constructor
  · rintro ⟨ws, hs, hop⟩
    rw [hs.words_eq, hop.words_eq]
  · intro h
    exact ⟨words s.toList, words_eq_iff.mp rfl, words_eq_iff.mp h⟩

/-- A text spells an operator if it is the operator's own text once it is in upper case and has one blank
between any two of its words and none around them. -/
theorem Operator.spells_iff_unwords (s : String) (op : Operator) :
    op.Spells s ↔ upper (unwords (words s.toList)) = op.text.toList := by
  have hown : unwords (words op.text.toList) = op.text.toList := by
    cases op with
    | compare c => cases c <;> decide
    | list t => cases t <;> decide
    | presence p => cases p <;> decide
  rw [Operator.spells_iff]
  constructor
  · intro h
    rw [upper_unwords, ← h, hown]
  · intro h
    rw [← h]
    show words ((unwords (words s.toList)).map Char.toUpper) = _
    rw [words_map isBlank_toUpper, words_unwords]
    rfl

theorem spellsWord_iff (s word : String) :
    SpellsWord s word ↔ SameButCase (trim s.toList) word.toList := by
  constructor
  · rintro ⟨kept, hkept, hcase⟩
    rwa [trim_eq_iff.mpr hkept]
  · intro h
    exact ⟨trim s.toList, trim_trims s.toList, h⟩

/-- Connectives are written in upper case. -/
theorem Connective.spellsWord_iff (s : String) (c : Connective) :
    SpellsWord s c.text ↔ c.text.toList = upper (trim s.toList) := by
  have hcase : upper c.text.toList = c.text.toList := by cases c <;> decide
  rw [SearchClient.spellsWord_iff, ← upper_eq_iff, hcase, eq_comm]

/-- Directions are written in lower case. -/
theorem Direction.spellsWord_iff (s : String) (d : Direction) :
    SpellsWord s d.text ↔ d.text.toList = lower (trim s.toList) := by
  have hcase : lower d.text.toList = d.text.toList := by cases d <;> decide
  rw [SearchClient.spellsWord_iff, SameButCase, hcase, eq_comm]

theorem Operator.read_loosely :
    ReadsLoosely Operator.read (fun s op => op.Spells s) .unknownOperator Respaces := by
  apply ReadsLoosely.of_find Operator.ofText? Operator.all (fun op => words op.text.toList) fun cs =>
    (words cs).map upper
  · intro s
    rw [Operator.read]
    cases Operator.ofText? s with
    | none => rfl
    | some x => rfl
  · intro s
    rfl
  · intro op
    cases op with
    | compare c => cases c <;> decide
    | list t => cases t <;> decide
    | presence p => cases p <;> decide
  · decide
  · exact Operator.spells_iff
  · exact ⟨"Cannot parse where clause: unknown operator '", "'", fun s => rfl⟩
  · intro cs ds h
    exact h.upper_words

theorem Connective.read_loosely :
    ReadsLoosely Connective.read (fun s c => SpellsWord s c.text) .invalidConnective Restyles := by
  apply ReadsLoosely.of_find Connective.ofText? Connective.all (fun c => c.text.toList) fun cs =>
    upper (trim cs)
  · intro s
    rw [Connective.read]
    cases Connective.ofText? s with
    | none => rfl
    | some x => rfl
  · intro s
    rfl
  · intro c
    cases c <;> decide
  · decide
  · exact Connective.spellsWord_iff
  · exact ⟨"Invalid where boolean '", "', expected AND or OR", fun s => rfl⟩
  · intro cs ds h
    exact h.upper_trim

theorem Direction.read_loosely :
    ReadsLoosely Direction.read (fun s d => SpellsWord s d.text) .invalidDirection Restyles := by
  apply ReadsLoosely.of_find Direction.ofText? Direction.all (fun d => d.text.toList) fun cs =>
    lower (trim cs)
  · intro s
    rw [Direction.read]
    cases Direction.ofText? s with
    | none => rfl
    | some x => rfl
  · intro s
    rfl
  · intro d
    cases d <;> decide
  · decide
  · exact Direction.spellsWord_iff
  · exact ⟨"Invalid ordering '", "', expected asc or desc", fun s => rfl⟩
  · intro cs ds h
    exact h.lower_trim

/-- Each of the three readings takes what spells one of its choices, and refuses every other text by
quoting it.  Case and blanks make no difference: around a text for all three, and between the words of an
operator. -/
theorem readings_loose :
    ReadsLoosely Operator.read (fun s op => op.Spells s) .unknownOperator Respaces ∧
      ReadsLoosely Connective.read (fun s c => SpellsWord s c.text) .invalidConnective Restyles ∧
      ReadsLoosely Direction.read (fun s d => SpellsWord s d.text) .invalidDirection Restyles :=
  ⟨Operator.read_loosely, Connective.read_loosely, Direction.read_loosely⟩

example : Operator.read "  is\tNot \u3000Empty" = .ok (.presence .isNotEmpty) := by decide

/-- A long s is no letter of ASCII, though its upper case is. -/
example : Direction.read "de\u017fc" = .error (.invalidDirection "de\u017fc") := by decide

end SearchClient
