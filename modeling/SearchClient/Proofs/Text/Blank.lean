/-
SearchClient/Proofs/Text/Blank.lean

What trimming and splitting come to, said without running them.  `Trims cs kept` says that `kept` stands in
`cs` between blanks and has none at its own ends, and `Splits cs ws` that `cs` is made of the words `ws`, with
blanks between any two of them and perhaps around them.  Each determines its second side, and `trim` and
`words` compute it (`trim_eq_iff`, `words_eq_iff`).  From there on nobody unfolds the recursion of `words`.

Folding the case of ASCII letters makes no blank and removes none, so it can be done before or after either
(`trim_map`, `words_map`).
-/
import Mathlib.Data.List.DropRight
import SearchClient.Proofs.Text
import SearchClient.Text.Blank

namespace SearchClient.Text

/-- The characters are all blank. -/
def Blanks (cs : List Char) : Prop := ∀ c ∈ cs, isBlank c = true

theorem Blanks.append {cs ds : List Char} (hcs : Blanks cs) (hds : Blanks ds) :
    Blanks (cs ++ ds) := by
  intro c hc
  rcases List.mem_append.mp hc with hc | hc
  · exact hcs c hc
  · exact hds c hc

theorem blanks_nil : Blanks [] := by
  intro c hc
  cases hc

/-- A text that is not all blank has a first character that is no blank. -/
theorem exists_first_solid {cs : List Char} (h : ∃ c ∈ cs, isBlank c = false) :
    ∃ gap d rest, cs = gap ++ d :: rest ∧ Blanks gap ∧ isBlank d = false := by
  obtain ⟨c, hc, hsolid⟩ := h
  have hne : cs.dropWhile isBlank ≠ [] := by
    intro hnil
    have hblank := List.dropWhile_eq_nil_iff.mp hnil c hc
    rw [hsolid] at hblank
    cases hblank
  obtain ⟨d, rest, hrest⟩ := List.exists_cons_of_ne_nil hne
  refine ⟨cs.takeWhile isBlank, d, rest, ?_, fun e he => List.mem_takeWhile_imp he, ?_⟩
  · rw [← hrest, List.takeWhile_append_dropWhile]
  · have hstop := List.head?_dropWhile_not isBlank cs
    rwa [hrest] at hstop

/-! ### The end of a text -/

variable {p : Char → Bool} {cs kept : List Char}

/-- What is dropped from the end is a run, and what is kept does not go on with it. -/
theorem dropEndWhile_eq_iff :
    dropEndWhile p cs = kept ↔ ∃ dropped, cs = kept ++ dropped ∧ (∀ c ∈ dropped, p c = true) ∧
      ∀ c ∈ kept.getLast?, p c = false := by
  constructor
  · rintro rfl
    refine ⟨cs.rtakeWhile p, List.rdropWhile_append_rtakeWhile.symm, ?_, ?_⟩
    · intro c hc
      exact List.mem_rtakeWhile_imp hc
    · intro c hc
      obtain ⟨hne, rfl⟩ := List.mem_getLast?_eq_getLast hc
      exact Bool.eq_false_iff.mpr (List.rdropWhile_last_not p cs hne)
  · rintro ⟨dropped, rfl, hdropped, hlast⟩
    have hrun : ∀ c ∈ dropped.reverse, p c = true := fun c hc => hdropped c (List.mem_reverse.mp hc)
    have hstop : ∀ c ∈ kept.reverse.head?, p c = false := by
      rw [List.head?_reverse]
      exact hlast
    rw [dropEndWhile, List.reverse_append, (takeWhile_run hrun kept.reverse hstop).2,
      List.reverse_reverse]

/-! ### Trimming -/

/-- What is kept stands between blanks and has no blank at its ends. -/
structure Trims (cs kept : List Char) : Prop where
  between : ∃ front back, cs = front ++ kept ++ back ∧ Blanks front ∧ Blanks back
  head : ∀ c ∈ kept.head?, isBlank c = false
  last : ∀ c ∈ kept.getLast?, isBlank c = false

theorem trim_trims (cs : List Char) : Trims cs (trim cs) := by
  obtain ⟨back, hback, hblank, hlast⟩ := dropEndWhile_eq_iff.mp (Eq.refl (trim cs))
  have hsplit : cs = cs.takeWhile isBlank ++ trim cs ++ back := by
    rw [List.append_assoc, ← hback, List.takeWhile_append_dropWhile]
  refine ⟨⟨_, back, hsplit, fun c hc => List.mem_takeWhile_imp hc, hblank⟩, ?_, hlast⟩
  intro c hc
  -- the first character that is kept is the first one that is not a blank
  have hhead : c ∈ (cs.dropWhile isBlank).head? := by
    rw [hback, List.head?_append, Option.mem_def.mp hc]
    rfl
  have hstop := List.head?_dropWhile_not isBlank cs
  rw [Option.mem_def.mp hhead] at hstop
  exact hstop

theorem trim_eq_iff : trim cs = kept ↔ Trims cs kept := by
  constructor
  · rintro rfl
    exact trim_trims cs
  · rintro ⟨⟨front, back, rfl, hfront, hback⟩, hhead, hlast⟩
    have hdrop : dropEndWhile isBlank (kept ++ back) = kept :=
      dropEndWhile_eq_iff.mpr ⟨back, rfl, hback, hlast⟩
    rcases kept with - | ⟨c, kept⟩
    · -- nothing is kept, so everything is blank
      have hall : (front ++ [] ++ back).dropWhile isBlank = [] := by
        rw [List.dropWhile_eq_nil_iff, List.append_nil]
        exact hfront.append hback
      rw [trim, hall]
      rfl
    · have hstop : ∀ d ∈ (c :: kept ++ back).head?, isBlank d = false := hhead
      rw [trim, List.append_assoc, (takeWhile_run hfront _ hstop).2, hdrop]

/-- Blanks in front make no difference. -/
theorem trim_blanks_append {gap : List Char} (h : Blanks gap) (cs : List Char) :
    trim (gap ++ cs) = trim cs := by
  obtain ⟨⟨front, back, hsplit, hfront, hback⟩, hhead, hlast⟩ := trim_trims cs
  refine trim_eq_iff.mpr ⟨⟨gap ++ front, back, ?_, h.append hfront, hback⟩, hhead, hlast⟩
  rw [List.append_assoc, List.append_assoc, ← List.append_assoc front, ← hsplit]

/-- Blanks behind make no difference. -/
theorem trim_append_blanks {gap : List Char} (h : Blanks gap) (cs : List Char) :
    trim (cs ++ gap) = trim cs := by
  obtain ⟨⟨front, back, hsplit, hfront, hback⟩, hhead, hlast⟩ := trim_trims cs
  refine trim_eq_iff.mpr ⟨⟨front, back ++ gap, ?_, hfront, hback.append h⟩, hhead, hlast⟩
  rw [← List.append_assoc, ← hsplit]

/-! ### Words -/

/-- The text goes on with a blank, or not at all. -/
def WordEnds (rest : List Char) : Prop := ∀ c ∈ rest.head?, isBlank c = true

/-- The words that a text is made of. -/
inductive Splits : List Char → List (List Char) → Prop
  /-- There is no word left. -/
  | blank {gap : List Char} (h : Blanks gap) : Splits gap []
  /-- After some blanks there is a word, which ends where the next blank is. -/
  | word {gap w rest : List Char} {ws : List (List Char)} (hgap : Blanks gap) (hne : w ≠ [])
      (hword : ∀ c ∈ w, isBlank c = false) (hends : WordEnds rest) (hrest : Splits rest ws) :
      Splits (gap ++ (w ++ rest)) (w :: ws)

/-- Blanks in front belong to the gap before the first word. -/
theorem Splits.blanks_append {gap cs : List Char} {ws : List (List Char)} (hgap : Blanks gap)
    (h : Splits cs ws) : Splits (gap ++ cs) ws := by
  cases h with
  | blank h => exact .blank (hgap.append h)
  | word hgap' hne hword hends hrest =>
    rw [← List.append_assoc]
    exact .word (hgap.append hgap') hne hword hends hrest

/-- Texts with a blank between them have their own words each. -/
theorem Splits.append_blank {cs ds : List Char} {ws vs : List (List Char)} {c : Char}
    (hcs : Splits cs ws) (hc : isBlank c = true) (hds : Splits ds vs) :
    Splits (cs ++ c :: ds) (ws ++ vs) := by
  have hone : Blanks [c] := by simpa [Blanks] using hc
  induction hcs with
  | blank h =>
    rw [List.append_cons]
    exact hds.blanks_append (h.append hone)
  | @word gap w rest ws hgap hne hword hends _ ih =>
    rw [List.append_assoc, List.append_assoc]
    refine .word hgap hne hword ?_ ih
    intro d hd
    -- the word ends in its own text, or at the blank between the two
    cases rest with
    | nil => exact Option.some.inj hd ▸ hc
    | cons e rest => exact hends d hd

theorem words_blanks_append {gap : List Char} (h : Blanks gap) (cs : List Char) :
    words (gap ++ cs) = words cs := by
  induction gap with
  | nil => rfl
  | cons c gap ih =>
    have hc : isBlank c = true := h c List.mem_cons_self
    have hrest : words (gap ++ cs) = words cs := ih fun d hd => h d (List.mem_cons_of_mem c hd)
    rw [List.cons_append, words.eq_def]
    simp only [hc, hrest, if_true]

theorem words_word_append {w rest : List Char} (hne : w ≠ [])
    (hword : ∀ c ∈ w, isBlank c = false) (hends : WordEnds rest) :
    words (w ++ rest) = w :: words rest := by
  induction w with
  | nil => exact absurd rfl hne
  | cons c w ih =>
    have hc : isBlank c = false := hword c List.mem_cons_self
    cases w with
    | nil =>
      cases rest with
      | nil => simp [words, hc]
      | cons d rest =>
        have hd : isBlank d = true := hends d rfl
        simp [words, hc, hd]
    | cons d w =>
      have hd : isBlank d = false := hword d (by simp)
      have hrest : words (d :: (w ++ rest)) = (d :: w) :: words rest :=
        ih (by simp) fun e he => hword e (List.mem_cons_of_mem c he)
      show words (c :: d :: (w ++ rest)) = _
      rw [words.eq_def]
      simp only [hc, hd, hrest, Bool.false_eq_true, if_false]

/-- A text splits in one way at most. -/
theorem Splits.words_eq {ws : List (List Char)} (h : Splits cs ws) : words cs = ws := by
  induction h with
  | @blank gap h =>
    rw [← List.append_nil gap, words_blanks_append h]
    rfl
  | word hgap hne hword hends _ ih =>
    rw [words_blanks_append hgap, words_word_append hne hword hends, ih]

/-- Every text splits. -/
theorem exists_splits (cs : List Char) : ∃ ws, Splits cs ws := by
  induction cs with
  | nil => exact ⟨[], .blank blanks_nil⟩
  | cons c cs ih =>
    obtain ⟨ws, hws⟩ := ih
    cases hc : isBlank c with
    | true =>
      have hone : Blanks [c] := by simpa [Blanks] using hc
      exact ⟨ws, hws.blanks_append hone⟩
    | false =>
      have hone : ∀ d ∈ [c], isBlank d = false := by simpa using hc
      -- the character is a word of its own, or the first one of the word that follows
      cases hws with
      | blank h =>
        refine ⟨[[c]], .word blanks_nil (by simp) hone ?_ (.blank h)⟩
        intro d hd
        exact h d (List.mem_of_mem_head? hd)
      | @word gap w rest ws hgap hne hword hends hrest =>
        rcases gap with - | ⟨g, gap⟩
        · refine ⟨(c :: w) :: ws, .word blanks_nil (List.cons_ne_nil c w) ?_ hends hrest⟩
          intro d hd
          rcases List.mem_cons.mp hd with rfl | hd
          · exact hc
          · exact hword d hd
        · refine ⟨[c] :: w :: ws, .word blanks_nil (by simp) hone ?_
            (.word hgap hne hword hends hrest)⟩
          intro d hd
          exact Option.some.inj hd ▸ hgap g List.mem_cons_self

theorem words_eq_iff {ws : List (List Char)} : words cs = ws ↔ Splits cs ws := by
  constructor
  · rintro rfl
    obtain ⟨ws, hws⟩ := exists_splits cs
    rw [hws.words_eq]
    exact hws
  · exact Splits.words_eq

theorem words_append_blanks {gap : List Char} (h : Blanks gap) (cs : List Char) :
    words (cs ++ gap) = words cs := by
  cases gap with
  | nil => rw [List.append_nil]
  | cons c gap =>
    have hsplit := (words_eq_iff.mp (Eq.refl (words cs))).append_blank (h c List.mem_cons_self)
      (.blank fun d hd => h d (List.mem_cons_of_mem c hd))
    rw [hsplit.words_eq, List.append_nil]

/-- How many blanks there are between two words makes no difference, as long as there is one. -/
theorem words_gap {gap : List Char} (h : Blanks gap) (hne : gap ≠ []) (cs ds : List Char) :
    words (cs ++ gap ++ ds) = words cs ++ words ds := by
  obtain ⟨c, gap, rfl⟩ := List.exists_cons_of_ne_nil hne
  have hrest : Splits (gap ++ ds) (words ds) :=
    (words_eq_iff.mp rfl).blanks_append fun d hd => h d (List.mem_cons_of_mem c hd)
  have hsplit := (words_eq_iff.mp (Eq.refl (words cs))).append_blank (h c List.mem_cons_self) hrest
  rw [List.append_assoc, List.cons_append, hsplit.words_eq]

/-! ### Single blanks -/

/-- The words with one blank between any two of them. -/
def unwords (ws : List (List Char)) : List Char := [' '].intercalate ws

theorem unwords_cons_cons (w v : List Char) (ws : List (List Char)) :
    unwords (w :: v :: ws) = w ++ ([' '] ++ unwords (v :: ws)) := by
  rw [unwords, List.intercalate_cons_cons, List.append_assoc]
  rfl

theorem Splits.unwords {ws : List (List Char)} (h : Splits cs ws) : Splits (unwords ws) ws := by
  induction h with
  | blank _ => exact .blank blanks_nil
  | @word gap w rest ws _ hne hword _ _ ih =>
    cases ws with
    | nil =>
      have hone : Splits ([] ++ (w ++ [])) [w] :=
        .word blanks_nil hne hword (by simp [WordEnds]) (.blank blanks_nil)
      simpa [Text.unwords] using hone
    | cons v ws =>
      have hblank : isBlank ' ' = true := by decide
      have hends : WordEnds ([' '] ++ Text.unwords (v :: ws)) := by simpa [WordEnds] using hblank
      have hrest : Splits ([' '] ++ Text.unwords (v :: ws)) (v :: ws) :=
        ih.blanks_append (by simpa [Blanks] using hblank)
      rw [unwords_cons_cons]
      exact .word blanks_nil hne hword hends hrest

theorem words_unwords (cs : List Char) : words (unwords (words cs)) = words cs :=
  (words_eq_iff.mp (Eq.refl (words cs))).unwords.words_eq

/-! ### Changing characters -/

variable {f : Char → Char}

/-- Where blanks stay blanks and no others come up, a trimmed text can be changed after it was trimmed. -/
theorem Trims.map (hf : ∀ c, isBlank (f c) = isBlank c) (h : Trims cs kept) :
    Trims (cs.map f) (kept.map f) := by
  obtain ⟨⟨front, back, rfl, hfront, hback⟩, hhead, hlast⟩ := h
  refine ⟨⟨front.map f, back.map f, by simp, ?_, ?_⟩, ?_, ?_⟩
  · simpa [Blanks, hf] using hfront
  · simpa [Blanks, hf] using hback
  · simpa [hf] using hhead
  · simpa [hf] using hlast

/-- Where blanks stay blanks and no others come up, the words are changed one by one. -/
theorem Splits.map (hf : ∀ c, isBlank (f c) = isBlank c) {ws : List (List Char)}
    (h : Splits cs ws) : Splits (cs.map f) (ws.map (List.map f)) := by
  induction h with
  | blank h => exact .blank (by simpa [Blanks, hf] using h)
  | word hgap hne hword hends _ ih =>
    rw [List.map_append, List.map_append]
    refine .word ?_ ?_ ?_ ?_ ih
    · simpa [Blanks, hf] using hgap
    · simpa using hne
    · simpa [hf] using hword
    · simpa [WordEnds, hf] using hends

theorem trim_map (hf : ∀ c, isBlank (f c) = isBlank c) (cs : List Char) :
    trim (cs.map f) = (trim cs).map f :=
  trim_eq_iff.mpr ((trim_trims cs).map hf)

theorem words_map (hf : ∀ c, isBlank (f c) = isBlank c) (cs : List Char) :
    words (cs.map f) = (words cs).map (List.map f) :=
  words_eq_iff.mpr ((words_eq_iff.mp rfl).map hf)

/-! ### Case -/

theorem upper_unwords (ws : List (List Char)) : upper (unwords ws) = unwords (ws.map upper) := by
  have hblank : upper [' '] = [' '] := by decide
  induction ws with
  | nil => rfl
  | cons w ws ih =>
    cases ws with
    | nil => simp [unwords]
    | cons v ws =>
      have happend : ∀ cs ds : List Char, upper (cs ++ ds) = upper cs ++ upper ds := fun _ _ =>
        List.map_append
      show upper (unwords (w :: v :: ws)) = unwords (upper w :: upper v :: ws.map upper)
      rw [unwords_cons_cons, unwords_cons_cons, happend, happend, hblank, ih]
      rfl

theorem toNat_toUpper (c : Char) :
    c.toUpper.toNat = if 97 ≤ c.toNat ∧ c.toNat ≤ 122 then c.toNat - 32 else c.toNat := by
  have hiff : ('a'.val ≤ c.val ∧ c.val ≤ 'z'.val) ↔ (97 ≤ c.toNat ∧ c.toNat ≤ 122) := Iff.rfl
  unfold Char.toUpper
  by_cases h : 97 ≤ c.toNat ∧ c.toNat ≤ 122
  · rw [dif_pos (hiff.mpr h), if_pos h]
    show (c.val + ('A'.val - 'a'.val)).toNat = c.val.toNat - 32
    have hval : 97 ≤ c.val.toNat := h.1
    have hshift : ('A'.val - 'a'.val).toNat = 4294967264 := rfl
    have hlt : c.val.toNat < 4294967296 := c.val.toNat_lt
    rw [UInt32.toNat_add, hshift]
    omega
  · rw [dif_neg (mt hiff.mp h), if_neg h]

theorem toNat_toLower (c : Char) :
    c.toLower.toNat = if 65 ≤ c.toNat ∧ c.toNat ≤ 90 then c.toNat + 32 else c.toNat := by
  have hiff : ('A'.val ≤ c.val ∧ c.val ≤ 'Z'.val) ↔ (65 ≤ c.toNat ∧ c.toNat ≤ 90) := Iff.rfl
  unfold Char.toLower
  by_cases h : 65 ≤ c.toNat ∧ c.toNat ≤ 90
  · rw [dif_pos (hiff.mpr h), if_pos h]
    show (c.val + ('a'.val - 'A'.val)).toNat = c.val.toNat + 32
    have hval : c.val.toNat ≤ 90 := h.2
    have hshift : ('a'.val - 'A'.val).toNat = 32 := rfl
    rw [UInt32.toNat_add, hshift]
    omega
  · rw [dif_neg (mt hiff.mp h), if_neg h]

/-- None of the characters from `A` to `z` is a blank. -/
theorem isBlank_eq_false {c : Char} (h : 65 ≤ c.toNat ∧ c.toNat ≤ 122) : isBlank c = false := by
  apply Bool.eq_false_iff.mpr
  intro hblank
  obtain ⟨r, hr, hin⟩ := List.any_eq_true.mp hblank
  have hranges : ∀ r ∈ blankRanges, r.2 < 65 ∨ 122 < r.1 := by decide
  have hout := hranges r hr
  simp only [Bool.and_eq_true, decide_eq_true_eq] at hin
  omega

theorem isBlank_toUpper (c : Char) : isBlank c.toUpper = isBlank c := by
  have hnat := toNat_toUpper c
  split at hnat
  · rw [isBlank_eq_false (by omega), isBlank_eq_false (by omega)]
  · rw [Char.toNat_inj.mp hnat]

theorem isBlank_toLower (c : Char) : isBlank c.toLower = isBlank c := by
  have hnat := toNat_toLower c
  split at hnat
  · rw [isBlank_eq_false (by omega), isBlank_eq_false (by omega)]
  · rw [Char.toNat_inj.mp hnat]

/-- The texts differ in the case of ASCII letters at most. -/
def SameButCase (cs ds : List Char) : Prop := lower cs = lower ds

/-- Two letters are the same in upper case if they are the same in lower case. -/
theorem toUpper_eq_iff (c d : Char) : c.toUpper = d.toUpper ↔ c.toLower = d.toLower := by
  rw [← Char.toNat_inj, ← Char.toNat_inj, toNat_toUpper, toNat_toUpper, toNat_toLower, toNat_toLower]
  split <;> split <;> split <;> split <;> omega

theorem upper_eq_iff {cs ds : List Char} : upper cs = upper ds ↔ SameButCase cs ds := by
  unfold SameButCase upper lower
  induction cs generalizing ds with
  | nil => simp
  | cons c cs ih =>
    cases ds with
    | nil => simp
    | cons d ds => simp only [List.map_cons, List.cons.injEq, toUpper_eq_iff, ih]

end SearchClient.Text
