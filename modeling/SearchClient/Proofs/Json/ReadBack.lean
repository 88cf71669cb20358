/-
SearchClient/Proofs/Json/ReadBack.lean

JSON text is read back.  What comes back from the text of an exact value is that value with the members
of its objects in the order of their names; nothing else changes.

The argument follows the reader: each reader takes the text of a value, of items or of members off the
front and leaves what follows, given fuel for the characters of that text (`readValue_chars`).

Main result: `ofText?_text`.
-/
import SearchClient.Proofs.Json.Number

namespace SearchClient.Json

open Number

/-! ### Strings -/

/-- Without four hexadecimal digits there is no escaped unit. -/
theorem readInside_unit_none {a b c d : Char} (h : unit? a b c d = none) (rest : List Char) :
    readInside ('\\' :: 'u' :: a :: b :: c :: d :: rest) = none := by
  by_cases hnext : ∃ e f g h r, rest = '\\' :: 'u' :: e :: f :: g :: h :: r
  · obtain ⟨e, f, g, h', r, rfl⟩ := hnext
    rw [readInside, h]
    rfl
  · rw [readInside, h]
    · rfl
    · intro e f g h' r hr
      exact hnext ⟨e, f, g, h', r, hr⟩

/-- A unit that is not half of a character is that character. -/
theorem readInside_unit {a b c d : Char} {code : Nat} (h : unit? a b c d = some code)
    (hcode : code < 0xD800) (rest : List Char) :
    readInside ('\\' :: 'u' :: a :: b :: c :: d :: rest) =
      (readInside rest).map fun r => (Char.ofNat code :: r.1, r.2) := by
  have hsingle : single? code = some (Char.ofNat code) := by
    rw [single?, if_neg (by omega)]
  by_cases hnext : ∃ e f g h r, rest = '\\' :: 'u' :: e :: f :: g :: h :: r
  · obtain ⟨e, f, g, h', r, rfl⟩ := hnext
    rw [readInside, h]
    cases hsecond : unit? e f g h' with
    | none =>
      rw [readInside_unit_none hsecond]
      rfl
    | some second =>
      have hpair : pair? code second = none := by
        rw [pair?, if_neg (by omega)]
      simp only [Option.bind_eq_bind, Option.bind_some, hpair, hsingle]
      exact Option.map_eq_bind.symm
  · rw [readInside, h]
    · simp only [Option.bind_eq_bind, Option.bind_some, hsingle]
      exact Option.map_eq_bind.symm
    · intro e f g h' r hr
      exact hnext ⟨e, f, g, h', r, hr⟩

/-- A backslash and a letter. -/
theorem readInside_simple {c x : Char} (h : simpleEscape? c = some x) (rest : List Char) :
    readInside ('\\' :: c :: rest) = (readInside rest).map fun r => (x :: r.1, r.2) := by
  have hc : c ≠ 'u' := by
    rintro rfl
    cases h
  rw [readInside]
  · simp only [h, Option.bind_eq_bind, Option.bind_some]
    exact Option.map_eq_bind.symm
  · intros
    contradiction
  · intros
    contradiction

theorem unit?_control : ∀ n < 0x20, unit? '0' '0' (hexDigit (n / 16)) (hexDigit n) = some n := by
  decide

/-- An escaped character is read back. -/
theorem readInside_escapeChar (c : Char) (rest : List Char) :
    readInside (escapeChar c ++ rest) = (readInside rest).map fun r => (c :: r.1, r.2) := by
  rw [escapeChar]
  split_ifs with hquote hback hb hf hn hr ht hcontrol
  · subst hquote; exact readInside_simple (by decide) rest
  · subst hback; exact readInside_simple (by decide) rest
  · subst hb; exact readInside_simple (by decide) rest
  · subst hf; exact readInside_simple (by decide) rest
  · subst hn; exact readInside_simple (by decide) rest
  · subst hr; exact readInside_simple (by decide) rest
  · subst ht; exact readInside_simple (by decide) rest
  · have hunit := readInside_unit (unit?_control c.toNat hcontrol) (by omega) rest
    rw [Char.ofNat_toNat] at hunit
    exact hunit
  · show readInside (c :: rest) = _
    rw [readInside]
    · rw [if_neg hcontrol]
      exact Option.map_eq_bind.symm
    · exact hquote
    · intros
      contradiction
    · intros
      contradiction
    · intros
      contradiction

theorem readInside_escaped (cs rest : List Char) :
    readInside (cs.flatMap escapeChar ++ '"' :: rest) = some (cs, rest) := by
  induction cs with
  | nil => rw [List.flatMap_nil, List.nil_append, readInside]
  | cons c cs ih =>
    rw [List.flatMap_cons, List.append_assoc, readInside_escapeChar, ih]
    rfl

/-- A quoted string is read back. -/
theorem readString_quoted (s : String) (rest : List Char) :
    readString (quoted s ++ rest) = some (s, rest) := by
  have htext : quoted s ++ rest = '"' :: (s.toList.flatMap escapeChar ++ '"' :: rest) := by
    simp [quoted]
  rw [htext, readString, readInside_escaped, Option.map_some, String.ofList_toList]

/-! ### The front of a text -/

/-- The characters that a value can start with. -/
def starts (c : Char) : Bool := c.isDigit || c ∈ ['-', 'n', 't', 'f', '"', '[', '\x7b']

/-- Nothing that continues a value follows. -/
def ValueEnds (rest : List Char) : Prop := ∀ c ∈ rest.head?, c = ',' ∨ c = ']' ∨ c = '\x7d'

theorem ValueEnds.numberEnds {rest : List Char} (h : ValueEnds rest) : NumberEnds rest := by
  intro c hc
  rcases h c hc with rfl | rfl | rfl
  · decide
  · decide
  · decide

theorem ne_of_starts {c d : Char} (hc : starts c = true) (hd : starts d = false) : c ≠ d := by
  rintro rfl
  rw [hc] at hd
  cases hd

/-- No white space stands before a value. -/
theorem skipSpace_of_starts {c : Char} (hc : starts c = true) (cs : List Char) :
    skipSpace (c :: cs) = c :: cs := by
  have hblank : (c = ' ' || c = '\t' || c = '\n' || c = '\r') = false := by
    simp [ne_of_starts hc (d := ' ') rfl, ne_of_starts hc (d := '\t') rfl,
      ne_of_starts hc (d := '\n') rfl, ne_of_starts hc (d := '\r') rfl]
  rw [skipSpace, List.dropWhile_cons_of_neg (by simp [hblank])]

theorem Numeral.starts_chars (n : Numeral) :
    ∃ c cs, n.chars = c :: cs ∧ (c.isDigit = true ∨ c = '-') := by
  obtain ⟨c, cs, hwhole⟩ := List.exists_cons_of_ne_nil n.whole_ne_nil
  rw [Numeral.chars]
  split
  · exact ⟨_, _, rfl, .inr rfl⟩
  · rw [Numeral.bodyChars, hwhole]
    exact ⟨c, _, rfl, .inl (n.whole_digits c (by simp [hwhole]))⟩

theorem starts_of_number {c : Char} (hc : c.isDigit = true ∨ c = '-') : starts c = true := by
  rcases hc with hc | rfl
  · simp [starts, hc]
  · rfl

/-- A numeral in the place of a value. -/
theorem readValue_numeral (n : Numeral) {fuel : Nat} {rest : List Char} (hrest : ValueEnds rest) :
    readValue (fuel + 1) (n.chars ++ rest) = n.value?.map (·, rest) := by
  rw [← n.readNumber_chars hrest.numberEnds]
  obtain ⟨c, cs, hchars, hc⟩ := n.starts_chars
  -- none of the characters that start another kind of value
  have hother : ∀ d : Char, d.isDigit = false → d ≠ '-' → c ≠ d := by
    rintro d hdigit hsign rfl
    rcases hc with hc | hc
    · rw [hc] at hdigit
      cases hdigit
    · exact hsign hc
  rw [hchars, List.cons_append, readValue, skipSpace_of_starts (starts_of_number hc)]
  split
  any_goals
    rename_i heq
    exact absurd (List.cons.inj heq).1 (hother _ rfl (by decide))
  rfl

/-- Every text of a value starts like a value. -/
theorem starts_chars {j : Json} (hj : j.Exact) : ∃ c cs, chars j = c :: cs ∧ starts c = true := by
  have hnumeral : ∀ n : Numeral, chars j = n.chars → ∃ c cs, chars j = c :: cs ∧ starts c = true := by
    intro n hn
    obtain ⟨c, cs, hchars, hc⟩ := n.starts_chars
    exact ⟨c, cs, hn.trans hchars, starts_of_number hc⟩
  match j with
  | .null => exact ⟨_, _, rfl, rfl⟩
  | .bool true => exact ⟨_, _, rfl, rfl⟩
  | .bool false => exact ⟨_, _, rfl, rfl⟩
  | .int i =>
    obtain ⟨n, hn, -⟩ := exists_numeral_int hj
    exact hnumeral n hn
  | .float x =>
    obtain ⟨n, hn, -⟩ := exists_numeral_float hj
    exact hnumeral n hn
  | .str s => exact ⟨_, _, rfl, rfl⟩
  | .arr items => exact ⟨_, _, rfl, rfl⟩
  | .obj members => exact ⟨_, _, rfl, rfl⟩

theorem starts_itemChars {j : Json} (hj : j.Exact) (js : List Json) :
    ∃ c cs, itemChars (j :: js) = c :: cs ∧ starts c = true := by
  obtain ⟨c, cs, hchars, hc⟩ := starts_chars hj
  cases js with
  | nil => exact ⟨c, cs, hchars, hc⟩
  | cons j' js =>
    refine ⟨c, cs ++ ',' :: itemChars (j' :: js), ?_, hc⟩
    rw [itemChars, hchars]
    · rfl
    · intro h
      cases h

theorem starts_memberChars (m : String × Json) (ms : List (String × Json)) :
    ∃ cs, memberChars (m :: ms) = '"' :: cs := by
  obtain ⟨k, j⟩ := m
  cases ms with
  | nil => exact ⟨_, rfl⟩
  | cons m' ms => exact ⟨_, rfl⟩

theorem readString_skipSpace (s : String) (rest : List Char) :
    readString (skipSpace (quoted s ++ rest)) = some (s, rest) := readString_quoted s rest

/-- A string in the place of a value. -/
theorem readValue_quoted (s : String) (fuel : Nat) (rest : List Char) :
    readValue (fuel + 1) (quoted s ++ rest) = some (.str s, rest) := by
  have hquoted := readString_quoted s rest
  rw [quoted, List.cons_append] at hquoted ⊢
  rw [readValue, skipSpace_of_starts rfl]
  show (readString ('"' :: _)).map _ = _
  rw [hquoted]
  rfl

/-- Brackets around items that are read. -/
theorem readValue_array {j : Json} {js items : List Json} {fuel : Nat} {rest : List Char}
    (hj : j.Exact) (h : readItems fuel (itemChars (j :: js) ++ ']' :: rest) = some (items, rest)) :
    readValue (fuel + 1) (chars (.arr (j :: js)) ++ rest) = some (.arr items, rest) := by
  have htext : chars (.arr (j :: js)) ++ rest = '[' :: (itemChars (j :: js) ++ ']' :: rest) := by
    simp [chars]
  obtain ⟨c, cs, hchars, hc⟩ := starts_itemChars hj js
  rw [htext, readValue, skipSpace_of_starts rfl]
  rw [hchars, List.cons_append] at h ⊢
  simp only [skipSpace_of_starts hc]
  split
  · -- an item does not start with the closing bracket
    next heq =>
    obtain rfl := (List.cons.inj heq).1
    cases hc
  · rw [h]
    rfl

/-- Braces around members that are read. -/
theorem readValue_object {m : String × Json} {ms : List (String × Json)} {members : Table Json}
    {fuel : Nat} {rest : List Char}
    (h : readMembers fuel [] (memberChars (m :: ms) ++ '\x7d' :: rest) = some (members, rest)) :
    readValue (fuel + 1) (chars (.obj (m :: ms)) ++ rest) = some (.obj members, rest) := by
  have htext : chars (.obj (m :: ms)) ++ rest =
      '\x7b' :: (memberChars (m :: ms) ++ '\x7d' :: rest) := by
    simp [chars]
  obtain ⟨cs, hchars⟩ := starts_memberChars m ms
  rw [htext, readValue, skipSpace_of_starts rfl]
  rw [hchars, List.cons_append] at h ⊢
  show (readMembers fuel [] ('"' :: (cs ++ '\x7d' :: rest))).map _ = _
  rw [h]
  rfl

/-! ### Reading back -/

mutual

/-- The text of a value is taken off the front. -/
theorem readValue_chars : ∀ (j : Json) (fuel : Nat) (rest : List Char), j.Exact →
    (chars j).length ≤ fuel → ValueEnds rest →
    readValue fuel (chars j ++ rest) = some (j.settled, rest)
  | j, 0, rest, hj, hfuel, _ => by
    -- no text is empty
    obtain ⟨c, cs, hchars, -⟩ := starts_chars hj
    rw [hchars] at hfuel
    cases hfuel
  | .null, fuel + 1, rest, _, _, _ => by
    show readValue (fuel + 1) ('n' :: 'u' :: 'l' :: 'l' :: rest) = _
    rw [readValue, skipSpace_of_starts rfl]
    rfl
  | .bool true, fuel + 1, rest, _, _, _ => by
    show readValue (fuel + 1) ('t' :: 'r' :: 'u' :: 'e' :: rest) = _
    rw [readValue, skipSpace_of_starts rfl]
    rfl
  | .bool false, fuel + 1, rest, _, _, _ => by
    show readValue (fuel + 1) ('f' :: 'a' :: 'l' :: 's' :: 'e' :: rest) = _
    rw [readValue, skipSpace_of_starts rfl]
    rfl
  | .int i, fuel + 1, rest, hj, _, hrest => by
    obtain ⟨n, hchars, hvalue⟩ := exists_numeral_int hj
    rw [hchars, readValue_numeral n hrest, hvalue]
    rfl
  | .float x, fuel + 1, rest, hj, _, hrest => by
    obtain ⟨n, hchars, hvalue⟩ := exists_numeral_float hj
    rw [hchars, readValue_numeral n hrest, hvalue]
    rfl
  | .str s, fuel + 1, rest, _, _, _ => readValue_quoted s fuel rest
  | .arr [], fuel + 1, rest, _, _, _ => by
    show readValue (fuel + 1) ('[' :: ']' :: rest) = _
    rw [readValue, skipSpace_of_starts rfl]
    rfl
  | .arr (j :: js), fuel + 1, rest, hj, hfuel, _ => by
    have hlength : (itemChars (j :: js)).length < fuel := by
      simp only [chars, List.length_cons, List.length_append, List.length_nil] at hfuel
      omega
    exact readValue_array hj.1 (readItems_chars j js fuel rest hj hlength)
  | .obj [], fuel + 1, rest, _, _, _ => by
    show readValue (fuel + 1) ('\x7b' :: '\x7d' :: rest) = _
    rw [readValue, skipSpace_of_starts rfl]
    rfl
  | .obj (m :: ms), fuel + 1, rest, hj, hfuel, _ => by
    have hlength : (memberChars (m :: ms)).length < fuel := by
      simp only [chars, List.length_cons, List.length_append, List.length_nil] at hfuel
      omega
    exact readValue_object (readMembers_chars m ms fuel rest [] hj hlength)

/-- The texts of the items of an array are taken off the front, up to the closing bracket. -/
theorem readItems_chars : ∀ (j : Json) (js : List Json) (fuel : Nat) (rest : List Char),
    ExactItems (j :: js) → (itemChars (j :: js)).length < fuel →
    readItems fuel (itemChars (j :: js) ++ ']' :: rest) = some (settledItems (j :: js), rest)
  | j, [], fuel + 1, rest, hj, hfuel => by
    have hvalue := readValue_chars j fuel (']' :: rest) hj.1 (Nat.le_of_lt_succ hfuel)
      (fun c hc => .inr (.inl (Option.some.inj hc).symm))
    show readItems (fuel + 1) (chars j ++ ']' :: rest) = _
    rw [readItems, hvalue]
    rfl
  | j, j' :: js, fuel + 1, rest, hj, hfuel => by
    have htext : itemChars (j :: j' :: js) = chars j ++ ',' :: itemChars (j' :: js) := by
      rw [itemChars]
      intro h
      cases h
    rw [htext, List.length_append, List.length_cons] at hfuel
    have hvalue := readValue_chars j fuel (',' :: (itemChars (j' :: js) ++ ']' :: rest)) hj.1 (by omega)
      (fun c hc => .inl (Option.some.inj hc).symm)
    have hitems := readItems_chars j' js fuel rest hj.2 (by omega)
    rw [htext, List.append_assoc, List.cons_append, readItems, hvalue]
    show (readItems fuel (itemChars (j' :: js) ++ ']' :: rest)).bind _ = _
    rw [hitems]
    rfl

/-- The texts of the members of an object are taken off the front, up to the closing brace. -/
theorem readMembers_chars : ∀ (m : String × Json) (ms : List (String × Json)) (fuel : Nat)
    (rest : List Char) (known : Table Json),
    ExactMembers (m :: ms) → (memberChars (m :: ms)).length < fuel →
    readMembers fuel known (memberChars (m :: ms) ++ '\x7d' :: rest) =
      some (known.putAll (settledMembers (m :: ms)), rest)
  | (k, j), [], fuel + 1, rest, known, hj, hfuel => by
    have htext : memberChars [(k, j)] ++ '\x7d' :: rest =
        quoted k ++ ':' :: (chars j ++ '\x7d' :: rest) := by
      simp [memberChars]
    have hlength : (chars j).length ≤ fuel := by
      simp only [memberChars, List.length_append, List.length_cons] at hfuel
      omega
    have hname := readString_skipSpace k (':' :: (chars j ++ '\x7d' :: rest))
    have hvalue := readValue_chars j fuel ('\x7d' :: rest) hj.1 hlength
      (fun c hc => .inr (.inr (Option.some.inj hc).symm))
    rw [htext, readMembers, hname]
    show (readValue fuel (chars j ++ '\x7d' :: rest)).bind _ = _
    rw [hvalue]
    rfl
  | (k, j), m :: ms, fuel + 1, rest, known, hj, hfuel => by
    have htext : memberChars ((k, j) :: m :: ms) ++ '\x7d' :: rest =
        quoted k ++ ':' :: (chars j ++ ',' :: (memberChars (m :: ms) ++ '\x7d' :: rest)) := by
      simp [memberChars]
    have hlength : (chars j).length ≤ fuel ∧ (memberChars (m :: ms)).length < fuel := by
      simp only [memberChars, List.length_append, List.length_cons] at hfuel
      omega
    have hname := readString_skipSpace k
      (':' :: (chars j ++ ',' :: (memberChars (m :: ms) ++ '\x7d' :: rest)))
    have hvalue := readValue_chars j fuel (',' :: (memberChars (m :: ms) ++ '\x7d' :: rest)) hj.1
      hlength.1 (fun c hc => .inl (Option.some.inj hc).symm)
    have hmembers := readMembers_chars m ms fuel rest (known.put k j.settled) hj.2 hlength.2
    rw [htext, readMembers, hname]
    show (readValue fuel (chars j ++ ',' :: (memberChars (m :: ms) ++ '\x7d' :: rest))).bind _ = _
    rw [hvalue]
    show readMembers fuel (known.put k j.settled) (memberChars (m :: ms) ++ '\x7d' :: rest) = _
    rw [hmembers]
    rfl

end

/-- A value is read back from its text, with the members of its objects in order. -/
theorem ofText?_text {j : Json} (hj : j.Exact) : ofText? j.text = some j.settled := by
  have hchars : j.text.toList = chars j := String.toList_ofList
  have hvalue := readValue_chars j ((chars j).length + 1) [] hj (Nat.le_succ _) (by simp [ValueEnds])
  rw [List.append_nil] at hvalue
  rw [ofText?, hchars, hvalue]
  rfl

end SearchClient.Json
