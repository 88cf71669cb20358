/-
SearchClient/Proofs/Filter/Token.lean

The words of the filter language.  A text is cut into tokens from the left: quoted literals,
numbers, comparison signs, keywords and marks.  Blanks between tokens say nothing, and a number, a
keyword or a sign reaches as far as the characters that it is made of go.

The reading side is written down on its own, without a look at how expressions are written, so
that the two can be compared.  The lemmas at the end say what `scan` does with a spelled token in
front of an arbitrary rest.  A quoted literal and a mark end by themselves (`scan_quote`,
`scan_mark`); a word needs a rest that does not continue it, which is what `WordEnds` says.
-/
import SearchClient.Filter.Expression
import SearchClient.Proofs.Text

namespace SearchClient.Grammar

open Text

/-! ### Numbers -/

/-- One or more digits. -/
def isDigits (cs : List Char) : Bool := cs ≠ [] && cs.all Char.isDigit

/-- Digits, perhaps with a point and more digits. -/
def isUnsigned (cs : List Char) : Bool :=
  cs.takeWhile Char.isDigit ≠ [] &&
    match cs.dropWhile Char.isDigit with
    | [] => true
    | c :: places => c = '.' && isDigits places

/-- The text of a number: there may be a minus sign, and there is no exponent. -/
def isNumeral : List Char → Bool
  | '-' :: cs => isUnsigned cs
  | cs => isUnsigned cs

/-! ### Tokens -/

inductive Keyword where
  | and | or | not | member | is | empty | null
  | flag (b : Bool)
deriving DecidableEq

namespace Keyword

def chars : Keyword → List Char
  | .and => ['A', 'N', 'D']
  | .or => ['O', 'R']
  | .not => ['N', 'O', 'T']
  | .member => ['I', 'N']
  | .is => ['I', 'S']
  | .empty => ['E', 'M', 'P', 'T', 'Y']
  | .null => ['N', 'U', 'L', 'L']
  | .flag true => ['t', 'r', 'u', 'e']
  | .flag false => ['f', 'a', 'l', 's', 'e']

def all : List Keyword :=
  [.and, .or, .not, .member, .is, .empty, .null, .flag true, .flag false]

end Keyword

/-- The marks that enclose groups and lists, and the one between the values of a list. -/
inductive Mark where
  | openGroup | closeGroup | openList | closeList | comma
deriving DecidableEq

namespace Mark

def char : Mark → Char
  | .openGroup => '('
  | .closeGroup => ')'
  | .openList => '['
  | .closeList => ']'
  | .comma => ','

def all : List Mark := [.openGroup, .closeGroup, .openList, .closeList, .comma]

end Mark

inductive Token where
  /-- What a quoted literal says. -/
  | quoted (s : List Char)
  | number (digits : List Char)
  | comparison (c : Comparison)
  | keyword (k : Keyword)
  | mark (m : Mark)
deriving DecidableEq

/-! ### Scanning -/

/-- The characters of keywords and numbers. -/
def isWordChar (c : Char) : Bool := c.isAlphanum || c = '-' || c = '.'

/-- The characters of comparison signs. -/
def isSignChar (c : Char) : Bool := c = '=' || c = '!' || c = '<' || c = '>'

/-- The keyword or the number that a run of word characters spells. -/
def wordToken? (w : List Char) : Option Token :=
  match Keyword.all.find? fun k => k.chars = w with
  | some k => some (.keyword k)
  | none => if isNumeral w then some (.number w) else none

def signChars : Comparison → List Char
  | .eq => ['=']
  | .ne => ['!', '=']
  | .gt => ['>']
  | .ge => ['>', '=']
  | .lt => ['<']
  | .le => ['<', '=']

/-- The comparison that a run of sign characters spells. -/
def signToken? (w : List Char) : Option Token :=
  ([Comparison.eq, .ne, .gt, .ge, .lt, .le].find? fun c => signChars c = w).map .comparison

/-- The token at the front of a text that does not start with a blank, and what follows it. -/
def next? : List Char → Option (Token × List Char)
  | [] => none
  | c :: cs =>
    if c = '\'' then (Quoted.scanInside cs).map fun r => (.quoted r.1, r.2)
    else match Mark.all.find? fun m => m.char = c with
      | some m => some (.mark m, cs)
      | none =>
        if isSignChar c then
          (signToken? (c :: cs.takeWhile isSignChar)).map (·, cs.dropWhile isSignChar)
        else (wordToken? (c :: cs.takeWhile isWordChar)).map (·, cs.dropWhile isWordChar)

theorem scanInside_length {cs rest s : List Char} (h : Quoted.scanInside cs = some (s, rest)) :
    rest.length < cs.length := by
  fun_induction Quoted.scanInside cs generalizing s with
  | case1 => simp at h
  | case2 r =>
    obtain ⟨-, rfl⟩ := by simpa using h
    simp
  | case3 => simp at h
  | case4 c r ih | case5 c r _ _ _ ih =>
    obtain ⟨r', hr, hs⟩ := Option.map_eq_some_iff.mp h
    obtain ⟨-, rfl⟩ := Prod.mk.injEq .. ▸ hs
    have := ih hr
    simp only [List.length_cons]
    omega

/-- Every token takes at least one character. -/
theorem next?_length {cs rest : List Char} {t : Token} (h : next? cs = some (t, rest)) :
    rest.length < cs.length := by
  rcases cs with - | ⟨c, cs⟩
  · simp [next?] at h
  · have dropped : ∀ p : Char → Bool, (cs.dropWhile p).length < (c :: cs).length := fun p =>
      Nat.lt_succ_of_le (List.dropWhile_suffix p).length_le
    simp only [next?] at h
    split at h
    · obtain ⟨⟨s, r⟩, hr, hs⟩ := Option.map_eq_some_iff.mp h
      obtain ⟨-, rfl⟩ := Prod.mk.injEq .. ▸ hs
      exact Nat.lt_succ_of_lt (scanInside_length hr)
    · split at h
      · obtain ⟨-, rfl⟩ := by simpa using h
        simp
      · split at h
        all_goals
          obtain ⟨t', -, hs⟩ := Option.map_eq_some_iff.mp h
          obtain ⟨-, rfl⟩ := Prod.mk.injEq .. ▸ hs
          exact dropped _

/-- The tokens of a text, if it is made of tokens and blanks. -/
def scan : List Char → Option (List Token)
  | [] => some []
  | c :: cs =>
    if c = ' ' then scan cs
    else match h : next? (c :: cs) with
      | some (t, rest) =>
        have := next?_length h
        (scan rest).map (t :: ·)
      | none => none
termination_by cs => cs.length
decreasing_by
  · exact Nat.lt_succ_self cs.length
  · exact this

/-! ### Scanning what is spelled -/

@[simp] theorem scan_nil : scan [] = some [] := by rw [scan]

@[simp] theorem scan_blank (cs : List Char) : scan (' ' :: cs) = scan cs := by
  rw [scan, if_pos rfl]

theorem scan_of_next? {c : Char} {cs rest : List Char} {t : Token} (hc : c ≠ ' ')
    (h : next? (c :: cs) = some (t, rest)) :
    scan (c :: cs) = (scan rest).map (t :: ·) := by
  rw [scan, if_neg hc]
  split
  · next t' rest' h' =>
    rw [h] at h'
    obtain ⟨rfl, rfl⟩ := Prod.mk.injEq .. ▸ Option.some.inj h'
    rfl
  · next h' => rw [h] at h'; cases h'

theorem scan_quote (s rest : List Char) :
    scan (Quoted.quote s ++ rest) = (scan rest).map (.quoted s :: ·) := by
  refine scan_of_next? (by decide) ?_
  simp [next?, Quoted.scanInside_escape]

theorem scan_mark (m : Mark) {c : Char} (hc : m.char = c) (rest : List Char) :
    scan (c :: rest) = (scan rest).map (.mark m :: ·) := by
  subst hc
  refine scan_of_next? (by cases m <;> decide) ?_
  cases m <;> rfl

/-- The text does not go on with a character of a word. -/
def WordEnds (rest : List Char) : Prop := ∀ c ∈ rest.head?, isWordChar c = false

theorem wordEnds_nil : WordEnds [] := by simp [WordEnds]

theorem wordEnds_cons {c : Char} (h : isWordChar c = false) (rest : List Char) :
    WordEnds (c :: rest) := by simpa [WordEnds] using h

theorem scan_word {w rest : List Char} {t : Token} (hw : ∀ c ∈ w, isWordChar c = true)
    (ht : wordToken? w = some t) (hrest : WordEnds rest) :
    scan (w ++ rest) = (scan rest).map (t :: ·) := by
  rcases w with - | ⟨c, w⟩
  · cases ht
  · have hc : isWordChar c = true := hw c (by simp)
    have apart : ∀ d : Char, isWordChar d = false → c ≠ d := by
      rintro d hd rfl
      rw [hc] at hd
      cases hd
    have hmark : (Mark.all.find? fun m => m.char = c) = none := by
      simp [Mark.all, Mark.char, (apart '(' (by decide)).symm, (apart ')' (by decide)).symm,
        (apart '[' (by decide)).symm, (apart ']' (by decide)).symm, (apart ',' (by decide)).symm]
    have hsign : isSignChar c = false := by
      simp [isSignChar, apart '=' (by decide), apart '!' (by decide), apart '<' (by decide),
        apart '>' (by decide)]
    obtain ⟨htake, hdrop⟩ := takeWhile_run (fun d hd => hw d (by simp [hd])) rest hrest (w := w)
    refine scan_of_next? (apart ' ' (by decide)) ?_
    simp [next?, apart '\'' (by decide), hmark, hsign, htake, hdrop, ht]

theorem scan_keyword (k : Keyword) {rest : List Char} (hrest : WordEnds rest) :
    scan (k.chars ++ rest) = (scan rest).map (.keyword k :: ·) := by
  refine scan_word (List.all_eq_true.mp ?_) ?_ hrest
  · rcases k with _ | _ | _ | _ | _ | _ | _ | (_ | _) <;> rfl
  · rcases k with _ | _ | _ | _ | _ | _ | _ | (_ | _) <;> decide

theorem scan_sign (c : Comparison) (rest : List Char) :
    scan (signChars c ++ ' ' :: rest) = (scan rest).map (.comparison c :: ·) := by
  rw [← scan_blank rest]
  cases c <;> exact scan_of_next? (by decide) rfl

end SearchClient.Grammar
