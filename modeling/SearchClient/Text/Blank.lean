/-
SearchClient/Text/Blank.lean

White space as the Unicode property White_Space has it: 25 characters in ten ranges.  On it
stand the two readings of loosely written words: `trim` drops the blanks at both ends, `words`
splits at every run of blanks.  Letters are folded in ASCII only, so that no letter outside
ASCII is ever taken for an ASCII one.
-/
namespace SearchClient.Text

/-- The ranges of code points with the property White_Space. -/
def blankRanges : List (Nat × Nat) :=
  [(0x09, 0x0D), (0x20, 0x20), (0x85, 0x85), (0xA0, 0xA0), (0x1680, 0x1680), (0x2000, 0x200A),
   (0x2028, 0x2029), (0x202F, 0x202F), (0x205F, 0x205F), (0x3000, 0x3000)]

def isBlank (c : Char) : Bool :=
  blankRanges.any fun r => r.1 ≤ c.toNat && c.toNat ≤ r.2

/-! ### Ends and words -/

/-- The list without the elements at its end for which `p` holds. -/
def dropEndWhile (p : Char → Bool) (cs : List Char) : List Char :=
  (cs.reverse.dropWhile p).reverse

/-- The text without the blanks at both ends. -/
def trim (cs : List Char) : List Char :=
  dropEndWhile isBlank (cs.dropWhile isBlank)

/-- The words of a text: what stands between runs of blanks, none of them empty. -/
def words : List Char → List (List Char)
  | [] => []
  | c :: cs =>
    if isBlank c then words cs
    else match cs with
      | [] => [[c]]
      | d :: _ =>
        if isBlank d then [c] :: words cs
        else match words cs with
          | w :: ws => (c :: w) :: ws
          | [] => [[c]]

/-! ### Case -/

/-- Folds the ASCII letters to upper case and leaves every other character alone. -/
def upper (cs : List Char) : List Char :=
  cs.map Char.toUpper

/-- Folds the ASCII letters to lower case and leaves every other character alone. -/
def lower (cs : List Char) : List Char :=
  cs.map Char.toLower

end SearchClient.Text
