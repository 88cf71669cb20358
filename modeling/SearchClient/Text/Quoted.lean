/-
SearchClient/Text/Quoted.lean

Quoted literals of the filter language.  A literal stands between single quotes; inside it a
backslash makes the next character an ordinary one.  Writing puts a backslash before the two
characters that would otherwise act (the quote and the backslash), and `scan` reads one literal
from the front of a text and hands back what follows it.

Main result: `scan_quote_append`.  A written literal is read back to the same text whatever
follows it, so no text can end its own literal early or swallow what comes next.
-/
namespace SearchClient.Text.Quoted

/-- The inside of a literal: a backslash before each quote and each backslash. -/
def escape : List Char → List Char
  | [] => []
  | c :: cs => if c = '\\' ∨ c = '\'' then '\\' :: c :: escape cs else c :: escape cs

/-- The literal of a text. -/
def quote (cs : List Char) : List Char :=
  '\'' :: (escape cs ++ ['\''])

/-- Reads up to the first quote that no backslash makes ordinary. -/
def scanInside : List Char → Option (List Char × List Char)
  | [] => none
  | '\'' :: rest => some ([], rest)
  | ['\\'] => none
  | '\\' :: c :: rest => (scanInside rest).map fun r => (c :: r.1, r.2)
  | c :: rest => (scanInside rest).map fun r => (c :: r.1, r.2)

/-- Reads one literal from the front of a text: what it says, and what follows it. -/
def scan : List Char → Option (List Char × List Char)
  | '\'' :: rest => scanInside rest
  | _ => none

/-! ### Writing and reading -/

theorem scanInside_escape (cs rest : List Char) :
    scanInside (escape cs ++ '\'' :: rest) = some (cs, rest) := by
  induction cs with
  | nil => simp [escape, scanInside]
  | cons c cs ih =>
    by_cases h : c = '\\' ∨ c = '\''
    · simp [escape, h, scanInside, ih]
    · simp only [not_or] at h
      simp [escape, h, scanInside, ih]

theorem scan_quote_append (cs rest : List Char) : scan (quote cs ++ rest) = some (cs, rest) := by
  simp [scan, quote, scanInside_escape]

end SearchClient.Text.Quoted
