/-
SearchClient/Proofs/Text/Commas.lean

Lists with commas between their items, taken apart again.  A text is cut at its commas.  Joined items are
cut into the pieces that they have themselves (`commaSplit_commaJoin`), so a list comes back if no item of it
holds a comma, and only then (`flatMap_commaSplit_eq_iff`).

A text always has a piece, be it an empty one.  So the empty list does not come back from its text, and
who writes lists in this way has to leave it out.
-/
import Mathlib.Data.List.Basic
import SearchClient.Text.Commas

namespace SearchClient.Text

variable {items : List String} {s : String}

/-- The pieces of a text between its commas. -/
def commaSplit (s : String) : List String := (s.toList.splitOn ',').map String.ofList

theorem commaSplit_ne_nil (s : String) : commaSplit s ≠ [] := by
  simp [commaSplit]

theorem commaSplit_of_not_mem (h : ',' ∉ s.toList) : commaSplit s = [s] := by
  rw [commaSplit, List.splitOn_eq_singleton h, List.map_singleton, String.ofList_toList]

theorem not_mem_of_mem_splitOn {cs piece : List Char} (h : piece ∈ cs.splitOn ',') : ',' ∉ piece := by
  induction cs generalizing piece with
  | nil =>
    obtain rfl : piece = [] := by simpa using h
    exact List.not_mem_nil
  | cons c cs ih =>
    obtain ⟨first, rest, hcs⟩ := List.exists_cons_of_ne_nil (List.splitOn_ne_nil ',' cs)
    rw [hcs] at ih
    rw [List.splitOn_cons_eq_if_modifyHead, hcs] at h
    split at h
    · -- the comma ends an empty piece
      rcases List.mem_cons.mp h with rfl | h
      · exact List.not_mem_nil
      · exact ih h
    · next hc =>
      -- the first piece of the rest goes on to the left
      rcases List.mem_cons.mp h with rfl | h
      · have hcomma : ',' ≠ c := fun e => hc (beq_iff_eq.mpr e.symm)
        have hfirst : ',' ∉ first := ih List.mem_cons_self
        simp [hcomma, hfirst]
      · exact ih (List.mem_cons_of_mem _ h)

/-- No piece holds a comma. -/
theorem not_mem_of_mem_commaSplit {piece : String} (h : piece ∈ commaSplit s) : ',' ∉ piece.toList := by
  obtain ⟨cs, hcs, rfl⟩ := List.mem_map.mp h
  rw [String.toList_ofList]
  exact not_mem_of_mem_splitOn hcs

theorem commaJoin_commaSplit (s : String) : commaJoin (commaSplit s) = s := by
  have hpieces : (commaSplit s).map String.toList = s.toList.splitOn ',' := by
    rw [commaSplit, List.map_map]
    exact List.map_id'' (fun _ => String.toList_ofList) _
  rw [commaJoin, hpieces, List.intercalate_splitOn, String.ofList_toList]

theorem toList_commaJoin_cons_cons (s t : String) (items : List String) :
    (commaJoin (s :: t :: items)).toList = s.toList ++ ',' :: (commaJoin (t :: items)).toList := by
  simp [commaJoin, List.intercalate_cons_cons]

/-- Joined items are cut into the pieces of the items. -/
theorem commaSplit_commaJoin (hne : items ≠ []) :
    commaSplit (commaJoin items) = items.flatMap commaSplit := by
  induction items with
  | nil => exact absurd rfl hne
  | cons s items ih =>
    cases items with
    | nil => simp [commaJoin]
    | cons t items =>
      have hrest := ih (List.cons_ne_nil t items)
      rw [commaSplit, toList_commaJoin_cons_cons, List.splitOn_append_cons_self, List.map_append,
        List.flatMap_cons, ← hrest]
      rfl

/-- Joining does not tell whether the items were cut before. -/
theorem commaJoin_flatMap_commaSplit (hne : items ≠ []) :
    commaJoin (items.flatMap commaSplit) = commaJoin items := by
  rw [← commaSplit_commaJoin hne, commaJoin_commaSplit]

/-- The items are their own pieces exactly if none of them holds a comma. -/
theorem flatMap_commaSplit_eq_iff :
    items.flatMap commaSplit = items ↔ ∀ s ∈ items, ',' ∉ s.toList := by
  constructor
  · intro h s hs
    rw [← h] at hs
    obtain ⟨t, -, hpiece⟩ := List.mem_flatMap.mp hs
    exact not_mem_of_mem_commaSplit hpiece
  · intro h
    rw [List.flatMap_congr fun s hs => commaSplit_of_not_mem (h s hs), List.flatMap_singleton']

end SearchClient.Text
