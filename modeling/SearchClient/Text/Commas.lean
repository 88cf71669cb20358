/-
SearchClient/Text/Commas.lean

Lists of texts in one text, with commas between the items.  Items that hold no comma can be told
apart again; only the empty list and the list of one empty item have the same text.
-/
namespace SearchClient.Text

/-- The items with commas between them. -/
def commaJoin (items : List String) : String :=
  String.ofList (List.intercalate [','] (items.map String.toList))

end SearchClient.Text
