/-
SearchClient/Proofs/Task/Query.lean

Filters of tasks as query pairs, written and read back.  A filter is written under four keys, and the pair of
a key is left out when its list is empty or its number absent.  `ofQuery` undoes each of these: without its
key a list is empty and a number absent, what stands under the key of a list is cut at the commas, and a
number is read from its digits.

What comes back is the filter with its uids cut at their commas (`ofQuery_toQuery`).  Nothing else is lost, so
two filters have the same pairs exactly if cutting makes them the same (`toQuery_eq_iff`), and filters whose
uids hold no comma are told apart by their pairs.

Main result: `query_faithful`.
-/
import Mathlib.Data.List.Basic
import SearchClient.Proofs.Json.Number
import SearchClient.Proofs.Table
import SearchClient.Proofs.Text.Commas
import SearchClient.Task.Basic

namespace SearchClient

open Text

/-! ### Numbers -/

/-- The number that a text of digits stands for, if it has 64 bits. -/
def Text.toUInt64? (s : String) : Option UInt64 := do
  let (digits, rest) ← Json.readDigits s.toList
  let n := Json.digitsValue digits
  if rest.isEmpty && n < UInt64.size then some (.ofNat n) else none

theorem Text.toUInt64?_toString (n : UInt64) : toUInt64? (toString n) = some n := by
  have hend : Json.DigitsEnd [] := by simp [Json.DigitsEnd]
  have hdigits : Json.readDigits (Nat.toDigits 10 n.toNat ++ []) = some (Nat.toDigits 10 n.toNat, []) :=
    Json.readDigits_append Nat.toDigits_ne_nil (fun _ => isDigit_of_mem_toDigits) hend
  rw [List.append_nil] at hdigits
  have hlt : n.toNat < UInt64.size := n.toNat_lt
  simp [toUInt64?, toList_toString, hdigits, hlt]

/-! ### Status -/

namespace TaskStatus

theorem ofText_text (s : TaskStatus) : ofText s.text = s := by
  cases s <;> rfl

/-- The names of statuses can stand between commas. -/
theorem comma_not_mem_text (s : TaskStatus) : ',' ∉ s.text.toList := by
  cases s <;> decide

end TaskStatus

/-! ### Reading -/

namespace TaskFilter

/-- The items of a list among query pairs; none without its key. -/
def readList (pairs : List (String × String)) (key : String) : List String :=
  match pairs.lookup key with
  | none => []
  | some s => commaSplit s

/-- A number among query pairs, absent without its key.  Fails if something else stands there. -/
def readNumber (pairs : List (String × String)) (key : String) : Option (Option UInt64) :=
  match pairs.lookup key with
  | none => some none
  | some s => (toUInt64? s).map some

/-- The filter that query pairs stand for. -/
def ofQuery (pairs : List (String × String)) : Option TaskFilter := do
  let limit ← readNumber pairs "limit"
  let start ← readNumber pairs "from"
  some { indexUids := readList pairs "indexUids"
         statuses := (readList pairs "statuses").map TaskStatus.ofText
         limit
         start }

/-! ### Writing -/

/-- The text of a list, if it has an item. -/
def listText (items : List String) : Option String :=
  if items.isEmpty then none else some (commaJoin items)

/-- The pairs of a filter, those that are left out included. -/
def fields (f : TaskFilter) : List (String × Option String) :=
  [("indexUids", listText f.indexUids), ("statuses", listText (f.statuses.map TaskStatus.text)),
    ("limit", f.limit.map toString), ("from", f.start.map toString)]

variable {pairs : List (String × String)} {key : String}

theorem listText_of_ne_nil {items : List String} (h : items ≠ []) :
    listText items = some (commaJoin items) := by
  rw [listText, List.isEmpty_eq_false_iff.mpr h]
  rfl

theorem listText_eq_none_iff {items : List String} : listText items = none ↔ items = [] := by
  simp [listText]

/-- The text of a list says nothing of how its items are cut. -/
theorem listText_flatMap_commaSplit (items : List String) :
    listText (items.flatMap commaSplit) = listText items := by
  cases items with
  | nil => rfl
  | cons s items =>
    have hne : s :: items ≠ [] := List.cons_ne_nil s items
    have hcut : (s :: items).flatMap commaSplit ≠ [] := by simp [commaSplit_ne_nil]
    rw [listText_of_ne_nil hcut, listText_of_ne_nil hne, commaJoin_flatMap_commaSplit hne]

theorem readList_eq {items : List String} (h : pairs.lookup key = listText items) :
    readList pairs key = items.flatMap commaSplit := by
  rw [readList, h]
  cases items with
  | nil => rfl
  | cons s items => exact commaSplit_commaJoin (List.cons_ne_nil s items)

theorem readNumber_eq {n : Option UInt64} (h : pairs.lookup key = n.map toString) :
    readNumber pairs key = some n := by
  rw [readNumber, h]
  cases n with
  | none => rfl
  | some n =>
    show (toUInt64? (toString n)).map some = _
    rw [toUInt64?_toString, Option.map_some]

/-! ### Pairs -/

theorem fields_nodup (f : TaskFilter) : (f.fields.map Prod.fst).Nodup := by
  have distinct : ["indexUids", "statuses", "limit", "from"].Nodup := by decide
  exact distinct

/-- The pairs are those of the fields that are present. -/
theorem toQuery_eq (f : TaskFilter) : f.toQuery = f.fields.filterMap fun p => p.2.map (p.1, ·) := by
  have hlist : ∀ (key : String) (items : List String),
      (if items.isEmpty then [] else [(key, commaJoin items)]) =
        ((listText items).map (key, ·)).toList := by
    intro key items
    cases items <;> rfl
  have hnumber : ∀ (key : String) (n : Option UInt64),
      (n.map fun n => (key, toString n)).toList = ((n.map toString).map (key, ·)).toList := by
    intro key n
    cases n <;> rfl
  have hstatuses : f.statuses.isEmpty = (f.statuses.map TaskStatus.text).isEmpty := by simp
  rw [toQuery, hstatuses, hlist, hlist, hnumber, hnumber, List.filterMap_eq_flatMap_toList]
  simp [fields]

theorem lookup_toQuery (f : TaskFilter) (key : String) :
    f.toQuery.lookup key = (f.fields.lookup key).join := by
  rw [toQuery_eq, Table.lookup_present f.fields_nodup]

/-- No key comes twice. -/
theorem toQuery_nodup (f : TaskFilter) : (f.toQuery.map Prod.fst).Nodup := by
  rw [toQuery_eq]
  exact Table.present_nodup f.fields_nodup

/-- Only the filter that asks for all tasks has no pair. -/
theorem toQuery_eq_nil_iff {f : TaskFilter} : f.toQuery = [] ↔ f = {} := by
  constructor
  · intro h
    rw [toQuery_eq, List.filterMap_eq_nil_iff] at h
    obtain ⟨indexUids, statuses, limit, start⟩ := f
    simp only [fields, List.forall_mem_cons, Option.map_eq_none_iff, listText_eq_none_iff,
      List.map_eq_nil_iff] at h
    obtain ⟨rfl, rfl, rfl, rfl, -⟩ := h
    rfl
  · rintro rfl
    rfl

/-! ### What comes back -/

/-- The filter with its uids cut at their commas. -/
def cut (f : TaskFilter) : TaskFilter := { f with indexUids := f.indexUids.flatMap commaSplit }

/-- No uid holds a comma. -/
def CommaFree (f : TaskFilter) : Prop := ∀ uid ∈ f.indexUids, ',' ∉ uid.toList

instance (f : TaskFilter) : Decidable f.CommaFree :=
  inferInstanceAs (Decidable (∀ uid ∈ f.indexUids, ',' ∉ uid.toList))

theorem cut_eq_iff {f : TaskFilter} : f.cut = f ↔ f.CommaFree := by
  obtain ⟨indexUids, statuses, limit, start⟩ := f
  simp only [cut, CommaFree, mk.injEq, and_true]
  exact flatMap_commaSplit_eq_iff

/-- From its pairs a filter comes back with its uids cut. -/
theorem ofQuery_toQuery (f : TaskFilter) : ofQuery f.toQuery = some f.cut := by
  have hlimit : readNumber f.toQuery "limit" = some f.limit := readNumber_eq (f.lookup_toQuery _)
  have hstart : readNumber f.toQuery "from" = some f.start := readNumber_eq (f.lookup_toQuery _)
  have huids : readList f.toQuery "indexUids" = f.indexUids.flatMap commaSplit :=
    readList_eq (f.lookup_toQuery _)
  have hnames : readList f.toQuery "statuses" = f.statuses.map TaskStatus.text := by
    rw [readList_eq (f.lookup_toQuery _)]
    apply flatMap_commaSplit_eq_iff.mpr
    intro name hname
    obtain ⟨s, -, rfl⟩ := List.mem_map.mp hname
    exact s.comma_not_mem_text
  have hstatuses : (f.statuses.map TaskStatus.text).map TaskStatus.ofText = f.statuses := by
    rw [List.map_map]
    exact List.map_id'' TaskStatus.ofText_text _
  rw [ofQuery, hlimit, hstart, huids, hnames, hstatuses]
  rfl

theorem toQuery_cut (f : TaskFilter) : f.cut.toQuery = f.toQuery := by
  rw [toQuery_eq, toQuery_eq]
  simp only [fields, cut, listText_flatMap_commaSplit]

/-- Two filters have the same pairs exactly if they are the same once their uids are cut. -/
theorem toQuery_eq_iff {f g : TaskFilter} : f.toQuery = g.toQuery ↔ f.cut = g.cut := by
  constructor
  · intro h
    have hread := congrArg ofQuery h
    rw [ofQuery_toQuery, ofQuery_toQuery] at hread
    exact Option.some.inj hread
  · intro h
    rw [← toQuery_cut f, h, toQuery_cut]

/-! ### Main result -/

/-- **Filters of tasks survive the query string.**  A filter is read back from its pairs exactly if no uid of
it holds a comma, whichever of its fields are left out and even if a uid is empty.  So two such filters with
the same pairs are the same.  Of any filter the keys are distinct, and only the one that asks for all tasks
has no pair. -/
theorem query_faithful :
    (∀ f : TaskFilter, ofQuery f.toQuery = some f ↔ f.CommaFree) ∧
    (∀ f g : TaskFilter, f.CommaFree → g.CommaFree → f.toQuery = g.toQuery → f = g) ∧
    (∀ f : TaskFilter, (f.toQuery.map Prod.fst).Nodup) ∧
    ∀ f : TaskFilter, f.toQuery = [] ↔ f = {} := by
  refine ⟨?_, ?_, toQuery_nodup, fun f => toQuery_eq_nil_iff⟩
  · intro f
    rw [ofQuery_toQuery, Option.some_inj]
    exact cut_eq_iff
  · intro f g hf hg h
    have hcut := toQuery_eq_iff.mp h
    rwa [cut_eq_iff.mpr hf, cut_eq_iff.mpr hg] at hcut

/-- Several indexes and statuses with a limit, and one of each with a start. -/
theorem query_faithful_phones :
    let many : TaskFilter :=
      { indexUids := ["phones", "books"], statuses := [.failed, .unknown], limit := some 5 }
    let one : TaskFilter := { indexUids := ["phones"], statuses := [.failed], start := some 5 }
    many.CommaFree ∧ one.CommaFree ∧ ofQuery many.toQuery = some many ∧
      many.toQuery ≠ one.toQuery ∧ many.toQuery ≠ [] := by
  intro many one
  have hmany : many.CommaFree := by decide
  have hone : one.CommaFree := by decide
  obtain ⟨hread, htell, -, hnil⟩ := query_faithful
  refine ⟨hmany, hone, (hread many).mpr hmany, ?_, ?_⟩
  · intro h
    exact absurd (htell many one hmany hone h) (by decide)
  · intro h
    exact absurd ((hnil many).mp h) (by decide)

/-- A comma in a uid makes one index look like two. -/
example : ({ indexUids := ["a,b"] } : TaskFilter).toQuery =
    ({ indexUids := ["a", "b"] } : TaskFilter).toQuery := by
  decide

end TaskFilter

end SearchClient
