/-
SearchClient/Proofs/Wire/Path.lean

Where requests go.  The engine tells what a request is about by its method and its path, so these are
written out here as the engine knows them, each setting of an index by its own name (`Setting.place`), and
the requests of the client have them (`Setting.label_read`, `Setting.path_endpoint`).

A path tells its setting and its index, whatever characters are in the uid (`Setting.place_inj`): of two
names of settings neither is the end of the other one, so the name is known by the end of the path.
-/
import SearchClient.Proofs.Text
import SearchClient.Wire.Message
import Mathlib.Data.List.Infix

namespace SearchClient

/-- The path of a task tells its uid. -/
theorem task_path_inj {uid other : UInt64} :
    "tasks/" ++ toString uid = "tasks/" ++ toString other ↔ uid = other := by
  rw [String.append_right_inj, Text.toString_inj]

theorem Request.label_read_index (index : String) :
    (Request.read (.index index)).label = "GET indexes/" ++ index := by
  have happend : Method.get.text ++ " " ++ "indexes/" = "GET indexes/" := rfl
  rw [← happend, String.append_assoc]
  rfl

/-- One of the settings of an index. -/
inductive Setting where
  | list (s : ListSetting)
  | limit (s : LimitSetting)
deriving DecidableEq

namespace Setting

/-- Where the client finds a setting of an index. -/
def endpoint (index : String) : Setting → Endpoint
  | .list s => .listSetting index s
  | .limit s => .limitSetting index s

/-- The read of a setting of an index. -/
def read (index : String) (t : Setting) : Request := .read (t.endpoint index)

/-- The name that the engine knows a setting by. -/
def name : Setting → String
  | .list .filterable => "filterable-attributes"
  | .list .searchable => "searchable-attributes"
  | .list .sortable => "sortable-attributes"
  | .list .ranking => "ranking-rules"
  | .limit .totalHits => "pagination"
  | .limit .valuesPerFacet => "faceting"

/-- The path at which the engine keeps a setting of an index. -/
def place (index : String) (t : Setting) : String := "indexes/" ++ index ++ "/settings/" ++ t.name

/-- The method by which the engine lets a setting be written. -/
def writing : Setting → String
  | .list _ => "PUT"
  | .limit _ => "PATCH"

theorem path_endpoint (index : String) (t : Setting) : (t.endpoint index).path = t.place index := by
  have happend : ∀ name, Endpoint.under index ("settings/" ++ name) =
      "indexes/" ++ index ++ "/settings/" ++ name := by
    intro name
    simp [Endpoint.under, String.append_assoc, ← String.toList_inj]
  rcases t with (_ | _ | _ | _) | (_ | _) <;> exact happend _

theorem label_read (index : String) (t : Setting) : (t.read index).label = "GET " ++ t.place index := by
  have hmethod : Method.get.text ++ " " = "GET " := rfl
  rw [Request.label, read, Request.read, path_endpoint, hmethod]

/-- Neither of two different names is the end of the other one. -/
theorem eq_of_suffix {t u : Setting}
    (h : ("/settings/" ++ t.name).toList <:+ ("/settings/" ++ u.name).toList) : t = u := by
  rcases t with (_ | _ | _ | _) | (_ | _) <;> rcases u with (_ | _ | _ | _) | (_ | _) <;> revert h <;>
    decide

theorem place_inj {t u : Setting} {index other : String} :
    t.place index = u.place other ↔ t = u ∧ index = other := by
  constructor
  · intro h
    have hchars : index.toList ++ ("/settings/" ++ t.name).toList =
        other.toList ++ ("/settings/" ++ u.name).toList := by
      simpa [place, ← String.toList_inj] using h
    -- the names end one path, so one of them ends the other
    have htu : t = u := by
      rcases List.suffix_or_suffix_of_suffix (List.suffix_append index.toList _)
        (hchars ▸ List.suffix_append other.toList _) with hsuffix | hsuffix
      · exact eq_of_suffix hsuffix
      · exact (eq_of_suffix hsuffix).symm
    subst htu
    exact ⟨rfl, String.toList_inj.mp (List.append_cancel_right hchars)⟩
  · rintro ⟨rfl, rfl⟩
    rfl

end Setting

end SearchClient
