/-
SearchClient/Proofs/Index/Wanted.lean

What a record of an index lacks of wanted settings.  A setting is met if it has the wanted value, in
order for the ranking rules and as a set for the other lists, and the comparison that the client makes
decides that (`Setting.same_iff_met`).  A change of one setting meets that setting and leaves the
others as they are, so the changes that a record needs can be told before any of them is made
(`Setting.needed_cons_of_not_met`), and they bring the record in line (`Setting.meets_needed`).  So can all
requests that are made for that be told, the reads too, by their methods and their paths
(`IndexEngine.label_errands`).
-/
import SearchClient.Proofs.Index.Engine
import SearchClient.Proofs.Wire.Path

namespace SearchClient

/-- A list that is as the engine keeps it stays so. -/
theorem ListSetting.normalize_normalize (s : ListSetting) (values : List String) :
    s.normalize (s.normalize values) = s.normalize values := by
  by_cases h : s = .searchable ∧ values = []
  · simp [normalize, h]
  · simp [normalize, h]

/-- The record has the wanted settings. -/
structure IndexRecord.Meets (record : IndexRecord) (settings : IndexSettings) : Prop where
  filterable : ∀ x, x ∈ record.lists .filterable ↔ x ∈ settings.filters
  /-- Nothing to search in stands for everything. -/
  searchable : ∀ x, x ∈ record.lists .searchable ↔
    x ∈ if settings.search = [] then ["*"] else settings.search
  sortable : ∀ x, x ∈ record.lists .sortable ↔ x ∈ settings.sortable
  ranking : record.lists .ranking = settings.ranking
  totalHits : record.limits .totalHits = settings.maxTotalHits
  valuesPerFacet : record.limits .valuesPerFacet = settings.maxValuesPerFacet

namespace Setting

/-- In the order in which they are applied. -/
def all : List Setting := ListSetting.all.map .list ++ LimitSetting.all.map .limit

theorem nodup_all : all.Nodup := by decide

theorem mem_all (t : Setting) : t ∈ all := by
  rcases t with s | s <;> cases s <;> decide

variable (settings : IndexSettings)

/-- The change that gives a setting its wanted value. -/
def change : Setting → Change
  | .list s => .list s (s.normalize (s.wanted settings))
  | .limit s => .limit s (s.wanted settings)

theorem label_change (index : String) (t : Setting) :
    ((t.change settings).request index).label = t.writing ++ " " ++ t.place index := by
  rw [Request.label, ← t.path_endpoint]
  cases t <;> rfl

/-- Whether the setting has the wanted value, the ranking rules in order and the other lists as
sets. -/
def Met (record : IndexRecord) : Setting → Prop
  | .list s =>
    if s = .ranking then record.lists s = s.wanted settings
    else ∀ x, x ∈ record.lists s ↔ x ∈ s.normalize (s.wanted settings)
  | .limit s => record.limits s = s.wanted settings

theorem met_iff_meets (record : IndexRecord) :
    (∀ t : Setting, t.Met settings record) ↔ record.Meets settings := by
  constructor
  · intro h
    refine ⟨?_, ?_, ?_, ?_, h (.limit .totalHits), h (.limit .valuesPerFacet)⟩
    · simpa [Met, ListSetting.normalize, ListSetting.wanted] using h (.list .filterable)
    · simpa [Met, ListSetting.normalize, ListSetting.wanted] using h (.list .searchable)
    · simpa [Met, ListSetting.normalize, ListSetting.wanted] using h (.list .sortable)
    · simpa [Met, ListSetting.wanted] using h (.list .ranking)
  · rintro ⟨hf, hse, hso, hr, ht, hv⟩ (s | s)
    · cases s with
      | filterable => simpa [Met, ListSetting.normalize, ListSetting.wanted] using hf
      | searchable => simpa [Met, ListSetting.normalize, ListSetting.wanted] using hse
      | sortable => simpa [Met, ListSetting.normalize, ListSetting.wanted] using hso
      | ranking => simpa [Met, ListSetting.wanted] using hr
    · cases s with
      | totalHits => exact ht
      | valuesPerFacet => exact hv

/-- The comparison that the client makes. -/
theorem same_iff_met (record : IndexRecord) (s : ListSetting) :
    s.same (record.lists s) (s.normalize (s.wanted settings)) = true ↔
      (Setting.list s).Met settings record := by
  by_cases h : s = .ranking
  · subst h
    simp [ListSetting.same, ListSetting.normalize, Met]
  · simp only [ListSetting.same, h, if_false, Met, Bool.and_eq_true, List.all_eq_true,
      List.contains_iff_mem]
    constructor
    · exact fun hsub x => ⟨hsub.1 x, hsub.2 x⟩
    · exact fun hiff => ⟨fun x => (hiff x).mp, fun x => (hiff x).mpr⟩

instance (record : IndexRecord) : (t : Setting) → Decidable (t.Met settings record)
  | .list s => decidable_of_iff _ (same_iff_met settings record s)
  | .limit s => inferInstanceAs (Decidable (record.limits s = s.wanted settings))

/-- A setting that was written is met. -/
theorem met_change (record : IndexRecord) (t : Setting) :
    t.Met settings (record.change (t.change settings)) := by
  rcases t with s | s
  · by_cases h : s = .ranking
    · subst h
      rfl
    · simp [Met, change, IndexRecord.change, h]
  · exact if_pos rfl

/-- Writing one setting leaves the others as they are. -/
theorem met_change_of_ne (record : IndexRecord) {t u : Setting} (h : u ≠ t) :
    u.Met settings (record.change (t.change settings)) ↔ u.Met settings record := by
  rcases t with s | s <;> rcases u with s' | s'
  · have hne : s' ≠ s := fun e => h (e ▸ rfl)
    simp [Met, change, IndexRecord.change, hne]
  · rfl
  · rfl
  · have hne : s' ≠ s := fun e => h (e ▸ rfl)
    simp [Met, change, IndexRecord.change, hne]

/-- After some settings were written, these are met, and those that were met before. -/
theorem met_changes (t : Setting) (ts : List Setting) (record : IndexRecord) :
    t.Met settings ((ts.map (change settings)).foldl IndexRecord.change record) ↔
      t ∈ ts ∨ t.Met settings record := by
  induction ts generalizing record with
  | nil => simp
  | cons u rest ih =>
    rw [List.map_cons, List.foldl_cons, ih]
    by_cases h : t = u
    · subst h
      simp [met_change]
    · simp [met_change_of_ne settings record h, h]

/-- The changes that a record needs, among some settings. -/
def needed (record : IndexRecord) (ts : List Setting) : List Change :=
  (ts.filter fun t => ¬ t.Met settings record).map (change settings)

theorem needed_cons_of_met {record : IndexRecord} {t : Setting} (ts : List Setting)
    (h : t.Met settings record) : needed settings record (t :: ts) = needed settings record ts := by
  simp [needed, h]

/-- The first setting is written, which does not change what the others need. -/
theorem needed_cons_of_not_met {record : IndexRecord} {t : Setting} {ts : List Setting}
    (h : ¬ t.Met settings record) (hfresh : t ∉ ts) :
    needed settings record (t :: ts) =
      t.change settings :: needed settings (record.change (t.change settings)) ts := by
  have hsame : ts.filter (fun u => ¬ u.Met settings record) =
      ts.filter fun u => ¬ u.Met settings (record.change (t.change settings)) := by
    apply List.filter_congr
    intro u hu
    have hne : u ≠ t := fun heq => hfresh (heq ▸ hu)
    simp only [met_change_of_ne settings record hne]
  rw [needed, List.filter_cons_of_pos (by simpa using h), List.map_cons, hsame, needed]

/-- The requests that some settings take: each is read, and written if it is not met. -/
def errands (index : String) (record : IndexRecord) (ts : List Setting) : List Request :=
  ts.flatMap fun t => t.read index ::
    if t.Met settings record then [] else [(t.change settings).request index]

theorem errands_cons_of_met {record : IndexRecord} {t : Setting} (index : String) (ts : List Setting)
    (h : t.Met settings record) :
    errands settings index record (t :: ts) = t.read index :: errands settings index record ts := by
  rw [errands, List.flatMap_cons, if_pos h]
  rfl

/-- The first setting is written, after which the others take what they took before. -/
theorem errands_cons_of_not_met {record : IndexRecord} {t : Setting} {ts : List Setting}
    (index : String) (h : ¬ t.Met settings record) (hfresh : t ∉ ts) :
    errands settings index record (t :: ts) =
      [t.read index, (t.change settings).request index] ++
        errands settings index (record.change (t.change settings)) ts := by
  have hsame : errands settings index (record.change (t.change settings)) ts =
      errands settings index record ts := by
    rw [errands, errands, List.flatMap_def, List.flatMap_def]
    congr 1
    refine List.map_congr_left fun u hu => ?_
    have hne : u ≠ t := fun heq => hfresh (heq ▸ hu)
    simp only [met_change_of_ne settings record hne]
  rw [hsame, errands, List.flatMap_cons, if_neg h]
  rfl

/-- The writes among them are the needed changes. -/
theorem filter_errands (index : String) (record : IndexRecord) (ts : List Setting) :
    (errands settings index record ts).filter (fun r => !r.method.isRead) =
      (needed settings record ts).map (Change.request index) := by
  induction ts with
  | nil => rfl
  | cons t ts ih =>
    have hread : (t.read index).method.isRead = true := rfl
    have hwrite : ((t.change settings).request index).method.isRead = false := by cases t <;> rfl
    rw [errands, List.flatMap_cons, List.filter_append]
    show _ ++ (errands settings index record ts).filter _ = _
    rw [ih]
    -- the read goes, and the write stays if there is one
    by_cases h : t.Met settings record
    · simp [h, hread, needed]
    · simp [h, hread, hwrite, needed]

/-- The needed changes bring the record in line. -/
theorem meets_needed (record : IndexRecord) :
    ((needed settings record all).foldl IndexRecord.change record).Meets settings := by
  rw [← met_iff_meets]
  intro t
  rw [needed, met_changes]
  by_cases h : t.Met settings record
  · exact .inr h
  · exact .inl (List.mem_filter.mpr ⟨t.mem_all, by simpa using h⟩)

/-- A record that is in line needs nothing. -/
theorem needed_of_meets {record : IndexRecord} (h : record.Meets settings) :
    needed settings record all = [] := by
  rw [← met_iff_meets] at h
  simp [needed, h]

end Setting

/-! ### Changes that are due -/

namespace IndexEngine

variable (e : IndexEngine) {index : String} {store : IndexStore} {record : IndexRecord}

/-- The changes that bring an index in line with settings: its creation if it is missing, and one
change for each setting that differs, from what a new index has if it was missing. -/
def due (index : String) (settings : IndexSettings) (store : IndexStore) : List Change :=
  match store.indexes index with
  | some record => Setting.needed settings record Setting.all
  | none => .create settings.primaryKey ::
      Setting.needed settings (e.blank settings.primaryKey) Setting.all

/-- The requests by which an index is brought in line: it is looked up, and created if it is missing, and
then the settings take what they take. -/
def errands (index : String) (settings : IndexSettings) (store : IndexStore) : List Request :=
  .read (.index index) :: match store.indexes index with
    | some record => Setting.errands settings index record Setting.all
    | none => (Change.create settings.primaryKey).request index ::
        Setting.errands settings index (e.blank settings.primaryKey) Setting.all

/-- The writes among them are the changes that are due. -/
theorem filter_errands (index : String) (settings : IndexSettings) (store : IndexStore) :
    (e.errands index settings store).filter (fun r => !r.method.isRead) =
      (e.due index settings store).map (Change.request index) := by
  rw [errands, due]
  cases store.indexes index with
  | some record => exact Setting.filter_errands settings index record Setting.all
  | none => exact congrArg (_ :: ·) (Setting.filter_errands settings index _ Setting.all)

/-- What the engine gets to see of them. -/
theorem label_errands (index : String) (settings : IndexSettings) (store : IndexStore) :
    (e.errands index settings store).map Request.label =
      ("GET indexes/" ++ index) ::
        ((if (store.indexes index).isNone then ["POST indexes"] else []) ++
          Setting.all.flatMap fun t => ("GET " ++ t.place index) ::
            if t.Met settings ((store.indexes index).getD (e.blank settings.primaryKey)) then []
            else [t.writing ++ " " ++ t.place index]) := by
  have hsettings : ∀ record : IndexRecord,
      (Setting.errands settings index record Setting.all).map Request.label =
        Setting.all.flatMap fun t => ("GET " ++ t.place index) ::
          if t.Met settings record then [] else [t.writing ++ " " ++ t.place index] := by
    intro record
    rw [Setting.errands, List.map_flatMap]
    refine List.flatMap_congr fun t _ => ?_
    rw [List.map_cons, t.label_read]
    congr 1
    split
    · rfl
    · rw [List.map_singleton, Setting.label_change]
  rw [errands, List.map_cons, Request.label_read_index]
  cases store.indexes index with
  | some record => exact congrArg (_ :: ·) (hsettings record)
  | none => exact congrArg (fun rest => _ :: "POST indexes" :: rest) (hsettings _)

/-- The record after the changes that are due. -/
theorem performAll_due (index : String) (settings : IndexSettings) (store : IndexStore) :
    ∃ record, (e.performAll index (e.due index settings store) store).indexes index = some record ∧
      record.Meets settings ∧ record.primaryKey =
        ((store.indexes index).getD (e.blank settings.primaryKey)).primaryKey := by
  rcases h : store.indexes index with - | record
  · have hcreated := e.perform_create_self settings.primaryKey h
    have hdone := e.performAll_self hcreated
      (Setting.needed settings (e.blank settings.primaryKey) Setting.all)
    refine ⟨_, ?_, Setting.meets_needed settings _, IndexRecord.primaryKey_foldl _ _⟩
    rw [due, h]
    exact hdone
  · refine ⟨_, ?_, Setting.meets_needed settings record, IndexRecord.primaryKey_foldl _ _⟩
    rw [due, h]
    exact e.performAll_self h (Setting.needed settings record Setting.all)

/-- Nothing is due for an index that is in line. -/
theorem due_of_meets {settings : IndexSettings} (h : store.indexes index = some record)
    (hmeets : record.Meets settings) : e.due index settings store = [] := by
  rw [due, h]
  exact Setting.needed_of_meets settings hmeets

end IndexEngine

end SearchClient
