/-
SearchClient/Proofs/Table.lean

Tables by what stands under each name.  `get?_put` and `get?_putAll` say what a table holds after
pairs were put into it, and need no order: the last pair of a name counts.

The order matters in two places.  A table that is laid over another one is a list of pairs, and its
last pair of a name is the one that `get?` finds only if there is no other (`get?_reverse`).  Tables that
were made by `put` are `Ordered`, so names do not repeat.  And ordered tables are known by what is found
in them (`OrderedTable.ext_get?`).

Pairs that may be absent are found by name among those that are present (`lookup_present`), which needs no
order either, but each name only once.
-/
import SearchClient.Table

namespace SearchClient

namespace Table

variable {α : Type}

/-! ### Looking up -/

theorem get?_cons (k : String) (v : α) (t : Table α) (name : String) :
    get? ((k, v) :: t) name = if name = k then some v else t.get? name := by
  by_cases h : name = k
  · simp [get?, h]
  · simp [get?, h, List.lookup_cons, beq_eq_false_iff_ne.mpr h]

theorem get?_append (t u : Table α) (name : String) :
    get? (t ++ u) name = (t.get? name).or (u.get? name) := List.lookup_append

/-- A value is found under exactly the names of the table. -/
theorem isSome_get? (t : Table α) (name : String) :
    (t.get? name).isSome = true ↔ name ∈ t.map Prod.fst := by
  induction t with
  | nil => simp [get?]
  | cons p t ih =>
    obtain ⟨k, v⟩ := p
    rw [get?_cons]
    by_cases h : name = k
    · simp [h]
    · simp [h, ih]

/-- What is found under a name is one of the pairs. -/
theorem mem_of_get? {t : Table α} {name : String} {v : α} (h : t.get? name = some v) :
    (name, v) ∈ t := by
  induction t with
  | nil => cases h
  | cons p t ih =>
    obtain ⟨k, u⟩ := p
    rw [get?_cons] at h
    split at h
    · next hname =>
      obtain rfl := Option.some.inj h
      simp [hname]
    · exact List.mem_cons_of_mem _ (ih h)

theorem get?_map {β : Type} (f : α → β) (t : Table α) (name : String) :
    get? (t.map fun p => (p.1, f p.2)) name = (t.get? name).map f := by
  induction t with
  | nil => rfl
  | cons p t ih =>
    obtain ⟨k, v⟩ := p
    rw [List.map_cons, get?_cons, get?_cons, ih]
    split
    · rfl
    · rfl

/-- If no name comes twice, the last pair of a name is the only one. -/
theorem get?_reverse {t : Table α} (h : (t.map Prod.fst).Nodup) (name : String) :
    get? t.reverse name = t.get? name := by
  induction t with
  | nil => rfl
  | cons p t ih =>
    obtain ⟨k, v⟩ := p
    obtain ⟨hk, ht⟩ := List.nodup_cons.mp h
    rw [List.reverse_cons, get?_append, ih ht, get?_cons, get?_cons]
    by_cases hname : name = k
    · subst hname
      have habsent : get? t name = none := by
        rw [← Option.not_isSome_iff_eq_none, isSome_get?]
        exact hk
      simp [habsent]
    · simp [hname, get?]

/-- Putting a value under a name changes what is found under that name alone. -/
theorem get?_put (t : Table α) (name other : String) (v : α) :
    (t.put name v).get? other = if other = name then some v else t.get? other := by
  induction t with
  | nil => rw [put, get?_cons]
  | cons p t ih =>
    obtain ⟨k, u⟩ := p
    rw [put]
    split
    · rw [get?_cons]
    · split
      · next h =>
        subst h
        rw [get?_cons, get?_cons]
        split <;> rfl
      · next h =>
        rw [get?_cons, get?_cons, ih]
        by_cases hk : other = k
        · have hname : other ≠ name := fun e => h (e ▸ hk)
          simp [hk, hk ▸ hname]
        · simp [hk]

theorem get?_putAll (t : Table α) (pairs : List (String × α)) (name : String) :
    (t.putAll pairs).get? name = (get? pairs.reverse name).or (t.get? name) := by
  induction pairs generalizing t with
  | nil => rfl
  | cons p pairs ih =>
    obtain ⟨k, v⟩ := p
    have hput : (t.put k v).get? name = (get? [(k, v)] name).or (t.get? name) := by
      rw [get?_put, get?_cons]
      by_cases h : name = k
      · simp [h]
      · simp [h, get?]
    show (putAll (t.put k v) pairs).get? name = _
    rw [ih, hput, List.reverse_cons, get?_append, Option.or_assoc]

/-! ### Pairs that are present -/

/-- A value is found under its name if it is present. -/
theorem lookup_present {pairs : List (String × Option α)} (h : (pairs.map Prod.fst).Nodup)
    (name : String) :
    (pairs.filterMap fun p => p.2.map (p.1, ·)).lookup name = (pairs.lookup name).join := by
  induction pairs with
  | nil => rfl
  | cons p pairs ih =>
    obtain ⟨k, v⟩ := p
    obtain ⟨hk, hrest⟩ := List.nodup_cons.mp h
    have hmore := ih hrest
    by_cases hname : name = k
    · subst hname
      cases v with
      | some a => simp
      | none =>
        -- the name does not come again
        have habsent : pairs.lookup name = none := by
          rw [List.lookup_eq_none_iff]
          intro p hp
          have hne : name ≠ p.1 := fun e => hk (List.mem_map.mpr ⟨p, hp, e.symm⟩)
          simpa using hne
        simpa [habsent] using hmore
    · cases v with
      | some a => simpa [List.lookup_cons, beq_eq_false_iff_ne.mpr hname] using hmore
      | none => simpa [List.lookup_cons, beq_eq_false_iff_ne.mpr hname] using hmore

/-- No name comes twice among the pairs that are present if none does among all. -/
theorem present_nodup {pairs : List (String × Option α)} (h : (pairs.map Prod.fst).Nodup) :
    ((pairs.filterMap fun p => p.2.map (p.1, ·)).map Prod.fst).Nodup := by
  refine h.sublist ?_
  induction pairs with
  | nil => exact .slnil
  | cons p pairs ih =>
    obtain ⟨k, v⟩ := p
    have hmore := ih (List.nodup_cons.mp h).2
    cases v with
    | none => exact hmore.cons k
    | some a => exact hmore.cons_cons k

/-! ### Order -/

/-- A name that comes after all the others is put at the end. -/
theorem put_eq_append {t : Table α} {name : String} (h : ∀ p ∈ t, p.1 < name) (v : α) :
    t.put name v = t ++ [(name, v)] := by
  induction t with
  | nil => rfl
  | cons p t ih =>
    obtain ⟨k, u⟩ := p
    have hk : k < name := h (k, u) List.mem_cons_self
    have hne : name ≠ k := fun e => String.lt_irrefl _ (e ▸ hk)
    rw [put, if_neg (String.lt_asymm hk), if_neg hne, ih fun q hq => h q (List.mem_cons_of_mem _ hq),
      List.cons_append]

theorem Ordered.putAll_eq_append {t u : Table α} (h : Ordered (t ++ u)) : t.putAll u = t ++ u := by
  induction u generalizing t with
  | nil => exact (List.append_nil t).symm
  | cons p u ih =>
    have hlast : ∀ q ∈ t, q.1 < p.1 := fun q hq =>
      (List.pairwise_append.mp h).2.2 q hq p List.mem_cons_self
    rw [List.append_cons] at h ⊢
    show putAll (t.put p.1 p.2) u = _
    rw [put_eq_append hlast, ih h]

/-- A table in order is made of its own pairs. -/
theorem Ordered.ofList_eq {t : Table α} (h : t.Ordered) : ofList t = t :=
  Ordered.putAll_eq_append (t := []) h

theorem Ordered.nodup {t : Table α} (h : t.Ordered) : (t.map Prod.fst).Nodup := by
  rw [List.nodup_iff_pairwise_ne, List.pairwise_map]
  apply h.imp
  intro p q hlt heq
  rw [heq] at hlt
  exact String.lt_irrefl _ hlt

/-- In an ordered table the last pair of a name is the only one. -/
theorem Ordered.get?_reverse {t : Table α} (h : t.Ordered) (name : String) :
    get? t.reverse name = t.get? name :=
  Table.get?_reverse h.nodup name

/-- What is found after a table was laid over another one. -/
theorem Ordered.get?_putAll {upper : Table α} (h : upper.Ordered) (lower : Table α)
    (name : String) :
    (lower.putAll upper).get? name = (upper.get? name).or (lower.get? name) := by
  rw [Table.get?_putAll, h.get?_reverse]

/-- The first name of an ordered table comes before all the others, so it is not among them. -/
theorem Ordered.get?_rest {k : String} {v : α} {t : Table α} (h : Ordered ((k, v) :: t)) :
    t.get? k = none := by
  rw [← Option.not_isSome_iff_eq_none, isSome_get?]
  exact (List.nodup_cons.mp h.nodup).1

/-- No name of an ordered table comes before its first one. -/
theorem Ordered.first_le {k name : String} {v w : α} {t : Table α} (h : Ordered ((k, v) :: t))
    (hfound : get? ((k, v) :: t) name = some w) : k ≤ name := by
  rcases List.mem_cons.mp (mem_of_get? hfound) with heq | hmem
  · obtain ⟨rfl, -⟩ := Prod.mk.inj heq
    exact String.le_refl name
  · have hlt : k < name := (List.pairwise_cons.mp h).1 (name, w) hmem
    exact String.not_lt.mp (String.lt_asymm hlt)

/-- Ordered tables in which the same is found under every name are the same. -/
theorem Ordered.ext {t u : Table α} (ht : t.Ordered) (hu : u.Ordered)
    (h : ∀ name, t.get? name = u.get? name) : t = u := by
  induction t generalizing u with
  | nil =>
    cases u with
    | nil => rfl
    | cons q u =>
      have hq := h q.1
      rw [get?_cons, if_pos rfl] at hq
      cases hq
  | cons p t ih =>
    obtain ⟨k, v⟩ := p
    cases u with
    | nil =>
      have hk := h k
      rw [get?_cons, if_pos rfl] at hk
      cases hk
    | cons q u =>
      obtain ⟨k', v'⟩ := q
      have hfound : get? ((k, v) :: t) k = some v := by rw [get?_cons, if_pos rfl]
      have hfound' : get? ((k', v') :: u) k' = some v' := by rw [get?_cons, if_pos rfl]
      -- each first name is found in the other table, so neither comes before the other
      have hname : k = k' := String.le_antisymm
        (ht.first_le ((h k').trans hfound')) (hu.first_le ((h k).symm.trans hfound))
      subst hname
      have hvalue : v = v' := Option.some.inj (hfound.symm.trans ((h k).trans hfound'))
      subst hvalue
      have hrest : ∀ name, get? t name = get? u name := by
        intro name
        by_cases hk : name = k
        · rw [hk, ht.get?_rest, hu.get?_rest]
        · have hname := h name
          rwa [get?_cons, get?_cons, if_neg hk, if_neg hk] at hname
      rw [ih (List.pairwise_cons.mp ht).2 (List.pairwise_cons.mp hu).2 hrest]

end Table

/-! ### Tables that have their order with them -/

namespace OrderedTable

variable {α : Type}

/-- Ordered tables are known by what is found in them. -/
theorem ext_get? {t u : OrderedTable α} (h : ∀ name, t.get? name = u.get? name) : t = u := by
  obtain ⟨pairs, hpairs⟩ := t
  obtain ⟨others, hothers⟩ := u
  obtain rfl : pairs = others := hpairs.ext hothers h
  rfl

/-- What is found after a table was laid over another one. -/
theorem get?_overlay (lower upper : OrderedTable α) (name : String) :
    (lower.overlay upper).get? name = (upper.get? name).or (lower.get? name) :=
  upper.ordered.get?_putAll lower.pairs name

/-- Laying a table over another one a second time changes nothing. -/
theorem overlay_overlay (lower upper : OrderedTable α) :
    (lower.overlay upper).overlay upper = lower.overlay upper := by
  apply ext_get?
  intro name
  rw [get?_overlay, get?_overlay, ← Option.or_assoc, Option.or_self]

end OrderedTable

end SearchClient
