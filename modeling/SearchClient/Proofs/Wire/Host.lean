/-
SearchClient/Proofs/Wire/Host.lean

Addresses in normal form: not empty, without a blank at either end and without a slash at the last one.
Reading drops the blanks at both ends and then the slashes at the last one, each of them once.  What is left
starts well and does not end with a slash, but it may end with a blank: one that stood before the slashes,
where the blanks were dropped too early to meet it (`HidesBlank`).

This is the only thing that can go wrong (`hidesBlank_of_last`).  Where no blank is hidden so, what is
kept is in normal form and is read again to itself, and only an address of blanks and slashes is refused;
where one is, neither holds (`read_settles_iff`).
-/
import SearchClient.Proofs.Text.Blank
import SearchClient.Wire.Host

namespace SearchClient.Host

open Text

variable {cs : List Char}

/-! ### Normal forms -/

/-- An address in normal form. -/
structure IsNormal (cs : List Char) : Prop where
  nonempty : cs ≠ []
  head : ∀ c ∈ cs.head?, isBlank c = false
  last : ∀ c ∈ cs.getLast?, isBlank c = false ∧ c ≠ '/'

/-- An address settles if what is kept of it is in normal form and stays as it is when it is read again, and
if it is refused only for want of anything but blanks and slashes. -/
structure Settles (s : String) : Prop where
  normal : ∀ kept, read s = .ok kept → IsNormal kept.toList ∧ read kept = .ok kept
  refused : read s = .error .noHost ↔ ∀ c ∈ s.toList, isBlank c = true ∨ c = '/'

/-- Right before the slashes at the end there is a blank, and somewhere before the blank there is something
else. -/
def HidesBlank (cs : List Char) : Prop :=
  ∃ front blank slashes back, cs = front ++ blank :: (slashes ++ back) ∧
    (∃ c ∈ front, isBlank c = false) ∧ isBlank blank = true ∧
    slashes ≠ [] ∧ (∀ c ∈ slashes, c = '/') ∧ Blanks back

/-! ### What is kept -/

/-- What is kept of an address, and the slashes and blanks around it. -/
theorem exists_normalize (cs : List Char) : ∃ front slashes back,
    cs = front ++ (normalize cs ++ slashes) ++ back ∧ Blanks front ∧ (∀ c ∈ slashes, c = '/') ∧
      Blanks back ∧ trim cs = normalize cs ++ slashes := by
  obtain ⟨⟨front, back, hcs, hfront, hback⟩, -, -⟩ := trim_trims cs
  obtain ⟨slashes, htrim, hslashes, -⟩ := dropEndWhile_eq_iff.mp (Eq.refl (normalize cs))
  refine ⟨front, slashes, back, ?_, hfront, ?_, hback, htrim⟩
  · rw [← htrim]
    exact hcs
  · intro c hc
    exact of_decide_eq_true (hslashes c hc)

theorem mem_of_mem_normalize {c : Char} (h : c ∈ normalize cs) : c ∈ cs := by
  obtain ⟨front, slashes, back, hcs, -⟩ := exists_normalize cs
  rw [hcs]
  simp [h]

theorem normalize_head : ∀ c ∈ (normalize cs).head?, isBlank c = false := by
  intro c hc
  obtain ⟨-, slashes, -, -, -, -, -, htrim⟩ := exists_normalize cs
  apply (trim_trims cs).head c
  rw [htrim, List.head?_append, Option.mem_def.mp hc]
  rfl

theorem normalize_last : ∀ c ∈ (normalize cs).getLast?, c ≠ '/' := by
  intro c hc
  obtain ⟨-, -, -, hlast⟩ := dropEndWhile_eq_iff.mp (Eq.refl (normalize cs))
  exact of_decide_eq_false (hlast c hc)

/-- An address in normal form is kept as it is. -/
theorem IsNormal.normalize_eq (h : IsNormal cs) : normalize cs = cs := by
  have htrim : trim cs = cs := by
    refine trim_eq_iff.mpr ⟨⟨[], [], by simp, blanks_nil, blanks_nil⟩, h.head, ?_⟩
    intro c hc
    exact (h.last c hc).1
  rw [normalize, htrim]
  refine dropEndWhile_eq_iff.mpr ⟨[], by simp, by simp, ?_⟩
  intro c hc
  exact decide_eq_false (h.last c hc).2

/-- A blank at the end of what is kept was hidden by slashes. -/
theorem hidesBlank_of_last {blank : Char} (hlast : blank ∈ (normalize cs).getLast?)
    (hblank : isBlank blank = true) : HidesBlank cs := by
  obtain ⟨front, slashes, back, hcs, -, hslashes, hback, htrim⟩ := exists_normalize cs
  obtain ⟨kept, hkept⟩ := List.getLast?_eq_some_iff.mp (Option.mem_def.mp hlast)
  have htrims := trim_trims cs
  -- the address was trimmed, so the blank is neither its last character nor its first one
  have hne : slashes ≠ [] := by
    rintro rfl
    have hsolid := htrims.last blank (by rw [htrim, hkept]; simp)
    rw [hblank] at hsolid
    cases hsolid
  have hsome : kept ≠ [] := by
    rintro rfl
    have hsolid := htrims.head blank (by rw [htrim, hkept]; rfl)
    rw [hblank] at hsolid
    cases hsolid
  obtain ⟨c, rest, rfl⟩ := List.exists_cons_of_ne_nil hsome
  have hc : isBlank c = false := htrims.head c (by rw [htrim, hkept]; rfl)
  refine ⟨front ++ c :: rest, blank, slashes, back, ?_, ⟨c, by simp, hc⟩, hblank, hne, hslashes,
    hback⟩
  rw [hcs, hkept]
  simp

/-- A hidden blank is the end of what is kept. -/
theorem HidesBlank.normalize_last (h : HidesBlank cs) :
    ∃ c ∈ (normalize cs).getLast?, isBlank c = true := by
  obtain ⟨front, blank, slashes, back, rfl, hsome, hblank, hne, hslashes, hback⟩ := h
  -- trimming starts at the first character that is no blank
  obtain ⟨gap, d, rest, rfl, hgap, hd⟩ := exists_first_solid hsome
  have htrim : trim (gap ++ d :: rest ++ blank :: (slashes ++ back)) =
      d :: rest ++ [blank] ++ slashes := by
    refine trim_eq_iff.mpr ⟨⟨gap, back, by simp, hgap, hback⟩, ?_, ?_⟩
    · intro c hc
      exact Option.some.inj hc ▸ hd
    · intro c hc
      rw [List.getLast?_append_of_ne_nil _ hne] at hc
      rw [hslashes c (List.mem_of_getLast? hc)]
      decide
  have hend : (d :: rest ++ [blank]).getLast? = some blank := List.getLast?_concat
  have hkept : normalize (gap ++ d :: rest ++ blank :: (slashes ++ back)) =
      d :: rest ++ [blank] := by
    rw [normalize, htrim]
    refine dropEndWhile_eq_iff.mpr ⟨slashes, rfl, ?_, ?_⟩
    · intro c hc
      exact decide_eq_true (hslashes c hc)
    · intro c hc
      rw [hend] at hc
      obtain rfl := Option.some.inj hc
      apply decide_eq_false
      rintro rfl
      exact absurd hblank (by decide)
  exact ⟨blank, hkept ▸ hend, hblank⟩

/-- If nothing is kept, there was nothing but blanks and slashes. -/
theorem blank_or_slash_of_normalize (h : normalize cs = []) :
    ∀ c ∈ cs, isBlank c = true ∨ c = '/' := by
  intro c hc
  obtain ⟨front, slashes, back, hcs, hfront, hslashes, hback, -⟩ := exists_normalize cs
  rw [hcs, h, List.nil_append] at hc
  rcases List.mem_append.mp hc with hc | hc
  · rcases List.mem_append.mp hc with hc | hc
    · exact .inl (hfront c hc)
    · exact .inr (hslashes c hc)
  · exact .inl (hback c hc)

section NoBlank

variable (h : ¬ HidesBlank cs)
include h

/-- Where no blank is hidden, none is left at the end. -/
theorem normalize_last_solid : ∀ c ∈ (normalize cs).getLast?, isBlank c = false := by
  intro c hlast
  apply Bool.eq_false_iff.mpr
  intro hblank
  exact h (hidesBlank_of_last hlast hblank)

theorem normalize_isNormal (hne : normalize cs ≠ []) : IsNormal (normalize cs) where
  nonempty := hne
  head := normalize_head
  last c hlast := ⟨normalize_last_solid h c hlast, normalize_last c hlast⟩

theorem normalize_eq_nil (hall : ∀ c ∈ cs, isBlank c = true ∨ c = '/') : normalize cs = [] := by
  -- the last character to be kept would be neither a blank nor a slash
  cases hlast : (normalize cs).getLast? with
  | none => exact List.getLast?_eq_none_iff.mp hlast
  | some c =>
    rcases hall c (mem_of_mem_normalize (List.mem_of_getLast? hlast)) with hblank | hslash
    · rw [normalize_last_solid h c hlast] at hblank
      cases hblank
    · exact absurd hslash (normalize_last c hlast)

end NoBlank

/-! ### Reading -/

theorem read_eq_ok_iff {s kept : String} :
    read s = .ok kept ↔ kept.toList = normalize s.toList ∧ kept.toList ≠ [] := by
  unfold read
  split
  · next hnil => simp [hnil]
  · next hne =>
    constructor
    · intro h
      rw [← Except.ok.inj h, String.toList_ofList]
      exact ⟨rfl, hne⟩
    · rintro ⟨hkept, -⟩
      rw [← hkept, String.ofList_toList]

theorem read_eq_error_iff {s : String} : read s = .error .noHost ↔ normalize s.toList = [] := by
  unfold read
  split
  · next hnil => simp [hnil]
  · next hne =>
    constructor
    · intro h
      cases h
    · intro hnil
      exact absurd hnil hne

/-- **What settles.**  An address settles exactly if it hides no blank. -/
theorem read_settles_iff (s : String) : Settles s ↔ ¬ HidesBlank s.toList := by
  constructor
  · intro hsettles hhides
    obtain ⟨c, hlast, hblank⟩ := hhides.normalize_last
    have hkept : read s = .ok (String.ofList (normalize s.toList)) := by
      rw [read_eq_ok_iff, String.toList_ofList]
      exact ⟨rfl, List.ne_nil_of_mem (List.mem_of_getLast? hlast)⟩
    obtain ⟨hnormal, -⟩ := hsettles.normal _ hkept
    rw [String.toList_ofList] at hnormal
    have hsolid := (hnormal.last c hlast).1
    rw [hblank] at hsolid
    cases hsolid
  · intro hnone
    refine ⟨?_, ?_⟩
    · intro kept hread
      obtain ⟨hkept, hne⟩ := read_eq_ok_iff.mp hread
      have hnormal : IsNormal kept.toList := by
        rw [hkept] at hne ⊢
        exact normalize_isNormal hnone hne
      exact ⟨hnormal, read_eq_ok_iff.mpr ⟨hnormal.normalize_eq.symm, hne⟩⟩
    · rw [read_eq_error_iff]
      exact ⟨blank_or_slash_of_normalize, normalize_eq_nil hnone⟩

/-- **What does not settle.**  A blank before the last slash is kept, and reading again drops it.  A blank
between two slashes is taken for an address. -/
theorem read_unsettled :
    ¬ Settles "http://h/ /" ∧ read "http://h/ /" = .ok "http://h/ " ∧
      read "http://h/ " = .ok "http://h" ∧
    ¬ Settles "/ /" ∧ read "/ /" = .ok "/ " ∧ ∀ c ∈ "/ /".toList, isBlank c = true ∨ c = '/' := by
  have hhost : read "http://h/ /" = .ok "http://h/ " := by decide
  have hslashes : read "/ /" = .ok "/ " := by decide
  have hblank : isBlank ' ' = true := by decide
  have hall : ∀ c ∈ "/ /".toList, isBlank c = true ∨ c = '/' := by simp [hblank]
  refine ⟨?_, hhost, by decide, ?_, hslashes, hall⟩
  · intro hsettles
    have hagain := (hsettles.normal _ hhost).2
    exact absurd hagain (by decide)
  · intro hsettles
    have hrefused := hsettles.refused.mpr hall
    rw [hslashes] at hrefused
    cases hrefused

end SearchClient.Host
