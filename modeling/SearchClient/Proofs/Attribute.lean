/-
SearchClient/Proofs/Attribute.lean

The sentence by which the engine refuses an attribute.  `Says text before name use` is the sentence by its
parts: after the characters `before` the text has the opening, a name without a line break and the ending
that belongs to a use.  A text may have several sentences, and one opening may be followed by several endings.
What is read is the sentence with the leftmost opening and, from there, with the shortest name (`First`).

The reader is followed from the inside out: an ending (`attributeEnd?_eq_some_iff`), a name with its ending
(`attributeName?_eq_some_iff`), a whole sentence (`findAttribute?_eq_some_iff`).  The other way round, a name
in which no ending occurs is the shortest one in front of the ending that `message` puts after it, because
two endings do not overlap (`closing_overlap`).

Main result: `ofAttributeMessage?_exact`.
-/
import SearchClient.Error

namespace SearchClient

namespace AttributeUse

/-- What follows the name of an attribute that is not declared for the use. -/
def closing (use : AttributeUse) : List Char := ("` is not " ++ use.text).toList

theorem closing_ne_nil (use : AttributeUse) : use.closing ≠ [] := by
  cases use <;> decide

/-- No ending is the beginning of another one. -/
theorem eq_of_closing_append {use other : AttributeUse} {after after' : List Char}
    (h : use.closing ++ after = other.closing ++ after') : use = other := by
  cases use <;> cases other <;> first | rfl | simp [closing, text] at h

theorem closing_head (use : AttributeUse) : use.closing.head? = some '`' := by
  cases use <;> decide

theorem backtick_not_mem_closing_tail (use : AttributeUse) : '`' ∉ use.closing.tail := by
  cases use <;> decide

/-- An ending that starts before another one is over before that one starts. -/
theorem closing_overlap {use other : AttributeUse} {before after after' : List Char}
    (hbefore : before ≠ []) (h : use.closing ++ after = before ++ other.closing ++ after') :
    use.closing <+: before := by
  rw [List.append_assoc, List.append_eq_append_iff] at h
  rcases h with ⟨middle, rfl, -⟩ | ⟨middle, hclosing, hafter⟩
  · exact List.prefix_append _ middle
  · -- what sticks out would start with a backtick, and only the first character of an ending is one
    cases middle with
    | nil =>
      rw [List.append_nil] at hclosing
      exact hclosing ▸ List.prefix_rfl
    | cons c middle =>
      have hc : c = '`' := by
        have hhead := congrArg List.head? hafter
        rw [List.head?_append, other.closing_head] at hhead
        exact (Option.some.inj hhead).symm
      obtain ⟨b, before, rfl⟩ := List.exists_cons_of_ne_nil hbefore
      have hmem : c ∈ use.closing.tail := by simp [hclosing]
      rw [hc] at hmem
      exact absurd hmem use.backtick_not_mem_closing_tail

end AttributeUse

namespace ClientError

/-! ### Sentences -/

/-- A text starts with the name of an attribute and the ending that belongs to a use. -/
def Names (text name : List Char) (use : AttributeUse) : Prop :=
  '\n' ∉ name ∧ ∃ after, text = name ++ use.closing ++ after

/-- After some characters, a text says of an attribute that it is not declared for a use. -/
def Says (text before name : List Char) (use : AttributeUse) : Prop :=
  '\n' ∉ name ∧ ∃ after, text = before ++ attributeOpening ++ name ++ use.closing ++ after

/-- The sentence with the leftmost opening, and with the shortest name after it. -/
structure First (text before name : List Char) (use : AttributeUse) : Prop where
  stands : Says text before name use
  leftmost : ∀ before' name' use', Says text before' name' use' → before.length ≤ before'.length
  shortest : ∀ name' use', Says text before name' use' → name.length ≤ name'.length

theorem says_iff {text before name : List Char} {use : AttributeUse} :
    Says text before name use ↔
      ∃ rest, text = before ++ attributeOpening ++ rest ∧ Names rest name use := by
  constructor
  · rintro ⟨hname, after, rfl⟩
    exact ⟨name ++ use.closing ++ after, by simp only [List.append_assoc], hname, after, rfl⟩
  · rintro ⟨rest, rfl, hname, after, rfl⟩
    exact ⟨hname, after, by simp only [List.append_assoc]⟩

theorem names_nil_iff {text : List Char} {use : AttributeUse} :
    Names text [] use ↔ use.closing <+: text := by
  constructor
  · rintro ⟨-, after, rfl⟩
    exact List.prefix_append _ after
  · rintro ⟨after, rfl⟩
    exact ⟨List.not_mem_nil, after, rfl⟩

theorem names_cons_iff {c d : Char} {text name : List Char} {use : AttributeUse} :
    Names (c :: text) (d :: name) use ↔ c = d ∧ c ≠ '\n' ∧ Names text name use := by
  constructor
  · rintro ⟨hname, after, htext⟩
    obtain ⟨rfl, rfl⟩ := List.cons.inj htext
    exact ⟨rfl, fun hc => hname (by simp [hc]), fun hmem => hname (by simp [hmem]), after, rfl⟩
  · rintro ⟨rfl, hc, hname, after, rfl⟩
    refine ⟨fun hmem => ?_, after, rfl⟩
    rcases List.mem_cons.mp hmem with hmem | hmem
    · exact hc hmem.symm
    · exact hname hmem

theorem not_names_nil (name : List Char) (use : AttributeUse) : ¬ Names [] name use := by
  rintro ⟨-, after, h⟩
  simp [use.closing_ne_nil] at h

/-! ### Reading -/

theorem attributeEnd?_eq_some_iff {text : List Char} {use : AttributeUse} :
    attributeEnd? text = some use ↔ use.closing <+: text := by
  have hsound : ∀ other, attributeEnd? text = some other → other.closing <+: text := by
    intro other h
    rw [attributeEnd?] at h
    have hfront := List.find?_some h
    exact List.isPrefixOf_iff_prefix.mp hfront
  constructor
  · exact hsound use
  · intro h
    have hsome : (attributeEnd? text).isSome = true := by
      refine List.find?_isSome.mpr ⟨use, ?_, List.isPrefixOf_iff_prefix.mpr h⟩
      cases use <;> decide
    obtain ⟨other, hother⟩ := Option.isSome_iff_exists.mp hsome
    -- there is one ending at most
    obtain ⟨after, rfl⟩ := h
    obtain ⟨after', hafter⟩ := hsound other hother
    rw [hother, AttributeUse.eq_of_closing_append hafter]

/-- Of several names, the shortest one is read. -/
theorem attributeName?_eq_some {text name : List Char} {use : AttributeUse}
    (h : attributeName? text = some (name, use)) :
    Names text name use ∧ ∀ name' use', Names text name' use' → name.length ≤ name'.length := by
  induction text generalizing name with
  | nil => cases h
  | cons c text ih =>
    rw [attributeName?] at h
    split at h
    · next other hend =>
      obtain ⟨rfl, rfl⟩ := Prod.mk.inj (Option.some.inj h)
      exact ⟨names_nil_iff.mpr (attributeEnd?_eq_some_iff.mp hend), fun _ _ _ => Nat.zero_le _⟩
    · next hend =>
      split at h
      · cases h
      · next hc =>
        obtain ⟨⟨rest, other⟩, hrest, hname⟩ := Option.map_eq_some_iff.mp h
        obtain ⟨rfl, rfl⟩ := Prod.mk.inj hname
        obtain ⟨hnames, hshortest⟩ := ih hrest
        refine ⟨names_cons_iff.mpr ⟨rfl, hc, hnames⟩, fun name' use' h' => ?_⟩
        cases name' with
        | nil =>
          rw [attributeEnd?_eq_some_iff.mpr (names_nil_iff.mp h')] at hend
          cases hend
        | cons d name' =>
          exact Nat.succ_le_succ (hshortest name' use' (names_cons_iff.mp h').2.2)

/-- A name with an ending is not missed. -/
theorem isSome_attributeName? {text name : List Char} {use : AttributeUse}
    (h : Names text name use) : (attributeName? text).isSome = true := by
  induction text generalizing name with
  | nil => exact absurd h (not_names_nil name use)
  | cons c text ih =>
    rw [attributeName?]
    split
    · rfl
    · next hend =>
      cases name with
      | nil =>
        rw [attributeEnd?_eq_some_iff.mpr (names_nil_iff.mp h)] at hend
        cases hend
      | cons d name =>
        obtain ⟨-, hc, hrest⟩ := names_cons_iff.mp h
        rw [if_neg hc, Option.isSome_map]
        exact ih hrest

/-- A text has one name at its front, with one ending, once its length is known. -/
theorem Names.unique {text name name' : List Char} {use use' : AttributeUse}
    (h : Names text name use) (h' : Names text name' use') (hlength : name.length = name'.length) :
    name = name' ∧ use = use' := by
  obtain ⟨-, after, rfl⟩ := h
  obtain ⟨-, after', h'⟩ := h'
  rw [List.append_assoc, List.append_assoc] at h'
  obtain ⟨hname, hrest⟩ := List.append_inj h' hlength
  exact ⟨hname, AttributeUse.eq_of_closing_append hrest⟩

theorem attributeName?_eq_some_iff {text name : List Char} {use : AttributeUse} :
    attributeName? text = some (name, use) ↔
      Names text name use ∧ ∀ name' use', Names text name' use' → name.length ≤ name'.length := by
  refine ⟨attributeName?_eq_some, fun ⟨hnames, hshortest⟩ => ?_⟩
  obtain ⟨⟨name', use'⟩, hread⟩ := Option.isSome_iff_exists.mp (isSome_attributeName? hnames)
  obtain ⟨hnames', hshortest'⟩ := attributeName?_eq_some hread
  obtain ⟨rfl, rfl⟩ := hnames.unique hnames'
    (Nat.le_antisymm (hshortest _ _ hnames') (hshortest' _ _ hnames))
  exact hread

/-! ### Whole sentences -/

theorem says_nil_iff {text name : List Char} {use : AttributeUse} : Says text [] name use ↔
    attributeOpening <+: text ∧ Names (text.drop attributeOpening.length) name use := by
  rw [says_iff]
  constructor
  · rintro ⟨rest, rfl, hnames⟩
    rw [List.nil_append, List.drop_left]
    exact ⟨List.prefix_append _ rest, hnames⟩
  · rintro ⟨⟨rest, rfl⟩, hnames⟩
    rw [List.drop_left] at hnames
    exact ⟨rest, rfl, hnames⟩

theorem says_cons_iff {c b : Char} {text before name : List Char} {use : AttributeUse} :
    Says (c :: text) (b :: before) name use ↔ c = b ∧ Says text before name use := by
  constructor
  · rintro ⟨hname, after, htext⟩
    obtain ⟨rfl, rfl⟩ := List.cons.inj htext
    exact ⟨rfl, hname, after, rfl⟩
  · rintro ⟨rfl, hname, after, rfl⟩
    exact ⟨hname, after, rfl⟩

theorem not_says_nil (before name : List Char) (use : AttributeUse) : ¬ Says [] before name use := by
  rintro ⟨-, after, h⟩
  simp [use.closing_ne_nil] at h

/-- What is read at the front of a text. -/
def attributeHere? (text : List Char) : Option (List Char × AttributeUse) :=
  if attributeOpening.isPrefixOf text then attributeName? (text.drop attributeOpening.length) else none

theorem findAttribute?_cons (c : Char) (text : List Char) :
    findAttribute? (c :: text) = (attributeHere? (c :: text)).or (findAttribute? text) := rfl

theorem attributeHere?_eq_some {text name : List Char} {use : AttributeUse}
    (h : attributeHere? text = some (name, use)) : First text [] name use := by
  rw [attributeHere?] at h
  split at h
  · next hopening =>
    obtain ⟨hnames, hshortest⟩ := attributeName?_eq_some h
    refine ⟨says_nil_iff.mpr ⟨List.isPrefixOf_iff_prefix.mp hopening, hnames⟩,
      fun _ _ _ _ => Nat.zero_le _, fun name' use' h' => ?_⟩
    exact hshortest name' use' (says_nil_iff.mp h').2
  · cases h

theorem isSome_attributeHere? {text name : List Char} {use : AttributeUse}
    (h : Says text [] name use) : (attributeHere? text).isSome = true := by
  obtain ⟨hopening, hnames⟩ := says_nil_iff.mp h
  rw [attributeHere?, if_pos (List.isPrefixOf_iff_prefix.mpr hopening)]
  exact isSome_attributeName? hnames

theorem findAttribute?_eq_some {text name : List Char} {use : AttributeUse}
    (h : findAttribute? text = some (name, use)) : ∃ before, First text before name use := by
  induction text with
  | nil => cases h
  | cons c text ih =>
    rw [findAttribute?_cons, Option.or_eq_some_iff] at h
    rcases h with hhere | ⟨hhere, hrest⟩
    · exact ⟨[], attributeHere?_eq_some hhere⟩
    · obtain ⟨before, hstands, hleftmost, hshortest⟩ := ih hrest
      refine ⟨c :: before, says_cons_iff.mpr ⟨rfl, hstands⟩, fun before' name' use' h' => ?_,
        fun name' use' h' => hshortest name' use' (says_cons_iff.mp h').2⟩
      cases before' with
      | nil =>
        have hsome := isSome_attributeHere? h'
        rw [hhere] at hsome
        cases hsome
      | cons b before' =>
        exact Nat.succ_le_succ (hleftmost before' name' use' (says_cons_iff.mp h').2)

/-- A sentence is not missed. -/
theorem isSome_findAttribute? {text before name : List Char} {use : AttributeUse}
    (h : Says text before name use) : (findAttribute? text).isSome = true := by
  induction text generalizing before with
  | nil => exact absurd h (not_says_nil before name use)
  | cons c text ih =>
    rw [findAttribute?_cons, Option.isSome_or, Bool.or_eq_true]
    cases before with
    | nil => exact .inl (isSome_attributeHere? h)
    | cons b before => exact .inr (ih (says_cons_iff.mp h).2)

/-- There is one first sentence. -/
theorem First.unique {text before before' name name' : List Char} {use use' : AttributeUse}
    (h : First text before name use) (h' : First text before' name' use') :
    name = name' ∧ use = use' := by
  have hlength := Nat.le_antisymm (h.leftmost _ _ _ h'.stands) (h'.leftmost _ _ _ h.stands)
  obtain ⟨rest, rfl, hnames⟩ := says_iff.mp h.stands
  obtain ⟨rest', htext, hnames'⟩ := says_iff.mp h'.stands
  rw [List.append_assoc, List.append_assoc] at htext
  obtain ⟨rfl, hrest⟩ := List.append_inj htext hlength
  obtain rfl := List.append_cancel_left hrest
  exact hnames.unique hnames' (Nat.le_antisymm (h.shortest _ _ h'.stands) (h'.shortest _ _ h.stands))

theorem findAttribute?_eq_some_iff {text name : List Char} {use : AttributeUse} :
    findAttribute? text = some (name, use) ↔ ∃ before, First text before name use := by
  refine ⟨findAttribute?_eq_some, fun ⟨before, hfirst⟩ => ?_⟩
  obtain ⟨⟨name', use'⟩, hread⟩ := Option.isSome_iff_exists.mp (isSome_findAttribute? hfirst.stands)
  obtain ⟨before', hfirst'⟩ := findAttribute?_eq_some hread
  obtain ⟨rfl, rfl⟩ := hfirst.unique hfirst'
  exact hread

theorem ofAttributeMessage?_eq_some_iff {message : String} {e : ClientError} :
    ofAttributeMessage? message = some e ↔ ∃ before name use,
      First message.toList before name use ∧ e = .attributeNot use (String.ofList name) := by
  rw [ofAttributeMessage?, Option.map_eq_some_iff]
  constructor
  · rintro ⟨⟨name, use⟩, hfound, rfl⟩
    obtain ⟨before, hfirst⟩ := findAttribute?_eq_some hfound
    exact ⟨before, name, use, hfirst, rfl⟩
  · rintro ⟨before, name, use, hfirst, rfl⟩
    exact ⟨(name, use), findAttribute?_eq_some_iff.mpr ⟨before, hfirst⟩, rfl⟩

/-! ### Sentences as they are worded -/

/-- A name that has no ending in it is the shortest one in front of the ending after it. -/
theorem length_le_of_names {name name' after : List Char} {use use' : AttributeUse}
    (hname : ∀ other : AttributeUse, ¬ other.closing <:+: name)
    (h : Names (name ++ use.closing ++ after) name' use') : name.length ≤ name'.length := by
  obtain ⟨-, after', h⟩ := h
  refine Nat.le_of_not_lt fun hshorter => ?_
  -- the name goes on after the shorter one, with the ending of the shorter one
  rw [List.append_assoc, List.append_assoc, List.append_eq_append_iff] at h
  rcases h with ⟨middle, rfl, -⟩ | ⟨middle, rfl, hrest⟩
  · rw [List.length_append] at hshorter
    omega
  · have hmiddle : middle ≠ [] := by
      rintro rfl
      rw [List.append_nil] at hshorter
      exact Nat.lt_irrefl _ hshorter
    rw [← List.append_assoc] at hrest
    have hfront := AttributeUse.closing_overlap hmiddle hrest
    exact hname use' (hfront.isInfix.trans (List.suffix_append name' middle).isInfix)

theorem toList_message (use : AttributeUse) (name : String) :
    (attributeNot use name).message.toList = attributeOpening ++ name.toList ++ use.closing := by
  have hmessage : (attributeNot use name).message =
      "Attribute `" ++ name ++ "` is not " ++ use.text := rfl
  -- the opening is left folded, as a literal is not to be matched with an append
  rw [hmessage, AttributeUse.closing, String.toList_append, String.toList_append,
    String.toList_append, String.toList_append, List.append_assoc]
  rfl

/-- The sentence that words an error is the first one, whatever follows it. -/
theorem first_message {use : AttributeUse} {name : String} (hline : '\n' ∉ name.toList)
    (hname : ∀ other : AttributeUse, ¬ other.closing <:+: name.toList) (rest : String) :
    First ((attributeNot use name).message ++ rest).toList [] name.toList use := by
  rw [String.toList_append, toList_message]
  refine ⟨⟨hline, rest.toList, rfl⟩, fun _ _ _ _ => Nat.zero_le _, fun name' use' h => ?_⟩
  obtain ⟨-, hnames⟩ := says_nil_iff.mp h
  rw [List.append_assoc, List.append_assoc, List.drop_left, ← List.append_assoc] at hnames
  exact length_le_of_names hname hnames

/-- **Refusals of attributes are known exactly.**  A message is one if there is a sentence in it, and then
the error has the name and the use of the first sentence: the one with the leftmost opening that a name and
an ending follow, and with the shortest such name.  The wording of an error, with anything after it, stands
for that error again, unless the name has a line break or an ending in it. -/
theorem ofAttributeMessage?_exact :
    (∀ message, (∃ e, ofAttributeMessage? message = some e) ↔
      ∃ before name use, Says message.toList before name use) ∧
    (∀ message e, ofAttributeMessage? message = some e ↔ ∃ before name use,
      First message.toList before name use ∧ e = .attributeNot use (String.ofList name)) ∧
    ∀ use name rest, '\n' ∉ name.toList → (∀ other : AttributeUse, ¬ other.closing <:+: name.toList) →
      ofAttributeMessage? ((attributeNot use name).message ++ rest) = some (.attributeNot use name) := by
  refine ⟨fun message => ⟨?_, ?_⟩, fun _ _ => ofAttributeMessage?_eq_some_iff,
    fun use name rest hline hname => ?_⟩
  · rintro ⟨e, he⟩
    obtain ⟨before, name, use, hfirst, -⟩ := ofAttributeMessage?_eq_some_iff.mp he
    exact ⟨before, name, use, hfirst.stands⟩
  · rintro ⟨before, name, use, hstands⟩
    obtain ⟨found, hfound⟩ := Option.isSome_iff_exists.mp (isSome_findAttribute? hstands)
    exact ⟨_, by rw [ofAttributeMessage?, hfound]; rfl⟩
  · exact ofAttributeMessage?_eq_some_iff.mpr ⟨[], name.toList, use, first_message hline hname rest,
      by rw [String.ofList_toList]⟩

/-- A name may have backticks, and other sentences may follow. -/
theorem ofAttributeMessage?_exact_backticks :
    ofAttributeMessage? ((attributeNot .sortable "`price` is not").message ++
        ". Attribute `color` is not filterable.") =
      some (.attributeNot .sortable "`price` is not") := by
  refine ofAttributeMessage?_exact.2.2 .sortable "`price` is not" _ (by decide) fun other h => ?_
  -- the name is too short for an ending
  have hlength := h.length_le
  cases other <;> exact absurd hlength (by decide)

/-- A line break ends the first sentence too early, and a backtick does not end the second one. -/
example : ofAttributeMessage?
    "Attribute `a\nb` is not sortable. Attribute `x` is` is not searchable." =
      some (.attributeNot .searchable "x` is") := by decide

end ClientError

end SearchClient
