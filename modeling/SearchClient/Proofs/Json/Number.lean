/-
SearchClient/Proofs/Json/Number.lean

Numbers in JSON text.  A written number is a `Numeral`: a sign, digits without needless zeros in front,
perhaps more digits after a point, and perhaps a power of ten.  The reader takes a numeral as a whole and
gets its parts back (`Numeral.readNumber_chars`), as long as what follows does not go on with it.

Main results: an integer of 64 bits is written as a numeral that is read as that integer
(`exists_numeral_int`), and a finite binary64 number as one that is read as that number
(`exists_numeral_float`), negative zero included.
-/
import SearchClient.Json.Text
import SearchClient.Json.Reader
import SearchClient.Proofs.Json.Exact
import SearchClient.Proofs.Number.Shortest
import SearchClient.Proofs.Text

namespace SearchClient.Json

open Number Text

/-! ### Digits -/

theorem digitsValue_eq (ds : List Char) : digitsValue ds = Nat.ofDigitChars 10 ds 0 := rfl

@[simp] theorem digitsValue_toDigits (n : Nat) : digitsValue (Nat.toDigits 10 n) = n :=
  Nat.ofDigitChars_ten_toDigits

/-- The text does not go on with a digit. -/
def DigitsEnd (rest : List Char) : Prop := ∀ c ∈ rest.head?, c.isDigit = false

theorem readDigits_append {ds rest : List Char} (hne : ds ≠ [])
    (hds : ∀ c ∈ ds, c.isDigit = true) (hrest : DigitsEnd rest) :
    readDigits (ds ++ rest) = some (ds, rest) := by
  obtain ⟨htake, hdrop⟩ := takeWhile_run hds rest hrest
  rw [readDigits, htake, hdrop]
  split
  · contradiction
  · rfl

theorem readFraction_point {ds rest : List Char} (hne : ds ≠ [])
    (hds : ∀ c ∈ ds, c.isDigit = true) (hrest : DigitsEnd rest) :
    readFraction ('.' :: (ds ++ rest)) = some (some ds, rest) := by
  show (readDigits (ds ++ rest)).map _ = _
  rw [readDigits_append hne hds hrest]
  rfl

theorem readFraction_none {rest : List Char} (hrest : ∀ c ∈ rest.head?, c ≠ '.') :
    readFraction rest = some (none, rest) := by
  rw [readFraction]
  rintro cs rfl
  exact hrest '.' rfl rfl

/-! ### Powers of ten -/

/-- A power of ten as it is written, with a sign. -/
def powerChars : Option Int → List Char
  | none => []
  | some p => (if p < 0 then ['e', '-'] else ['e', '+']) ++ Nat.toDigits 10 p.natAbs

/-- The text does not go on with a character of a number. -/
def NumberEnds (rest : List Char) : Prop :=
  ∀ c ∈ rest.head?, c.isDigit = false ∧ c ≠ '.' ∧ c ≠ 'e' ∧ c ≠ 'E'

theorem NumberEnds.digitsEnd {rest : List Char} (h : NumberEnds rest) : DigitsEnd rest :=
  fun c hc => (h c hc).1

theorem readPower_chars (power : Option Int) {rest : List Char} (hrest : NumberEnds rest) :
    readPower (powerChars power ++ rest) = some (power, rest) := by
  cases power with
  | none =>
    rcases rest with - | ⟨c, rest⟩
    · rfl
    · obtain ⟨-, -, he, hE⟩ := hrest c rfl
      show readPower (c :: rest) = _
      rw [readPower.eq_def]
      exact if_neg (by simp [he, hE])
  | some p =>
    have hdigits := readDigits_append Nat.toDigits_ne_nil
      (fun c hc => isDigit_of_mem_toDigits (n := p.natAbs) hc) hrest.digitsEnd
    rw [powerChars]
    split
    · show (readDigits (Nat.toDigits 10 p.natAbs ++ rest)).map _ = _
      rw [hdigits, Option.map_some, digitsValue_toDigits]
      congr 3
      omega
    · show (readDigits (Nat.toDigits 10 p.natAbs ++ rest)).map _ = _
      rw [hdigits, Option.map_some, digitsValue_toDigits]
      congr 3
      omega

/-- What follows the digits before a power is the power, or the end of the number. -/
theorem head?_powerChars {power : Option Int} {rest : List Char} (hrest : NumberEnds rest) {c : Char}
    (hc : c ∈ (powerChars power ++ rest).head?) : c.isDigit = false ∧ c ≠ '.' := by
  cases power with
  | none =>
    obtain ⟨hdigit, hpoint, -⟩ := hrest c hc
    exact ⟨hdigit, hpoint⟩
  | some p =>
    have hc : c = 'e' := by
      rw [powerChars] at hc
      split at hc
      · exact (Option.some.inj hc).symm
      · exact (Option.some.inj hc).symm
    subst hc
    exact ⟨by decide, by decide⟩

/-! ### Numerals -/

/-- A number as it is written. -/
structure Numeral where
  negative : Bool
  /-- The digits before the point. -/
  whole : List Char
  /-- The digits after the point, if there is one. -/
  fraction : Option (List Char)
  power : Option Int
  whole_ne_nil : whole ≠ []
  whole_digits : ∀ c ∈ whole, c.isDigit = true
  no_zeros : ¬(whole.length ≠ 1 ∧ whole.head? = some '0')
  fraction_ne_nil : ∀ ds ∈ fraction, ds ≠ []
  fraction_digits : ∀ ds ∈ fraction, ∀ c ∈ ds, c.isDigit = true

namespace Numeral

variable (n : Numeral)

def fractionChars : List Char :=
  match n.fraction with
  | none => []
  | some ds => '.' :: ds

/-- The text of a numeral without its sign. -/
def bodyChars : List Char := n.whole ++ (n.fractionChars ++ powerChars n.power)

def chars : List Char := if n.negative then '-' :: n.bodyChars else n.bodyChars

/-- All digits of a numeral as one number, and the power of ten that it is multiplied with. -/
def digits : Nat := digitsValue (n.whole ++ n.fraction.getD [])

def exponent : Int := n.power.getD 0 - (n.fraction.getD []).length

/-- The fraction and the power of a numeral, one after the other. -/
theorem readFraction_chars {rest : List Char} (hrest : NumberEnds rest) :
    readFraction (n.fractionChars ++ (powerChars n.power ++ rest)) =
      some (n.fraction, powerChars n.power ++ rest) := by
  have hend : ∀ c ∈ (powerChars n.power ++ rest).head?, c.isDigit = false ∧ c ≠ '.' :=
    fun c hc => head?_powerChars hrest hc
  rcases h : n.fraction with - | ds
  · rw [fractionChars, h]
    exact readFraction_none fun c hc => (hend c hc).2
  · rw [fractionChars, h]
    exact readFraction_point (n.fraction_ne_nil ds h) (n.fraction_digits ds h)
      fun c hc => (hend c hc).1

/-- The digits in front end with the fraction or the power, or with the number. -/
theorem digitsEnd_fractionChars {rest : List Char} (hrest : NumberEnds rest) :
    DigitsEnd (n.fractionChars ++ (powerChars n.power ++ rest)) := by
  intro c hc
  rw [fractionChars] at hc
  split at hc
  · exact (head?_powerChars hrest hc).1
  · obtain rfl := Option.some.inj hc
    decide

/-- The value that is read from a numeral. -/
def value? : Option Json := numberOf n.negative n.whole n.fraction n.power

/-- A numeral is read up to its end. -/
theorem readNumber_chars {rest : List Char} (hrest : NumberEnds rest) :
    readNumber (n.chars ++ rest) = n.value?.map (·, rest) := by
  have hbody : n.bodyChars ++ rest =
      n.whole ++ (n.fractionChars ++ (powerChars n.power ++ rest)) := by
    rw [bodyChars, List.append_assoc, List.append_assoc]
  have hwhole := readDigits_append n.whole_ne_nil n.whole_digits (n.digitsEnd_fractionChars hrest)
  have hfraction := n.readFraction_chars hrest
  have hpower := readPower_chars n.power hrest
  rw [value?]
  cases hsign : n.negative with
  | true =>
    have htext : n.chars ++ rest = '-' :: (n.bodyChars ++ rest) := by
      rw [chars, if_pos hsign]
      rfl
    rw [htext, hbody, readNumber]
    simp only [hwhole, hfraction, hpower, Option.bind_eq_bind, Option.bind_some, if_neg n.no_zeros]
    exact Option.map_eq_bind.symm
  | false =>
    have htext : n.chars ++ rest = n.bodyChars ++ rest := by
      rw [chars, if_neg (by simp [hsign])]
    rw [htext, hbody, readNumber]
    · simp only [hwhole, hfraction, hpower, Option.bind_eq_bind, Option.bind_some, if_neg n.no_zeros]
      exact Option.map_eq_bind.symm
    · -- a digit is not a sign
      intro cs hcs
      obtain ⟨c, ds, hds⟩ := List.exists_cons_of_ne_nil n.whole_ne_nil
      have hc : c.isDigit = true := n.whole_digits c (by simp [hds])
      rw [hds] at hcs
      obtain rfl := (List.cons.inj hcs).1
      cases hc

end Numeral

/-! ### Integers -/

theorem fitsWord_iff {i : Int} : FitsWord i ↔ -2 ^ 63 ≤ i ∧ i < 2 ^ 64 := Iff.rfl

theorem exact_ofUInt64 (n : UInt64) : (ofUInt64 n).Exact := by
  have hlt : n.toNat < 2 ^ 64 := n.toNat_lt
  show FitsWord n.toNat
  rw [fitsWord_iff]
  omega

/-- The digits of a natural number with a sign. -/
def Numeral.ofNat (negative : Bool) (n : Nat) : Numeral where
  negative
  whole := Nat.toDigits 10 n
  fraction := none
  power := none
  whole_ne_nil := Nat.toDigits_ne_nil
  whole_digits := fun _ hc => isDigit_of_mem_toDigits hc
  no_zeros := by
    rintro ⟨hlength, hhead⟩
    rcases Nat.eq_zero_or_pos n with rfl | hpos
    · exact hlength rfl
    · exact head?_toDigits hpos.ne' hhead
  fraction_ne_nil := by simp
  fraction_digits := by simp

theorem intText_eq (i : Int) : intText i = (Numeral.ofNat (i < 0) i.natAbs).chars := by
  have hbody : ∀ b, (Numeral.ofNat b i.natAbs).bodyChars = Nat.toDigits 10 i.natAbs := by
    intro b
    simp [Numeral.bodyChars, Numeral.fractionChars, Numeral.ofNat, powerChars]
  rw [intText, Numeral.chars, hbody]
  show _ = if decide (i < 0) = true then _ else _
  simp only [decide_eq_true_eq]

/-- Digits alone are an integer, if they fit. -/
theorem numberOf_digits (negative : Bool) (whole : List Char)
    (h : if negative then 0 < digitsValue whole ∧ digitsValue whole ≤ 2 ^ 63
      else digitsValue whole < 2 ^ 64) :
    numberOf negative whole none none =
      some (.int (if negative then -digitsValue whole else digitsValue whole)) := by
  have h63 : Nat.pow 2 63 = 2 ^ 63 := rfl
  have h64 : UInt64.size = 2 ^ 64 := rfl
  rw [numberOf]
  apply if_pos
  cases negative with
  | true =>
    simp only [Option.isNone_none, Bool.true_and, if_true, Bool.and_eq_true, decide_eq_true_eq, h63]
    exact h
  | false =>
    simp only [Option.isNone_none, Bool.true_and, Bool.false_eq_true, if_false, decide_eq_true_eq, h64]
    exact h

/-- An integer of 64 bits is written as a numeral that is read as an integer. -/
theorem exists_numeral_int {i : Int} (hi : FitsWord i) :
    ∃ n : Numeral, chars (.int i) = n.chars ∧ n.value? = some (.int i) := by
  obtain ⟨hlow, hhigh⟩ := fitsWord_iff.mp hi
  refine ⟨Numeral.ofNat (i < 0) i.natAbs, ?_, ?_⟩
  · rw [chars, intText_eq]
  show numberOf (decide (i < 0)) (Nat.toDigits 10 i.natAbs) none none = _
  by_cases hneg : i < 0
  · rw [decide_eq_true hneg, numberOf_digits true _ (by rw [if_pos rfl, digitsValue_toDigits]; omega),
      digitsValue_toDigits]
    have hint : -(i.natAbs : Int) = i := by omega
    rw [if_pos rfl, hint]
  · have hfits : digitsValue (Nat.toDigits 10 i.natAbs) < 2 ^ 64 := by
      rw [digitsValue_toDigits]
      omega
    rw [decide_eq_false hneg, numberOf_digits false _ hfits, digitsValue_toDigits]
    have hint : (i.natAbs : Int) = i := by omega
    show some (Json.int (i.natAbs : Int)) = _
    rw [hint]

/-! ### Floating-point numbers -/

/-- A numeral that writes a decimal in a form that is not read as an integer. -/
structure Numeral.Writes (n : Numeral) (negative : Bool) (d : Decimal) (body : List Char) : Prop where
  negative_eq : n.negative = negative
  bodyChars_eq : n.bodyChars = body
  marked : (n.fraction.isNone && n.power.isNone) = false
  value_eq : (n.digits : ℚ) * 10 ^ n.exponent = d.digits * 10 ^ d.power

/-- A whole number: its digits with zeros behind them, then a point and a zero. -/
def Numeral.ofWhole (negative : Bool) (d : Decimal) (h : d.digits ≠ 0 ∨ d.power = 0) : Numeral where
  negative
  whole := Nat.toDigits 10 d.digits ++ List.replicate d.power.toNat '0'
  fraction := some ['0']
  power := none
  whole_ne_nil := by simp [Nat.toDigits_ne_nil]
  whole_digits := by
    intro c hc
    rcases List.mem_append.mp hc with hc | hc
    · exact isDigit_of_mem_toDigits hc
    · exact isDigit_of_mem_zeros hc
  no_zeros := by
    rintro ⟨hlength, hhead⟩
    rw [List.head?_append, Option.or_of_isSome (List.isSome_head?.mpr Nat.toDigits_ne_nil)] at hhead
    by_cases hzero : d.digits = 0
    · rw [hzero, h.resolve_left (not_not.mpr hzero)] at hlength
      exact hlength rfl
    · exact head?_toDigits hzero hhead
  fraction_ne_nil := by simp
  fraction_digits := by simp

theorem Numeral.digits_ofWhole {negative : Bool} {d : Decimal} (h : d.digits ≠ 0 ∨ d.power = 0) :
    (ofWhole negative d h).digits = 10 * (10 ^ d.power.toNat * d.digits) := by
  show Nat.ofDigitChars 10 (Nat.toDigits 10 d.digits ++ List.replicate d.power.toNat '0' ++ ['0']) 0 = _
  rw [Nat.ofDigitChars_append, Nat.ofDigitChars_append, Nat.ofDigitChars_ten_toDigits,
    Nat.ofDigitChars_replicate_zero]
  rfl

theorem Numeral.ofWhole_writes (negative : Bool) {d : Decimal} (h : d.digits ≠ 0 ∨ d.power = 0)
    (hpower : 0 ≤ d.power) : (ofWhole negative d h).Writes negative d (d.positional true) where
  negative_eq := rfl
  bodyChars_eq := by
    rw [Decimal.positional, if_pos hpower]
    rfl
  marked := rfl
  value_eq := by
    have hexponent : (ofWhole negative d h).exponent = -1 := rfl
    have hten : (10 : ℚ) ^ d.power = 10 ^ d.power.toNat := by
      rw [← zpow_natCast, Int.toNat_of_nonneg hpower]
    rw [digits_ofWhole, hexponent, hten, zpow_neg_one]
    push_cast
    field_simp

/-- The digits of a decimal with zeros in front, so many that there are digits on both sides of the
point. -/
def padded (d : Decimal) : List Char :=
  List.replicate ((-d.power).toNat + 1 - (Nat.toDigits 10 d.digits).length) '0' ++
    Nat.toDigits 10 d.digits

theorem length_padded (d : Decimal) :
    (padded d).length = max ((-d.power).toNat + 1) (Nat.toDigits 10 d.digits).length := by
  rw [padded, List.length_append, List.length_replicate]
  omega

theorem isDigit_of_mem_padded {d : Decimal} {c : Char} (h : c ∈ padded d) : c.isDigit = true := by
  rcases List.mem_append.mp h with h | h
  · exact isDigit_of_mem_zeros h
  · exact isDigit_of_mem_toDigits h

theorem digitsValue_padded (d : Decimal) : digitsValue (padded d) = d.digits := by
  rw [padded, digitsValue_eq, Nat.ofDigitChars_append, Nat.ofDigitChars_replicate_zero, Nat.mul_zero,
    Nat.ofDigitChars_ten_toDigits]

/-- More than one digit before the point means that no zero was put in front. -/
theorem head?_padded {d : Decimal} (hpower : d.power < 0)
    (h : (-d.power).toNat + 1 < (padded d).length) : (padded d).head? ≠ some '0' := by
  rw [length_padded] at h
  have hnone : (-d.power).toNat + 1 - (Nat.toDigits 10 d.digits).length = 0 := by omega
  rw [padded, hnone]
  apply head?_toDigits
  intro hzero
  have hsingle : (Nat.toDigits 10 0).length = 1 := rfl
  rw [hzero] at h
  omega

/-- The digits around a point, with zeros in front as far as they are needed. -/
def Numeral.ofPlaces (negative : Bool) (d : Decimal) (hpower : d.power < 0) : Numeral where
  negative
  whole := (padded d).take ((padded d).length - (-d.power).toNat)
  fraction := some ((padded d).drop ((padded d).length - (-d.power).toNat))
  power := none
  whole_ne_nil := by
    rw [← List.length_pos_iff, List.length_take, length_padded]
    omega
  whole_digits := fun c hc => isDigit_of_mem_padded (List.mem_of_mem_take hc)
  no_zeros := by
    rintro ⟨hlength, hhead⟩
    have hlong := length_padded d
    rw [List.length_take] at hlength
    rw [List.head?_take, if_neg (by omega)] at hhead
    exact head?_padded hpower (by omega) hhead
  fraction_ne_nil := by
    rintro ds hds
    obtain rfl := Option.some.inj hds
    have hlong := length_padded d
    rw [← List.length_pos_iff, List.length_drop]
    omega
  fraction_digits := by
    rintro ds hds
    obtain rfl := Option.some.inj hds
    exact fun c hc => isDigit_of_mem_padded (List.mem_of_mem_drop hc)

theorem Numeral.digits_ofPlaces {negative : Bool} {d : Decimal} (hpower : d.power < 0) :
    (ofPlaces negative d hpower).digits = d.digits := by
  show digitsValue ((padded d).take _ ++ (padded d).drop _) = _
  rw [List.take_append_drop, digitsValue_padded]

theorem Numeral.exponent_ofPlaces {negative : Bool} {d : Decimal} (hpower : d.power < 0) :
    (ofPlaces negative d hpower).exponent = d.power := by
  show (0 : Int) - ((padded d).drop ((padded d).length - (-d.power).toNat)).length = _
  have hlong := length_padded d
  rw [List.length_drop]
  omega

theorem Numeral.ofPlaces_writes (negative : Bool) {d : Decimal} (hpower : d.power < 0) :
    (ofPlaces negative d hpower).Writes negative d (d.positional true) where
  negative_eq := rfl
  bodyChars_eq := by
    show (padded d).take _ ++ ('.' :: (padded d).drop _ ++ []) = _
    rw [Decimal.positional, if_neg hpower.not_ge, List.append_nil]
    rfl
  marked := rfl
  value_eq := by rw [digits_ofPlaces, exponent_ofPlaces]

/-- One digit, the others after a point if there are any, and a power of ten. -/
def Numeral.ofScientific (negative : Bool) (d : Decimal) {c : Char} {rest : List Char}
    (hdigits : Nat.toDigits 10 d.digits = c :: rest) : Numeral where
  negative
  whole := [c]
  fraction := if rest = [] then none else some rest
  power := some d.leading
  whole_ne_nil := by simp
  whole_digits := by
    intro a ha
    obtain rfl := List.mem_singleton.mp ha
    exact isDigit_of_mem_toDigits (n := d.digits) (by simp [hdigits])
  no_zeros := by simp
  fraction_ne_nil := by simp
  fraction_digits := by
    intro ds hds
    split at hds
    · cases hds
    · obtain rfl := Option.some.inj hds
      exact fun a ha => isDigit_of_mem_toDigits (n := d.digits) (by simp [hdigits, ha])

section ofScientific

variable {negative : Bool} {d : Decimal} {c : Char} {rest : List Char}
  (hdigits : Nat.toDigits 10 d.digits = c :: rest)

theorem Numeral.fraction_ofScientific :
    (ofScientific negative d hdigits).fraction.getD [] = rest := by
  show (if rest = [] then none else some rest).getD [] = rest
  split
  · next hnil => rw [hnil]; rfl
  · rfl

theorem Numeral.fractionChars_ofScientific :
    (ofScientific negative d hdigits).fractionChars = if rest = [] then [] else '.' :: rest := by
  rw [fractionChars]
  by_cases hnil : rest = []
  · simp [ofScientific, hnil]
  · simp [ofScientific, hnil]

theorem Numeral.digits_ofScientific : (ofScientific negative d hdigits).digits = d.digits := by
  rw [digits, fraction_ofScientific]
  show digitsValue (c :: rest) = _
  rw [← hdigits, digitsValue_toDigits]

theorem Numeral.exponent_ofScientific : (ofScientific negative d hdigits).exponent = d.power := by
  have hlength : (decimalLength d.digits : Int) = rest.length + 1 := by
    rw [decimalLength, hdigits, List.length_cons]
    rfl
  rw [exponent, fraction_ofScientific]
  show d.leading - rest.length = d.power
  rw [Decimal.leading, hlength]
  omega

theorem Numeral.ofScientific_writes :
    (ofScientific negative d hdigits).Writes negative d d.scientific where
  negative_eq := rfl
  bodyChars_eq := by
    rw [bodyChars, fractionChars_ofScientific, Decimal.scientific, hdigits]
    show [c] ++ (_ ++ powerChars (some d.leading)) = _
    rw [powerChars]
    cases rest with
    | nil => rfl
    | cons => simp
  marked := by simp [ofScientific]
  value_eq := by rw [digits_ofScientific, exponent_ofScientific]

end ofScientific

/-- Whichever way a decimal is laid out, its value is there. -/
theorem exists_writes (negative plain : Bool) {d : Decimal} (hdigits : d.digits ≠ 0 ∨ d.power = 0) :
    ∃ n : Numeral, n.Writes negative d (if plain then d.positional true else d.scientific) := by
  cases plain with
  | false =>
    obtain ⟨c, rest, hchars⟩ :=
      List.exists_cons_of_ne_nil (Nat.toDigits_ne_nil (n := d.digits) (b := 10))
    exact ⟨_, Numeral.ofScientific_writes hchars⟩
  | true =>
    rcases Int.lt_or_le d.power 0 with hpower | hpower
    · exact ⟨_, Numeral.ofPlaces_writes negative hpower⟩
    · exact ⟨_, Numeral.ofWhole_writes negative hdigits hpower⟩

/-- The decimal that is written for a number is read as that number. -/
theorem ofDecimal_eq_of_value {x : Double} (hx : x.isFinite = true) {digits : Nat} {power : Int}
    (tie : Tie)
    (hvalue : (digits : ℚ) * 10 ^ power = (x.shortest tie).digits * 10 ^ (x.shortest tie).power) :
    Double.ofDecimal x.isNegative digits power = x := by
  by_cases hm : x.mantissa = 0
  · have hzero : (x.shortest tie).digits = 0 := by rw [Double.shortest, if_pos hm]
    have hten : (10 : ℚ) ^ power ≠ 0 := by positivity
    rw [hzero, Nat.cast_zero, zero_mul] at hvalue
    have hdigits : digits = 0 := by exact_mod_cast (mul_eq_zero.mp hvalue).resolve_right hten
    rw [hdigits, Double.ofDecimal_zero, ← Double.eq_ofParts_zero hx hm]
  · apply Double.Covers.ofDecimal_eq ?_ hx hm
    rw [hvalue]
    exact Double.shortest_covers tie hm

/-- A finite number is written as a numeral that is read as that number. -/
theorem exists_numeral_float {x : Double} (hx : x.isFinite = true) :
    ∃ n : Numeral, chars (.float x) = n.chars ∧ n.value? = some (.float x) := by
  have hdigits : (x.shortest .even).digits ≠ 0 ∨ (x.shortest .even).power = 0 := by
    by_cases hm : x.mantissa = 0
    · right
      rw [Double.shortest, if_pos hm]
    · left
      intro hzero
      have hcovers := (Double.shortest_covers .even hm).cutOff_lt hm
      rw [hzero, Nat.cast_zero, zero_mul] at hcovers
      exact hcovers.not_ge (by positivity)
  -- whether the decimal is written without an exponent
  obtain ⟨plain, hplain⟩ : ∃ plain, plain = (decide (-5 ≤ (x.shortest .even).leading) &&
    decide ((x.shortest .even).leading ≤ 15)) := ⟨_, rfl⟩
  obtain ⟨n, hsign, hbody, hmarked, hvalue⟩ := exists_writes x.isNegative plain hdigits
  refine ⟨n, ?_, ?_⟩
  · rw [chars, if_pos hx, Numeral.chars, hsign, hbody, hplain]
    rfl
  · have hread : Double.ofDecimal n.negative n.digits n.exponent = x := by
      rw [hsign]
      exact ofDecimal_eq_of_value hx .even hvalue
    simp only [Numeral.value?, numberOf, hmarked, Bool.false_and, Bool.false_eq_true, if_false]
    show (if (Double.ofDecimal n.negative n.digits n.exponent).isFinite = true then
      some (Json.float (Double.ofDecimal n.negative n.digits n.exponent)) else none) = _
    rw [hread, if_pos hx]

-- a whole number keeps a point, by which it is told from an integer
example : chars (.float ⟨0x3FF0000000000000⟩) = ['1', '.', '0'] := by decide +kernel

end SearchClient.Json
