/-
SearchClient/Sample/Draw.lean

Drawing distinct numbers below a bound, in random order, from a generator of random words.  A word
is turned into a number below `r` by taking the high half of its product with `r`; words whose
product has a low half outside a zone are drawn again, which keeps the numbers equally likely.

Four strategies share the work.  Few numbers out of many are drawn by Floyd's method, up to 49 of
them straight into random order and more of them with a shuffle at the end.  Many numbers out of
not so many more are the front of a partly shuffled list.  What remains, and every bound beyond 32
bits, draws again whenever a number was drawn before.  Where one strategy gives way to another is
computed in single precision.

A generator may make a draw go on for ever, so every loop has a bound on its rounds and a draw that
exceeds it is `none`.
-/
import SearchClient.Number.Binary

namespace SearchClient.Sample

open Number

/-! ### Generators -/

/-- A source of random words with a state. -/
structure Generator (γ : Type) where
  next32 : γ → UInt32 × γ
  next64 : γ → UInt64 × γ

/-- The size of words in bits. -/
inductive Width where
  | w32 | w64
deriving DecidableEq

def Width.bits : Width → Nat
  | .w32 => 32
  | .w64 => 64

/-- A draw changes the state of a generator and may not finish. -/
abbrev Drawing (γ : Type) := StateT γ Option

section

variable {γ : Type} (g : Generator γ) (rounds : Nat)

/-- The next word. -/
def word : Width → Drawing γ Nat
  | .w32 => fun s => some ((g.next32 s).1.toNat, (g.next32 s).2)
  | .w64 => fun s => some ((g.next64 s).1.toNat, (g.next64 s).2)

/-- The high half of the product of a word with `r`, once the low half is at most `zone`. -/
def highHalf (w : Width) (r zone : Nat) : Nat → Drawing γ Nat
  | 0 => fun _ => none
  | n + 1 => do
    let v ← word g w
    if v * r % Nat.pow 2 w.bits ≤ zone then pure (v * r / Nat.pow 2 w.bits)
    else highHalf w r zone n

/-- A number from `least` to `greatest`.  The zone is the largest multiple of the size of the range
by a power of two. -/
def within (w : Width) (least greatest : Nat) : Drawing γ Nat := do
  let r := (greatest - least + 1) % Nat.pow 2 w.bits
  if r = 0 then word g w
  else
    let zone := r * Nat.pow 2 (w.bits - 1 - r.log2) - 1
    let high ← highHalf g w r zone rounds
    pure (least + high)

/-- A number below `bound`.  The zone is the largest multiple of the bound. -/
def below (w : Width) (bound : Nat) : Drawing γ Nat :=
  let size := Nat.pow 2 w.bits
  highHalf g w bound (size - 1 - (size - bound) % bound) rounds

/-! ### Strategies -/

/-- Puts `x` in front of the first `y`. -/
def insertBefore (x y : Nat) : List Nat → List Nat
  | [] => []
  | z :: zs => if z = y then x :: z :: zs else z :: insertBefore x y zs

/-- One step of Floyd's method: `t` was drawn from the numbers up to `j`, and where `t` is already
there, `j` is new. -/
def floydStep (inOrder : Bool) (drawn : List Nat) (j t : Nat) : List Nat :=
  if drawn.contains t then
    if inOrder then insertBefore j t drawn else drawn ++ [j]
  else drawn ++ [t]

/-- Swaps the entry at each of the places `amount - 1` down to 1 with one at or below it. -/
def shuffle (amount : Nat) (drawn : Array Nat) : Drawing γ (Array Nat) :=
  (List.range (amount - 1)).reverse.foldlM (fun a i => do
    let k ← within g rounds .w32 0 (i + 1)
    pure (a.swapIfInBounds (i + 1) k)) drawn

def floyd (length amount : Nat) : Drawing γ (List Nat) := do
  let inOrder := amount < 50
  let drawn ← (List.range amount).foldlM (fun drawn i => do
    let j := length - amount + i
    let t ← within g rounds .w32 0 j
    pure (floydStep inOrder drawn j t)) []
  if inOrder then pure drawn
  else Array.toList <$> shuffle g rounds amount drawn.toArray

/-- The front of a list shuffled as far as it is needed. -/
def inPlace (length amount : Nat) : Drawing γ (List Nat) := do
  let shuffled ← (List.range amount).foldlM (fun a i => do
    let k ← within g rounds .w32 i (length - 1)
    pure (a.swapIfInBounds i k)) (Array.range length)
  pure (shuffled.toList.take amount)

/-- A number that was not drawn before. -/
def fresh (w : Width) (length : Nat) (drawn : List Nat) : Nat → Drawing γ Nat
  | 0 => fun _ => none
  | n + 1 => do
    let x ← below g rounds w length
    if drawn.contains x then fresh w length drawn n else pure x

/-- Draws again whenever a number was drawn before. -/
def rejection (w : Width) (length amount : Nat) : Drawing γ (List Nat) := do
  let drawn ← (List.range amount).foldlM (fun drawn _ => do
    let x ← fresh g rounds w length drawn rounds
    pure (x :: drawn)) []
  pure drawn.reverse

end

/-! ### Choosing a strategy -/

inductive Strategy where
  | floyd | inPlace
  | rejection (w : Width)
deriving DecidableEq

/-- A number in single precision. -/
def inSingle (q : Rat) : Rat := BinaryFormat.single.nearest q

/-- Below this length few numbers are drawn in place. -/
def fewThreshold (length amount : Nat) : Rat :=
  let (perPair, perOne) :=
    if length < 500000 then (inSingle (mkRat 8 5), 10)
    else (inSingle (mkRat 8 45), inSingle (mkRat 70 9))
  let amount := inSingle (mkRat amount 1)
  inSingle (inSingle (perOne + inSingle (perPair * amount)) * amount)

/-- Below this length many numbers are drawn in place. -/
def manyThreshold (length amount : Nat) : Rat :=
  let perOne := if length < 500000 then 270 else inSingle (mkRat 330 9)
  inSingle (perOne * inSingle (mkRat amount 1))

/-- The strategy for `amount` numbers below `length`. -/
def strategy (length amount : Nat) : Strategy :=
  if Nat.pow 2 32 ≤ length then .rejection .w64
  else if amount < 163 then
    if 11 < amount ∧ inSingle (mkRat length 1) < fewThreshold length amount then .inPlace
    else .floyd
  else if inSingle (mkRat length 1) < manyThreshold length amount then .inPlace
  else .rejection .w32

/-- As many distinct numbers below `total` as are requested, or all of them. -/
def drawOffsets (g : Generator γ) (rounds total requested : Nat) : Drawing γ (List Nat) :=
  let amount := min requested total
  match strategy total amount with
  | .floyd => floyd g rounds total amount
  | .inPlace => inPlace g rounds total amount
  | .rejection w => rejection g rounds w total amount

end SearchClient.Sample
