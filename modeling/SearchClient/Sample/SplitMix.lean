/-
SearchClient/Sample/SplitMix.lean

The SplitMix64 generator: a counter that grows by a fixed odd number, mixed into a word by two
rounds of shift and multiply.  A 32-bit word is the upper half of a 64-bit word.
-/
import SearchClient.Sample.Draw

namespace SearchClient.Sample

namespace SplitMix

/-- Spreads the bits of the counter over the word. -/
def mix (z : UInt64) : UInt64 :=
  let z := (z ^^^ (z >>> 30)) * 0xBF58476D1CE4E5B9
  let z := (z ^^^ (z >>> 27)) * 0x94D049BB133111EB
  z ^^^ (z >>> 31)

def next (state : UInt64) : UInt64 × UInt64 :=
  let state := state + 0x9E3779B97F4A7C15
  (mix state, state)

end SplitMix

/-- The generator; its state is the counter, which starts at the seed. -/
def splitMix : Generator UInt64 where
  next32 := fun s => ((SplitMix.next s).1 >>> 32 |>.toUInt32, (SplitMix.next s).2)
  next64 := SplitMix.next

end SearchClient.Sample
