import ChipEight.Word
import ChipEight.Random.ChaCha

/-!
# The random source

A source is a stream of words and the number of bytes drawn from it.  The bytes it
gives are the low bytes of the words, one for each draw, so the draw after `k`
others is known without making them.  The player takes the keystream of a key,
which a seed is stretched to.
-/

namespace ChipEight

/-- A stream of random words and how far it has been read. -/
structure RandomSource where
  words : Nat → UInt32
  drawn : Nat := 0

namespace RandomSource

/-! ## Drawing -/

/-- The byte that a word gives. -/
def byteOf (word : UInt32) : Byte := word.toBitVec.setWidth 8

/-- Draw one byte. -/
def next (source : RandomSource) : Byte × RandomSource :=
  (byteOf (source.words source.drawn),
    { source with drawn := source.drawn + 1 })

/-! ## Sources from keys and seeds -/

/-- The fresh source of a key. -/
def ofKey (key : ChaCha.Key) : RandomSource := { words := ChaCha.word key }

/-- One step of the generator that stretches a seed. -/
def stretch (state : UInt64) : UInt64 :=
  state * 6364136223846793005 + 11634580027462260723

/-- The state of that generator after some steps. -/
def stretched (seed : UInt64) : Nat → UInt64
  | 0 => seed
  | n + 1 => stretch (stretched seed n)

/-- The word shown by a state: a shifted and folded half, rotated right by the
top five bits. -/
def shown (state : UInt64) : UInt32 :=
  let folded := (((state >>> 18) ^^^ state) >>> 27).toUInt32
  let amount := (state >>> 59).toUInt32
  (folded >>> amount) ||| (folded <<< (32 - amount))

/-- The key of a seed: the words shown by the first eight states after it. -/
def keyOfSeed (seed : UInt64) : ChaCha.Key :=
  Vector.ofFn fun k => shown (stretched seed (k.val + 1))

-- The published number for the seed zero is made up of the first two words.
example :
    (keyOfSeed 0)[0].toNat + (keyOfSeed 0)[1].toNat * Nat.pow 2 32 =
      5029875928683246316 := by
  decide +kernel

/-- The fresh source of a seed. -/
def ofSeed (seed : UInt64) : RandomSource := ofKey (keyOfSeed seed)

end RandomSource

end ChipEight
