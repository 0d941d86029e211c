/-!
# ChaCha keystream

The stream of 32-bit words that ChaCha with twenty rounds gives for a key.  The
stream is a function of the position: word `k` is word `k % 16` of block
`k / 16`, and blocks are numbered by a 64-bit counter with a zero nonce.
-/

namespace ChipEight.ChaCha

/-- The eight words of a key. -/
abbrev Key := Vector UInt32 8

/-- The sixteen words on which the rounds work. -/
abbrev Block := Vector UInt32 16

/-- Rotate a word to the left by an amount between one and thirty-one. -/
def rotateLeft (w : UInt32) (amount : UInt32) : UInt32 :=
  (w <<< amount) ||| (w >>> (32 - amount))

/-- Add, exclude and rotate four words of a block. -/
def quarterRound (block : Block) (a b c d : Fin 16) : Block :=
  let block := block.set a (block[a] + block[b])
  let block := block.set d (rotateLeft (block[d] ^^^ block[a]) 16)
  let block := block.set c (block[c] + block[d])
  let block := block.set b (rotateLeft (block[b] ^^^ block[c]) 12)
  let block := block.set a (block[a] + block[b])
  let block := block.set d (rotateLeft (block[d] ^^^ block[a]) 8)
  let block := block.set c (block[c] + block[d])
  block.set b (rotateLeft (block[b] ^^^ block[c]) 7)

/-- A round over the four columns of a block and one over its diagonals. -/
def doubleRound (block : Block) : Block :=
  let block := quarterRound block 0 4 8 12
  let block := quarterRound block 1 5 9 13
  let block := quarterRound block 2 6 10 14
  let block := quarterRound block 3 7 11 15
  let block := quarterRound block 0 5 10 15
  let block := quarterRound block 1 6 11 12
  let block := quarterRound block 2 7 8 13
  quarterRound block 3 4 9 14

/-- Several double rounds in turn. -/
def doubleRounds : Nat → Block → Block
  | 0, block => block
  | n + 1, block => doubleRounds n (doubleRound block)

/-- The block before the rounds: four constants, the key, the counter with its
low word first, and a nonce of zero. -/
def start (key : Key) (counter : UInt64) : Block :=
  #v[0x61707865, 0x3320646E, 0x79622D32, 0x6B206574,
    key[0], key[1], key[2], key[3], key[4], key[5], key[6], key[7],
    counter.toUInt32, (counter >>> 32).toUInt32, 0, 0]

/-- The sixteen words of the stream in one block. -/
def block (key : Key) (counter : UInt64) : Block :=
  let before := start key counter
  (doubleRounds 10 before).zipWith (· + ·) before

-- The published keystream of the zero key begins with these words.
example :
    block (Vector.replicate 8 0) 0 =
      #v[0xADE0B876, 0x903DF1A0, 0xE56A5D40, 0x28BD8653,
        0xB819D2BD, 0x1AED8DA0, 0xCCEF36A8, 0xC70D778B,
        0x7C5941DA, 0x8D485751, 0x3FE02477, 0x374AD8B8,
        0xF4B8436A, 0x1CA11815, 0x69B687C3, 0x8665EEB2] := by
  decide +kernel

/-- The word of the stream at a position. -/
def word (key : Key) (position : Nat) : UInt32 :=
  (block key (UInt64.ofNat (position / 16)))[position % 16]

-- Its second block begins with this one.
example : word (Vector.replicate 8 0) 16 = 0xBEE7079F := by decide +kernel

end ChipEight.ChaCha
