import HopfieldDescent.Random
import HopfieldDescent.Scalar.Double

/-!
# The ChaCha source

Random numbers from the stream cipher ChaCha with twelve rounds.  The seed is stretched to a key of
256 bits by a linear congruential generator with a permuted output.  Each block of the stream holds
sixteen words of 32 bits; two of them, the low one first, make a number of 64 bits, and its upper 53
bits, as a fraction, the next draw.
-/

namespace HopfieldDescent

/-- Sixteen words of 32 bits. -/
abbrev ChaChaBlock := Vector UInt32 16

namespace ChaChaBlock

/-- Rotates a word to the left. -/
def rotateLeft (word amount : UInt32) : UInt32 := (word <<< amount) ||| (word >>> (32 - amount))

/-- The quarter round on the words at four places. -/
def quarterRound (b : ChaChaBlock) (i j k l : Fin 16) : ChaChaBlock :=
  let b := b.set i (b[i] + b[j])
  let b := b.set l (rotateLeft (b[l] ^^^ b[i]) 16)
  let b := b.set k (b[k] + b[l])
  let b := b.set j (rotateLeft (b[j] ^^^ b[k]) 12)
  let b := b.set i (b[i] + b[j])
  let b := b.set l (rotateLeft (b[l] ^^^ b[i]) 8)
  let b := b.set k (b[k] + b[l])
  b.set j (rotateLeft (b[j] ^^^ b[k]) 7)

/-- A round over the columns followed by one over the diagonals. -/
def doubleRound (b : ChaChaBlock) : ChaChaBlock :=
  let b := b.quarterRound 0 4 8 12
  let b := b.quarterRound 1 5 9 13
  let b := b.quarterRound 2 6 10 14
  let b := b.quarterRound 3 7 11 15
  let b := b.quarterRound 0 5 10 15
  let b := b.quarterRound 1 6 11 12
  let b := b.quarterRound 2 7 8 13
  b.quarterRound 3 4 9 14

/-- The block before its rounds: constants, key, block number and two zero words. -/
def initial (key : Vector UInt32 8) (number : UInt64) : ChaChaBlock :=
  #v[0x61707865, 0x3320646e, 0x79622d32, 0x6b206574,
    key[0], key[1], key[2], key[3], key[4], key[5], key[6], key[7],
    number.toUInt32, (number >>> 32).toUInt32, 0, 0]

/-- The block of the stream with the given number. -/
def ofNumber (key : Vector UInt32 8) (number : UInt64) : ChaChaBlock :=
  let start := initial key number
  Vector.zipWith (· + ·) (Nat.repeat doubleRound 6 start) start

end ChaChaBlock

/-- A place in the stream of a key: eight numbers of 64 bits are taken from each block. -/
structure ChaCha where
  /-- The key of the stream. -/
  key : Vector UInt32 8
  /-- Number of the block after the current one. -/
  upcoming : UInt64
  /-- The current block. -/
  block : ChaChaBlock
  /-- How many numbers of the current block have been taken. -/
  taken : Nat

namespace ChaCha

/-- One step of the generator that stretches a seed: the state and the word it yields. -/
def stretch (state : UInt64) : UInt32 × UInt64 :=
  let state := state * 6364136223846793005 + 11634580027462260723
  let word := (((state >>> 18) ^^^ state) >>> 27).toUInt32
  let amount := (state >>> 59).toUInt32
  ((word >>> amount) ||| (word <<< ((32 - amount) &&& 31)), state)

/-- The key that belongs to a seed. -/
def keyOfSeed (seed : UInt64) : Vector UInt32 8 :=
  let (a, state) := stretch seed
  let (b, state) := stretch state
  let (c, state) := stretch state
  let (d, state) := stretch state
  let (e, state) := stretch state
  let (f, state) := stretch state
  let (g, state) := stretch state
  let (h, _) := stretch state
  #v[a, b, c, d, e, f, g, h]

/-- The start of the stream of a seed. -/
def ofSeed (seed : UInt64) : ChaCha :=
  let key := keyOfSeed seed
  ⟨key, 1, ChaChaBlock.ofNumber key 0, 0⟩

/-- Two words as one number, the low word first. -/
def join (low high : UInt32) : UInt64 := low.toUInt64 ||| (high.toUInt64 <<< 32)

/-- The next number of 64 bits. -/
def next (source : ChaCha) : UInt64 × ChaCha :=
  if h : source.taken < 8 then
    (join (source.block[2 * source.taken]) (source.block[2 * source.taken + 1]),
      { source with taken := source.taken + 1 })
  else
    let block := ChaChaBlock.ofNumber source.key source.upcoming
    (join block[0] block[1], ⟨source.key, source.upcoming + 1, block, 1⟩)

/-- The fraction of the unit interval in the upper 53 bits of a number. -/
def fraction (bits : UInt64) : Float := (bits >>> 11).toFloat / 9007199254740992.0

end ChaCha

instance : RandomSource ChaCha Float where
  ofSeed := ChaCha.ofSeed
  next source :=
    let (bits, source) := source.next
    (ChaCha.fraction bits, source)

end HopfieldDescent
