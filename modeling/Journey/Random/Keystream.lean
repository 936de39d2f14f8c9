/-!
# Keystreams

The random words that a seed stands for.

The words are the keystream of the ChaCha cipher with eight rounds, a block
counter of 64 bits and no nonce, under a key that is stretched from the seed by
a linear congruential generator with permuted output. A keystream has no state
but the position of the next word, so any part of it can be computed without
the parts before.

## Main definitions

* `Keystream`: A key and a position.
* `Keystream.ofSeed`: The keystream of a seed.
* `Keystream.word`: The word at a position.
* `Keystream.next64`: The next 64 bits.
-/

namespace Journey

/-- A key and the position of the next word of its keystream. -/
structure Keystream where
  key : Vector UInt32 8
  position : Nat
deriving DecidableEq, Repr

namespace Keystream

/-- The words a block is computed from and in. -/
abbrev Block := Vector UInt32 16

/-- Rotate a word towards its high end. -/
def rotateLeft (x amount : UInt32) : UInt32 := (x <<< amount) ||| (x >>> (32 - amount))

/-- Rotate a word towards its low end. -/
def rotateRight (x amount : UInt32) : UInt32 := (x >>> amount) ||| (x <<< (32 - amount))

/-- Mix four words of a block. -/
def quarterRound (s : Block) (a b c d : Fin 16) : Block :=
  let s := s.set a (s[a] + s[b])
  let s := s.set d (rotateLeft (s[d] ^^^ s[a]) 16)
  let s := s.set c (s[c] + s[d])
  let s := s.set b (rotateLeft (s[b] ^^^ s[c]) 12)
  let s := s.set a (s[a] + s[b])
  let s := s.set d (rotateLeft (s[d] ^^^ s[a]) 8)
  let s := s.set c (s[c] + s[d])
  s.set b (rotateLeft (s[b] ^^^ s[c]) 7)

/-- The quarters of a round over the columns and of one over the diagonals. -/
def quarters : List (Fin 16 × Fin 16 × Fin 16 × Fin 16) :=
  [(0, 4, 8, 12), (1, 5, 9, 13), (2, 6, 10, 14), (3, 7, 11, 15),
    (0, 5, 10, 15), (1, 6, 11, 12), (2, 7, 8, 13), (3, 4, 9, 14)]

/-- Two rounds. -/
def doubleRound (s : Block) : Block :=
  quarters.foldl (fun s (a, b, c, d) => quarterRound s a b c d) s

/-- Eight rounds. -/
def rounds (s : Block) : Block := doubleRound (doubleRound (doubleRound (doubleRound s)))

/-- The words that every block begins with. -/
def constants : Vector UInt32 4 := #v[0x61707865, 0x3320646e, 0x79622d32, 0x6b206574]

/-- The words of the counter, the low one first, and of the nonce. -/
def counterWords (counter : Nat) : Vector UInt32 4 :=
  #v[UInt32.ofNat counter, UInt32.ofNat (counter / Nat.pow 2 32), 0, 0]

/-- The block before mixing. -/
def initialBlock (key : Vector UInt32 8) (counter : Nat) : Block :=
  constants ++ key ++ counterWords counter

/-- The words of the keystream that belong to a value of the counter. -/
def block (key : Vector UInt32 8) (counter : Nat) : Block :=
  let start := initialBlock key counter
  start.zipWith (· + ·) (rounds start)

/-- The word at a position of the keystream. -/
def word (key : Vector UInt32 8) (position : Nat) : UInt32 :=
  (block key (position / 16)).get (Fin.ofNat 16 position)

/-- One step of stretching a seed. -/
def stretch (state : UInt64) : UInt64 := state * 6364136223846793005 + 11634580027462260723

/-- The key word of a state of the stretched seed. -/
def output (state : UInt64) : UInt32 :=
  rotateRight ((((state >>> 18) ^^^ state) >>> 27).toUInt32) ((state >>> 59).toUInt32)

/-- The states of the stretched seed after so many steps. -/
def stretched (seed : UInt64) : Nat → UInt64
  | 0 => seed
  | steps + 1 => stretch (stretched seed steps)

/-- The keystream of a seed. -/
def ofSeed (seed : Nat) : Keystream :=
  { key := Vector.ofFn fun i => output (stretched (UInt64.ofNat seed) (i.val + 1)), position := 0 }

/-- The next 64 bits: two words, the low one first. -/
def next64 (k : Keystream) : Nat × Keystream :=
  let low := (word k.key k.position).toNat
  let high := (word k.key (k.position + 1)).toNat
  (high * Nat.pow 2 32 + low, { k with position := k.position + 2 })

end Keystream

end Journey
