/-!
Streams of random words. A seed is spread into a key of eight words, and the key generates blocks of
sixteen words by twelve rounds of additions, rotations and exclusive-or on a counter.
-/

namespace CharacterRules

/-- The key of a stream. -/
abbrev StreamKey := Vector UInt32 8

namespace StreamKey

/-- The next state of the generator that spreads a seed. -/
def nextState (state : UInt64) : UInt64 := state * 6364136223846793005 + 11634580027462260723

def rotateRight (x distance : UInt32) : UInt32 := (x >>> distance) ||| (x <<< (32 - distance))

def rotateLeft (x distance : UInt32) : UInt32 := (x <<< distance) ||| (x >>> (32 - distance))

/-- The word that a state of the spreading generator gives. -/
def seedWord (state : UInt64) : UInt32 :=
  rotateRight (((state >>> 18) ^^^ state) >>> 27).toUInt32 (state >>> 59).toUInt32

/-- The state after `count` steps from a seed. -/
def stateAfter (seed : UInt64) : Nat → UInt64
  | 0 => seed
  | count + 1 => nextState (stateAfter seed count)

def ofSeed (seed : UInt64) : StreamKey :=
  Vector.ofFn fun i => seedWord (stateAfter seed (i + 1))

end StreamKey

/-- The sixteen words that the rounds work on. -/
abbrev StreamBlock := Vector UInt32 16

namespace StreamBlock

/-- Mixes four words of a block. -/
def quarterRound (s : StreamBlock) (a b c d : Fin 16) : StreamBlock :=
  let mix (s : StreamBlock) (x y z : Fin 16) (distance : UInt32) : StreamBlock :=
    let sum := s[x] + s[y]
    (s.set x sum).set z (StreamKey.rotateLeft (s[z] ^^^ sum) distance)
  mix (mix (mix (mix s a b d 16) c d b 12) a b d 8) c d b 7

/-- Mixes the columns of a block and then its diagonals. -/
def doubleRound (s : StreamBlock) : StreamBlock :=
  let s := quarterRound s 0 4 8 12
  let s := quarterRound s 1 5 9 13
  let s := quarterRound s 2 6 10 14
  let s := quarterRound s 3 7 11 15
  let s := quarterRound s 0 5 10 15
  let s := quarterRound s 1 6 11 12
  let s := quarterRound s 2 7 8 13
  quarterRound s 3 4 9 14

/-- The words in front of the key in every block. -/
def constants : Vector UInt32 4 := #v[0x61707865, 0x3320646e, 0x79622d32, 0x6b206574]

/-- The block of a key and a counter before the rounds. -/
def initial (key : StreamKey) (counter : Nat) : StreamBlock :=
  constants ++ key ++
    #v[UInt32.ofNat counter, UInt32.ofNat (counter / 2 ^ 32), 0, 0]

/-- The block that a counter generates: the mixed words added to the initial ones. -/
def generate (key : StreamKey) (counter : Nat) : StreamBlock :=
  let start := initial key counter
  let mixed := Nat.repeat doubleRound 6 start
  mixed.zipWith (· + ·) start

end StreamBlock

/-- The word of a stream at a position. -/
def StreamKey.word (key : StreamKey) (position : Nat) : UInt32 :=
  (StreamBlock.generate key (position / 16)).get ⟨position % 16, Nat.mod_lt _ (by decide)⟩

end CharacterRules
