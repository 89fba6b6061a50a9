import SynthPatch.Config.Basic
/-!
# Noise

All noise modules share one row of samples, drawn from the key stream of an eight-round ChaCha
cipher.  The key is spread from a seed by a permuted congruential generator.  Any sample can be
drawn by itself.

Main results:

- Function {lit}`Noise.sample`: a sample of the noise of a seed.
-/

namespace SynthPatch
namespace Noise

/-! ## The key -/

/-- One step of the generator that spreads a seed. -/
def advance (state : UInt64) : UInt64 :=
  state * 6364136223846793005 + 11634580027462260723

/-- The word that a state of the generator puts out. -/
def output (state : UInt64) : UInt32 :=
  let mixed := (((state >>> 18) ^^^ state) >>> 27).toUInt32
  let turn := (state >>> 59).toUInt32
  (mixed >>> turn) ||| (mixed <<< ((32 - turn) &&& 31))

/-- The first words that the generator puts out. -/
def words (state : UInt64) : Nat → List UInt32
  | 0 => []
  | n + 1 =>
    let next := advance state
    output next :: words next n

/-! ## The cipher -/

/-- The state of the cipher: four rows of four words. -/
abbrev Block :=
  Vector UInt32 16

/-- Turn a word to the left. -/
def rotate (x turn : UInt32) : UInt32 :=
  (x <<< turn) ||| (x >>> (32 - turn))

/-- Mix four words of a state. -/
def quarter (s : Block) (a b c d : Fin 16) : Block :=
  let s := s.set a (s[a] + s[b])
  let s := s.set d (rotate (s[d] ^^^ s[a]) 16)
  let s := s.set c (s[c] + s[d])
  let s := s.set b (rotate (s[b] ^^^ s[c]) 12)
  let s := s.set a (s[a] + s[b])
  let s := s.set d (rotate (s[d] ^^^ s[a]) 8)
  let s := s.set c (s[c] + s[d])
  s.set b (rotate (s[b] ^^^ s[c]) 7)

/-- Mix the columns of a state, then its diagonals. -/
def doubleRound (s : Block) : Block :=
  let s := quarter s 0 4 8 12
  let s := quarter s 1 5 9 13
  let s := quarter s 2 6 10 14
  let s := quarter s 3 7 11 15
  let s := quarter s 0 5 10 15
  let s := quarter s 1 6 11 12
  let s := quarter s 2 7 8 13
  quarter s 3 4 9 14

/-- The state that a block of the key stream is made from. -/
def initial (key : List UInt32) (counter : UInt64) : Block :=
  let k := fun i => key.getD i 0
  #v[0x61707865, 0x3320646e, 0x79622d32, 0x6b206574,
    k 0, k 1, k 2, k 3, k 4, k 5, k 6, k 7,
    counter.toUInt32, (counter >>> 32).toUInt32, 0, 0]

/-- A block of the key stream. -/
def block (key : List UInt32) (counter : UInt64) : Block :=
  let start := initial key counter
  let mixed := doubleRound (doubleRound (doubleRound (doubleRound start)))
  mixed.zipWith (· + ·) start

/-! ## Samples -/

/-- The sample between minus one and one that a word stands for. -/
def ofWord (word : UInt32) : Float :=
  let unit := Float32.ofBits ((word >>> 9) ||| 0x3f800000)
  ((unit - 1) * 2 + -1).toFloat

/-- A sample of the noise of a seed. -/
def sample (seed : UInt64) (index : Nat) : Float :=
  have place : index % 16 < 16 := Nat.mod_lt _ (by decide)
  ofWord (block (words seed 8) (UInt64.ofNat (index / 16)))[index % 16]

/-- A number between zero and one, as the noise of a seed gives it. -/
def draw (seed : UInt64) (index : Nat) : Float :=
  (sample seed index + 1) / 2

end Noise

namespace Config

/-- A sample of the shared noise, as far as it reaches. -/
def noise? (c : Config Float) (index : Nat) : Option Float :=
  if index < c.noiseLength then some (Noise.sample c.noiseSeed index) else none

end Config
end SynthPatch
