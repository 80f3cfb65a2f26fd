import Chip8.Random

/-! # Random bytes from ChaCha

A seed is spread over a key of eight words; the ChaCha cipher with twelve rounds turns the key and a
block counter into blocks of sixteen words; the low byte of each word, in order, is a byte of the
stream.
-/
namespace Chip8.Random

def rotate (w : UInt32) (n : UInt32) : UInt32 := (w <<< n) ||| (w >>> (32 - n))

def spread (state : UInt64) : UInt64 := state * 6364136223846793005 + 11634580027462260723

/-- The key word that a spread state gives: folded to 32 bits and rotated right by its top bits. -/
def keyWord (state : UInt64) : UInt32 :=
  let folded := (((state >>> 18) ^^^ state) >>> 27).toUInt32
  let amount := (state >>> 59).toUInt32
  (folded >>> amount) ||| (folded <<< ((32 - amount) % 32))

def keyWords : Nat → UInt64 → List UInt32
  | 0, _ => []
  | n + 1, state => keyWord (spread state) :: keyWords n (spread state)

theorem length_keyWords (n : Nat) (state : UInt64) : (keyWords n state).length = n := by
  induction n generalizing state with
  | zero => rfl
  | succ n ih => simp [keyWords, ih]

abbrev Block := Vector UInt32 16

def keyOfSeed (seed : UInt64) : Key :=
  ⟨(keyWords 8 seed).toArray, by simp [length_keyWords]⟩

def quarterRound (b : Block) (i j k l : Fin 16) : Block :=
  let x := b[i] + b[j]
  let w := rotate (b[l] ^^^ x) 16
  let z := b[k] + w
  let y := rotate (b[j] ^^^ z) 12
  let x := x + y
  let w := rotate (w ^^^ x) 8
  let z := z + w
  let y := rotate (y ^^^ z) 7
  (((b.set i x).set j y).set k z).set l w

/-- A round on the columns of the block and one on its diagonals. -/
def doubleRound (b : Block) : Block :=
  let b := quarterRound b 0 4 8 12
  let b := quarterRound b 1 5 9 13
  let b := quarterRound b 2 6 10 14
  let b := quarterRound b 3 7 11 15
  let b := quarterRound b 0 5 10 15
  let b := quarterRound b 1 6 11 12
  let b := quarterRound b 2 7 8 13
  quarterRound b 3 4 9 14

/-- The block before its rounds: four constant words, the key, the block counter, and zero. -/
def start (key : Key) (counter : Nat) : Block :=
  #v[0x61707865, 0x3320646e, 0x79622d32, 0x6b206574,
     key[0], key[1], key[2], key[3], key[4], key[5], key[6], key[7],
     UInt32.ofNat counter, UInt32.ofNat (counter / UInt32.size), 0, 0]

def block (key : Key) (counter : Nat) : Block :=
  let b := start key counter
  Vector.zipWith (· + ·) (Nat.repeat doubleRound 6 b) b

def byteAt (key : Key) (position : Nat) : UInt8 :=
  (block key (position / 16))[Fin.ofNat 16 position].toUInt8

/-- The generator that the program takes its bytes from. -/
def Generator.chaCha : Generator where
  ofSeed seed := byteAt (keyOfSeed seed)
  ofKey := byteAt

end Chip8.Random
