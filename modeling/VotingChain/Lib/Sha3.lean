/-
# `VotingChain.Lib.Sha3` — SHA3 with 32- and 64-byte digests, executable

Keccak on 25 lanes of 64 bits, and the sponge around it, on byte lists.  Lane `(x, y)` has
index `x + 5 y`; lanes are natural numbers below `2 ^ 64`.

Nothing is proved about the functions beyond the lengths of their digests.
-/
import VotingChain.Lib.Blake2

namespace Sha3

/-- The rotation of each lane. -/
def offsets : List Nat :=
  [0, 1, 62, 28, 27, 36, 44, 6, 55, 20, 3, 10, 43, 25, 39, 41, 45, 15, 21, 8, 18, 2, 61, 56, 14]

/-- The constant of each of the 24 rounds. -/
def constants : List Nat :=
  [0x0000000000000001, 0x0000000000008082, 0x800000000000808a, 0x8000000080008000,
   0x000000000000808b, 0x0000000080000001, 0x8000000080008081, 0x8000000000008009,
   0x000000000000008a, 0x0000000000000088, 0x0000000080008009, 0x000000008000000a,
   0x000000008000808b, 0x800000000000008b, 0x8000000000008089, 0x8000000000008003,
   0x8000000000008002, 0x8000000000000080, 0x000000000000800a, 0x800000008000000a,
   0x8000000080008081, 0x8000000000008080, 0x0000000080000001, 0x8000000080008008]

/-- Rotation of a 64-bit word to the left. -/
def rotl (x k : Nat) : Nat := ((x <<< k) % 2 ^ 64) ||| (x >>> (64 - k))

/-- The lane at `(x, y)`, both modulo `5`. -/
def lane (a : List Nat) (x y : Nat) : Nat := a.getD (x % 5 + 5 * (y % 5)) 0

/-- The 25 lanes of a function of the two coordinates. -/
def lanes (f : Nat → Nat → Nat) : List Nat :=
  (List.range 25).map fun i => f (i % 5) (i / 5)

/-- One round. -/
def round (a : List Nat) (constant : Nat) : List Nat :=
  -- the parities of the columns, and what they add to each lane
  let c := (List.range 5).map fun x =>
    lane a x 0 ^^^ lane a x 1 ^^^ lane a x 2 ^^^ lane a x 3 ^^^ lane a x 4
  let d := (List.range 5).map fun x =>
    c.getD ((x + 4) % 5) 0 ^^^ rotl (c.getD ((x + 1) % 5) 0) 1
  let a := lanes fun x y => lane a x y ^^^ d.getD x 0
  -- each lane rotated and moved
  let b := lanes fun x y => rotl (lane a (x + 3 * y) x) (offsets.getD ((x + 3 * y) % 5 + 5 * x) 0)
  let a := lanes fun x y =>
    lane b x y ^^^ ((lane b (x + 1) y ^^^ (2 ^ 64 - 1)) &&& lane b (x + 2) y)
  a.set 0 (a.getD 0 0 ^^^ constant)

/-- The permutation. -/
def permute (a : List Nat) : List Nat := constants.foldl round a

/-- The words of a block. -/
def words (block : List UInt8) : List Nat :=
  (List.range 25).map fun i => Blake2.leNat ((block.drop (8 * i)).take 8)

/-- Fold a block into the state. -/
def absorbBlock (a : List Nat) (block : List UInt8) : List Nat :=
  permute (List.zipWith (· ^^^ ·) a (words block))

/-- The last block: the end of the message is marked, and the end of the block. -/
def pad (rate : Nat) (rest : List UInt8) : List UInt8 :=
  let block := rest ++ 0x06 :: List.replicate (rate - rest.length - 1) 0
  block.set (rate - 1) (block.getD (rate - 1) 0 ||| 0x80)

/-- Absorb a message.  Each turn but the last eats a block, so the message's length is
fuel enough. -/
def absorb (rate : Nat) : Nat → List Nat → List UInt8 → List Nat
  | 0, a, msg => absorbBlock a (pad rate msg)
  | fuel + 1, a, msg =>
      if msg.length < rate then absorbBlock a (pad rate msg)
      else absorb rate fuel (absorbBlock a (msg.take rate)) (msg.drop rate)

/-- The first `n` bytes of the state, after a message. -/
def digest (rate n : Nat) (msg : List UInt8) : List.Vector UInt8 n :=
  let a := absorb rate msg.length (List.replicate 25 0) msg
  ⟨(List.range n).map (Blake2.byteAt 8 a), by simp⟩

/-- SHA3-256. -/
def hash256 (msg : List UInt8) : List.Vector UInt8 32 := digest 136 32 msg

/-- SHA3-512. -/
def hash512 (msg : List UInt8) : List.Vector UInt8 64 := digest 72 64 msg

-- The published digest of the three bytes "abc".
example : (hash256 [97, 98, 99]).toList =
    [0x3a, 0x98, 0x5d, 0xa7, 0x4f, 0xe2, 0x25, 0xb2, 0x04, 0x5c, 0x17, 0x2d, 0x6b, 0xd3, 0x90, 0xbd,
     0x85, 0x5f, 0x08, 0x6e, 0x3e, 0x9d, 0x52, 0x5b, 0x46, 0xbf, 0xe2, 0x45, 0x11, 0x43, 0x15,
     0x32] := by
  decide +kernel

end Sha3
