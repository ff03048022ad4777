/-
# `VotingChain.Lib.Blake2` — Blake2b and Blake2s, executable

The unkeyed Blake2 functions, on byte lists.  The two are one algorithm, on words of 64 and of
32 bits: a `Variant` is what they differ in.

    Blake2b    64-bit words, blocks of 128 bytes, twelve rounds
    Blake2s    32-bit words, blocks of 64 bytes, ten rounds

Words are natural numbers below `2 ^ wordBits`, so that the kernel evaluates the compression
function on its built-in arithmetic.

Nothing is proved about the functions beyond the length of the digest.  Theorems that need a
hash function take it as a parameter, with what they assume of it as a hypothesis on the
strings they hash; this module is the function those hypotheses are checked on.
-/
import Mathlib.Data.List.Basic
import Mathlib.Data.Vector.Basic

namespace Blake2

structure Variant where
  wordBits : Nat
  /-- The initialisation vector. -/
  iv : List Nat
  /-- The message schedule, one permutation for each round. -/
  schedule : List (List Nat)
  /-- The four rotations of the mixing function. -/
  rotations : Nat × Nat × Nat × Nat

/-- The permutations of the message schedules. -/
def sigma : List (List Nat) :=
  [[0, 1, 2, 3, 4, 5, 6, 7, 8, 9, 10, 11, 12, 13, 14, 15],
   [14, 10, 4, 8, 9, 15, 13, 6, 1, 12, 0, 2, 11, 7, 5, 3],
   [11, 8, 12, 0, 5, 2, 15, 13, 10, 14, 3, 6, 7, 1, 9, 4],
   [7, 9, 3, 1, 13, 12, 11, 14, 2, 6, 5, 10, 4, 0, 15, 8],
   [9, 0, 5, 7, 2, 4, 10, 15, 14, 1, 11, 12, 6, 8, 3, 13],
   [2, 12, 6, 10, 0, 11, 8, 3, 4, 13, 7, 5, 15, 14, 1, 9],
   [12, 5, 1, 15, 14, 13, 4, 10, 0, 7, 6, 3, 9, 2, 8, 11],
   [13, 11, 7, 14, 12, 1, 3, 9, 5, 0, 15, 4, 8, 6, 2, 10],
   [6, 15, 14, 9, 11, 3, 0, 8, 12, 2, 13, 7, 1, 4, 10, 5],
   [10, 2, 8, 4, 7, 6, 1, 5, 15, 11, 9, 14, 3, 12, 13, 0]]

def blake2b : Variant where
  wordBits := 64
  iv :=
    [0x6a09e667f3bcc908, 0xbb67ae8584caa73b, 0x3c6ef372fe94f82b, 0xa54ff53a5f1d36f1,
     0x510e527fade682d1, 0x9b05688c2b3e6c1f, 0x1f83d9abfb41bd6b, 0x5be0cd19137e2179]
  schedule := sigma ++ sigma.take 2
  rotations := (32, 24, 16, 63)

def blake2s : Variant where
  wordBits := 32
  iv :=
    [0x6a09e667, 0xbb67ae85, 0x3c6ef372, 0xa54ff53a, 0x510e527f, 0x9b05688c, 0x1f83d9ab,
     0x5be0cd19]
  schedule := sigma
  rotations := (16, 12, 8, 7)

/-- A little-endian word. -/
def leNat : List UInt8 → Nat
  | [] => 0
  | b :: bs => b.toNat + 256 * leNat bs

/-- Byte `i` of a list of little-endian words of `n` bytes. -/
def byteAt (n : Nat) (h : List Nat) (i : Nat) : UInt8 :=
  UInt8.ofNat (h.getD (i / n) 0 >>> (8 * (i % n)))

namespace Variant
variable (V : Variant)

/-- Rotation of a word to the right. -/
def rotr (x k : Nat) : Nat := (x >>> k) ||| ((x <<< (V.wordBits - k)) % 2 ^ V.wordBits)

/-- The mixing function on four of the sixteen working words. -/
def mix (v : List Nat) (a b c d x y : Nat) : List Nat :=
  let va := (v.getD a 0 + v.getD b 0 + x) % 2 ^ V.wordBits
  let vd := V.rotr (v.getD d 0 ^^^ va) V.rotations.1
  let vc := (v.getD c 0 + vd) % 2 ^ V.wordBits
  let vb := V.rotr (v.getD b 0 ^^^ vc) V.rotations.2.1
  let va := (va + vb + y) % 2 ^ V.wordBits
  let vd := V.rotr (vd ^^^ va) V.rotations.2.2.1
  let vc := (vc + vd) % 2 ^ V.wordBits
  let vb := V.rotr (vb ^^^ vc) V.rotations.2.2.2
  (((v.set a va).set b vb).set c vc).set d vd

/-- One round: the columns, then the diagonals. -/
def round (m v s : List Nat) : List Nat :=
  let w := fun i => m.getD (s.getD i 0) 0
  let v := V.mix v 0 4 8 12 (w 0) (w 1)
  let v := V.mix v 1 5 9 13 (w 2) (w 3)
  let v := V.mix v 2 6 10 14 (w 4) (w 5)
  let v := V.mix v 3 7 11 15 (w 6) (w 7)
  let v := V.mix v 0 5 10 15 (w 8) (w 9)
  let v := V.mix v 1 6 11 12 (w 10) (w 11)
  let v := V.mix v 2 7 8 13 (w 12) (w 13)
  V.mix v 3 4 9 14 (w 14) (w 15)

/-- Fold one message block into the chaining value; `t` bytes have been read, this block
included. -/
def compress (h m : List Nat) (t : Nat) (last : Bool) : List Nat :=
  let v := h ++ V.iv
  let v := v.set 12 (v.getD 12 0 ^^^ (t % 2 ^ V.wordBits))
  let v := v.set 13 (v.getD 13 0 ^^^ (t / 2 ^ V.wordBits % 2 ^ V.wordBits))
  let v := if last then v.set 14 (v.getD 14 0 ^^^ (2 ^ V.wordBits - 1)) else v
  let v := V.schedule.foldl (V.round m) v
  List.zipWith (· ^^^ ·) h (List.zipWith (· ^^^ ·) (v.take 8) (v.drop 8))

/-- The sixteen words of a block; a short block is padded with zeros. -/
def words (block : List UInt8) : List Nat :=
  (List.range 16).map fun i => leNat ((block.drop (V.wordBits / 8 * i)).take (V.wordBits / 8))

/-- The bytes of sixteen words. -/
def blockLength : Nat := 2 * V.wordBits

/-- Absorb a message.  Each turn but the last eats a block, so the message's length is fuel
enough. -/
def absorb : Nat → List Nat → Nat → List UInt8 → List Nat
  | 0, h, t, msg => V.compress h (V.words msg) (t + msg.length) true
  | fuel + 1, h, t, msg =>
      if msg.length ≤ V.blockLength then V.compress h (V.words msg) (t + msg.length) true
      else
        absorb fuel (V.compress h (V.words (msg.take V.blockLength)) (t + V.blockLength) false)
          (t + V.blockLength) (msg.drop V.blockLength)

/-- The chaining value an unkeyed digest of `n` bytes starts from. -/
def init (n : Nat) : List Nat := V.iv.set 0 (V.iv.getD 0 0 ^^^ (0x01010000 + n))

/-- The digest of `n` bytes. -/
def hash (n : Nat) (msg : List UInt8) : List.Vector UInt8 n :=
  let h := V.absorb msg.length (V.init n) 0 msg
  ⟨(List.range n).map (byteAt (V.wordBits / 8) h), by simp⟩

end Variant

end Blake2

namespace Blake2b
open Blake2

/-- The 32-byte digest. -/
def hash256 : List UInt8 → List.Vector UInt8 32 := blake2b.hash 32

-- The published digest of the three bytes "abc".
example : (hash256 [97, 98, 99]).toList =
    [0xbd, 0xdd, 0x81, 0x3c, 0x63, 0x42, 0x39, 0x72, 0x31, 0x71, 0xef, 0x3f, 0xee, 0x98, 0x57, 0x9b,
     0x94, 0x96, 0x4e, 0x3b, 0xb1, 0xcb, 0x3e, 0x42, 0x72, 0x62, 0xc8, 0xc0, 0x68, 0xd5, 0x23,
     0x19] := by
  decide +kernel

/-- The 64-byte digest: another function, for the length is part of the initial value. -/
def hash512 : List UInt8 → List.Vector UInt8 64 := blake2b.hash 64

end Blake2b

namespace Blake2s
open Blake2

/-- The 32-byte digest. -/
def hash256 : List UInt8 → List.Vector UInt8 32 := blake2s.hash 32

-- The published digest of the three bytes "abc".
example : (hash256 [97, 98, 99]).toList =
    [0x50, 0x8c, 0x5e, 0x8c, 0x32, 0x7c, 0x14, 0xe2, 0xe1, 0xa7, 0x2b, 0xa3, 0x4e, 0xeb, 0x45, 0x2f,
     0x37, 0x45, 0x8b, 0x20, 0x9e, 0xd6, 0x3a, 0x29, 0x4d, 0x99, 0x9b, 0x4c, 0x86, 0x67, 0x59,
     0x82] := by
  decide +kernel

end Blake2s
