/-
# `VotingChain.Lib.ChaCha20Poly1305` — authenticated encryption, executable

The AEAD construction of ChaCha20 and Poly1305, on byte lists: the plaintext is masked
with the key stream from block 1 on, and the tag is a Poly1305 value under a key taken from
block 0, of the associated data and of the ciphertext.  `encrypt` and `decrypt` are the
construction without associated data, `encryptWith` and `decryptWith` are it with some.

It is what the encryption of the program computes, where a theorem that leaves the
encryption open is tried out.  All that is proved about it is that what was encrypted can
be decrypted (`decrypt_encrypt`): every block of the key stream is as long as the piece it
masks, or longer, so masking twice changes nothing.
-/
import VotingChain.Lib.Blake2
import VotingChain.Lib.Codec

namespace ChaCha20Poly1305

/-! ## The stream cipher -/

/-- Rotation of a 32-bit word to the left. -/
def rotl (x k : Nat) : Nat := ((x <<< k) % 2 ^ 32) ||| (x >>> (32 - k))

/-- The quarter round on four of the sixteen words. -/
def quarter (s : List Nat) (a b c d : Nat) : List Nat :=
  let va := (s.getD a 0 + s.getD b 0) % 2 ^ 32
  let vd := rotl (s.getD d 0 ^^^ va) 16
  let vc := (s.getD c 0 + vd) % 2 ^ 32
  let vb := rotl (s.getD b 0 ^^^ vc) 12
  let va := (va + vb) % 2 ^ 32
  let vd := rotl (vd ^^^ va) 8
  let vc := (vc + vd) % 2 ^ 32
  let vb := rotl (vb ^^^ vc) 7
  (((s.set a va).set b vb).set c vc).set d vd

/-- Two rounds: the columns, then the diagonals. -/
def doubleRound (s : List Nat) : List Nat :=
  let s := quarter s 0 4 8 12
  let s := quarter s 1 5 9 13
  let s := quarter s 2 6 10 14
  let s := quarter s 3 7 11 15
  let s := quarter s 0 5 10 15
  let s := quarter s 1 6 11 12
  let s := quarter s 2 7 8 13
  quarter s 3 4 9 14

/-- The first `n` little-endian words of a byte string. -/
def words (n : Nat) (bytes : List UInt8) : List Nat :=
  (List.range n).map fun i => Blake2.leNat ((bytes.drop (4 * i)).take 4)

/-- The state a block starts from: constants, key, counter, nonce. -/
def init (key : List.Vector UInt8 32) (nonce : List.Vector UInt8 12) (counter : Nat) : List Nat :=
  [0x61707865, 0x3320646e, 0x79622d32, 0x6b206574] ++ words 8 key.toList ++ [counter] ++
    words 3 nonce.toList

/-- A block of the key stream, 64 bytes. -/
def block (key : List.Vector UInt8 32) (nonce : List.Vector UInt8 12) (counter : Nat) :
    List UInt8 :=
  let s := init key nonce counter
  let t := (List.range 10).foldl (fun t _ => doubleRound t) s
  (List.zipWith (fun x y => (x + y) % 2 ^ 32) s t).flatMap (Codec.leBytes 4)

/-- Mask a message with the key stream from a block on.  Each turn eats 64 bytes, so
the message's length is fuel enough. -/
def mask (key : List.Vector UInt8 32) (nonce : List.Vector UInt8 12) :
    Nat → Nat → List UInt8 → List UInt8
  | 0, _, _ => []
  | fuel + 1, counter, msg =>
      if msg.isEmpty then []
      else List.zipWith (· ^^^ ·) (msg.take 64) (block key nonce counter) ++
        mask key nonce fuel (counter + 1) (msg.drop 64)

/-! ## The tag -/

/-- The polynomial in `r` whose coefficients are the 16-byte pieces of a message, each
with a one on top. -/
def poly (r : Nat) : Nat → Nat → List UInt8 → Nat
  | 0, acc, _ => acc
  | fuel + 1, acc, msg =>
      if msg.isEmpty then acc
      else poly r fuel
        ((acc + Blake2.leNat (msg.take 16 ++ [1])) * r % (2 ^ 130 - 5)) (msg.drop 16)

/-- The Poly1305 value of a message under a 32-byte one-time key. -/
def poly1305 (key msg : List UInt8) : List UInt8 :=
  let r := Blake2.leNat (key.take 16) &&& 0x0ffffffc0ffffffc0ffffffc0fffffff
  let s := Blake2.leNat (key.drop 16)
  Codec.leBytes 16 (poly r msg.length 0 msg + s)

/-- A string with zeros up to a multiple of 16. -/
def pad16 (bytes : List UInt8) : List UInt8 :=
  bytes ++ List.replicate ((16 - bytes.length % 16) % 16) 0

/-- The ciphertext, with the tag behind it. -/
def encrypt (key : List.Vector UInt8 32) (nonce : List.Vector UInt8 12) (plaintext : List UInt8) :
    List UInt8 :=
  let ciphertext := mask key nonce plaintext.length 1 plaintext
  let tag := poly1305 ((block key nonce 0).take 32)
    (pad16 ciphertext ++ Codec.leBytes 8 0 ++ Codec.leBytes 8 ciphertext.length)
  ciphertext ++ tag

/-- The tag of a ciphertext. -/
def tagOf (key : List.Vector UInt8 32) (nonce : List.Vector UInt8 12) (ciphertext : List UInt8) :
    List UInt8 :=
  poly1305 ((block key nonce 0).take 32)
    (pad16 ciphertext ++ Codec.leBytes 8 0 ++ Codec.leBytes 8 ciphertext.length)

/-- The plaintext, if the last 16 bytes are the tag of those before them. -/
def decrypt (key : List.Vector UInt8 32) (nonce : List.Vector UInt8 12) (data : List UInt8) :
    Option (List UInt8) :=
  let ciphertext := data.take (data.length - 16)
  if data.length < 16 then none
  else if data.drop (data.length - 16) = tagOf key nonce ciphertext then
    some (mask key nonce ciphertext.length 1 ciphertext)
  else none

/-- The tag of associated data and a ciphertext. -/
def tagWith (key : List.Vector UInt8 32) (nonce : List.Vector UInt8 12)
    (associated ciphertext : List UInt8) : List UInt8 :=
  poly1305 ((block key nonce 0).take 32)
    (pad16 associated ++ (pad16 ciphertext ++ Codec.leBytes 8 associated.length ++
      Codec.leBytes 8 ciphertext.length))

/-- The ciphertext, with a tag behind it that covers the associated data too. -/
def encryptWith (key : List.Vector UInt8 32) (nonce : List.Vector UInt8 12)
    (associated plaintext : List UInt8) : List UInt8 :=
  let ciphertext := mask key nonce plaintext.length 1 plaintext
  ciphertext ++ tagWith key nonce associated ciphertext

/-- The plaintext, if the last 16 bytes are the tag of the associated data and of those
before them. -/
def decryptWith (key : List.Vector UInt8 32) (nonce : List.Vector UInt8 12)
    (associated data : List UInt8) : Option (List UInt8) :=
  let ciphertext := data.take (data.length - 16)
  if data.length < 16 then none
  else if data.drop (data.length - 16) = tagWith key nonce associated ciphertext then
    some (mask key nonce ciphertext.length 1 ciphertext)
  else none

-- The first bytes of the published example block: key `00 … 1f`, counter 1.
example : (block ⟨(List.range 32).map UInt8.ofNat, by simp⟩
    ⟨[0, 0, 0, 9, 0, 0, 0, 0x4a, 0, 0, 0, 0], rfl⟩ 1).take 16 =
    [0x10, 0xf1, 0xe7, 0xe4, 0xd1, 0x3b, 0x59, 0x15, 0x50, 0x0f, 0xdd, 0x1f, 0xa3, 0x20, 0x71,
     0xc4] := by
  decide +kernel

/-! ## Decryption undoes encryption -/

section
variable {key : List.Vector UInt8 32} {nonce : List.Vector UInt8 12}

theorem length_quarter (s : List Nat) (a b c d : Nat) : (quarter s a b c d).length = s.length := by
  simp only [quarter, List.length_set]

theorem length_doubleRound (s : List Nat) : (doubleRound s).length = s.length := by
  simp only [doubleRound, length_quarter]

theorem length_init (counter : Nat) : (init key nonce counter).length = 16 := by
  simp [init, words]

theorem length_block (counter : Nat) : (block key nonce counter).length = 64 := by
  have hrounds : ∀ (rounds : List Nat) (s : List Nat),
      (rounds.foldl (fun t _ => doubleRound t) s).length = s.length := by
    intro rounds
    induction rounds with
    | nil => intro s; rfl
    | cons _ rounds ih =>
        intro s
        rw [List.foldl_cons, ih, length_doubleRound]
  rw [block, List.length_flatMap]
  simp only [Codec.length_leBytes, List.map_const', List.sum_replicate, List.length_zipWith,
    hrounds, length_init]
  rfl

theorem zipWith_xor_cancel : ∀ {xs ks : List UInt8}, xs.length ≤ ks.length →
    List.zipWith (· ^^^ ·) (List.zipWith (· ^^^ ·) xs ks) ks = xs
  | [], _, _ => rfl
  | x :: xs, k :: ks, hlen => by
      rw [List.zipWith_cons_cons, List.zipWith_cons_cons,
        zipWith_xor_cancel (Nat.le_of_succ_le_succ hlen), UInt8.xor_assoc, UInt8.xor_self,
        UInt8.xor_zero]

theorem take_drop_append {msg head rest : List UInt8} {n : Nat}
    (hhead : head.length = (msg.take n).length) (hrest : rest.length = (msg.drop n).length) :
    (head ++ rest).take n = head ∧ (head ++ rest).drop n = rest := by
  rw [List.length_take] at hhead
  rw [List.length_drop] at hrest
  rcases Nat.lt_or_ge n msg.length with hlong | hshort
  · exact ⟨List.take_left' (by omega), List.drop_left' (by omega)⟩
  · obtain rfl := List.eq_nil_of_length_eq_zero (l := rest) (by omega)
    rw [List.append_nil]
    exact ⟨List.take_of_length_le (by omega), List.drop_of_length_le (by omega)⟩

theorem mask_nil (fuel counter : Nat) : mask key nonce fuel counter [] = [] := by
  cases fuel with
  | zero => rfl
  | succ fuel => rfl

theorem mask_succ (fuel counter : Nat) (msg : List UInt8) :
    mask key nonce (fuel + 1) counter msg =
      List.zipWith (· ^^^ ·) (msg.take 64) (block key nonce counter) ++
        mask key nonce fuel (counter + 1) (msg.drop 64) := by
  cases msg with
  | nil =>
      rw [mask_nil, List.take_nil, List.drop_nil, mask_nil]
      rfl
  | cons b msg => rfl

theorem length_mask {fuel : Nat} (counter : Nat) {msg : List UInt8} (hfuel : msg.length ≤ fuel) :
    (mask key nonce fuel counter msg).length = msg.length := by
  induction fuel generalizing counter msg with
  | zero => rw [List.eq_nil_of_length_eq_zero (Nat.le_zero.mp hfuel), mask_nil]
  | succ fuel ih =>
      have hrest : (msg.drop 64).length ≤ fuel := by
        rw [List.length_drop]
        omega
      rw [mask_succ, List.length_append, ih _ hrest, List.length_zipWith, List.length_take,
        length_block, List.length_drop]
      omega

theorem mask_mask {fuel : Nat} (counter : Nat) {msg : List UInt8} (hfuel : msg.length ≤ fuel) :
    mask key nonce fuel counter (mask key nonce fuel counter msg) = msg := by
  induction fuel generalizing counter msg with
  | zero => rw [List.eq_nil_of_length_eq_zero (Nat.le_zero.mp hfuel), mask_nil, mask_nil]
  | succ fuel ih =>
      have hrest : (msg.drop 64).length ≤ fuel := by
        rw [List.length_drop]
        omega
      have hpiece : (msg.take 64).length ≤ (block key nonce counter).length := by
        rw [length_block, List.length_take]
        omega
      rw [mask_succ, mask_succ]
      have hhead : (List.zipWith (· ^^^ ·) (msg.take 64) (block key nonce counter)).length =
          (msg.take 64).length := by
        rw [List.length_zipWith, Nat.min_eq_left hpiece]
      -- the masked piece is cut off where the piece was
      obtain ⟨htake, hdrop⟩ := take_drop_append hhead
        (length_mask (counter + 1) hrest)
      rw [htake, hdrop, zipWith_xor_cancel hpiece, ih _ hrest, List.take_append_drop]

theorem length_tagWith (associated ciphertext : List UInt8) :
    (tagWith key nonce associated ciphertext).length = 16 :=
  Codec.length_leBytes 16 _

theorem length_encryptWith (associated plaintext : List UInt8) :
    (encryptWith key nonce associated plaintext).length = plaintext.length + 16 := by
  rw [encryptWith, List.length_append, length_tagWith, length_mask 1 (Nat.le_refl _)]

/-- **What was encrypted can be decrypted.** -/
theorem decryptWith_encryptWith (associated plaintext : List UInt8) :
    decryptWith key nonce associated (encryptWith key nonce associated plaintext) =
      some plaintext := by
  have hmask : (mask key nonce plaintext.length 1 plaintext).length = plaintext.length :=
    length_mask 1 (Nat.le_refl _)
  have hlong : ¬(encryptWith key nonce associated plaintext).length < 16 := by
    rw [length_encryptWith]
    omega
  have hcut : (encryptWith key nonce associated plaintext).take plaintext.length =
      mask key nonce plaintext.length 1 plaintext :=
    List.take_left' hmask
  have hrest : (encryptWith key nonce associated plaintext).drop plaintext.length =
      tagWith key nonce associated (mask key nonce plaintext.length 1 plaintext) :=
    List.drop_left' hmask
  rw [decryptWith, if_neg hlong, length_encryptWith, Nat.add_sub_cancel, hcut, hrest, if_pos rfl,
    hmask, mask_mask 1 (Nat.le_refl _)]

theorem tagWith_nil (ciphertext : List UInt8) :
    tagWith key nonce [] ciphertext = tagOf key nonce ciphertext := by
  have hpad : pad16 [] = [] := rfl
  rw [tagWith, tagOf, hpad, List.nil_append, List.length_nil]

theorem encryptWith_nil (plaintext : List UInt8) :
    encryptWith key nonce [] plaintext = encrypt key nonce plaintext := by
  rw [encryptWith, tagWith_nil]
  rfl

theorem decryptWith_nil (data : List UInt8) :
    decryptWith key nonce [] data = decrypt key nonce data := by
  simp only [decryptWith, decrypt, tagWith_nil]

theorem decrypt_encrypt (plaintext : List UInt8) :
    decrypt key nonce (encrypt key nonce plaintext) = some plaintext := by
  rw [← encryptWith_nil, ← decryptWith_nil, decryptWith_encryptWith]

theorem length_encrypt (plaintext : List UInt8) :
    (encrypt key nonce plaintext).length = plaintext.length + 16 := by
  rw [← encryptWith_nil, length_encryptWith]

end

end ChaCha20Poly1305
