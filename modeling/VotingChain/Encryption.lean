/-
# `VotingChain.Encryption` — encrypted data as bytes, and streams of chunks

The model of the rest of `crypto/src/encryption.rs`: associated data, the byte form and the
hexadecimal form of `EncryptedData`, and `StreamCipher`.

**Three fields, two on the wire.**  Encrypted data has a nonce, a ciphertext and, if it was
encrypted with some, associated data.  Its byte form is

    nonce ‖ ciphertext
     12      n + 16

and what is read back has no associated data.  So what `encrypt` makes survives and what
`encrypt_with_aad` makes does not; that can still be decrypted exactly if the associated data
was empty (`EncryptedData.survives_iff`).

**One nonce for a stream.**  A stream cipher draws its nonce when it is made, and passes it to
the cipher with every chunk.  With two chunks the nonce is used twice, and what was encrypted
can be decrypted in any order (`StreamCipher.ordered_iff`).
-/
import VotingChain.BallotPrivacy

namespace VotingChain

/-! ## The byte form -/

namespace EncryptedData

/-- Create with associated data. -/
def withAssociatedData (nonce : ByteArr 12) (ciphertext associatedData : Bytes) : EncryptedData :=
  ⟨nonce, ciphertext, some associatedData⟩

/-- Get size of encrypted data in bytes. -/
def size (data : EncryptedData) : Nat :=
  12 + data.ciphertext.length + (data.associatedData.map List.length).getD 0

/-- Import from bytes. -/
def fromBytes (bytes : Bytes) : Result EncryptedData := do
  ensure (!decide (bytes.length < 12 + 16)) (.cryptoError "Encrypted data too short")
  let head ← sliceVec bytes 0 12
  let nonce ← copyFromSlice 12 head
  let ciphertext ← sliceVec bytes 12 bytes.length
  return new nonce ciphertext

/-- Export to hex string. -/
def toHex [Hex] (data : EncryptedData) : String := Hex.encode data.toBytes

/-- Import from hex string. -/
def fromHex [Hex] (hexStr : String) : Result EncryptedData :=
  match Hex.decode hexStr with
  | .error e => fail (.cryptoError ("Invalid hex: " ++ e))
  | .ok bytes => fromBytes bytes

theorem fromBytes_of_le {bytes : Bytes} (h : 28 ≤ bytes.length) :
    ∃ hnonce : (bytes.take 12).length = 12,
      fromBytes bytes = .ok (new ⟨bytes.take 12, hnonce⟩ (bytes.drop 12)) := by
  have hnonce : (bytes.take 12).length = 12 := by
    rw [List.length_take]
    omega
  have hlong : ¬bytes.length < 12 + 16 := by omega
  have hhead : sliceVec bytes 0 12 = .ok (bytes.take 12) := sliceVec_take (by omega)
  have hrest : sliceVec bytes 12 bytes.length = .ok (bytes.drop 12) := sliceVec_drop (by omega)
  refine ⟨hnonce, ?_⟩
  rw [fromBytes, decide_eq_false hlong, hhead, hrest]
  show copyFromSlice 12 (bytes.take 12) >>= _ = _
  rw [copyFromSlice_of_length hnonce]
  rfl

theorem fromBytes_of_lt {bytes : Bytes} (h : bytes.length < 28) :
    fromBytes bytes = fail (.cryptoError "Encrypted data too short") := by
  rw [fromBytes, decide_eq_true h]
  rfl

theorem fromBytes_total (bytes : Bytes) :
    fromBytes bytes ≠ .error .panicked ∧
      ((∃ data, fromBytes bytes = .ok data) ↔ 28 ≤ bytes.length) := by
  rcases Nat.lt_or_ge bytes.length 28 with hlt | hle
  · rw [fromBytes_of_lt hlt]
    refine ⟨fun h => ?_, iff_of_false ?_ (Nat.not_le.mpr hlt)⟩
    · cases h
    · rintro ⟨data, h⟩
      cases h
  · obtain ⟨hnonce, h⟩ := fromBytes_of_le hle
    rw [h]
    refine ⟨fun h => ?_, iff_of_true ⟨_, rfl⟩ hle⟩
    cases h

/-- What is read back: the nonce and the ciphertext. -/
theorem fromBytes_toBytes {data : EncryptedData} (h : 16 ≤ data.ciphertext.length) :
    fromBytes data.toBytes = .ok (new data.nonce data.ciphertext) := by
  have hlen : data.nonce.toList.length = 12 := data.nonce.toList_length
  have hle : 28 ≤ data.toBytes.length := by
    rw [toBytes, List.length_append, hlen]
    omega
  obtain ⟨hnonce, hread⟩ := fromBytes_of_le hle
  have htake : data.toBytes.take 12 = data.nonce.toList := List.take_left' hlen
  have hdrop : data.toBytes.drop 12 = data.ciphertext := List.drop_left' hlen
  rw [hread, hdrop]
  exact congrArg (fun nonce => Except.ok (new nonce data.ciphertext)) (List.Vector.eq _ _ htake)

theorem fromHex_toHex [Hex] (data : EncryptedData) :
    fromHex data.toHex = fromBytes data.toBytes := by
  rw [fromHex, toHex, Hex.decode_encode]

end EncryptedData

/-! ## Associated data -/

/-- The algorithms with the cipher for associated data. -/
structure AadSuite extends AeadSuite where
  /-- `ChaCha20Poly1305::encrypt` under a key and a nonce, of associated data and a text. -/
  sealWith : ByteArr 32 → ByteArr 12 → Bytes → Bytes → Except String Bytes
  /-- `ChaCha20Poly1305::decrypt` under a key and a nonce, of associated data and a ciphertext. -/
  openWith : ByteArr 32 → ByteArr 12 → Bytes → Bytes → Except String Bytes

namespace AadSuite

/-- The cipher decrypts what it encrypted, and a ciphertext has the length of the text and of
the tag. -/
structure Correct (S : AadSuite) : Prop where
  opens : S.Opens
  opensWith : ∀ key nonce associatedData plaintext ciphertext,
    S.sealWith key nonce associatedData plaintext = .ok ciphertext →
      S.openWith key nonce associatedData ciphertext = .ok plaintext
  length : ∀ key nonce plaintext ciphertext,
    S.chacha20Poly1305 key nonce plaintext = .ok ciphertext →
      ciphertext.length = plaintext.length + 16
  lengthWith : ∀ key nonce associatedData plaintext ciphertext,
    S.sealWith key nonce associatedData plaintext = .ok ciphertext →
      ciphertext.length = plaintext.length + 16

/-- What was encrypted with some associated data is not decrypted with other. -/
def RejectsWrong (S : AadSuite) (key : ByteArr 32) (nonce : ByteArr 12) (plaintext : Bytes)
    (associatedData other : Bytes) : Prop :=
  associatedData ≠ other → ∀ ciphertext,
    S.sealWith key nonce associatedData plaintext = .ok ciphertext →
      ∀ text, S.openWith key nonce other ciphertext ≠ .ok text

end AadSuite

section
variable (S : AadSuite)

/-- Encrypt with additional authenticated data (AAD); `nonce` is what is drawn. -/
def encryptWithAad (nonce : ByteArr 12) (plaintext associatedData : Bytes) (key : EncryptionKey) :
    Result EncryptedData :=
  match S.sealWith key.key nonce associatedData plaintext with
  | .error e => fail (.cryptoError ("Encryption failed: " ++ e))
  | .ok ciphertext => .ok (EncryptedData.withAssociatedData nonce ciphertext associatedData)

/-- Decrypt with additional authenticated data (AAD). -/
def decryptWithAad (encrypted : EncryptedData) (key : EncryptionKey) : Result Bytes :=
  match S.openWith key.key encrypted.nonce (encrypted.associatedData.getD [])
      encrypted.ciphertext with
  | .error e => fail (.cryptoError ("Decryption failed: " ++ e))
  | .ok plaintext => .ok plaintext

/-- One of the two ways to encrypt: with associated data, if there is some. -/
def encryptEither (nonce : ByteArr 12) (plaintext : Bytes) (associatedData : Option Bytes)
    (key : EncryptionKey) : Result EncryptedData :=
  match associatedData with
  | none => encrypt S.toSuite nonce plaintext key
  | some associatedData => encryptWithAad S nonce plaintext associatedData key

/-- The way to decrypt that goes with it. -/
def decryptEither (associatedData : Option Bytes) (encrypted : EncryptedData)
    (key : EncryptionKey) : Result Bytes :=
  match associatedData with
  | none => decrypt S.toAeadSuite encrypted key
  | some _ => decryptWithAad S encrypted key

end

section
variable {S : AadSuite}

theorem encrypt_eq_ok {nonce : ByteArr 12} {plaintext : Bytes} {key : EncryptionKey}
    {encrypted : EncryptedData} (h : encrypt S.toSuite nonce plaintext key = .ok encrypted) :
    ∃ ciphertext, S.chacha20Poly1305 key.key nonce plaintext = .ok ciphertext ∧
      encrypted = EncryptedData.new nonce ciphertext := by
  rw [encrypt] at h
  split at h
  · cases h
  · next ciphertext hcipher =>
      cases h
      exact ⟨ciphertext, hcipher, rfl⟩

theorem encryptWithAad_eq_ok {nonce : ByteArr 12} {plaintext associatedData : Bytes}
    {key : EncryptionKey} {encrypted : EncryptedData}
    (h : encryptWithAad S nonce plaintext associatedData key = .ok encrypted) :
    ∃ ciphertext, S.sealWith key.key nonce associatedData plaintext = .ok ciphertext ∧
      encrypted = EncryptedData.withAssociatedData nonce ciphertext associatedData := by
  rw [encryptWithAad] at h
  split at h
  · cases h
  · next ciphertext hcipher =>
      cases h
      exact ⟨ciphertext, hcipher, rfl⟩

theorem decryptWithAad_encryptWithAad (hcorrect : S.Correct) {nonce : ByteArr 12}
    {plaintext associatedData : Bytes} {key : EncryptionKey} {encrypted : EncryptedData}
    (h : encryptWithAad S nonce plaintext associatedData key = .ok encrypted) :
    decryptWithAad S encrypted key = .ok plaintext := by
  obtain ⟨ciphertext, hcipher, rfl⟩ := encryptWithAad_eq_ok h
  simp only [decryptWithAad, EncryptedData.withAssociatedData, Option.getD_some,
    hcorrect.opensWith _ _ _ _ _ hcipher]

/-- Without its associated data it is decrypted exactly if that was empty. -/
theorem decryptWithAad_new (hcorrect : S.Correct) {nonce : ByteArr 12}
    {plaintext associatedData ciphertext : Bytes} {key : EncryptionKey}
    (hrejects : S.RejectsWrong key.key nonce plaintext associatedData [])
    (hcipher : S.sealWith key.key nonce associatedData plaintext = .ok ciphertext) :
    decryptWithAad S (EncryptedData.new nonce ciphertext) key = .ok plaintext ↔
      associatedData = [] := by
  constructor
  · intro h
    by_contra hne
    rw [decryptWithAad] at h
    split at h
    · cases h
    · next text hopen => exact hrejects hne ciphertext hcipher text hopen
  · rintro rfl
    simp only [decryptWithAad, EncryptedData.new, Option.getD_none,
      hcorrect.opensWith _ _ _ _ _ hcipher]

theorem encryptEither_eq_ok (hcorrect : S.Correct) {nonce : ByteArr 12} {plaintext : Bytes}
    {associatedData : Option Bytes} {key : EncryptionKey} {encrypted : EncryptedData}
    (h : encryptEither S nonce plaintext associatedData key = .ok encrypted) :
    16 ≤ encrypted.ciphertext.length ∧ encrypted.associatedData = associatedData := by
  cases associatedData with
  | none =>
      obtain ⟨ciphertext, hcipher, rfl⟩ := encrypt_eq_ok h
      exact ⟨(hcorrect.length _ _ _ _ hcipher).symm ▸ Nat.le_add_left _ _, rfl⟩
  | some associatedData =>
      obtain ⟨ciphertext, hcipher, rfl⟩ := encryptWithAad_eq_ok h
      exact ⟨(hcorrect.lengthWith _ _ _ _ _ hcipher).symm ▸ Nat.le_add_left _ _, rfl⟩

/-- The byte form and the hexadecimal form of what was encrypted are read back as it, and what
is read is decrypted. -/
def EncryptedData.Survives [Hex] (S : AadSuite) (plaintext : Bytes) (associatedData : Option Bytes)
    (key : EncryptionKey) (encrypted : EncryptedData) : Prop :=
  fromBytes encrypted.toBytes = .ok encrypted ∧ fromHex encrypted.toHex = .ok encrypted ∧
    ∀ data, fromBytes encrypted.toBytes = .ok data →
      decryptEither S associatedData data key = .ok plaintext

/-- **What survives its byte form.**  Exactly what has no associated data.  What is read back
is decrypted exactly if there is none or if it is empty.  Any byte string is read without a
panic, and accepted if it is long enough. -/
theorem EncryptedData.survives_iff [Hex] (hcorrect : S.Correct) {nonce : ByteArr 12}
    {plaintext : Bytes} {associatedData : Option Bytes} {key : EncryptionKey}
    {encrypted : EncryptedData}
    (hrejects : ∀ associated, associatedData = some associated →
      S.RejectsWrong key.key nonce plaintext associated [])
    (h : encryptEither S nonce plaintext associatedData key = .ok encrypted) :
    (Survives S plaintext associatedData key encrypted ↔ associatedData = none) ∧
    (∃ data, fromBytes encrypted.toBytes = .ok data ∧ fromHex encrypted.toHex = .ok data ∧
      (decryptEither S associatedData data key = .ok plaintext ↔
        associatedData.getD [] = [])) ∧
    ∀ bytes, fromBytes bytes ≠ .error .panicked ∧
      ((∃ data, fromBytes bytes = .ok data) ↔ 28 ≤ bytes.length) := by
  obtain ⟨hlen, hassociated⟩ := encryptEither_eq_ok hcorrect h
  have hread := fromBytes_toBytes hlen
  have hhex : fromHex encrypted.toHex = .ok (new encrypted.nonce encrypted.ciphertext) :=
    (fromHex_toHex encrypted).trans hread
  refine ⟨?_, ⟨_, hread, hhex, ?_⟩, fromBytes_total⟩
  · cases associatedData with
    | none =>
        refine iff_of_true ?_ rfl
        obtain ⟨ciphertext, -, rfl⟩ := encrypt_eq_ok h
        refine ⟨hread, hhex, fun data hdata => ?_⟩
        cases hread.symm.trans hdata
        exact decrypt_encrypt hcorrect.opens h
    | some associated =>
        refine iff_of_false (fun hsurvives => ?_) (Option.some_ne_none _)
        have heq := Except.ok.inj (hread.symm.trans hsurvives.1)
        rw [← heq] at hassociated
        exact Option.some_ne_none associated hassociated.symm
  · cases associatedData with
    | none =>
        obtain ⟨ciphertext, -, rfl⟩ := encrypt_eq_ok h
        exact iff_of_true (decrypt_encrypt hcorrect.opens h) rfl
    | some associated =>
        obtain ⟨ciphertext, hcipher, rfl⟩ := encryptWithAad_eq_ok h
        exact decryptWithAad_new hcorrect (hrejects _ rfl) hcipher

end

namespace Reference

/-- The algorithms of the program, with associated data. -/
def aadSuite : AadSuite :=
  { aeadSuite with
    sealWith := fun key nonce associatedData plaintext =>
      .ok (ChaCha20Poly1305.encryptWith key nonce associatedData plaintext)
    openWith := fun key nonce associatedData data =>
      match ChaCha20Poly1305.decryptWith key nonce associatedData data with
      | none => .error "aead::Error"
      | some plaintext => .ok plaintext }

theorem correct_aadSuite : aadSuite.Correct where
  opens := opens_aeadSuite
  opensWith := by
    intro key nonce associatedData plaintext ciphertext h
    cases h
    simp only [aadSuite, ChaCha20Poly1305.decryptWith_encryptWith]
  length := by
    intro key nonce plaintext ciphertext h
    cases h
    exact ChaCha20Poly1305.length_encrypt plaintext
  lengthWith := by
    intro key nonce associatedData plaintext ciphertext h
    cases h
    exact ChaCha20Poly1305.length_encryptWith associatedData plaintext

def drawnNonce : ByteArr 12 := List.Vector.replicate 12 1

theorem rejectsWrong_byte : aadSuite.RejectsWrong electionKey.key drawnNonce [1] [2] [] := by
  have hnone : ChaCha20Poly1305.decryptWith electionKey.key drawnNonce []
      (ChaCha20Poly1305.encryptWith electionKey.key drawnNonce [2] [1]) = none := by
    decide +kernel
  intro _ ciphertext h text hopen
  have hcipher : ChaCha20Poly1305.encryptWith electionKey.key drawnNonce [2] [1] = ciphertext :=
    Except.ok.inj h
  simp only [aadSuite, ← hcipher, hnone] at hopen
  cases hopen

end Reference

namespace EncryptedData
open Reference (aadSuite drawnNonce)

theorem survives_iff_byte :
    ∃ encrypted, encryptEither aadSuite drawnNonce [1] (some [2]) Reference.electionKey =
        .ok encrypted ∧
      ¬Survives aadSuite [1] (some [2]) Reference.electionKey encrypted := by
  have hrejects : ∀ associated, some ([2] : Bytes) = some associated →
      aadSuite.RejectsWrong Reference.electionKey.key drawnNonce [1] associated [] := by
    intro associated h
    rw [← Option.some.inj h]
    exact Reference.rejectsWrong_byte
  refine ⟨_, rfl, fun hsurvives => ?_⟩
  exact Option.some_ne_none _
    ((survives_iff Reference.correct_aadSuite hrejects rfl).1.mp hsurvives)

/-- A byte encrypted with another: what is read back is not what was written, and is not
decrypted. -/
theorem associatedData_lost :
    aadSuite.Correct ∧ aadSuite.RejectsWrong Reference.electionKey.key drawnNonce [1] [2] [] ∧
    ∃ encrypted data,
      encryptWithAad aadSuite drawnNonce [1] [2] Reference.electionKey = .ok encrypted ∧
      fromBytes encrypted.toBytes = .ok data ∧ fromHex encrypted.toHex = .ok data ∧
      data ≠ encrypted ∧ decryptWithAad aadSuite data Reference.electionKey ≠ .ok [1] := by
  have hlen :
      16 ≤ (ChaCha20Poly1305.encryptWith Reference.electionKey.key drawnNonce [2] [1]).length := by
    rw [ChaCha20Poly1305.length_encryptWith]
    exact Nat.le_add_left _ _
  refine ⟨Reference.correct_aadSuite, Reference.rejectsWrong_byte, _, _, rfl,
    fromBytes_toBytes hlen, (fromHex_toHex _).trans (fromBytes_toBytes hlen), fun heq => ?_, ?_⟩
  · exact Option.some_ne_none _ (congrArg associatedData heq).symm
  · intro hdecrypt
    have hnil := (decryptWithAad_new Reference.correct_aadSuite Reference.rejectsWrong_byte rfl).mp
      hdecrypt
    exact List.cons_ne_nil _ _ hnil

end EncryptedData

/-! ## Streams -/

/-- Stream cipher for encrypting large data. -/
structure StreamCipher where
  cipher : ByteArr 32
  nonce : ByteArr 12
  deriving DecidableEq

namespace StreamCipher

/-- Create a new stream cipher with random nonce; `nonce` is what is drawn. -/
def new (nonce : ByteArr 12) (key : EncryptionKey) : StreamCipher := ⟨key.key, nonce⟩

/-- What a call passes to the cipher: a nonce, and the chunk. -/
def passed (stream : StreamCipher) (chunk : Bytes) : ByteArr 12 × Bytes := (stream.nonce, chunk)

/-- Encrypt a chunk of data. -/
def encryptChunk (S : AeadSuite) (stream : StreamCipher) (chunk : Bytes) : Result Bytes :=
  match S.chacha20Poly1305 stream.cipher (stream.passed chunk).1 (stream.passed chunk).2 with
  | .error e => fail (.cryptoError ("Stream encryption failed: " ++ e))
  | .ok ciphertext => .ok ciphertext

/-- Decrypt a chunk of data. -/
def decryptChunk (S : AeadSuite) (stream : StreamCipher) (chunk : Bytes) : Result Bytes :=
  match S.chacha20Poly1305Open stream.cipher (stream.passed chunk).1 (stream.passed chunk).2 with
  | .error e => fail (.cryptoError ("Stream decryption failed: " ++ e))
  | .ok plaintext => .ok plaintext

/-- The chunks are encrypted by the stream, one call after the other. -/
def Encrypts (S : AeadSuite) (stream : StreamCipher) (chunks ciphertexts : List Bytes) : Prop :=
  chunks.map (stream.encryptChunk S) = ciphertexts.map .ok

/-- The nonces passed by a sequence of calls. -/
def nonces (stream : StreamCipher) (chunks : List Bytes) : List (ByteArr 12) :=
  chunks.map fun chunk => (stream.passed chunk).1

/-- An order of `n` things that is not the one they were produced in. -/
def Reordering (n : Nat) (order : List Nat) : Prop :=
  order.Perm (List.range n) ∧ order ≠ List.range n

instance (n : Nat) (order : List Nat) : Decidable (Reordering n order) :=
  inferInstanceAs (Decidable (_ ∧ _))

variable {S : AeadSuite}

theorem decryptChunk_encryptChunk (hopens : S.Opens) {stream : StreamCipher}
    {chunk ciphertext : Bytes} (h : stream.encryptChunk S chunk = .ok ciphertext) :
    stream.decryptChunk S ciphertext = .ok chunk := by
  rw [encryptChunk] at h
  split at h
  · cases h
  · next hcipher =>
      cases h
      have hopen : S.chacha20Poly1305Open stream.cipher (stream.passed ciphertext).1
          (stream.passed ciphertext).2 = .ok chunk :=
        hopens _ _ _ _ hcipher
      rw [decryptChunk, hopen]

theorem nodup_nonces_iff (stream : StreamCipher) (chunks : List Bytes) :
    (stream.nonces chunks).Nodup ↔ chunks.length ≤ 1 := by
  have hnonces : stream.nonces chunks = List.replicate chunks.length stream.nonce :=
    List.map_const' ..
  rw [hnonces, List.nodup_replicate]

theorem decryptChunk_getD (hopens : S.Opens) {stream : StreamCipher}
    {chunks ciphertexts : List Bytes} (h : stream.Encrypts S chunks ciphertexts) {i : Nat}
    (hi : i < chunks.length) :
    stream.decryptChunk S (ciphertexts.getD i []) = .ok (chunks.getD i []) := by
  have hlen : chunks.length = ciphertexts.length := by
    have hmap := congrArg List.length h
    rwa [List.length_map, List.length_map] at hmap
  have hcall := congrArg (fun results => results[i]?) h
  simp only [List.getElem?_map, List.getElem?_eq_getElem hi,
    List.getElem?_eq_getElem (hlen ▸ hi), Option.map_some, Option.some.injEq] at hcall
  rw [List.getD_eq_getElem?_getD, List.getD_eq_getElem?_getD, List.getElem?_eq_getElem hi,
    List.getElem?_eq_getElem (hlen ▸ hi)]
  exact decryptChunk_encryptChunk hopens hcall

theorem exists_reordering {n : Nat} (hn : 2 ≤ n) : ∃ order, Reordering n order := by
  refine ⟨(List.range n).reverse, List.reverse_perm _, fun heq => ?_⟩
  have hhead := congrArg (fun order => order[0]?) heq
  simp only [List.getElem?_reverse (l := List.range n) (i := 0) (by rw [List.length_range]; omega),
    List.length_range, List.getElem?_range (show 0 < n by omega),
    List.getElem?_range (show n - 1 - 0 < n by omega), Option.some.injEq] at hhead
  omega

theorem not_reordering {n : Nat} (hn : n ≤ 1) (order : List Nat) : ¬Reordering n order := by
  rintro ⟨hperm, hne⟩
  obtain rfl | rfl := Nat.le_one_iff_eq_zero_or_eq_one.mp hn
  · exact hne (List.Perm.eq_nil hperm)
  · exact hne (List.perm_singleton.mp hperm)

/-- **What a stream tells apart.**  The nonces of a sequence of calls are distinct, and an
order other than that of the calls is detected, exactly if there is one call or none.  In any
order, every chunk is decrypted. -/
theorem ordered_iff (hopens : S.Opens) {stream : StreamCipher} {chunks ciphertexts : List Bytes}
    (h : stream.Encrypts S chunks ciphertexts) :
    ((stream.nonces chunks).Nodup ↔ chunks.length ≤ 1) ∧
    ((∀ order, Reordering chunks.length order →
        ∃ i ∈ order, ∃ e, stream.decryptChunk S (ciphertexts.getD i []) = .error e) ↔
      chunks.length ≤ 1) ∧
    ∀ order, Reordering chunks.length order → ∀ i ∈ order,
      stream.decryptChunk S (ciphertexts.getD i []) = .ok (chunks.getD i []) := by
  have hany : ∀ order, Reordering chunks.length order → ∀ i ∈ order,
      stream.decryptChunk S (ciphertexts.getD i []) = .ok (chunks.getD i []) := by
    rintro order ⟨hperm, -⟩ i hi
    exact decryptChunk_getD hopens h (List.mem_range.mp (hperm.mem_iff.mp hi))
  refine ⟨nodup_nonces_iff stream chunks, ⟨fun hdetects => ?_, fun hlen order horder => ?_⟩, hany⟩
  · by_contra hlen
    obtain ⟨order, horder⟩ := exists_reordering (Nat.lt_of_not_le hlen)
    obtain ⟨i, hi, e, he⟩ := hdetects order horder
    rw [hany order horder i hi] at he
    cases he
  · exact absurd horder (not_reordering hlen order)

/-- A stream of two chunks. -/
def sample : StreamCipher := new Reference.drawnNonce Reference.electionKey

def sampleChunks : List Bytes := [strBytes "First chunk", strBytes "Second chunk"]

def sampleCiphertexts : List Bytes :=
  sampleChunks.map (ChaCha20Poly1305.encrypt sample.cipher sample.nonce)

theorem encrypts_sample :
    sample.Encrypts Reference.aeadSuite sampleChunks sampleCiphertexts := by
  rw [Encrypts, sampleCiphertexts, List.map_map]
  rfl

theorem ordered_iff_sample :
    ¬(sample.nonces sampleChunks).Nodup ∧
    ¬∀ order, Reordering 2 order → ∃ i ∈ order, ∃ e,
      sample.decryptChunk Reference.aeadSuite (sampleCiphertexts.getD i []) = .error e := by
  obtain ⟨hnonces, hdetects, -⟩ := ordered_iff Reference.opens_aeadSuite encrypts_sample
  exact ⟨hnonces.not.mpr (by decide), hdetects.not.mpr (by decide)⟩

/-- Two chunks under one nonce, decrypted the second before the first. -/
theorem chunks_swapped :
    Reference.aeadSuite.Opens ∧ sample.Encrypts Reference.aeadSuite sampleChunks sampleCiphertexts ∧
    ¬(sample.nonces sampleChunks).Nodup ∧ Reordering 2 [1, 0] ∧
    sample.decryptChunk Reference.aeadSuite (sampleCiphertexts.getD 1 []) =
      .ok (strBytes "Second chunk") ∧
    sample.decryptChunk Reference.aeadSuite (sampleCiphertexts.getD 0 []) =
      .ok (strBytes "First chunk") := by
  refine ⟨Reference.opens_aeadSuite, encrypts_sample, ?_, by decide, ?_, ?_⟩
  · rw [nodup_nonces_iff]
    decide
  · exact decryptChunk_getD Reference.opens_aeadSuite encrypts_sample (i := 1) (by decide)
  · exact decryptChunk_getD Reference.opens_aeadSuite encrypts_sample (i := 0) (by decide)

end StreamCipher

end VotingChain
