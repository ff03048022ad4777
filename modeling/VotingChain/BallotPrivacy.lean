/-
# `VotingChain.BallotPrivacy` — opening commitments and decrypting ballots

The model of the openings of `zkp/mod.rs`, of `decrypt` in `encryption.rs` and of the
receipt-free ballots of `zkp/ballot_privacy.rs`, in the `crypto` crate.

**Commitments.**  What is committed to is the hash of the value and the randomness, one
behind the other, with nothing to say where the one ends:

    [1] ‖ [2]  =  [1, 2] ‖ []

So the commitment is bound to the string and not to the value.  Two openings of one
commitment have one value exactly if they are not one string cut at two places
(`Commitment.binding_iff`); with randomness of one length they never are.

**Ballots.**  A private ballot holds the vote, encrypted.  A receipt-free ballot is a
private ballot of something else, the hash of the vote and of what was drawn; that is what
comes out when it is decrypted (`ReceiptFreeBallot.votes_decrypt_iff`).
-/
import VotingChain.VoteCasting

namespace VotingChain

/-! ## Opening a commitment -/

namespace Commitment
variable (S : Suite)

/-- Open the commitment to reveal the value: the `open` of the source. -/
def opens (commitment : Commitment) (value : Bytes) : Result Bool :=
  match commitment.randomness with
  | none => fail (.cryptoError "No randomness available")
  | some randomness =>
      let recomputed := new S value randomness
      .ok (decide (commitment.value = recomputed.value))

/-- Verify a commitment opening. -/
def verifyOpening (commitment value randomness : Bytes) : Bool :=
  decide (S.hashBlake2bMultiple [value, randomness] = commitment)

variable {S}

theorem verifyOpening_iff {commitment value randomness : Bytes} :
    verifyOpening S commitment value randomness = true ↔
      S.hashBlake2bMultiple [value, randomness] = commitment :=
  decide_eq_true_iff

theorem opens_new {value randomness value' : Bytes} :
    (new S value randomness).opens S value' = .ok true ↔
      S.hashBlake2bMultiple [value, randomness] = S.hashBlake2bMultiple [value', randomness] := by
  show Except.ok (decide _) = _ ↔ _
  rw [Except.ok.injEq, decide_eq_true_iff]
  exact Iff.rfl

theorem flatten_pair (x y : Bytes) : [x, y].flatten = x ++ y := by
  rw [List.flatten_cons, List.flatten_singleton]

theorem append_eq_of_hash_eq {value randomness value' randomness' : Bytes}
    (hinj : Set.InjOn S.blake2b256 {value ++ randomness, value' ++ randomness'})
    (h : S.hashBlake2bMultiple [value, randomness] =
      S.hashBlake2bMultiple [value', randomness']) :
    value ++ randomness = value' ++ randomness' := by
  rw [← flatten_pair, ← flatten_pair] at hinj
  have hstring := Suite.flatten_eq_of_hash_eq hinj h
  rwa [flatten_pair, flatten_pair] at hstring

theorem opens_new_iff {value randomness value' : Bytes}
    (hinj : Set.InjOn S.blake2b256 {value ++ randomness, value' ++ randomness}) :
    (new S value randomness).opens S value' = .ok true ↔ value' = value := by
  rw [opens_new]
  constructor
  · intro hhash
    exact (List.append_cancel_right (append_eq_of_hash_eq hinj hhash)).symm
  · rintro rfl
    rfl

/-- **What a commitment is bound to.**  Two openings of a commitment have one value, and a
commitment opens to its own value only, exactly if the openings are not one string, of which
it is the hash, cut at two places. -/
theorem binding_iff {commitment value randomness value' randomness' : Bytes}
    (hinj : Set.InjOn S.blake2b256
      {value ++ randomness, value' ++ randomness', value' ++ randomness}) :
    ((verifyOpening S commitment value randomness = true →
        verifyOpening S commitment value' randomness' = true → value = value') ∧
      ((new S value randomness).opens S value' = .ok true ↔ value' = value)) ↔
    (S.hashBlake2bMultiple [value, randomness] = commitment →
      value ++ randomness = value' ++ randomness' → value.length = value'.length) := by
  have hpair : Set.InjOn S.blake2b256 {value ++ randomness, value' ++ randomness'} :=
    hinj.mono (Set.insert_subset_insert (Set.singleton_subset_iff.mpr (Set.mem_insert _ _)))
  have hown : Set.InjOn S.blake2b256 {value ++ randomness, value' ++ randomness} :=
    hinj.mono (Set.insert_subset_insert (Set.subset_insert _ _))
  rw [and_iff_left (opens_new_iff hown), verifyOpening_iff, verifyOpening_iff]
  constructor
  · intro hbinding hhash hstring
    refine congrArg List.length (hbinding hhash ?_)
    rw [← hhash]
    refine Suite.hashBlake2bMultiple_congr ?_
    rw [flatten_pair, flatten_pair, hstring]
  · intro hcut hhash hhash'
    have hstring := append_eq_of_hash_eq hpair (hhash.trans hhash'.symm)
    exact (List.append_inj hstring (hcut hhash hstring)).1

theorem value_eq_of_length_eq {commitment value randomness value' randomness' : Bytes}
    (hinj : Set.InjOn S.blake2b256 {value ++ randomness, value' ++ randomness'})
    (hlen : randomness.length = randomness'.length)
    (h : verifyOpening S commitment value randomness = true)
    (h' : verifyOpening S commitment value' randomness' = true) : value = value' :=
  (List.append_inj' (append_eq_of_hash_eq hinj
    ((verifyOpening_iff.mp h).trans (verifyOpening_iff.mp h').symm)) hlen).1

/-- Two openings of one byte each. -/
theorem binding_iff_bytes :
    (verifyOpening Reference.votingSuite.toSuite
        (Reference.votingSuite.hashBlake2bMultiple [[1], [2]]) [1] [2] = true →
      verifyOpening Reference.votingSuite.toSuite
        (Reference.votingSuite.hashBlake2bMultiple [[1], [2]]) [3] [4] = true →
      ([1] : Bytes) = [3]) ∧
    ((new Reference.votingSuite.toSuite [1] [2]).opens Reference.votingSuite.toSuite [3] =
      .ok true ↔ ([3] : Bytes) = [1]) := by
  have hnodup : (([[1, 2], [3, 4], [3, 2]] : List Bytes).map
      Reference.votingSuite.blake2b256).Nodup := by
    decide +kernel
  refine (binding_iff (S := Reference.votingSuite.toSuite) ?_).mpr (fun _ _ => rfl)
  refine injOn_of_nodup_map hnodup fun x hx => ?_
  simpa using hx

/-- One string, cut at two places. -/
theorem cut_at_two_places :
    Set.InjOn Reference.votingSuite.blake2b256
      {([1] : Bytes) ++ [2], ([1, 2] : Bytes) ++ [], ([1, 2] : Bytes) ++ [2]} ∧
    verifyOpening Reference.votingSuite.toSuite
      (Reference.votingSuite.hashBlake2bMultiple [[1], [2]]) [1] [2] = true ∧
    verifyOpening Reference.votingSuite.toSuite
      (Reference.votingSuite.hashBlake2bMultiple [[1], [2]]) [1, 2] [] = true ∧
    ([1] : Bytes) ≠ [1, 2] := by
  have hnodup : (([[1, 2], [1, 2, 2]] : List Bytes).map
      Reference.votingSuite.blake2b256).Nodup := by
    decide +kernel
  refine ⟨?_, verifyOpening_iff.mpr rfl, verifyOpening_iff.mpr rfl, by decide⟩
  refine injOn_of_nodup_map hnodup fun x hx => ?_
  simpa using hx

end Commitment

/-! ## Decrypting -/

/-- The algorithms with the other half of the cipher. -/
structure AeadSuite extends Suite where
  /-- `ChaCha20Poly1305::decrypt` under a key and a nonce, which may fail, with a text. -/
  chacha20Poly1305Open : ByteArr 32 → ByteArr 12 → Bytes → Except String Bytes

/-- The cipher decrypts what it encrypted. -/
def AeadSuite.Opens (S : AeadSuite) : Prop :=
  ∀ key nonce plaintext ciphertext, S.chacha20Poly1305 key nonce plaintext = .ok ciphertext →
    S.chacha20Poly1305Open key nonce ciphertext = .ok plaintext

/-- Decrypt ciphertext. -/
def decrypt (S : AeadSuite) (encrypted : EncryptedData) (key : EncryptionKey) : Result Bytes :=
  match S.chacha20Poly1305Open key.key encrypted.nonce encrypted.ciphertext with
  | .error e => fail (.cryptoError ("Decryption failed: " ++ e))
  | .ok plaintext => .ok plaintext

theorem decrypt_encrypt {S : AeadSuite} (hopens : S.Opens) {nonce : ByteArr 12}
    {plaintext : Bytes} {key : EncryptionKey} {encrypted : EncryptedData}
    (h : encrypt S.toSuite nonce plaintext key = .ok encrypted) :
    decrypt S encrypted key = .ok plaintext := by
  rw [encrypt] at h
  split at h
  · cases h
  · next ciphertext hcipher =>
      cases h
      simp only [decrypt, EncryptedData.new, hopens _ _ _ _ hcipher]

theorem PrivateBallot.decrypt_create {S : AeadSuite} (hopens : S.Opens)
    {draw : PrivateBallot.Draw} {voteData : Bytes} {electionKey : EncryptionKey}
    {electionId : ElectionId} {voterKey : KeyPair} {ballot : PrivateBallot}
    (h : create S.toSuite draw voteData electionKey electionId voterKey = .ok ballot) :
    decrypt S ballot.encryptedVote electionKey = .ok voteData := by
  simp only [create, bind_eq_ok] at h
  obtain ⟨encryptedVote, hencrypt, _, -, _, -, hpure⟩ := h
  cases hpure
  exact decrypt_encrypt hopens hencrypt

/-! ## Receipt-free ballots -/

/-- A private ballot, and the randomization factor that makes the receipt unprovable. -/
structure ReceiptFreeBallot where
  ballot : PrivateBallot
  randomization : Bytes
  deriving DecidableEq

/-- What `ReceiptFreeBallot::create` draws. -/
structure ReceiptFreeBallot.Draw where
  randomization : ByteArr 32
  ballot : PrivateBallot.Draw

namespace ReceiptFreeBallot

/-- What is voted with: the hash of the vote and of the randomization factor. -/
def mixedVote (S : Suite) (voteData : Bytes) (randomization : ByteArr 32) : Bytes :=
  S.hashBlake2bMultiple [voteData, randomization.toList]

/-- Create a receipt-free ballot. -/
def create (S : Suite) (draw : Draw) (voteData : Bytes) (electionKey : EncryptionKey)
    (electionId : ElectionId) (voterKey : KeyPair) : Result ReceiptFreeBallot := do
  let ballot ← PrivateBallot.create S draw.ballot (mixedVote S voteData draw.randomization)
    electionKey electionId voterKey
  return { ballot, randomization := draw.randomization.toList }

/-- Verify the ballot. -/
def verify (S : Suite) (receiptFree : ReceiptFreeBallot) (voterKey : PublicKey) : Result Unit :=
  receiptFree.ballot.verify S voterKey

variable {S : AeadSuite}

theorem decrypt_create (hopens : S.Opens) {draw : Draw} {voteData : Bytes}
    {electionKey : EncryptionKey} {electionId : ElectionId} {voterKey : KeyPair}
    {receiptFree : ReceiptFreeBallot}
    (h : create S.toSuite draw voteData electionKey electionId voterKey = .ok receiptFree) :
    decrypt S receiptFree.ballot.encryptedVote electionKey =
      .ok (mixedVote S.toSuite voteData draw.randomization) := by
  simp only [create, bind_eq_ok] at h
  obtain ⟨ballot, hballot, hpure⟩ := h
  cases hpure
  exact PrivateBallot.decrypt_create hopens hballot

/-- **Which votes can be counted.**  A private ballot decrypts to the vote; a receipt-free
ballot does so too exactly if the vote is the hash of itself and of what was drawn. -/
theorem votes_decrypt_iff (hopens : S.Opens) {voteData : Bytes} {electionKey : EncryptionKey}
    {electionId : ElectionId} {voterKey : KeyPair} {draw : PrivateBallot.Draw}
    {ballot : PrivateBallot} {receiptFreeDraw : Draw} {receiptFree : ReceiptFreeBallot}
    (h : PrivateBallot.create S.toSuite draw voteData electionKey electionId voterKey =
      .ok ballot)
    (h' : create S.toSuite receiptFreeDraw voteData electionKey electionId voterKey =
      .ok receiptFree) :
    decrypt S ballot.encryptedVote electionKey = .ok voteData ∧
    (decrypt S ballot.encryptedVote electionKey = .ok voteData ∧
        decrypt S receiptFree.ballot.encryptedVote electionKey = .ok voteData ↔
      S.hashBlake2bMultiple [voteData, receiptFreeDraw.randomization.toList] = voteData) := by
  have hprivate := PrivateBallot.decrypt_create hopens h
  refine ⟨hprivate, ?_⟩
  rw [and_iff_right hprivate, decrypt_create hopens h', Except.ok.injEq]
  exact Iff.rfl

theorem decrypt_ne_of_length_ne (hopens : S.Opens) {draw : Draw} {voteData : Bytes}
    {electionKey : EncryptionKey} {electionId : ElectionId} {voterKey : KeyPair}
    {receiptFree : ReceiptFreeBallot}
    (h : create S.toSuite draw voteData electionKey electionId voterKey = .ok receiptFree)
    (hlen : voteData.length ≠ 32) :
    decrypt S receiptFree.ballot.encryptedVote electionKey ≠ .ok voteData := by
  rw [decrypt_create hopens h]
  intro heq
  rw [← Except.ok.inj heq, mixedVote, Suite.length_hashBlake2bMultiple] at hlen
  exact hlen rfl

end ReceiptFreeBallot

namespace Reference

/-- The algorithms of the program, with decryption. -/
def aeadSuite : AeadSuite :=
  { votingSuite.toSuite with
    chacha20Poly1305Open := fun key nonce data =>
      match ChaCha20Poly1305.decrypt key nonce data with
      | none => .error "aead::Error"
      | some plaintext => .ok plaintext }

theorem opens_aeadSuite : aeadSuite.Opens := by
  intro key nonce plaintext ciphertext h
  cases h
  simp only [aeadSuite, ChaCha20Poly1305.decrypt_encrypt]

def privateDraw : PrivateBallot.Draw :=
  ⟨List.Vector.replicate 12 1, List.Vector.replicate 32 2, List.Vector.replicate 32 3, 2000⟩

theorem exists_ballots :
    ∃ ballot receiptFree,
      PrivateBallot.create aeadSuite.toSuite privateDraw [1] electionKey election.id keyPair =
        .ok ballot ∧
      ReceiptFreeBallot.create aeadSuite.toSuite ⟨List.Vector.replicate 32 4, privateDraw⟩ [1]
        electionKey election.id keyPair = .ok receiptFree :=
  ⟨_, _, rfl, rfl⟩

end Reference

namespace ReceiptFreeBallot
open Reference (aeadSuite privateDraw election keyPair)

theorem votes_decrypt_iff_byte :
    ∃ ballot receiptFree,
      PrivateBallot.create aeadSuite.toSuite privateDraw [1] Reference.electionKey election.id
        keyPair = .ok ballot ∧
      create aeadSuite.toSuite ⟨List.Vector.replicate 32 4, privateDraw⟩ [1]
        Reference.electionKey election.id keyPair = .ok receiptFree ∧
      decrypt aeadSuite ballot.encryptedVote Reference.electionKey = .ok [1] := by
  obtain ⟨ballot, receiptFree, hballot, hreceiptFree⟩ := Reference.exists_ballots
  exact ⟨ballot, receiptFree, hballot, hreceiptFree,
    (votes_decrypt_iff Reference.opens_aeadSuite hballot hreceiptFree).1⟩

/-- A vote of one byte, cast both ways, comes back from the one ballot and not from the
other. -/
theorem vote_lost :
    aeadSuite.Opens ∧ ∃ ballot receiptFree,
      PrivateBallot.create aeadSuite.toSuite privateDraw [1] Reference.electionKey election.id
        keyPair = .ok ballot ∧
      create aeadSuite.toSuite ⟨List.Vector.replicate 32 4, privateDraw⟩ [1]
        Reference.electionKey election.id keyPair = .ok receiptFree ∧
      decrypt aeadSuite ballot.encryptedVote Reference.electionKey = .ok [1] ∧
      decrypt aeadSuite receiptFree.ballot.encryptedVote Reference.electionKey ≠ .ok [1] := by
  obtain ⟨ballot, receiptFree, hballot, hreceiptFree⟩ := Reference.exists_ballots
  refine ⟨Reference.opens_aeadSuite, ballot, receiptFree, hballot, hreceiptFree,
    PrivateBallot.decrypt_create Reference.opens_aeadSuite hballot, ?_⟩
  exact decrypt_ne_of_length_ne Reference.opens_aeadSuite hreceiptFree (by decide)

end ReceiptFreeBallot

end VotingChain
