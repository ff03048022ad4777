/-
# `VotingChain.Crypto` — signatures, encryption and private ballots

The model of `crypto/src/signatures.rs`, `encryption.rs`, the commitments of
`zkp/mod.rs` and `zkp/ballot_privacy.rs`.  The algorithms come from other crates and
are the fields of a `Suite`; what this crate makes of them is written out.

Nothing here draws random numbers or looks at the clock: what the program draws, a
nonce, a blinding factor, a key, is an argument, and so is the time.

A private ballot passes the verifier of its election exactly under the keys that
verify the signature of the one who made it (`BallotVerifier.verifyBallot_create`).  The
validity proof has no part in that: `BallotValidityProof.verify` checks that the
challenge was computed from the same data and that there are two responses, not what
they are.
-/
import VotingChain.Common

namespace VotingChain

/-- The algorithms the `crypto` crate is built on. -/
structure Suite where
  blake2b256 : Bytes → Hash
  /-- `SigningKey::from_bytes(private).sign(message)`. -/
  ed25519Sign : ByteArr 32 → Bytes → Signature
  /-- `VerifyingKey::from_bytes`, which may refuse the bytes, with a text. -/
  verifyingKey : PublicKey → Except String Unit
  /-- `verifying_key.verify(message, signature)`. -/
  ed25519Verify : PublicKey → Bytes → Signature → Bool
  /-- `ChaCha20Poly1305::encrypt` under a key and a nonce, which may fail, with a text. -/
  chacha20Poly1305 : ByteArr 32 → ByteArr 12 → Bytes → Except String Bytes

namespace Suite
variable (S : Suite)

/-- Hash multiple pieces of data using Blake2b-256. -/
def hashBlake2bMultiple (pieces : List Bytes) : Bytes := (S.blake2b256 pieces.flatten).toList

/-- Sign a message with a keypair. -/
def sign (message : Bytes) (keypair : KeyPair) : Result Signature :=
  .ok (S.ed25519Sign keypair.privateKey message)

/-- Verify a signature. -/
def verify (message : Bytes) (signature : Signature) (publicKey : PublicKey) : Result Unit := do
  match S.verifyingKey publicKey with
  | .error e => fail (.cryptoError ("Invalid public key: " ++ e))
  | .ok _ => ensure (S.ed25519Verify publicKey message signature) .signatureVerificationFailed

/-- Every signature of `signer` verifies under `publicKey`: so it should be when that is
the signer's own. -/
def Accepts (signer : KeyPair) (publicKey : PublicKey) : Prop :=
  ∀ message, S.verify message (S.ed25519Sign signer.privateKey message) publicKey = .ok ()

/-- No signature of `signer` verifies under `publicKey`: so it should be when that is
another's. -/
def Rejects (signer : KeyPair) (publicKey : PublicKey) : Prop :=
  ∀ message, S.verify message (S.ed25519Sign signer.privateKey message) publicKey ≠ .ok ()

/-- The signature verifies under the key for one message only. -/
def SignsOne (signature : Signature) (publicKey : PublicKey) : Prop :=
  ∀ message message', S.verify message signature publicKey = .ok () →
    S.verify message' signature publicKey = .ok () → message = message'

theorem verify_cases (message : Bytes) (signature : Signature) (publicKey : PublicKey) :
    S.verify message signature publicKey = .ok () ∨
      ∃ e, S.verify message signature publicKey = fail e := by
  rw [verify]
  cases S.verifyingKey publicKey with
  | error e => exact Or.inr ⟨_, rfl⟩
  | ok u => exact (ensure_cases _ _).imp_right fun h => ⟨_, h⟩

variable {S}

/-- Pieces with the same hash make up the same string, if the two strings are told
apart. -/
theorem flatten_eq_of_hash_eq {pieces pieces' : List Bytes}
    (hinj : Set.InjOn S.blake2b256 {pieces.flatten, pieces'.flatten})
    (h : S.hashBlake2bMultiple pieces = S.hashBlake2bMultiple pieces') :
    pieces.flatten = pieces'.flatten :=
  hinj (Set.mem_insert _ _) (Set.mem_insert_of_mem _ rfl) (List.Vector.eq _ _ h)

theorem hashBlake2bMultiple_congr {pieces pieces' : List Bytes}
    (h : pieces.flatten = pieces'.flatten) :
    S.hashBlake2bMultiple pieces = S.hashBlake2bMultiple pieces' := by
  rw [hashBlake2bMultiple, hashBlake2bMultiple, h]

theorem length_hashBlake2bMultiple (pieces : List Bytes) :
    (S.hashBlake2bMultiple pieces).length = 32 :=
  List.Vector.toList_length _

theorem injOn_pair_of_eq {f : Bytes → Hash} {x y : Bytes} (h : x = y) : Set.InjOn f {x, y} := by
  rw [h, Set.pair_eq_singleton]
  exact Set.injOn_singleton f y

end Suite

/-! ## Encryption -/

/-- Encrypted data container with authentication. -/
@[ext] structure EncryptedData where
  nonce : ByteArr 12
  ciphertext : Bytes
  associatedData : Option Bytes
  deriving DecidableEq

namespace EncryptedData

/-- Create new encrypted data container. -/
def new (nonce : ByteArr 12) (ciphertext : Bytes) : EncryptedData := ⟨nonce, ciphertext, none⟩

/-- Export to bytes (nonce || ciphertext). -/
def toBytes (data : EncryptedData) : Bytes := data.nonce.toList ++ data.ciphertext

theorem toBytes_append_eq_iff {data data' : EncryptedData} {rest rest' : Bytes} :
    data.toBytes ++ rest = data'.toBytes ++ rest' ↔
      data.nonce = data'.nonce ∧ data.ciphertext ++ rest = data'.ciphertext ++ rest' := by
  rw [toBytes, toBytes, List.append_assoc, List.append_assoc]
  constructor
  · intro h
    exact Codec.selfDelimiting_vector 12 _ _ _ _ h
  · rintro ⟨hnonce, hrest⟩
    rw [hnonce, hrest]

end EncryptedData

/-- Encryption key for ChaCha20-Poly1305. -/
structure EncryptionKey where
  key : ByteArr 32
  deriving DecidableEq

/-- Encrypt plaintext; `nonce` is what is drawn. -/
def encrypt (S : Suite) (nonce : ByteArr 12) (plaintext : Bytes) (key : EncryptionKey) :
    Result EncryptedData :=
  match S.chacha20Poly1305 key.key nonce plaintext with
  | .error e => fail (.cryptoError ("Encryption failed: " ++ e))
  | .ok ciphertext => .ok (EncryptedData.new nonce ciphertext)

/-! ## Commitments -/

/-- A commitment: the hash of a value and of a blinding factor. -/
structure Commitment where
  value : Bytes
  randomness : Option Bytes
  deriving DecidableEq

/-- Create a new commitment to a value. -/
def Commitment.new (S : Suite) (value randomness : Bytes) : Commitment where
  value := S.hashBlake2bMultiple [value, randomness]
  randomness := some randomness

/-- Constant-time comparison of byte strings. -/
def constantTimeEq (a b : Bytes) : Bool :=
  if a.length ≠ b.length then false
  else (a.zip b).foldl (fun result p => result ||| (p.1 ^^^ p.2)) 0 == (0 : UInt8)

theorem foldl_or_xor_eq_zero : ∀ {a b : Bytes} {acc : UInt8}, a.length = b.length →
    ((a.zip b).foldl (fun result p => result ||| (p.1 ^^^ p.2)) acc = 0 ↔ acc = 0 ∧ a = b)
  | [], [], acc, _ => by simp
  | x :: a, y :: b, acc, hlen => by
      rw [List.zip_cons_cons, List.foldl_cons, foldl_or_xor_eq_zero (Nat.succ.inj hlen),
        UInt8.or_eq_zero_iff, UInt8.xor_eq_zero_iff, List.cons.injEq, and_assoc]

theorem constantTimeEq_iff {a b : Bytes} : constantTimeEq a b = true ↔ a = b := by
  rw [constantTimeEq]
  split
  · next hlen => exact iff_of_false Bool.false_ne_true fun h => hlen (congrArg List.length h)
  · next hlen => rw [beq_iff_eq, foldl_or_xor_eq_zero (not_not.mp hlen), and_iff_right rfl]

/-! ## Private ballots -/

/-- Metadata about a proof. -/
structure ProofMetadata where
  proofVersion : UInt32
  timestamp : Timestamp
  securityParameter : Nat
  deriving DecidableEq

/-- Zero-knowledge proof that a ballot is valid. -/
structure BallotValidityProof where
  challenge : Bytes
  responses : List Bytes
  proofCommitment : Bytes
  metadata : ProofMetadata
  deriving DecidableEq

namespace BallotValidityProof
variable (S : Suite)

/-- Compute Fiat-Shamir challenge. -/
def computeChallenge (encryptedVote : EncryptedData) (commitment proofCommitment : Bytes)
    (electionId : ElectionId) : Bytes :=
  S.hashBlake2bMultiple
    [encryptedVote.toBytes, commitment, proofCommitment, electionId.asBytes]

/-- Generate a validity proof for a ballot; `randomness` is what is drawn, `now` what
the clock says. -/
def generate (randomness : ByteArr 32) (now : Timestamp) (voteData : Bytes)
    (encryptedVote : EncryptedData) (commitment : Commitment) (electionId : ElectionId) :
    Result BallotValidityProof :=
  let proofCommitment := S.hashBlake2bMultiple [voteData, randomness.toList]
  let challenge := computeChallenge S encryptedVote commitment.value proofCommitment electionId
  let response1 := S.hashBlake2bMultiple [voteData, challenge]
  let response2 := S.hashBlake2bMultiple [randomness.toList, challenge]
  .ok
    { challenge
      responses := [response1, response2]
      proofCommitment
      metadata := { proofVersion := 1, timestamp := now, securityParameter := 128 } }

/-- Verify the validity proof. -/
def verify (proof : BallotValidityProof) (encryptedVote : EncryptedData) (commitment : Bytes)
    (electionId : ElectionId) : Result Unit := do
  let computedChallenge :=
    computeChallenge S encryptedVote commitment proof.proofCommitment electionId
  ensure (constantTimeEq proof.challenge computedChallenge)
    (.cryptoError "Ballot validity proof verification failed: challenge mismatch")
  ensure (decide (2 ≤ proof.responses.length))
    (.cryptoError "Invalid proof: insufficient responses")

end BallotValidityProof

/-- A ballot that can be cast without revealing the vote. -/
structure PrivateBallot where
  encryptedVote : EncryptedData
  commitment : Bytes
  validityProof : BallotValidityProof
  voterSignature : Signature
  electionId : ElectionId
  deriving DecidableEq

/-- What `PrivateBallot::create` draws, and the time at which it does. -/
structure PrivateBallot.Draw where
  nonce : ByteArr 12
  randomness : ByteArr 32
  proofRandomness : ByteArr 32
  now : Timestamp

namespace PrivateBallot
variable (S : Suite)

/-- Compute a unique fingerprint for this ballot. -/
def computeFingerprint (encryptedVote : EncryptedData) (commitment : Bytes)
    (electionId : ElectionId) : Bytes :=
  S.hashBlake2bMultiple [encryptedVote.toBytes, commitment, electionId.asBytes]

/-- Create a new private ballot. -/
def create (draw : Draw) (voteData : Bytes) (electionKey : EncryptionKey)
    (electionId : ElectionId) (voterKey : KeyPair) : Result PrivateBallot := do
  let encryptedVote ← encrypt S draw.nonce voteData electionKey
  let commitment := Commitment.new S voteData draw.randomness.toList
  let validityProof ← BallotValidityProof.generate S draw.proofRandomness draw.now voteData
    encryptedVote commitment electionId
  let ballotFingerprint := computeFingerprint S encryptedVote commitment.value electionId
  let voterSignature ← S.sign ballotFingerprint voterKey
  return {
    encryptedVote
    commitment := commitment.value
    validityProof
    voterSignature
    electionId }

/-- Verify the ballot is valid without decrypting. -/
def verify (ballot : PrivateBallot) (voterPublicKey : PublicKey) : Result Unit := do
  ballot.validityProof.verify S ballot.encryptedVote ballot.commitment ballot.electionId
  let ballotFingerprint :=
    computeFingerprint S ballot.encryptedVote ballot.commitment ballot.electionId
  S.verify ballotFingerprint ballot.voterSignature voterPublicKey

end PrivateBallot

/-- Ballot verifier for checking ballot validity. -/
structure BallotVerifier where
  electionKey : PublicKey
  validCandidates : List String
  electionId : ElectionId
  deriving DecidableEq

namespace BallotVerifier

/-- Create a new ballot verifier. -/
def new (electionKey : PublicKey) (validCandidates : List String) (electionId : ElectionId) :
    BallotVerifier :=
  ⟨electionKey, validCandidates, electionId⟩

/-- Verify a ballot without decrypting it. -/
def verifyBallot (S : Suite) (verifier : BallotVerifier) (ballot : PrivateBallot)
    (voterKey : PublicKey) : Result Unit := do
  ensure (decide (ballot.electionId = verifier.electionId)) (.invalidBallot "Election ID mismatch")
  ballot.verify S voterKey

end BallotVerifier

/-! ## Making and checking -/

section
variable {S : Suite}

theorem PrivateBallot.create_eq_ok (electionId : ElectionId) (voterKey : KeyPair) {draw : Draw}
    {voteData : Bytes} {electionKey : EncryptionKey} {ciphertext : Bytes}
    (hencrypt : S.chacha20Poly1305 electionKey.key draw.nonce voteData = .ok ciphertext) :
    ∃ ballot, create S draw voteData electionKey electionId voterKey = .ok ballot ∧
      ballot.electionId = electionId ∧
      ballot.validityProof.verify S ballot.encryptedVote ballot.commitment electionId = .ok () ∧
      ballot.voterSignature = S.ed25519Sign voterKey.privateKey
        (computeFingerprint S ballot.encryptedVote ballot.commitment electionId) := by
  simp only [create, encrypt, hencrypt, BallotValidityProof.generate, Suite.sign, bind, Except.bind,
    pure, Except.pure]
  refine ⟨_, rfl, rfl, ?_, rfl⟩
  simp [BallotValidityProof.verify, constantTimeEq_iff, ensure, bind, Except.bind]

/-- **Whose ballot verifies under which key.**  The verifier of an election accepts a
private ballot made for it exactly under the keys that verify its signature. -/
theorem BallotVerifier.verifyBallot_create (verifier : BallotVerifier) (voterKey : KeyPair)
    {draw : PrivateBallot.Draw} {voteData : Bytes} {electionKey : EncryptionKey}
    {electionId : ElectionId} {ciphertext : Bytes}
    (hencrypt : S.chacha20Poly1305 electionKey.key draw.nonce voteData = .ok ciphertext)
    (hid : verifier.electionId = electionId) :
    ∃ ballot message,
      PrivateBallot.create S draw voteData electionKey electionId voterKey = .ok ballot ∧
      ∀ publicKey, verifier.verifyBallot S ballot publicKey =
        S.verify message (S.ed25519Sign voterKey.privateKey message) publicKey := by
  obtain ⟨ballot, hcreate, heid, hproof, hsig⟩ :=
    PrivateBallot.create_eq_ok electionId voterKey hencrypt
  refine ⟨ballot, PrivateBallot.computeFingerprint S ballot.encryptedVote ballot.commitment
    electionId, hcreate, fun publicKey => ?_⟩
  rw [verifyBallot, PrivateBallot.verify, heid, hid, hproof, hsig]
  simp only [decide_true, ensure, if_true, bind, Except.bind]

end

end VotingChain
