/-
# `VotingChain.BallotBinding` — what the signature on a ballot fixes

A voter signs the hash of a concatenation.  Of a cast ballot it is

    ballot id ‖ election id ‖ voter id ‖ nonce ‖ ciphertext ‖ commitment

and of a private ballot

    nonce ‖ ciphertext ‖ commitment ‖ election id

The ids and the nonce have a fixed width, the ciphertext and the commitment do not, and
nothing says where the one ends and the other begins.  So the hash fixes the ids, the
nonce and the two variable parts taken together (`CastBallot.signedBytes_eq_iff`,
`PrivateBallot.signedBytes_eq_iff`): a byte can be moved across the boundary under the
same signature.  The associated data is not signed at all.

A private ballot has a validity proof as well.  It is not signed; `verify` recomputes the
challenge from the ballot at hand and counts the responses.  So whoever changes the proof
has to make the challenge fit and to leave two responses, and that needs no secret
(`PrivateBallot.tampering_detected_iff`).

The hash function is asked to tell apart the two strings that are compared, and the
signature to verify for one message only.
-/
import VotingChain.Verification

namespace VotingChain

/-! ## Cast ballots -/

namespace CastBallot

/-- The string whose hash is signed. -/
def signedBytes (c : CastBallot) : Bytes :=
  [c.ballotId.asBytes, c.electionId.asBytes, c.voterId.asBytes, c.encryptedBallot.toBytes,
    c.ballotCommitment].flatten

/-- The two are the same ballot of the same voter. -/
structure SameContent (c c' : CastBallot) : Prop where
  ballotId : c.ballotId = c'.ballotId
  electionId : c.electionId = c'.electionId
  voterId : c.voterId = c'.voterId
  encryptedBallot : c.encryptedBallot = c'.encryptedBallot
  ballotCommitment : c.ballotCommitment = c'.ballotCommitment

/-- The two agree on the ids and on the nonce, and on ciphertext and commitment taken
together. -/
structure SameBytes (c c' : CastBallot) : Prop where
  ballotId : c.ballotId = c'.ballotId
  electionId : c.electionId = c'.electionId
  voterId : c.voterId = c'.voterId
  nonce : c.encryptedBallot.nonce = c'.encryptedBallot.nonce
  rest : c.encryptedBallot.ciphertext ++ c.ballotCommitment =
    c'.encryptedBallot.ciphertext ++ c'.ballotCommitment

/-- The two agree in every byte that is signed, but the boundary between ciphertext and
commitment is elsewhere, or the associated data is another. -/
def Shifted (c c' : CastBallot) : Prop :=
  SameBytes c c' ∧
    (c.encryptedBallot.ciphertext.length ≠ c'.encryptedBallot.ciphertext.length ∨
      c.encryptedBallot.associatedData ≠ c'.encryptedBallot.associatedData)

theorem signedBytes_eq_iff {c c' : CastBallot} :
    c.signedBytes = c'.signedBytes ↔ SameBytes c c' := by
  simp only [signedBytes, List.flatten_cons, List.flatten_nil, List.append_nil]
  constructor
  · intro h
    obtain ⟨hballot, h⟩ := selfDelimiting_ballotId _ _ _ _ h
    obtain ⟨helection, h⟩ := selfDelimiting_electionId _ _ _ _ h
    obtain ⟨hvoter, h⟩ := selfDelimiting_voterId _ _ _ _ h
    obtain ⟨hnonce, hrest⟩ := EncryptedData.toBytes_append_eq_iff.mp h
    exact ⟨hballot, helection, hvoter, hnonce, hrest⟩
  · intro h
    rw [h.ballotId, h.electionId, h.voterId,
      EncryptedData.toBytes_append_eq_iff.mpr ⟨h.nonce, h.rest⟩]

/-- What the signed bytes leave open is where the ciphertext ends, and the associated
data. -/
theorem SameBytes.sameContent {c c' : CastBallot} (h : SameBytes c c')
    (hlen : c.encryptedBallot.ciphertext.length = c'.encryptedBallot.ciphertext.length)
    (had : c.encryptedBallot.associatedData = c'.encryptedBallot.associatedData) :
    SameContent c c' := by
  obtain ⟨hciphertext, hcommitment⟩ := List.append_inj h.rest hlen
  refine ⟨h.ballotId, h.electionId, h.voterId, ?_, hcommitment⟩
  exact EncryptedData.ext h.nonce hciphertext had

variable {S : VotingSuite}

theorem sameBytes_of_message_eq {c c' : CastBallot}
    (hinj : Set.InjOn S.blake2b256 {c.signedBytes, c'.signedBytes})
    (h : c.message S = c'.message S) : SameBytes c c' :=
  signedBytes_eq_iff.mp (Suite.flatten_eq_of_hash_eq hinj h)

theorem message_eq_of_sameBytes {c c' : CastBallot} (h : SameBytes c c') :
    c.message S = c'.message S :=
  congrArg (fun bytes => (S.blake2b256 bytes).toList) (signedBytes_eq_iff.mpr h)

/-- **What the signature of a cast ballot binds.**  That equal messages come from the
same ballot, and that therefore no signature is valid for two different ones, holds of
two cast ballots exactly if it is not the case that all signed bytes agree and the
boundary between ciphertext and commitment, or the associated data, differs. -/
theorem message_binds_iff {c c' : CastBallot}
    (hinj : Set.InjOn S.blake2b256 {c.signedBytes, c'.signedBytes}) :
    ((c.message S = c'.message S → SameContent c c') ∧
      ∀ publicKey, S.SignsOne c.voterSignature publicKey →
        c'.voterSignature = c.voterSignature → c.verify S publicKey = .ok () →
        c'.verify S publicKey = .ok () → SameContent c c') ↔
    ¬Shifted c c' := by
  constructor
  · rintro ⟨hsame, -⟩ ⟨hbytes, hdiff⟩
    have h := hsame (message_eq_of_sameBytes hbytes)
    rcases hdiff with hlen | had
    · exact hlen (by rw [h.encryptedBallot])
    · exact had (by rw [h.encryptedBallot])
  · intro hnot
    have hsame : c.message S = c'.message S → SameContent c c' := by
      intro h
      have hbytes := sameBytes_of_message_eq hinj h
      refine hbytes.sameContent ?_ ?_
      · by_contra hlen
        exact hnot ⟨hbytes, Or.inl hlen⟩
      · by_contra had
        exact hnot ⟨hbytes, Or.inr had⟩
    refine ⟨hsame, ?_⟩
    intro publicKey hone hsig hverify hverify'
    rw [verify, hsig] at hverify'
    exact hsame (hone _ _ hverify hverify')

/-- The first byte of the commitment, moved to the end of the ciphertext. -/
def shiftByte (c : CastBallot) : CastBallot :=
  { c with
    encryptedBallot :=
      { c.encryptedBallot with
        ciphertext := c.encryptedBallot.ciphertext ++ c.ballotCommitment.take 1 }
    ballotCommitment := c.ballotCommitment.drop 1 }

theorem sameBytes_shiftByte (c : CastBallot) : SameBytes c (shiftByte c) := by
  refine ⟨rfl, rfl, rfl, rfl, ?_⟩
  rw [shiftByte, List.append_assoc, List.take_append_drop]

theorem verify_shiftByte (c : CastBallot) (publicKey : PublicKey) :
    (shiftByte c).verify S publicKey = c.verify S publicKey := by
  rw [verify, verify, ← message_eq_of_sameBytes (sameBytes_shiftByte c)]
  rfl

theorem not_sameContent_shiftByte {c : CastBallot} (h : c.ballotCommitment ≠ []) :
    ¬SameContent c (shiftByte c) := by
  intro hsame
  have hlen : c.ballotCommitment.length = c.ballotCommitment.length - 1 :=
    (congrArg List.length hsame.ballotCommitment).trans List.length_drop
  have hpos := List.length_pos_of_ne_nil h
  omega

end CastBallot

/-! ## Private ballots -/

namespace PrivateBallot
variable {S : Suite}

/-- The string whose hash is signed. -/
def signedBytes (b : PrivateBallot) : Bytes :=
  [b.encryptedVote.toBytes, b.commitment, b.electionId.asBytes].flatten

/-- The hash that is signed. -/
def fingerprint (S : Suite) (b : PrivateBallot) : Bytes :=
  computeFingerprint S b.encryptedVote b.commitment b.electionId

/-- The challenge that `verify` expects. -/
def expectedChallenge (S : Suite) (b : PrivateBallot) : Bytes :=
  BallotValidityProof.computeChallenge S b.encryptedVote b.commitment
    b.validityProof.proofCommitment b.electionId

theorem signedBytes_eq_iff {b b' : PrivateBallot} : b.signedBytes = b'.signedBytes ↔
    b.encryptedVote.nonce = b'.encryptedVote.nonce ∧
      b.encryptedVote.ciphertext ++ b.commitment = b'.encryptedVote.ciphertext ++ b'.commitment ∧
      b.electionId = b'.electionId := by
  simp only [signedBytes, List.flatten_cons, List.flatten_nil, List.append_nil]
  constructor
  · intro h
    obtain ⟨hnonce, hrest⟩ := EncryptedData.toBytes_append_eq_iff.mp h
    -- the election id is at the end, so it is cut off from there
    rw [← List.append_assoc, ← List.append_assoc] at hrest
    have hlen : b.electionId.asBytes.length = b'.electionId.asBytes.length :=
      b.electionId.bytes.toList_length.trans b'.electionId.bytes.toList_length.symm
    obtain ⟨hrest, helection⟩ := List.append_inj' hrest hlen
    exact ⟨hnonce, hrest, selfDelimiting_electionId.injective helection⟩
  · rintro ⟨hnonce, hrest, helection⟩
    rw [EncryptedData.toBytes_append_eq_iff, ← List.append_assoc, ← List.append_assoc, hrest,
      helection]
    exact ⟨hnonce, rfl⟩

/-- What `create` returns is signed by the voter's key; its challenge is the expected
one, and there are two responses, which are hashes. -/
theorem of_create {draw : Draw} {voteData : Bytes} {electionKey : EncryptionKey}
    {electionId : ElectionId} {voterKey : KeyPair} {b : PrivateBallot}
    (h : create S draw voteData electionKey electionId voterKey = .ok b) :
    b.voterSignature = S.ed25519Sign voterKey.privateKey (b.fingerprint S) ∧
      b.validityProof.challenge = b.expectedChallenge S ∧
      b.validityProof.responses.map List.length = [32, 32] := by
  simp only [create, bind_eq_ok, BallotValidityProof.generate, Suite.sign, Except.ok.injEq,
    exists_eq_left'] at h
  obtain ⟨encryptedVote, -, hpure⟩ := h
  cases hpure
  refine ⟨rfl, rfl, ?_⟩
  rw [List.map_cons, List.map_singleton, Suite.length_hashBlake2bMultiple,
    Suite.length_hashBlake2bMultiple]

theorem verify_eq_ok {b : PrivateBallot} {publicKey : PublicKey} :
    b.verify S publicKey = .ok () ↔
      b.validityProof.challenge = b.expectedChallenge S ∧ 2 ≤ b.validityProof.responses.length ∧
        S.verify (b.fingerprint S) b.voterSignature publicKey = .ok () := by
  simp only [verify, BallotValidityProof.verify, bind_eq_ok, ensure_eq_ok, constantTimeEq_iff,
    decide_eq_true_eq, exists_and_left, exists_const, and_assoc]
  rfl

theorem verify_cases (b : PrivateBallot) (publicKey : PublicKey) :
    b.verify S publicKey = .ok () ∨ ∃ e, b.verify S publicKey = fail e := by
  rw [verify, BallotValidityProof.verify]
  rcases ensure_cases (constantTimeEq b.validityProof.challenge _) _ with h | h
  · rcases ensure_cases (decide (2 ≤ b.validityProof.responses.length)) _ with h' | h'
    · rw [h, h']
      exact S.verify_cases _ _ _
    · rw [h, h']
      exact Or.inr ⟨_, rfl⟩
  · rw [h]
    exact Or.inr ⟨_, rfl⟩

/-- Something of the ballot or of its proof was changed. -/
def Tampered (b b' : PrivateBallot) : Prop :=
  b'.encryptedVote ≠ b.encryptedVote ∨ b'.commitment ≠ b.commitment ∨
    b'.electionId ≠ b.electionId ∨
    b'.validityProof.challenge ≠ b.validityProof.challenge ∨
    b'.validityProof.responses ≠ b.validityProof.responses ∨
    b'.validityProof.proofCommitment ≠ b.validityProof.proofCommitment

variable (S) in
/-- The signed bytes are the same, the challenge is the hash of what is there now, and
there are two responses. -/
structure Undetected (b b' : PrivateBallot) : Prop where
  nonce : b.encryptedVote.nonce = b'.encryptedVote.nonce
  rest : b.encryptedVote.ciphertext ++ b.commitment = b'.encryptedVote.ciphertext ++ b'.commitment
  electionId : b.electionId = b'.electionId
  challenge : b'.validityProof.challenge = b'.expectedChallenge S
  responses : 2 ≤ b'.validityProof.responses.length

/-- A ballot under the signature of another verifies exactly if the changes go
undetected. -/
theorem verify_iff_undetected {draw : Draw} {voteData : Bytes} {electionKey : EncryptionKey}
    {electionId : ElectionId} {voterKey : KeyPair} {b b' : PrivateBallot}
    (hcreate : create S draw voteData electionKey electionId voterKey = .ok b)
    (hown : S.Accepts voterKey voterKey.publicKey)
    (hsig : b'.voterSignature = b.voterSignature)
    (hone : S.SignsOne b.voterSignature voterKey.publicKey)
    (hinj : Set.InjOn S.blake2b256 {b.signedBytes, b'.signedBytes}) :
    b'.verify S voterKey.publicKey = .ok () ↔ Undetected S b b' := by
  have hverify : S.verify (b.fingerprint S) b.voterSignature voterKey.publicKey = .ok () := by
    rw [(of_create hcreate).1]
    exact hown _
  rw [verify_eq_ok, hsig]
  constructor
  · rintro ⟨hchallenge, hresponses, hverify'⟩
    have hbytes := Suite.flatten_eq_of_hash_eq hinj (hone _ _ hverify hverify')
    obtain ⟨hnonce, hrest, helection⟩ := signedBytes_eq_iff.mp hbytes
    exact ⟨hnonce, hrest, helection, hchallenge, hresponses⟩
  · intro h
    have hbytes := signedBytes_eq_iff.mpr ⟨h.nonce, h.rest, h.electionId⟩
    have hprint : b.fingerprint S = b'.fingerprint S :=
      congrArg (fun bytes => (S.blake2b256 bytes).toList) hbytes
    rw [← hprint]
    exact ⟨h.challenge, h.responses, hverify⟩

/-- **Which changes to a private ballot are found.**  A change under the voter's
signature is answered with an error exactly if it is not one that leaves the signed bytes,
a challenge computed from the changed ballot, and two responses. -/
theorem tampering_detected_iff {draw : Draw} {voteData : Bytes} {electionKey : EncryptionKey}
    {electionId : ElectionId} {voterKey : KeyPair} {b b' : PrivateBallot}
    (hcreate : create S draw voteData electionKey electionId voterKey = .ok b)
    (hown : S.Accepts voterKey voterKey.publicKey)
    (hsig : b'.voterSignature = b.voterSignature)
    (hone : S.SignsOne b.voterSignature voterKey.publicKey)
    (hinj : Set.InjOn S.blake2b256 {b.signedBytes, b'.signedBytes}) :
    (Tampered b b' → ∃ e, b'.verify S voterKey.publicKey = fail e) ↔
      ¬(Tampered b b' ∧ Undetected S b b') := by
  have hiff := verify_iff_undetected hcreate hown hsig hone hinj
  constructor
  · rintro hdetected ⟨htampered, hundetected⟩
    obtain ⟨e, he⟩ := hdetected htampered
    rw [hiff.mpr hundetected] at he
    cases he
  · intro hnot htampered
    refine (verify_cases b' voterKey.publicKey).resolve_left ?_
    intro hok
    exact hnot ⟨htampered, hiff.mp hok⟩

end PrivateBallot

/-! ## Two ballots under one signature -/

namespace CastBallot
open Reference (votingSuite castBallot keyPair)

/-- The same ballot at two times. -/
theorem message_binds_iff_castAt :
    castBallot.message votingSuite = { castBallot with castAt := 3000 }.message votingSuite ∧
      SameContent castBallot { castBallot with castAt := 3000 } := by
  have hbytes : SameBytes castBallot { castBallot with castAt := 3000 } :=
    ⟨rfl, rfl, rfl, rfl, rfl⟩
  have hinj : Set.InjOn votingSuite.blake2b256
      {castBallot.signedBytes, { castBallot with castAt := 3000 }.signedBytes} :=
    Suite.injOn_pair_of_eq (signedBytes_eq_iff.mpr hbytes)
  have hmessage := message_eq_of_sameBytes (S := votingSuite) hbytes
  refine ⟨hmessage, ((message_binds_iff hinj).mpr ?_).1 hmessage⟩
  rintro ⟨-, hlen | had⟩
  · exact hlen rfl
  · exact had rfl

/-- A byte of the commitment becomes one of the ciphertext; the signature stays valid. -/
theorem shifted_castBallot_verifies :
    Set.InjOn votingSuite.blake2b256 {castBallot.signedBytes, (shiftByte castBallot).signedBytes} ∧
    castBallot.message votingSuite = (shiftByte castBallot).message votingSuite ∧
    castBallot.verify votingSuite keyPair.publicKey = .ok () ∧
    (shiftByte castBallot).verify votingSuite keyPair.publicKey = .ok () ∧
    ¬SameContent castBallot (shiftByte castBallot) := by
  have hbytes := sameBytes_shiftByte castBallot
  have hverify : castBallot.verify votingSuite keyPair.publicKey = .ok () :=
    verify_create Reference.accepts_keyPair Reference.create_castBallot
  refine ⟨Suite.injOn_pair_of_eq (signedBytes_eq_iff.mpr hbytes),
    message_eq_of_sameBytes hbytes, hverify, ?_, ?_⟩
  · rw [verify_shiftByte]
    exact hverify
  · refine not_sameContent_shiftByte (List.ne_nil_of_length_pos ?_)
    have hlen : castBallot.ballotCommitment.length = 32 := Suite.length_hashBlake2bMultiple _
    omega

end CastBallot

namespace Reference

/-- The private ballot that is made of the cast ballot. -/
def privateBallot : PrivateBallot :=
  let draw := (verifierDraw keyPair).ballot
  let voteData := castBallot.encryptedBallot.toBytes
  let encryptedVote := EncryptedData.new draw.nonce
    (ChaCha20Poly1305.encrypt (List.Vector.replicate 32 12) draw.nonce voteData)
  let commitment := (Commitment.new votingSuite.toSuite voteData draw.randomness.toList).value
  let proofCommitment := votingSuite.hashBlake2bMultiple [voteData, draw.proofRandomness.toList]
  let challenge := BallotValidityProof.computeChallenge votingSuite.toSuite encryptedVote commitment
    proofCommitment election.id
  { encryptedVote
    commitment
    validityProof :=
      { challenge
        responses := [votingSuite.hashBlake2bMultiple [voteData, challenge],
          votingSuite.hashBlake2bMultiple [draw.proofRandomness.toList, challenge]]
        proofCommitment
        metadata := { proofVersion := 1, timestamp := draw.now, securityParameter := 128 } }
    voterSignature := votingSuite.ed25519Sign keyPair.privateKey
      (PrivateBallot.computeFingerprint votingSuite.toSuite encryptedVote commitment election.id)
    electionId := election.id }

theorem create_privateBallot :
    PrivateBallot.create votingSuite.toSuite (verifierDraw keyPair).ballot
      castBallot.encryptedBallot.toBytes ⟨List.Vector.replicate 32 12⟩ election.id keyPair =
      .ok privateBallot :=
  rfl

theorem fingerprint_privateBallot :
    privateBallot.fingerprint votingSuite.toSuite = fingerprint := by
  decide +kernel

theorem signature_privateBallot : privateBallot.voterSignature = signature fingerprint := by
  rw [(PrivateBallot.of_create create_privateBallot).1, fingerprint_privateBallot, sign_keyPair]

theorem signsOne_privateBallot :
    votingSuite.SignsOne privateBallot.voterSignature keyPair.publicKey := by
  have hone : ∀ message, votingSuite.verify message privateBallot.voterSignature
      keyPair.publicKey = .ok () → message = fingerprint := by
    intro message h
    rw [signature_privateBallot] at h
    rcases verify_votingSuite.mp h with ⟨-, hsig⟩ | ⟨hkey, -⟩
    · by_contra hne
      revert hsig
      rw [signature.eq_def message]
      split_ifs <;> decide
    · exact absurd hkey (by decide)
  intro message message' h h'
  rw [hone message h, hone message' h']

end Reference

namespace PrivateBallot
open Reference (votingSuite privateBallot keyPair)

/-- The ballot with another validity proof. -/
def withProof (b : PrivateBallot) (proof : BallotValidityProof) : PrivateBallot :=
  { b with validityProof := proof }

theorem voterSignature_withProof (b : PrivateBallot) (proof : BallotValidityProof) :
    (b.withProof proof).voterSignature = b.voterSignature :=
  rfl

theorem injOn_withProof {f : Bytes → Hash} (b : PrivateBallot) (proof : BallotValidityProof) :
    Set.InjOn f {b.signedBytes, (b.withProof proof).signedBytes} :=
  Suite.injOn_pair_of_eq rfl

theorem not_undetected_of_challenge_nil {S : Suite} (b : PrivateBallot)
    {proof : BallotValidityProof} (h : proof.challenge = []) :
    ¬Undetected S b (b.withProof proof) := by
  intro hundetected
  have hnil : (b.withProof proof).expectedChallenge S = [] := hundetected.challenge.symm.trans h
  have hlen : ((b.withProof proof).expectedChallenge S).length = 32 :=
    Suite.length_hashBlake2bMultiple _
  rw [hnil] at hlen
  cases hlen

/-- The responses may be anything, if there are two. -/
theorem undetected_withProof {S : Suite} {b : PrivateBallot}
    (h : b.validityProof.challenge = b.expectedChallenge S) {responses : List Bytes}
    (htwo : 2 ≤ responses.length) :
    Undetected S b (b.withProof { b.validityProof with responses := responses }) :=
  ⟨rfl, rfl, rfl, h, htwo⟩

/-- Without its challenge the ballot is not accepted. -/
theorem tampering_detected_iff_challenge :
    Tampered privateBallot
        (privateBallot.withProof { privateBallot.validityProof with challenge := [] }) ∧
      ∃ e, (privateBallot.withProof { privateBallot.validityProof with challenge := [] }).verify
        votingSuite.toSuite keyPair.publicKey = fail e := by
  have hlen : privateBallot.validityProof.challenge.length = 32 :=
    Suite.length_hashBlake2bMultiple _
  have htampered : Tampered privateBallot
      (privateBallot.withProof { privateBallot.validityProof with challenge := [] }) := by
    refine Or.inr (Or.inr (Or.inr (Or.inl ?_)))
    intro h
    rw [← h] at hlen
    cases hlen
  refine ⟨htampered, (tampering_detected_iff Reference.create_privateBallot
    Reference.accepts_keyPair (voterSignature_withProof _ _) Reference.signsOne_privateBallot
    (injOn_withProof _ _)).mpr ?_ htampered⟩
  rintro ⟨-, h⟩
  exact not_undetected_of_challenge_nil privateBallot rfl h

/-- The first byte of the commitment, moved to the end of the encrypted vote. -/
def shiftByte (b : PrivateBallot) : PrivateBallot :=
  { b with
    encryptedVote :=
      { b.encryptedVote with ciphertext := b.encryptedVote.ciphertext ++ b.commitment.take 1 }
    commitment := b.commitment.drop 1 }

theorem voterSignature_shiftByte (b : PrivateBallot) :
    (shiftByte b).voterSignature = b.voterSignature :=
  rfl

theorem rest_shiftByte (b : PrivateBallot) :
    (shiftByte b).encryptedVote.ciphertext ++ (shiftByte b).commitment =
      b.encryptedVote.ciphertext ++ b.commitment := by
  rw [shiftByte, List.append_assoc, List.take_append_drop]

theorem expectedChallenge_shiftByte {S : Suite} (b : PrivateBallot) :
    (shiftByte b).expectedChallenge S = b.expectedChallenge S := by
  have hbytes : (shiftByte b).encryptedVote.toBytes ++ ((shiftByte b).commitment ++
        (b.validityProof.proofCommitment ++ b.electionId.asBytes)) =
      b.encryptedVote.toBytes ++ (b.commitment ++
        (b.validityProof.proofCommitment ++ b.electionId.asBytes)) := by
    refine EncryptedData.toBytes_append_eq_iff.mpr ⟨rfl, ?_⟩
    rw [← List.append_assoc, rest_shiftByte, List.append_assoc]
  refine Suite.hashBlake2bMultiple_congr ?_
  simp only [List.flatten_cons, List.flatten_nil, List.append_nil]
  exact hbytes

theorem undetected_shiftByte {S : Suite} {b : PrivateBallot}
    (h : b.validityProof.challenge = b.expectedChallenge S)
    (htwo : 2 ≤ b.validityProof.responses.length) : Undetected S b (shiftByte b) :=
  ⟨rfl, (rest_shiftByte b).symm, rfl, h.trans (expectedChallenge_shiftByte b).symm, htwo⟩

/-- With the boundary moved it is, and with empty responses too. -/
theorem tampered_ballots_verify :
    PrivateBallot.create votingSuite.toSuite (Reference.verifierDraw keyPair).ballot
      Reference.castBallot.encryptedBallot.toBytes ⟨List.Vector.replicate 32 12⟩
      Reference.election.id keyPair = .ok privateBallot ∧
    votingSuite.Accepts keyPair keyPair.publicKey ∧
    votingSuite.SignsOne privateBallot.voterSignature keyPair.publicKey ∧
    ∀ b' ∈ [shiftByte privateBallot,
        privateBallot.withProof { privateBallot.validityProof with responses := [[], []] }],
      b'.voterSignature = privateBallot.voterSignature ∧
      Set.InjOn votingSuite.blake2b256 {privateBallot.signedBytes, b'.signedBytes} ∧
      Tampered privateBallot b' ∧ b'.verify votingSuite.toSuite keyPair.publicKey = .ok () := by
  obtain ⟨-, hchallenge, hlens⟩ := of_create Reference.create_privateBallot
  have hverify : ∀ b' : PrivateBallot, b'.voterSignature = privateBallot.voterSignature →
      Undetected votingSuite.toSuite privateBallot b' →
      Set.InjOn votingSuite.blake2b256 {privateBallot.signedBytes, b'.signedBytes} ∧
        b'.verify votingSuite.toSuite keyPair.publicKey = .ok () := by
    intro b' hsig h
    have hinj : Set.InjOn votingSuite.blake2b256 {privateBallot.signedBytes, b'.signedBytes} :=
      Suite.injOn_pair_of_eq (signedBytes_eq_iff.mpr ⟨h.nonce, h.rest, h.electionId⟩)
    exact ⟨hinj, (verify_iff_undetected Reference.create_privateBallot Reference.accepts_keyPair
      hsig Reference.signsOne_privateBallot hinj).mpr h⟩
  refine ⟨Reference.create_privateBallot, Reference.accepts_keyPair,
    Reference.signsOne_privateBallot, ?_⟩
  intro b' hb'
  rcases List.mem_cons.mp hb' with rfl | hb'
  · have htwo : 2 ≤ privateBallot.validityProof.responses.length := by
      rw [← List.length_map List.length, hlens]
      rfl
    have hsig := voterSignature_shiftByte privateBallot
    obtain ⟨hinj, hok⟩ := hverify _ hsig (undetected_shiftByte hchallenge htwo)
    refine ⟨hsig, hinj, Or.inr (Or.inl ?_), hok⟩
    intro h
    have hcommitment : privateBallot.commitment.length = 32 := Suite.length_hashBlake2bMultiple _
    have hdrop := congrArg List.length h
    rw [shiftByte, List.length_drop, hcommitment] at hdrop
    cases hdrop
  · obtain rfl := List.mem_singleton.mp hb'
    have hsig := voterSignature_withProof privateBallot
      { privateBallot.validityProof with responses := [[], []] }
    obtain ⟨hinj, hok⟩ := hverify _ hsig (undetected_withProof hchallenge le_rfl)
    refine ⟨hsig, hinj, Or.inr (Or.inr (Or.inr (Or.inr (Or.inl ?_)))), hok⟩
    intro h
    have hzero : [0, 0] = privateBallot.validityProof.responses.map List.length :=
      congrArg (List.map List.length) h
    rw [hlens] at hzero
    cases hzero

end PrivateBallot

end VotingChain
