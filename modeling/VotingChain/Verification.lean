/-
# `VotingChain.Verification` — checking a submission

The model of `VoteVerifier` in `voting/src/verification.rs`.  A submission is checked
twice over.  First its two signatures, under the voter's public key.  Then the ballot in
it is turned into a private ballot, and the `BallotVerifier` of the election checks that
one, under the voter's public key again.

The private ballot is signed on the way, by a key pair that `verify_submission` draws on
the spot.  So an honest submission passes the first check and, unless the drawn key is
the voter's, fails the second (`honest_submission_valid_iff`).
-/
import VotingChain.VoteCasting

namespace VotingChain

/-! ## The verifier -/

structure VerificationResult where
  voterId : VoterId
  isValid : Bool
  errors : List String
  warnings : List String
  verifiedAt : Timestamp
  deriving DecidableEq

namespace VerificationResult

def new (now : Timestamp) (voterId : VoterId) : VerificationResult where
  voterId := voterId
  isValid := false
  errors := []
  warnings := []
  verifiedAt := now

def markValid (result : VerificationResult) : VerificationResult :=
  if result.errors.isEmpty then { result with isValid := true } else result

def addError (error : String) (result : VerificationResult) : VerificationResult :=
  { result with errors := result.errors ++ [error], isValid := false }

def addWarning (warning : String) (result : VerificationResult) : VerificationResult :=
  { result with warnings := result.warnings ++ [warning] }

end VerificationResult

structure VoteVerifier where
  election : Election
  ballotVerifier : Option BallotVerifier
  deriving DecidableEq

/-- What `verify_submission` draws, and the times at which it looks at the clock. -/
structure VoteVerifier.Draw where
  verifiedAt : Timestamp
  /-- `KeyPair::generate()`. -/
  keypair : KeyPair
  /-- `EncryptionKey::generate()`, in `to_private_ballot`. -/
  electionKey : EncryptionKey
  ballot : PrivateBallot.Draw
  currentTime : Timestamp

/-- `if let Err(e) = …`: the error a check returned, if it returned one. -/
def caught (r : Result Unit) : Result (Option VotingError) :=
  match r with
  | .ok _ => .ok none
  | .error (.err e) => .ok (some e)
  | .error .panicked => .error .panicked

namespace VoteVerifier

def createBallotVerifier (election : Election) : BallotVerifier :=
  BallotVerifier.new election.authorityKey (election.candidates.map fun c => c.id) election.id

def new (election : Election) : VoteVerifier :=
  ⟨election, some (createBallotVerifier election)⟩

variable (S : VotingSuite)

/-- The check of the ballot itself, and the text if it fails. -/
def verifyPrivateBallot (draw : Draw) (verifier : VoteVerifier) (submission : VoteSubmission)
    (voterPublicKey : PublicKey) : Result (Option VotingError) :=
  match verifier.ballotVerifier with
  | none => .ok none
  | some ballotVerifier => do
      let ballot ← CastBallot.toPrivateBallot S draw.ballot draw.electionKey submission.castBallot
        draw.keypair
      caught (ballotVerifier.verifyBallot S.toSuite ballot voterPublicKey)

def verifySubmission (draw : Draw) (verifier : VoteVerifier) (submission : VoteSubmission)
    (voterPublicKey : PublicKey) : Result VerificationResult := do
  let result := VerificationResult.new draw.verifiedAt submission.voterId
  if submission.castBallot.electionId ≠ verifier.election.id then
    return result.addError "Election ID mismatch"
  match ← caught (submission.verify S voterPublicKey) with
  | some e => return result.addError ("Signature verification failed: " ++ e.display)
  | none =>
    match ← verifyPrivateBallot S draw verifier submission voterPublicKey with
    | some e => return result.addError ("Ballot verification failed: " ++ e.display)
    | none =>
      let result :=
        if verifier.election.isActive draw.currentTime then result
        else result.addWarning "Election is not currently active"
      return result.markValid

end VoteVerifier

/-! ## Honest submissions -/

section
variable {S : VotingSuite}

theorem Suite.caught_verify (S : Suite) (message : Bytes) (signature : Signature)
    (publicKey : PublicKey) :
    ∃ e, caught (S.verify message signature publicKey) = .ok e ∧
      (e = none ↔ S.verify message signature publicKey = .ok ()) := by
  rcases S.verify_cases message signature publicKey with h | ⟨e, h⟩
  · rw [h]
    exact ⟨none, rfl, iff_of_true rfl rfl⟩
  · rw [h]
    refine ⟨some e, rfl, iff_of_false (Option.some_ne_none e) ?_⟩
    intro hok
    cases hok

namespace VoteVerifier

/-- The private ballot made of a ballot for the election verifies exactly if the drawn
key's signature on it does. -/
theorem verifyPrivateBallot_new {election : Election} {draw : Draw} {submission : VoteSubmission}
    {ciphertext : Bytes} (hid : submission.castBallot.electionId = election.id)
    (hencrypt : S.chacha20Poly1305 draw.electionKey.key draw.ballot.nonce
      submission.castBallot.encryptedBallot.toBytes = .ok ciphertext) (publicKey : PublicKey) :
    ∃ message e, verifyPrivateBallot S draw (new election) submission publicKey = .ok e ∧
      (e = none ↔ S.verify message (S.ed25519Sign draw.keypair.privateKey message) publicKey =
        .ok ()) := by
  obtain ⟨ballot, message, hcreate, hverify⟩ :=
    (createBallotVerifier election).verifyBallot_create draw.keypair hencrypt hid.symm
  obtain ⟨e, hcaught, he⟩ := Suite.caught_verify S.toSuite message
    (S.ed25519Sign draw.keypair.privateKey message) publicKey
  refine ⟨message, e, ?_, he⟩
  simp only [verifyPrivateBallot, new, CastBallot.toPrivateBallot, hcreate, bind, Except.bind,
    hverify, hcaught]

/-- What is left of `verify_submission` once the election and the two signatures are
in order: the answer of the check of the private ballot. -/
theorem verifySubmission_of_verify {verifier : VoteVerifier} {draw : Draw}
    {submission : VoteSubmission} {publicKey : PublicKey} {e : Option VotingError}
    (hid : submission.castBallot.electionId = verifier.election.id)
    (hverify : submission.verify S publicKey = .ok ())
    (hballot : verifyPrivateBallot S draw verifier submission publicKey = .ok e) :
    ∃ result, verifySubmission S draw verifier submission publicKey = .ok result ∧
      (result.isValid = true ↔ e = none) := by
  simp only [verifySubmission, hid, ne_eq, not_true_eq_false, if_false, hverify, caught, hballot,
    bind, Except.bind]
  cases e with
  | some e => exact ⟨_, rfl, iff_of_false Bool.false_ne_true (Option.some_ne_none e)⟩
  | none =>
      refine ⟨_, rfl, iff_of_true ?_ rfl⟩
      split
      · rfl
      · rfl

/-- **Which honest submissions pass.**  A voter sets a ballot for the election and
submits it with a key pair.  If signatures verify under the signer's public key and
under no other, and encryption succeeds, the verifier of the election returns a result
under the voter's public key, and that is valid if and only if the key pair drawn by the
verifier has the voter's public key. -/
theorem honest_submission_valid_iff [Hex] {election : Election} {session session' : VotingSession}
    {ballot : Ballot} (hid : ballot.electionId = election.id)
    (hset : (VotingSession.setBallot ballot).exec session = (.ok (), session'))
    {drawn : VotingSession.Draw} {voterKeypair : KeyPair} {electionKey : EncryptionKey}
    {submission : VoteSubmission} {receipt : VoteReceipt}
    (hsubmit : session'.submit S drawn voterKeypair electionKey = .ok (submission, receipt))
    {draw : Draw} (hown : S.Accepts voterKeypair voterKeypair.publicKey)
    (hdrawn : S.Accepts draw.keypair draw.keypair.publicKey)
    (hother : draw.keypair.publicKey ≠ voterKeypair.publicKey →
      S.Rejects draw.keypair voterKeypair.publicKey)
    (hencrypt : ∃ ciphertext, S.chacha20Poly1305 draw.electionKey.key draw.ballot.nonce
      submission.castBallot.encryptedBallot.toBytes = .ok ciphertext) :
    ∃ result, verifySubmission S draw (new election) submission voterKeypair.publicKey =
        .ok result ∧
      (result.isValid = true ↔ draw.keypair.publicKey = voterKeypair.publicKey) := by
  have hballot : session'.ballot = some ballot := by rw [VotingSession.setBallot_eq_ok hset]
  obtain ⟨hcast, hverify⟩ := VotingSession.submit_eq_ok hown hballot hsubmit
  obtain ⟨ciphertext, hencrypt⟩ := hencrypt
  have heid : submission.castBallot.electionId = election.id := hcast.trans hid
  obtain ⟨message, e, hprivate, he⟩ :=
    verifyPrivateBallot_new heid hencrypt voterKeypair.publicKey
  obtain ⟨result, hresult, hvalid⟩ := verifySubmission_of_verify heid hverify hprivate
  refine ⟨result, hresult, ?_⟩
  rw [hvalid, he]
  constructor
  · intro hok
    by_contra hne
    exact hother hne message hok
  · intro hsame
    rw [← hsame]
    exact hdrawn message

end VoteVerifier

end

namespace Reference

/-- The session of the voter, with the ballot. -/
def session : VotingSession := ⟨election.id, voter, some ballot, .ballotFilled, 1500⟩

theorem setBallot_session :
    (VotingSession.setBallot ballot).exec (VotingSession.new 1500 election.id voter) =
      (.ok (), session) :=
  VotingSession.setBallot_new rfl

def sessionDraw : VotingSession.Draw where
  cast := castDraw
  submittedAt := 2001
  receiptId := ⟨List.Vector.replicate 32 4⟩
  receiptAt := 2001

/-- The cast ballot, submitted by its voter. -/
def submission : VoteSubmission where
  voterId := voter.id
  castBallot := castBallot
  submissionSignature := votingSuite.ed25519Sign keyPair.privateKey
    (VoteSubmission.computeMessage votingSuite voter.id castBallot 2001)
  submittedAt := 2001

def receipt : VoteReceipt :=
  VoteReceipt.new votingSuite ⟨List.Vector.replicate 32 4⟩ ballot.ballotId election.id voter.id 2001

theorem submit_session :
    session.submit votingSuite sessionDraw keyPair electionKey = .ok (submission, receipt) :=
  rfl

/-- A verification in which the key pair drawn is the given one. -/
def verifierDraw (keypair : KeyPair) : VoteVerifier.Draw where
  verifiedAt := 2002
  keypair := keypair
  electionKey := ⟨List.Vector.replicate 32 12⟩
  ballot :=
    { nonce := List.Vector.replicate 12 6
      randomness := List.Vector.replicate 32 10
      proofRandomness := List.Vector.replicate 32 11
      now := 2002 }
  currentTime := 2002

end Reference

namespace VoteVerifier
open Reference (votingSuite submission keyPair otherKeyPair verifierDraw)

/-- The voter's own key pair comes out of the draw. -/
theorem honest_submission_valid_iff_own :
    ∃ result, verifySubmission votingSuite (verifierDraw keyPair) (new Reference.election) submission
        keyPair.publicKey = .ok result ∧ result.isValid = true := by
  have hdrawn : votingSuite.Accepts (verifierDraw keyPair).keypair
      (verifierDraw keyPair).keypair.publicKey := Reference.accepts_keyPair
  obtain ⟨result, hresult, hvalid⟩ := honest_submission_valid_iff rfl Reference.setBallot_session
    Reference.submit_session Reference.accepts_keyPair hdrawn (fun hne => absurd rfl hne)
    ⟨_, Reference.chacha20Poly1305_votingSuite _ _ _⟩
  exact ⟨result, hresult, hvalid.mpr rfl⟩

/-- Another key pair comes out of the draw: the submission is honest, and it is found
invalid. -/
theorem honest_submission_invalid :
    Reference.ballot.electionId = Reference.election.id ∧
    (VotingSession.setBallot Reference.ballot).exec
      (VotingSession.new 1500 Reference.election.id Reference.voter) = (.ok (), Reference.session) ∧
    Reference.session.submit votingSuite Reference.sessionDraw keyPair Reference.electionKey =
      .ok (submission, Reference.receipt) ∧
    votingSuite.Accepts keyPair keyPair.publicKey ∧
    votingSuite.Accepts otherKeyPair otherKeyPair.publicKey ∧
    votingSuite.Rejects otherKeyPair keyPair.publicKey ∧
    ∃ result, verifySubmission votingSuite (verifierDraw otherKeyPair) (new Reference.election) submission
        keyPair.publicKey = .ok result ∧ result.isValid = false := by
  refine ⟨rfl, Reference.setBallot_session, Reference.submit_session, Reference.accepts_keyPair,
    Reference.accepts_otherKeyPair, Reference.rejects_otherKeyPair, ?_⟩
  obtain ⟨hcast, hverify⟩ :=
    VotingSession.submit_eq_ok Reference.accepts_keyPair rfl Reference.submit_session
  have hencrypt := Reference.chacha20Poly1305_votingSuite
    (verifierDraw otherKeyPair).electionKey.key (verifierDraw otherKeyPair).ballot.nonce
    submission.castBallot.encryptedBallot.toBytes
  obtain ⟨message, e, hprivate, he⟩ := verifyPrivateBallot_new hcast hencrypt keyPair.publicKey
  obtain ⟨result, hresult, hvalid⟩ := verifySubmission_of_verify hcast hverify hprivate
  refine ⟨result, hresult, Bool.eq_false_iff.mpr fun htrue => ?_⟩
  exact Reference.rejects_otherKeyPair message (he.mp (hvalid.mp htrue))

end VoteVerifier

end VotingChain
