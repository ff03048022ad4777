/-
# `VotingChain.Ballot` — elections, ballots and cast ballots

The model of `voting/src/ballot.rs`, with the part of `lib.rs` and `voter.rs` that it
and its callers use.  A ballot that is cast is serialized, encrypted for the election
and committed to, and the voter signs

    ballot id ‖ election id ‖ voter id ‖ nonce ‖ ciphertext ‖ commitment

so a cast ballot says itself for which election it is and whose it is
(`CastBallot.create_eq_ok`).
-/
import VotingChain.Crypto

namespace VotingChain

/-! ## Voters and elections -/

structure VoterId where
  bytes : ByteArr 32
  deriving DecidableEq

structure BallotId where
  bytes : ByteArr 32
  deriving DecidableEq

def VoterId.asBytes (v : VoterId) : Bytes := v.bytes.toList
def BallotId.asBytes (b : BallotId) : Bytes := b.bytes.toList

theorem selfDelimiting_ballotId : Codec.SelfDelimiting BallotId.asBytes :=
  (Codec.selfDelimiting_vector 32).comap (f := BallotId.bytes) fun ⟨_⟩ ⟨_⟩ h =>
    congrArg BallotId.mk h

theorem selfDelimiting_voterId : Codec.SelfDelimiting VoterId.asBytes :=
  (Codec.selfDelimiting_vector 32).comap (f := VoterId.bytes) fun ⟨_⟩ ⟨_⟩ h =>
    congrArg VoterId.mk h

/-- A voter. -/
structure Voter where
  id : VoterId
  publicKey : PublicKey
  deriving DecidableEq

/-- Candidate information. -/
structure ElectionCandidate where
  id : String
  deriving DecidableEq

/-- Election metadata and configuration. -/
structure Election where
  id : ElectionId
  candidates : List ElectionCandidate
  startTime : Timestamp
  endTime : Timestamp
  authorityKey : PublicKey
  deriving DecidableEq

/-- Check if election is active. -/
def Election.isActive (election : Election) (currentTime : Timestamp) : Bool :=
  decide (election.startTime ≤ currentTime ∧ currentTime ≤ election.endTime)

/-! ## Ballots -/

inductive BallotType where
  | singleChoice
  | multipleChoice (maxChoices : Nat)
  | rankedChoice (maxRanks : Nat)
  | approval
  | writeIn
  deriving DecidableEq

structure BallotChoice where
  candidateId : String
  rank : Option UInt32
  writeInName : Option String
  deriving DecidableEq

structure Ballot where
  ballotId : BallotId
  electionId : ElectionId
  ballotType : BallotType
  choices : List BallotChoice
  timestamp : Timestamp
  version : UInt32
  deriving DecidableEq

namespace Ballot

/-- The choice at index `i` has rank `i + 1`. -/
def validateRank (entry : BallotChoice × Nat) : Result Unit :=
  match entry.1.rank with
  | some rank =>
      ensure (decide (rank.toNat = entry.2 + 1)) (.invalidBallot "Ranks must be sequential")
  | none => fail (.invalidBallot "Ranked choice ballot must have ranks")

def validate (ballot : Ballot) : Result Unit := do
  ensure (!ballot.choices.isEmpty) (.invalidBallot "Ballot must have at least one choice")
  match ballot.ballotType with
  | .singleChoice =>
      ensure (decide (ballot.choices.length = 1))
        (.invalidBallot "Single choice ballot must have exactly one choice")
  | .multipleChoice maxChoices =>
      ensure (decide (ballot.choices.length ≤ maxChoices))
        (.invalidBallot ("Too many choices: " ++ toString ballot.choices.length ++ " (max " ++
          toString maxChoices ++ ")"))
  | .rankedChoice maxRanks =>
      ensure (decide (ballot.choices.length ≤ maxRanks)) (.invalidBallot "Too many ranks")
      forEach validateRank ballot.choices.zipIdx
  | .approval => return ()
  | .writeIn => return ()

end Ballot

/-- The algorithms, and `bincode::serialize` of a ballot. -/
structure VotingSuite extends Suite where
  bincode : Ballot → Bytes

/-! ## Cast ballots -/

structure CastBallot where
  ballotId : BallotId
  electionId : ElectionId
  voterId : VoterId
  encryptedBallot : EncryptedData
  ballotCommitment : Bytes
  voterSignature : Signature
  castAt : Timestamp
  transactionId : Option TxId
  deriving DecidableEq

/-- What `CastBallot::create` draws, and the time at which it is done. -/
structure CastBallot.Draw where
  nonce : ByteArr 12
  randomness : ByteArr 32
  castAt : Timestamp

namespace CastBallot
variable (S : VotingSuite)

def computeMessage (ballotId : BallotId) (electionId : ElectionId) (voterId : VoterId)
    (encryptedBallot : EncryptedData) (ballotCommitment : Bytes) : Bytes :=
  S.hashBlake2bMultiple
    [ballotId.asBytes, electionId.asBytes, voterId.asBytes, encryptedBallot.toBytes,
      ballotCommitment]

def create (draw : Draw) (ballot : Ballot) (voterId : VoterId) (electionKey : EncryptionKey)
    (voterKeypair : KeyPair) : Result CastBallot := do
  let ballotData := S.bincode ballot
  let encryptedBallot ← encrypt S.toSuite draw.nonce ballotData electionKey
  let ballotCommitment := (Commitment.new S.toSuite ballotData draw.randomness.toList).value
  let message :=
    computeMessage S ballot.ballotId ballot.electionId voterId encryptedBallot ballotCommitment
  let voterSignature ← S.sign message voterKeypair
  return {
    ballotId := ballot.ballotId
    electionId := ballot.electionId
    voterId
    encryptedBallot
    ballotCommitment
    voterSignature
    castAt := draw.castAt
    transactionId := none }

/-- The message the voter has signed. -/
def message (castBallot : CastBallot) : Bytes :=
  computeMessage S castBallot.ballotId castBallot.electionId castBallot.voterId
    castBallot.encryptedBallot castBallot.ballotCommitment

def verify (castBallot : CastBallot) (voterPublicKey : PublicKey) : Result Unit :=
  S.verify (castBallot.message S) castBallot.voterSignature voterPublicKey

/-- The encrypted ballot, encrypted again under a key drawn for the purpose, as a
private ballot of `voterKeypair`. -/
def toPrivateBallot (draw : PrivateBallot.Draw) (electionKey : EncryptionKey)
    (castBallot : CastBallot) (voterKeypair : KeyPair) : Result PrivateBallot :=
  PrivateBallot.create S.toSuite draw castBallot.encryptedBallot.toBytes electionKey
    castBallot.electionId voterKeypair

variable {S}

/-- **What a successful call of `create` returns**: a cast ballot of the voter, for
the election of the ballot, signed by the voter's key. -/
theorem create_eq_ok {draw : Draw} {ballot : Ballot} {voterId : VoterId}
    {electionKey : EncryptionKey} {voterKeypair : KeyPair} {castBallot : CastBallot}
    (h : create S draw ballot voterId electionKey voterKeypair = .ok castBallot) :
    castBallot.ballotId = ballot.ballotId ∧ castBallot.electionId = ballot.electionId ∧
      castBallot.voterId = voterId ∧
      castBallot.voterSignature =
        S.ed25519Sign voterKeypair.privateKey (castBallot.message S) := by
  simp only [create, bind_eq_ok, Suite.sign, Except.ok.injEq, exists_eq_left'] at h
  obtain ⟨encryptedBallot, -, hpure⟩ := h
  cases hpure
  exact ⟨rfl, rfl, rfl, rfl⟩

theorem verify_create {draw : Draw} {ballot : Ballot} {voterId : VoterId}
    {electionKey : EncryptionKey} {voterKeypair : KeyPair} {castBallot : CastBallot}
    (hown : S.Accepts voterKeypair voterKeypair.publicKey)
    (h : create S draw ballot voterId electionKey voterKeypair = .ok castBallot) :
    castBallot.verify S voterKeypair.publicKey = .ok () := by
  obtain ⟨-, -, -, hsig⟩ := create_eq_ok h
  rw [verify, hsig]
  exact hown _

end CastBallot

end VotingChain
