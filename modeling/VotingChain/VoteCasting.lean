/-
# `VotingChain.VoteCasting` — one vote for each voter

The model of `voting/src/vote_casting.rs`.  On the voter's side a `VotingSession` turns a
ballot into a signed submission (`VotingSession.submit_eq_ok`).  On the other side a
`VoteCaster` keeps the record of one election, and there are two ways to vote:

    cast_vote      the caster makes the cast ballot itself, with the voter's key
    submit_vote    the voter sends one, with a second signature around it

Both begin with the same checks and end with the same entry (`admitVoter`, `record`).
In between lies all the difference: `cast_vote` compares the election of the ballot
with its own, and makes the cast ballot out in the name of the voter; `submit_vote`
checks two signatures and compares nothing.

Whatever the calls, nobody votes twice (`one_vote_each`).  But what is recorded under
a voter's name need not be a ballot of that voter, nor one for this election
(`records_belong_iff`).
-/
import Mathlib.Data.Finmap
import VotingChain.Ballot
import VotingChain.Lib.ChaCha20Poly1305
import VotingChain.Lib.Runs
import VotingChain.Reference

namespace VotingChain

/-! ## Submissions and receipts -/

structure VoteRecord where
  voterId : VoterId
  castBallot : CastBallot
  castAt : Timestamp
  deriving DecidableEq

structure VoteSubmission where
  voterId : VoterId
  castBallot : CastBallot
  submissionSignature : Signature
  submittedAt : Timestamp
  deriving DecidableEq

structure ReceiptId where
  bytes : ByteArr 32
  deriving DecidableEq

structure VoteReceipt where
  receiptId : ReceiptId
  ballotId : BallotId
  electionId : ElectionId
  voterId : VoterId
  castAt : Timestamp
  confirmationCode : String
  deriving DecidableEq

namespace VoteSubmission
variable (S : VotingSuite)

def computeMessage (voterId : VoterId) (castBallot : CastBallot) (submittedAt : Timestamp) :
    Bytes :=
  S.hashBlake2bMultiple
    [voterId.asBytes, castBallot.ballotId.asBytes, castBallot.electionId.asBytes,
      Codec.leBytes 8 submittedAt.toNat]

/-- Sign a cast ballot for submission; `now` is what the clock says. -/
def create (now : Timestamp) (voterId : VoterId) (castBallot : CastBallot)
    (voterKeypair : KeyPair) : Result VoteSubmission := do
  let message := computeMessage S voterId castBallot now
  let submissionSignature ← S.sign message voterKeypair
  return { voterId, castBallot, submissionSignature, submittedAt := now }

def verify (submission : VoteSubmission) (voterPublicKey : PublicKey) : Result Unit := do
  submission.castBallot.verify S voterPublicKey
  let message := computeMessage S submission.voterId submission.castBallot submission.submittedAt
  S.verify message submission.submissionSignature voterPublicKey

variable {S}

theorem verify_create {now : Timestamp} {voterId : VoterId} {castBallot : CastBallot}
    {voterKeypair : KeyPair} {submission : VoteSubmission}
    (hown : S.Accepts voterKeypair voterKeypair.publicKey)
    (hballot : castBallot.verify S voterKeypair.publicKey = .ok ())
    (h : create S now voterId castBallot voterKeypair = .ok submission) :
    submission.castBallot = castBallot ∧ submission.verify S voterKeypair.publicKey = .ok () := by
  cases h
  refine ⟨rfl, bind_eq_ok.mpr ⟨(), hballot, ?_⟩⟩
  exact hown _

end VoteSubmission

namespace VoteReceipt
variable (S : VotingSuite)

def generateConfirmationCode [Hex] (receiptId : ReceiptId) (ballotId : BallotId) : String :=
  Hex.encode ((S.hashBlake2bMultiple [receiptId.bytes.toList, ballotId.asBytes]).take 8)

/-- A receipt; its id is what is drawn. -/
def new [Hex] (receiptId : ReceiptId) (ballotId : BallotId) (electionId : ElectionId)
    (voterId : VoterId) (castAt : Timestamp) : VoteReceipt where
  receiptId := receiptId
  ballotId := ballotId
  electionId := electionId
  voterId := voterId
  castAt := castAt
  confirmationCode := generateConfirmationCode S receiptId ballotId

def verifyConfirmationCode [Hex] (receipt : VoteReceipt) : Bool :=
  let expected := generateConfirmationCode S receipt.receiptId receipt.ballotId
  constantTimeEq (strBytes receipt.confirmationCode) (strBytes expected)

variable {S}

theorem verifyConfirmationCode_iff [Hex] {receipt : VoteReceipt} :
    receipt.verifyConfirmationCode S = true ↔ receipt.confirmationCode =
      generateConfirmationCode S receipt.receiptId receipt.ballotId := by
  rw [verifyConfirmationCode, constantTimeEq_iff, strBytes_injective.eq_iff]

end VoteReceipt

/-! ## Sessions -/

inductive SessionState where
  | started
  | ballotFilled
  | submitted
  | cancelled
  deriving DecidableEq

/-- A voter on the way from a ballot to a submission. -/
structure VotingSession where
  electionId : ElectionId
  voter : Voter
  ballot : Option Ballot
  state : SessionState
  startedAt : Timestamp
  deriving DecidableEq

/-- What `VotingSession::submit` draws, and the times at which it looks at the clock. -/
structure VotingSession.Draw where
  cast : CastBallot.Draw
  submittedAt : Timestamp
  receiptId : ReceiptId
  receiptAt : Timestamp

namespace VotingSession

def new (now : Timestamp) (electionId : ElectionId) (voter : Voter) : VotingSession where
  electionId := electionId
  voter := voter
  ballot := none
  state := .started
  startedAt := now

def setBallot (ballot : Ballot) : Exec VotingSession Unit := do
  let session ← get
  Exec.lift (ensure (decide (session.state = .started))
    (.invalidInput "Session not in correct state"))
  Exec.lift (ensure (decide (ballot.electionId = session.electionId))
    (.invalidBallot "Ballot election mismatch"))
  modify fun session => { session with ballot := some ballot, state := .ballotFilled }

/-- Cast the ballot and sign the submission of it; the session is used up. -/
def submit [Hex] (S : VotingSuite) (draw : Draw) (session : VotingSession) (voterKeypair : KeyPair)
    (electionKey : EncryptionKey) : Result (VoteSubmission × VoteReceipt) := do
  ensure (decide (session.state = .ballotFilled))
    (.invalidInput "Session not ready for submission")
  match session.ballot with
  | none => fail (.invalidInput "No ballot in session")
  | some ballot => do
      let castBallot ←
        CastBallot.create S draw.cast ballot session.voter.id electionKey voterKeypair
      let submission ←
        VoteSubmission.create S draw.submittedAt session.voter.id castBallot voterKeypair
      let receipt := VoteReceipt.new S draw.receiptId ballot.ballotId session.electionId
        session.voter.id draw.receiptAt
      return (submission, receipt)

theorem setBallot_new {now : Timestamp} {electionId : ElectionId} {voter : Voter} {ballot : Ballot}
    (h : ballot.electionId = electionId) :
    (setBallot ballot).exec (new now electionId voter) =
      (.ok (), ⟨electionId, voter, some ballot, .ballotFilled, now⟩) := by
  simp only [setBallot, new, Exec.exec_get_bind, Exec.exec_lift_bind, h, decide_true, ensure,
    if_true, Exec.exec_modify]

theorem setBallot_eq_ok {ballot : Ballot} {session session' : VotingSession} {u : Unit}
    (h : (setBallot ballot).exec session = (.ok u, session')) :
    session' = { session with ballot := some ballot, state := .ballotFilled } := by
  simp only [setBallot, Exec.exec_get_bind, Exec.exec_lift_bind, ensure] at h
  split at h
  · split at h
    · rw [Exec.exec_modify] at h
      exact (Prod.mk.inj h).2.symm
    · cases h
  · cases h

variable {S : VotingSuite}

/-- **What a successful call of `submit` returns**: the ballot of the session, cast and
submitted, both under signatures that verify. -/
theorem submit_eq_ok [Hex] {draw : Draw} {session : VotingSession} {ballot : Ballot}
    {voterKeypair : KeyPair} {electionKey : EncryptionKey} {submission : VoteSubmission}
    {receipt : VoteReceipt} (hown : S.Accepts voterKeypair voterKeypair.publicKey)
    (hballot : session.ballot = some ballot)
    (h : session.submit S draw voterKeypair electionKey = .ok (submission, receipt)) :
    submission.castBallot.electionId = ballot.electionId ∧
      submission.verify S voterKeypair.publicKey = .ok () := by
  simp only [submit, hballot, bind_eq_ok] at h
  obtain ⟨_, -, castBallot, hcast, submission', hsubmission, hpure⟩ := h
  cases hpure
  obtain ⟨rfl, hverify⟩ :=
    VoteSubmission.verify_create hown (CastBallot.verify_create hown hcast) hsubmission
  exact ⟨(CastBallot.create_eq_ok hcast).2.1, hverify⟩

end VotingSession

/-! ## The caster -/

structure VoteCaster where
  election : Election
  votesCast : Finmap fun _ : VoterId => VoteRecord
  voterRegistry : Finset VoterId

namespace VoteCaster
variable (S : VotingSuite)

def new (election : Election) : VoteCaster := ⟨election, ∅, ∅⟩

def registerVoter (voterId : VoterId) (caster : VoteCaster) : VoteCaster :=
  { caster with voterRegistry := insert voterId caster.voterRegistry }

/-- The checks both ways to vote begin with. -/
def admitVoter (caster : VoteCaster) (voterId : VoterId) (currentTime : Timestamp) :
    Result Unit := do
  ensure (decide (voterId ∈ caster.voterRegistry)) (.voterNotEligible "Voter not registered")
  ensure (decide (voterId ∉ caster.votesCast)) .alreadyVoted
  ensure (caster.election.isActive currentTime) .electionNotActive

/-- The entry both ways to vote end with, and the receipt for it. -/
def record [Hex] (receiptId : ReceiptId) (voterId : VoterId) (castBallot : CastBallot)
    (currentTime : Timestamp) : Exec VoteCaster VoteReceipt := do
  let voteRecord : VoteRecord := { voterId, castBallot, castAt := currentTime }
  modify fun caster => { caster with votesCast := caster.votesCast.insert voterId voteRecord }
  return VoteReceipt.new S receiptId castBallot.ballotId (← get).election.id voterId currentTime

/-- Cast a ballot; `now` is what the clock says, the rest of the first line what is
drawn. -/
def castVote [Hex] (now : Timestamp) (draw : CastBallot.Draw) (receiptId : ReceiptId)
    (voter : Voter) (ballot : Ballot) (voterKeypair : KeyPair) (electionKey : EncryptionKey) :
    Exec VoteCaster VoteReceipt := do
  let caster ← get
  Exec.lift (caster.admitVoter voter.id now)
  Exec.lift (ensure (decide (ballot.electionId = caster.election.id))
    (.invalidBallot "Ballot election ID mismatch"))
  Exec.lift ballot.validate
  let castBallot ← Exec.lift (CastBallot.create S draw ballot voter.id electionKey voterKeypair)
  record S receiptId voter.id castBallot now

/-- Take in a signed submission; `now` is what the clock says, `receiptId` what is
drawn. -/
def submitVote [Hex] (now : Timestamp) (receiptId : ReceiptId) (submission : VoteSubmission)
    (voterPublicKey : PublicKey) : Exec VoteCaster VoteReceipt := do
  let caster ← get
  Exec.lift (caster.admitVoter submission.voterId now)
  Exec.lift (submission.verify S voterPublicKey)
  record S receiptId submission.voterId submission.castBallot now

def getVoteRecord (caster : VoteCaster) (voterId : VoterId) : Option VoteRecord :=
  caster.votesCast.lookup voterId

def voteCount (caster : VoteCaster) : Nat := caster.votesCast.keys.card

def registeredVoters (caster : VoteCaster) : Nat := caster.voterRegistry.card

/-! ## What a vote does -/

/-- A call that votes, with its arguments and what it draws. -/
inductive Vote where
  | cast (now : Timestamp) (draw : CastBallot.Draw) (receiptId : ReceiptId) (voter : Voter)
      (ballot : Ballot) (voterKeypair : KeyPair) (electionKey : EncryptionKey)
  | submit (now : Timestamp) (receiptId : ReceiptId) (submission : VoteSubmission)
      (voterPublicKey : PublicKey)

namespace Vote

/-- In whose name the vote is. -/
def voterId : Vote → VoterId
  | .cast _ _ _ voter _ _ _ => voter.id
  | .submit _ _ submission _ => submission.voterId

/-- When the call is made. -/
def now : Vote → Timestamp
  | .cast now _ _ _ _ _ _ => now
  | .submit now _ _ _ => now

def perform [Hex] : Vote → Exec VoteCaster VoteReceipt
  | .cast now draw receiptId voter ballot voterKeypair electionKey =>
      castVote S now draw receiptId voter ballot voterKeypair electionKey
  | .submit now receiptId submission voterPublicKey =>
      submitVote S now receiptId submission voterPublicKey

/-- The checks of the one way or the other, and the ballot that is cast. -/
def castBallot (election : Election) : Vote → Result CastBallot
  | .cast _ draw _ voter ballot voterKeypair electionKey => do
      ensure (decide (ballot.electionId = election.id))
        (.invalidBallot "Ballot election ID mismatch")
      ballot.validate
      CastBallot.create S draw ballot voter.id electionKey voterKeypair
  | .submit _ _ submission voterPublicKey => do
      submission.verify S voterPublicKey
      return submission.castBallot

end Vote

/-- The caster with one more record. -/
def store (caster : VoteCaster) (voteRecord : VoteRecord) : VoteCaster :=
  { caster with votesCast := caster.votesCast.insert voteRecord.voterId voteRecord }

/-- `vote` passes the checks of the caster, and `castBallot` is the ballot it casts. -/
structure Accepts (caster : VoteCaster) (vote : Vote) (castBallot : CastBallot) : Prop where
  registered : vote.voterId ∈ caster.voterRegistry
  fresh : vote.voterId ∉ caster.votesCast
  active : caster.election.isActive vote.now = true
  casts : vote.castBallot S caster.election = .ok castBallot

variable {S}

theorem admitVoter_eq_ok {caster : VoteCaster} {voterId : VoterId} {now : Timestamp} {u : Unit} :
    caster.admitVoter voterId now = .ok u ↔ voterId ∈ caster.voterRegistry ∧
      voterId ∉ caster.votesCast ∧ caster.election.isActive now = true := by
  simp only [admitVoter, bind_eq_ok, ensure_eq_ok, decide_eq_true_eq]
  constructor
  · rintro ⟨_, hreg, _, hfresh, hactive⟩
    exact ⟨hreg, hfresh, hactive⟩
  · rintro ⟨hreg, hfresh, hactive⟩
    exact ⟨(), hreg, (), hfresh, hactive⟩

theorem perform_exec [Hex] (vote : Vote) (caster : VoteCaster) :
    (vote.perform S).exec caster =
      match caster.admitVoter vote.voterId vote.now with
      | .error e => (.error e, caster)
      | .ok _ =>
        match vote.castBallot S caster.election with
        | .error e => (.error e, caster)
        | .ok castBallot =>
          match vote with
          | .cast _ _ receiptId _ _ _ _ | .submit _ receiptId _ _ =>
            (.ok (VoteReceipt.new S receiptId castBallot.ballotId caster.election.id vote.voterId
                vote.now),
              caster.store ⟨vote.voterId, castBallot, vote.now⟩) := by
  cases vote with
  | cast now draw receiptId voter ballot voterKeypair electionKey =>
      simp only [Vote.perform, castVote, Exec.exec_get_bind, Exec.exec_lift_bind, Vote.voterId,
        Vote.now, Vote.castBallot]
      cases caster.admitVoter voter.id now with
      | error e => rfl
      | ok _ =>
          by_cases helection : ballot.electionId = caster.election.id
          · simp only [helection, decide_true, ensure, if_true, bind, Except.bind]
            cases ballot.validate with
            | error e => rfl
            | ok _ =>
                cases CastBallot.create S draw ballot voter.id electionKey voterKeypair <;> rfl
          · simp only [helection, decide_false, ensure, fail, bind, Except.bind]
            rfl
  | submit now receiptId submission voterPublicKey =>
      simp only [Vote.perform, submitVote, Exec.exec_get_bind, Exec.exec_lift_bind, Vote.voterId,
        Vote.now, Vote.castBallot]
      cases caster.admitVoter submission.voterId now with
      | error e => rfl
      | ok _ => cases submission.verify S voterPublicKey <;> rfl

/-- **What a call that votes does**: it returns a receipt and stores the ballot, or it
fails and changes nothing. -/
theorem perform_cases [Hex] (vote : Vote) (caster : VoteCaster) :
    (∃ castBallot receipt, Accepts S caster vote castBallot ∧
      (vote.perform S).exec caster =
        (.ok receipt, caster.store ⟨vote.voterId, castBallot, vote.now⟩)) ∨
    ((∀ castBallot, ¬ Accepts S caster vote castBallot) ∧
      ∃ e, (vote.perform S).exec caster = (.error e, caster)) := by
  rw [perform_exec]
  cases hadmit : caster.admitVoter vote.voterId vote.now with
  | error e =>
      refine Or.inr ⟨fun castBallot h => ?_, e, rfl⟩
      rw [(admitVoter_eq_ok (u := ())).mpr ⟨h.registered, h.fresh, h.active⟩] at hadmit
      cases hadmit
  | ok _ =>
      obtain ⟨hreg, hfresh, hactive⟩ := admitVoter_eq_ok.mp hadmit
      cases hcast : vote.castBallot S caster.election with
      | error e =>
          refine Or.inr ⟨fun castBallot h => ?_, e, rfl⟩
          rw [h.casts] at hcast
          cases hcast
      | ok castBallot =>
          refine Or.inl ⟨castBallot, ?_⟩
          cases vote with
          | cast => exact ⟨_, ⟨hreg, hfresh, hactive, hcast⟩, rfl⟩
          | submit => exact ⟨_, ⟨hreg, hfresh, hactive, hcast⟩, rfl⟩

/-! ## Runs -/

/-- A call of a run. -/
inductive Call where
  | register (voterId : VoterId)
  | vote (vote : Vote)

variable (S) in
/-- The caster after a call. -/
def step [Hex] (caster : VoteCaster) : Call → VoteCaster
  | .register voterId => caster.registerVoter voterId
  | .vote vote => (vote.perform S).next caster

variable (S) in
/-- In whose name a call has voted, if it returned `Ok`. -/
def voted [Hex] (caster : VoteCaster) : Call → List VoterId
  | .register _ => []
  | .vote vote =>
    match ((vote.perform S).exec caster).1 with
    | .ok _ => [vote.voterId]
    | .error _ => []

variable (S) in
/-- The caster of an election after a run of calls. -/
def run [Hex] (election : Election) (calls : List Call) : VoteCaster :=
  Runs.run (step S) (new election) calls

/-- **What a step does**: it registers a voter, or stores the ballot of an accepted
vote, or changes nothing. -/
theorem step_cases [Hex] (caster : VoteCaster) (call : Call) :
    (∃ v, call = .register v ∧ step S caster call = caster.registerVoter v ∧
      voted S caster call = []) ∨
    (∃ vote castBallot, call = .vote vote ∧ Accepts S caster vote castBallot ∧
      step S caster call = caster.store ⟨vote.voterId, castBallot, vote.now⟩ ∧
      voted S caster call = [vote.voterId]) ∨
    ((∀ vote castBallot, call = .vote vote → ¬ Accepts S caster vote castBallot) ∧
      step S caster call = caster ∧ voted S caster call = []) := by
  cases call with
  | register v => exact Or.inl ⟨v, rfl, rfl, rfl⟩
  | vote vote =>
      rcases perform_cases (S := S) vote caster with
        ⟨castBallot, receipt, hacc, hexec⟩ | ⟨hnot, e, hexec⟩
      · refine Or.inr (Or.inl ⟨vote, castBallot, rfl, hacc, Exec.next_of_ok hexec, ?_⟩)
        simp only [voted, hexec]
      · refine Or.inr (Or.inr ⟨?_, Exec.next_of_error hexec, ?_⟩)
        · rintro vote castBallot ⟨⟩
          exact hnot castBallot
        · simp only [voted, hexec]

theorem step_of_accepts [Hex] {caster : VoteCaster} {vote : Vote} {castBallot : CastBallot}
    (h : Accepts S caster vote castBallot) :
    step S caster (.vote vote) = caster.store ⟨vote.voterId, castBallot, vote.now⟩ := by
  rcases perform_cases (S := S) vote caster with ⟨castBallot', receipt, hacc, hexec⟩ | ⟨hnot, -⟩
  · have hsame : castBallot' = castBallot := Except.ok.inj (hacc.casts.symm.trans h.casts)
    rw [← hsame]
    exact Exec.next_of_ok hexec
  · exact absurd h (hnot castBallot)

/-- What holds of a caster: whoever has voted is registered, and the votes that were
accepted are one for each voter with a record. -/
structure Tallied (caster : VoteCaster) (accepted : List VoterId) : Prop where
  registered : ∀ v, v ∈ caster.votesCast → v ∈ caster.voterRegistry
  nodup : accepted.Nodup
  recorded : ∀ v, v ∈ accepted ↔ v ∈ caster.votesCast

theorem mem_store {caster : VoteCaster} {voteRecord : VoteRecord} {v : VoterId} :
    v ∈ (caster.store voteRecord).votesCast ↔ v = voteRecord.voterId ∨ v ∈ caster.votesCast :=
  Finmap.mem_insert

theorem voteCount_store {caster : VoteCaster} {voteRecord : VoteRecord}
    (h : voteRecord.voterId ∉ caster.votesCast) :
    (caster.store voteRecord).voteCount = caster.voteCount + 1 := by
  have hkeys : (caster.store voteRecord).votesCast.keys =
      insert voteRecord.voterId caster.votesCast.keys := by
    ext v
    rw [Finmap.mem_keys, mem_store, Finset.mem_insert, Finmap.mem_keys]
  rw [voteCount, hkeys, Finset.card_insert_of_notMem (by rwa [Finmap.mem_keys])]
  rfl

theorem Tallied.step [Hex] {caster : VoteCaster} {accepted : List VoterId}
    (h : Tallied caster accepted) (call : Call) :
    Tallied (step S caster call) (accepted ++ voted S caster call) := by
  rcases step_cases (S := S) caster call with ⟨v, -, hstep, hvoted⟩ |
    ⟨vote, castBallot, -, hacc, hstep, hvoted⟩ | ⟨-, hstep, hvoted⟩
  · rw [hstep, hvoted, List.append_nil]
    exact ⟨fun w hw => Finset.mem_insert_of_mem (h.registered w hw), h.nodup, h.recorded⟩
  · rw [hstep, hvoted]
    constructor
    · intro w hw
      rcases mem_store.mp hw with rfl | hw
      · exact hacc.registered
      · exact h.registered w hw
    · refine List.nodup_append.mpr ⟨h.nodup, List.nodup_singleton _, ?_⟩
      rintro w hw _ hw' rfl
      rw [List.mem_singleton.mp hw', h.recorded] at hw
      exact hacc.fresh hw
    · intro w
      rw [List.mem_append, List.mem_singleton, h.recorded, mem_store, or_comm]
  · rw [hstep, hvoted, List.append_nil]
    exact h

theorem tallied_run [Hex] (election : Election) (calls : List Call) :
    Tallied (run S election calls) (Runs.trace (step S) (voted S) (new election) calls) := by
  induction calls using List.reverseRecOn with
  | nil =>
      refine ⟨fun v hv => absurd hv Finmap.notMem_empty, List.nodup_nil, fun v => ?_⟩
      exact iff_of_false List.not_mem_nil Finmap.notMem_empty
  | append_singleton calls call ih =>
      rw [run, Runs.run_concat, Runs.trace_concat]
      exact ih.step call

theorem getVoteRecord_step [Hex] {caster : VoteCaster} {v : VoterId} {voteRecord : VoteRecord}
    (h : caster.getVoteRecord v = some voteRecord) (call : Call) :
    (step S caster call).getVoteRecord v = some voteRecord := by
  rcases step_cases (S := S) caster call with ⟨w, -, hstep, -⟩ |
    ⟨vote, castBallot, -, hacc, hstep, -⟩ | ⟨-, hstep, -⟩
  · rw [hstep]
    exact h
  · -- only a voter without a record gets one
    have hne : v ≠ vote.voterId := by
      rintro rfl
      exact hacc.fresh (Finmap.mem_of_lookup_eq_some h)
    rw [hstep]
    exact (Finmap.lookup_insert_of_ne _ hne).trans h
  · rwa [hstep]

theorem election_step [Hex] (caster : VoteCaster) (call : Call) :
    (step S caster call).election = caster.election := by
  rcases step_cases (S := S) caster call with ⟨w, -, hstep, -⟩ |
    ⟨vote, castBallot, -, -, hstep, -⟩ | ⟨-, hstep, -⟩
  · rw [hstep]
    rfl
  · rw [hstep]
    rfl
  · rw [hstep]

theorem election_run [Hex] (election : Election) (calls : List Call) :
    (run S election calls).election = election :=
  Runs.run_preserves (I := fun caster : VoteCaster => caster.election = election)
    (fun caster call h => (election_step caster call).trans h) rfl calls

/-- **One voter, one vote.**  After any run of calls: whoever has a record is
registered, so there are no more votes than registered voters; the calls that returned
`Ok` were in pairwise different names; the records stored on the way are still there,
unchanged; a vote that returns `Ok` now raises the count by one and happens while the
election is open; and one that returns `Err` leaves the caster as it is. -/
theorem one_vote_each [Hex] (S : VotingSuite) (election : Election) (calls : List Call) :
    (∀ v ∈ (run S election calls).votesCast, v ∈ (run S election calls).voterRegistry) ∧
    (run S election calls).voteCount ≤ (run S election calls).registeredVoters ∧
    (Runs.trace (step S) (voted S) (new election) calls).Nodup ∧
    (∀ earlier later, calls = earlier ++ later → ∀ v voteRecord,
      (run S election earlier).getVoteRecord v = some voteRecord →
      (run S election calls).getVoteRecord v = some voteRecord) ∧
    ∀ vote : Vote,
      (∀ receipt, ((vote.perform S).exec (run S election calls)).1 = .ok receipt →
        ((vote.perform S).exec (run S election calls)).2.voteCount =
          (run S election calls).voteCount + 1 ∧
        election.startTime ≤ vote.now ∧ vote.now ≤ election.endTime) ∧
      (∀ e, ((vote.perform S).exec (run S election calls)).1 = .error e →
        ((vote.perform S).exec (run S election calls)).2 = run S election calls) := by
  have htallied := tallied_run (S := S) election calls
  refine ⟨htallied.registered, ?_, htallied.nodup, ?_, fun vote => ?_⟩
  · refine Finset.card_le_card fun v hv => ?_
    exact htallied.registered v (Finmap.mem_keys.mp hv)
  · rintro earlier later rfl v voteRecord h
    rw [run, Runs.run_append]
    exact Runs.run_preserves (I := fun caster : VoteCaster =>
      caster.getVoteRecord v = some voteRecord) (fun _ call h => getVoteRecord_step h call) h later
  · rcases perform_cases (S := S) vote (run S election calls) with
      ⟨castBallot, receipt, hacc, hexec⟩ | ⟨-, e, hexec⟩
    · rw [hexec]
      refine ⟨fun _ _ => ⟨voteCount_store hacc.fresh, ?_⟩, nofun⟩
      have hactive := hacc.active
      rw [election_run, Election.isActive, decide_eq_true_eq] at hactive
      exact hactive
    · rw [hexec]
      exact ⟨nofun, fun _ _ => rfl⟩

/-! ## Whose ballots -/

/-- Every record is of the voter it is stored under, and its ballot is that voter's
and for the election. -/
def Belong (election : Election) (caster : VoteCaster) : Prop :=
  ∀ v voteRecord, caster.getVoteRecord v = some voteRecord → voteRecord.voterId = v ∧
    voteRecord.castBallot.voterId = v ∧ voteRecord.castBallot.electionId = election.id

variable (S) in
/-- A submission that passes the checks of `submit_vote` holds a ballot that names its
own voter and the election. -/
def Matching (election : Election) (caster : VoteCaster) (call : Call) : Prop :=
  ∀ now receiptId submission voterPublicKey,
    call = .vote (.submit now receiptId submission voterPublicKey) →
    submission.voterId ∈ caster.voterRegistry → submission.voterId ∉ caster.votesCast →
    caster.election.isActive now = true → submission.verify S voterPublicKey = .ok () →
    submission.castBallot.voterId = submission.voterId ∧
      submission.castBallot.electionId = election.id

theorem castBallot_submit {election : Election} {now : Timestamp} {receiptId : ReceiptId}
    {submission : VoteSubmission} {voterPublicKey : PublicKey} {castBallot : CastBallot} :
    (Vote.submit now receiptId submission voterPublicKey).castBallot S election = .ok castBallot ↔
      submission.verify S voterPublicKey = .ok () ∧ castBallot = submission.castBallot := by
  rw [Vote.castBallot, bind_eq_ok]
  constructor
  · rintro ⟨_, hverify, hpure⟩
    cases hpure
    exact ⟨hverify, rfl⟩
  · rintro ⟨hverify, rfl⟩
    exact ⟨(), hverify, rfl⟩

theorem castBallot_cast {election : Election} {now : Timestamp} {draw : CastBallot.Draw}
    {receiptId : ReceiptId} {voter : Voter} {ballot : Ballot} {voterKeypair : KeyPair}
    {electionKey : EncryptionKey} {castBallot : CastBallot}
    (h : (Vote.cast now draw receiptId voter ballot voterKeypair electionKey).castBallot S election =
      .ok castBallot) :
    castBallot.voterId = voter.id ∧ castBallot.electionId = election.id := by
  simp only [Vote.castBallot, bind_eq_ok, ensure_eq_ok, decide_eq_true_eq] at h
  obtain ⟨_, helection, _, -, hcreate⟩ := h
  obtain ⟨-, hid, hvoter, -⟩ := CastBallot.create_eq_ok hcreate
  exact ⟨hvoter, hid.trans helection⟩

theorem belong_store_iff {election : Election} {caster : VoteCaster}
    (h : Belong election caster) (v : VoterId) (castBallot : CastBallot) (now : Timestamp) :
    Belong election (caster.store ⟨v, castBallot, now⟩) ↔
      castBallot.voterId = v ∧ castBallot.electionId = election.id := by
  constructor
  · intro hbelong
    exact (hbelong v ⟨v, castBallot, now⟩ (Finmap.lookup_insert _)).2
  · intro hmatch
    exact Finmap.forall_lookup_insert h ⟨rfl, hmatch⟩

/-- A step that meets the condition keeps the records in order, and one that does not
puts them out of order. -/
theorem belong_step_iff [Hex] {election : Election} {caster : VoteCaster}
    (hbelong : Belong election caster) (helection : caster.election = election) (call : Call) :
    Belong election (step S caster call) ↔ Matching S election caster call := by
  rcases step_cases (S := S) caster call with ⟨v, rfl, hstep, -⟩ |
    ⟨vote, castBallot, rfl, hacc, hstep, -⟩ | ⟨hnot, hstep, -⟩
  · rw [hstep]
    exact iff_of_true hbelong nofun
  · rw [hstep, belong_store_iff hbelong]
    cases vote with
    | cast now draw receiptId voter ballot voterKeypair electionKey =>
        have hcast := castBallot_cast hacc.casts
        rw [helection] at hcast
        exact iff_of_true hcast nofun
    | submit now receiptId submission voterPublicKey =>
        obtain ⟨hverify, rfl⟩ := castBallot_submit.mp hacc.casts
        constructor
        · rintro hmatch _ _ _ _ ⟨⟩ - - - -
          exact hmatch
        · intro hmatch
          exact hmatch now receiptId submission voterPublicKey rfl hacc.registered hacc.fresh
            hacc.active hverify
  · rw [hstep]
    refine iff_of_true hbelong ?_
    rintro now receiptId submission voterPublicKey rfl hreg hfresh hactive hverify
    exact absurd ⟨hreg, hfresh, hactive, castBallot_submit.mpr ⟨hverify, rfl⟩⟩
      (hnot _ submission.castBallot rfl)

/-- **Whose ballots are recorded.**  In every run of calls on the caster of an election,
every state reached has its records in order exactly if every submission that passes
the checks on the way holds a ballot that names its own voter and the election. -/
theorem records_belong_iff [Hex] (S : VotingSuite) (election : Election) (calls : List Call) :
    Runs.Visits (step S) (Belong election) (new election) calls ↔
      Runs.Along (step S) (Matching S election) (new election) calls := by
  refine Runs.visits_iff_along
    (I := fun caster => Belong election caster ∧ caster.election = election)
    (fun _ h => h.1) ?_ ?_ ⟨?_, rfl⟩
  · rintro caster call ⟨hbelong, helection⟩ hmatch
    exact ⟨(belong_step_iff hbelong helection call).mpr hmatch,
      (election_step caster call).trans helection⟩
  · rintro caster call ⟨hbelong, helection⟩ hafter
    exact (belong_step_iff hbelong helection call).mp hafter
  · intro v voteRecord h
    cases (Finmap.lookup_empty v).symm.trans h

end VoteCaster

/-! ## The algorithms the crate is linked with -/

namespace Reference

def encodeBallotType : BallotType → Bytes
  | .singleChoice => Codec.leBytes 4 0
  | .multipleChoice maxChoices => Codec.leBytes 4 1 ++ Codec.leBytes 8 maxChoices
  | .rankedChoice maxRanks => Codec.leBytes 4 2 ++ Codec.leBytes 8 maxRanks
  | .approval => Codec.leBytes 4 3
  | .writeIn => Codec.leBytes 4 4

def encodeChoice (choice : BallotChoice) : Bytes :=
  encodeString choice.candidateId ++
    encodeOption (fun rank : UInt32 => Codec.leBytes 4 rank.toNat) choice.rank ++
    encodeOption encodeString choice.writeInName

/-- `bincode::serialize` of a ballot. -/
def encodeBallot (ballot : Ballot) : Bytes :=
  ballot.ballotId.asBytes ++ ballot.electionId.asBytes ++ encodeBallotType ballot.ballotType ++
    encodeSeq encodeChoice ballot.choices ++ encodeU64 ballot.timestamp ++
    Codec.leBytes 4 ballot.version.toNat

/-- The key pair of the seed `03…03`. -/
def otherKeyPair : KeyPair where
  privateKey := List.Vector.replicate 32 3
  publicKey :=
    ⟨⟨[237, 73, 40, 198, 40, 209, 194, 198, 234, 233, 3, 56, 144, 89, 149, 97, 41, 89, 39, 58, 92,
       99, 249, 54, 54, 193, 70, 20, 172, 135, 55, 209],
      rfl⟩⟩

/-- What is signed of `ballot` when it is cast. -/
def castMessage : Bytes :=
  [169, 99, 3, 57, 19, 210, 232, 233, 56, 119, 217, 195, 4, 210, 180, 42, 213, 53, 9, 162, 40,
   209, 249, 0, 162, 15, 221, 86, 248, 131, 5, 227]

/-- What is signed when that is submitted. -/
def submissionMessage : Bytes :=
  [237, 150, 71, 232, 90, 87, 7, 93, 221, 156, 217, 168, 120, 7, 48, 239, 6, 136, 43, 183, 37,
   43, 96, 55, 233, 132, 129, 221, 7, 145, 7, 82]

/-- What is signed when it is submitted in another's name. -/
def foreignMessage : Bytes :=
  [146, 140, 16, 140, 148, 19, 189, 246, 0, 31, 155, 9, 243, 168, 209, 113, 87, 175, 107, 155,
   101, 144, 105, 103, 174, 44, 19, 40, 146, 246, 216, 45]

/-- What is signed of the private ballot made of it. -/
def fingerprint : Bytes :=
  [209, 232, 14, 155, 239, 244, 145, 101, 145, 23, 224, 233, 1, 120, 227, 163, 76, 169, 102,
   98, 26, 17, 111, 124, 241, 167, 117, 109, 30, 196, 91, 233]

/-- What is signed of the other voter's ballot when it is cast. -/
def otherCastMessage : Bytes :=
  [119, 33, 215, 242, 132, 212, 14, 34, 230, 54, 113, 16, 65, 165, 47, 14, 93, 132, 129, 234,
   0, 182, 133, 154, 148, 249, 48, 24, 248, 144, 20, 95]

/-- The signatures of `keyPair` on these messages.  On other messages it is any value. -/
def signature (message : Bytes) : Signature :=
  if message = castMessage then
    ⟨⟨[2, 137, 71, 216, 108, 31, 63, 202, 88, 232, 30, 26, 131, 142, 8, 84, 140, 154, 38, 238,
       146, 130, 7, 6, 228, 38, 232, 0, 223, 25, 190, 74, 75, 113, 230, 154, 198, 212, 197,
       92, 125, 137, 170, 66, 131, 183, 63, 194, 113, 78, 75, 85, 151, 34, 129, 244, 252, 24,
       150, 8, 247, 38, 103, 1],
      rfl⟩⟩
  else if message = submissionMessage then
    ⟨⟨[237, 237, 215, 132, 60, 65, 99, 100, 135, 168, 219, 62, 24, 164, 33, 152, 167, 41, 70,
       102, 124, 143, 246, 243, 51, 47, 57, 138, 198, 99, 79, 208, 211, 82, 222, 103, 186, 49,
       202, 6, 96, 227, 246, 166, 131, 244, 25, 29, 82, 6, 78, 78, 41, 57, 197, 174, 155, 150,
       68, 96, 57, 17, 99, 15],
      rfl⟩⟩
  else if message = foreignMessage then
    ⟨⟨[121, 225, 118, 216, 148, 206, 86, 17, 50, 107, 222, 232, 255, 250, 121, 200, 174, 83,
       11, 120, 239, 54, 222, 218, 26, 74, 37, 201, 4, 231, 23, 38, 242, 128, 25, 93, 116,
       211, 94, 134, 76, 86, 54, 118, 250, 212, 31, 136, 170, 44, 54, 132, 31, 195, 28, 49,
       238, 232, 158, 172, 210, 134, 5, 15],
      rfl⟩⟩
  else if message = fingerprint then
    ⟨⟨[247, 39, 1, 67, 20, 238, 76, 12, 116, 90, 124, 14, 17, 55, 118, 65, 15, 95, 156, 217,
       237, 82, 163, 251, 205, 199, 119, 27, 68, 165, 143, 27, 83, 181, 83, 227, 90, 67, 70,
       209, 151, 194, 97, 0, 139, 194, 54, 143, 51, 168, 18, 148, 238, 164, 213, 134, 148,
       206, 108, 214, 76, 252, 64, 7],
      rfl⟩⟩
  else ⟨List.Vector.replicate 64 1⟩

/-- The signatures of `otherKeyPair` on the private ballot and on its own cast ballot. -/
def otherSignature (message : Bytes) : Signature :=
  if message = fingerprint then
    ⟨⟨[139, 162, 28, 93, 86, 127, 60, 165, 19, 143, 63, 129, 22, 164, 137, 36, 153, 31, 98,
       65, 109, 81, 136, 146, 18, 37, 80, 254, 176, 217, 52, 118, 250, 157, 167, 102, 237, 7,
       41, 94, 133, 253, 32, 102, 233, 167, 53, 143, 206, 142, 73, 4, 200, 149, 5, 94, 215,
       203, 52, 220, 125, 2, 226, 13],
      rfl⟩⟩
  else if message = otherCastMessage then
    ⟨⟨[83, 191, 81, 229, 174, 171, 170, 189, 99, 36, 218, 24, 8, 60, 204, 3, 4, 74, 79, 188,
       123, 233, 218, 159, 84, 63, 24, 136, 187, 27, 170, 201, 42, 139, 152, 124, 110, 39,
       164, 40, 59, 117, 61, 96, 164, 177, 38, 138, 22, 164, 18, 58, 127, 45, 54, 86, 55, 76,
       37, 87, 101, 193, 168, 6],
      rfl⟩⟩
  else ⟨List.Vector.replicate 64 3⟩

/-- The algorithms of the program, with signatures of the two key pairs only. -/
def votingSuite : VotingSuite where
  blake2b256 := Blake2b.hash256
  ed25519Sign privateKey message :=
    if privateKey = keyPair.privateKey then signature message else otherSignature message
  verifyingKey _ := .ok ()
  ed25519Verify publicKey message s :=
    decide (publicKey = keyPair.publicKey ∧ s = signature message ∨
      publicKey = otherKeyPair.publicKey ∧ s = otherSignature message)
  chacha20Poly1305 key nonce plaintext := .ok (ChaCha20Poly1305.encrypt key nonce plaintext)
  bincode := encodeBallot

theorem otherSignature_ne (message : Bytes) : otherSignature message ≠ signature message := by
  unfold otherSignature signature
  split_ifs <;> decide

theorem sign_keyPair (message : Bytes) :
    votingSuite.ed25519Sign keyPair.privateKey message = signature message := by
  simp only [votingSuite, if_true]

theorem sign_otherKeyPair (message : Bytes) :
    votingSuite.ed25519Sign otherKeyPair.privateKey message = otherSignature message := by
  have hne : otherKeyPair.privateKey ≠ keyPair.privateKey := by decide
  simp only [votingSuite, hne, if_false]

theorem verify_votingSuite {message : Bytes} {s : Signature} {publicKey : PublicKey} :
    votingSuite.verify message s publicKey = .ok () ↔
      publicKey = keyPair.publicKey ∧ s = signature message ∨
        publicKey = otherKeyPair.publicKey ∧ s = otherSignature message := by
  show ensure (decide _) _ = _ ↔ _
  rw [ensure_eq_ok, decide_eq_true_eq]

theorem accepts_keyPair : votingSuite.Accepts keyPair keyPair.publicKey := by
  intro message
  exact verify_votingSuite.mpr (Or.inl ⟨rfl, sign_keyPair message⟩)

theorem accepts_otherKeyPair : votingSuite.Accepts otherKeyPair otherKeyPair.publicKey := by
  intro message
  exact verify_votingSuite.mpr (Or.inr ⟨rfl, sign_otherKeyPair message⟩)

theorem rejects_otherKeyPair : votingSuite.Rejects otherKeyPair keyPair.publicKey := by
  intro message hverify
  rcases verify_votingSuite.mp hverify with ⟨-, heq⟩ | ⟨hkey, -⟩
  · exact otherSignature_ne message ((sign_otherKeyPair message).symm.trans heq)
  · exact absurd hkey (by decide)

theorem chacha20Poly1305_votingSuite (key : ByteArr 32) (nonce : ByteArr 12) (plaintext : Bytes) :
    votingSuite.chacha20Poly1305 key nonce plaintext =
      .ok (ChaCha20Poly1305.encrypt key nonce plaintext) :=
  rfl

/-- An election of two candidates. -/
def election : Election where
  id := ⟨List.Vector.replicate 16 1⟩
  candidates := [⟨"c1"⟩, ⟨"c2"⟩]
  startTime := 1000
  endTime := 9999999999
  authorityKey := key

/-- Another election. -/
def otherElection : Election := { election with id := ⟨List.Vector.replicate 16 2⟩ }

/-- The voter of `keyPair`. -/
def voter : Voter := ⟨⟨List.Vector.replicate 32 7⟩, key⟩

def otherVoterId : VoterId := ⟨List.Vector.replicate 32 8⟩

/-- A vote for the first candidate. -/
def ballot : Ballot where
  ballotId := ⟨List.Vector.replicate 32 3⟩
  electionId := election.id
  ballotType := .singleChoice
  choices := [⟨"c1", none, none⟩]
  timestamp := 2000
  version := 1

def castDraw : CastBallot.Draw := ⟨List.Vector.replicate 12 1, List.Vector.replicate 32 2, 2000⟩

def electionKey : EncryptionKey := ⟨List.Vector.replicate 32 9⟩

/-- The ballot, cast. -/
def castBallot : CastBallot :=
  let encryptedBallot := EncryptedData.new castDraw.nonce
    (ChaCha20Poly1305.encrypt electionKey.key castDraw.nonce (encodeBallot ballot))
  let ballotCommitment :=
    (Commitment.new votingSuite.toSuite (encodeBallot ballot) castDraw.randomness.toList).value
  { ballotId := ballot.ballotId
    electionId := ballot.electionId
    voterId := voter.id
    encryptedBallot
    ballotCommitment
    voterSignature := votingSuite.ed25519Sign keyPair.privateKey
      (CastBallot.computeMessage votingSuite ballot.ballotId ballot.electionId voter.id
        encryptedBallot ballotCommitment)
    castAt := 2000
    transactionId := none }

theorem create_castBallot :
    CastBallot.create votingSuite castDraw ballot voter.id electionKey keyPair = .ok castBallot :=
  rfl

-- what is signed there is the first message of the table
example : castBallot.message votingSuite = castMessage := by
  decide +kernel

/-- That cast ballot in a submission in another voter's name, by the same key. -/
def foreignSubmission : VoteSubmission where
  voterId := otherVoterId
  castBallot := castBallot
  submissionSignature := votingSuite.ed25519Sign keyPair.privateKey
    (VoteSubmission.computeMessage votingSuite otherVoterId castBallot 2003)
  submittedAt := 2003

theorem create_foreignSubmission :
    VoteSubmission.create votingSuite 2003 otherVoterId castBallot keyPair =
      .ok foreignSubmission :=
  rfl

end Reference

namespace VoteCaster
open Reference (votingSuite otherElection otherVoterId foreignSubmission)

/-- A voter registered for one election submits the ballot that somebody else has cast
in another, and it is recorded. -/
theorem foreign_ballot_recorded :
    ∃ voteRecord,
      (run votingSuite otherElection
        [.register otherVoterId,
          .vote (.submit 2003 ⟨List.Vector.replicate 32 4⟩ foreignSubmission
            Reference.key)]).getVoteRecord otherVoterId = some voteRecord ∧
      voteRecord.castBallot.voterId ≠ otherVoterId ∧
      voteRecord.castBallot.electionId ≠ otherElection.id := by
  have hverify : foreignSubmission.verify votingSuite Reference.key = .ok () :=
    (VoteSubmission.verify_create Reference.accepts_keyPair
      (CastBallot.verify_create Reference.accepts_keyPair Reference.create_castBallot)
      Reference.create_foreignSubmission).2
  have hacc : Accepts votingSuite (step votingSuite (new otherElection) (.register otherVoterId))
      (.submit 2003 ⟨List.Vector.replicate 32 4⟩ foreignSubmission Reference.key)
      Reference.castBallot :=
    ⟨Finset.mem_insert_self _ _, Finmap.notMem_empty, by decide,
      castBallot_submit.mpr ⟨hverify, rfl⟩⟩
  refine ⟨⟨otherVoterId, Reference.castBallot, 2003⟩, ?_, by decide, by decide⟩
  rw [run, Runs.run_cons, Runs.run_cons, Runs.run_nil, step_of_accepts hacc]
  exact Finmap.lookup_insert _

end VoteCaster

end VotingChain
