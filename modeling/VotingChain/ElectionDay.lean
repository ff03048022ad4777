/-
# `VotingChain.ElectionDay` — from the voter to the count

The parts of `voting/src/vote_casting.rs`, `voting/src/ballot.rs` and `crypto/src/encryption.rs`
that a ballot passes on its way, put together.  A voter visits the caster of an election in one
of two ways,

    in person    cast_vote
    remotely     VotingSession::new, set_ballot, submit; then submit_vote

and once the election is over `all_cast_ballots` hands out what was cast, to be decrypted with
the key of the election and deserialised.

What comes out are the ballots that went in, those of the visits that returned `Ok`, and no
others; they are of different voters; and every voter who was registered and made one proper
visit is among them (`ballots_counted`).  What a visitor sends is in his own name here: of what
others send in it, see `VoteCaster.records_belong_iff`.
-/
import VotingChain.BallotPrivacy
import VotingChain.Lib.Maps
import VotingChain.Verification

namespace VotingChain

/-- The algorithms with the cipher and `bincode` in both directions. -/
structure BallotSuite extends VotingSuite, AeadSuite where
  /-- `bincode::deserialize` of a ballot, which may fail, with a text. -/
  bincodeBallot : Bytes → Except String Ballot

def Ballot.deserialize (S : BallotSuite) (data : Bytes) : Result Ballot :=
  match S.bincodeBallot data with
  | .error e => fail (.serializationError ("Failed to deserialize: " ++ e))
  | .ok ballot => .ok ballot

/-- Decrypt a cast ballot and read it. -/
def CastBallot.opened (S : BallotSuite) (electionKey : EncryptionKey) (castBallot : CastBallot) :
    Result Ballot := do
  let data ← decrypt S.toAeadSuite castBallot.encryptedBallot electionKey
  Ballot.deserialize S data

namespace VoteCaster

def hasVoted (caster : VoteCaster) (voterId : VoterId) : Bool := decide (voterId ∈ caster.votesCast)

def allCastBallots (order : MapOrder VoterId VoteRecord) (caster : VoteCaster) : List CastBallot :=
  (order.values caster.votesCast).map fun record => record.castBallot

end VoteCaster

/-! ## Visits -/

/-- A voter's visit, with what is drawn and what the clock says. -/
inductive Visit
  | inPerson (now : Timestamp) (draw : CastBallot.Draw) (receiptId : ReceiptId) (voter : Voter)
      (ballot : Ballot) (keypair : KeyPair)
  | remote (startedAt : Timestamp) (electionId : ElectionId) (draw : VotingSession.Draw)
      (now : Timestamp) (receiptId : ReceiptId) (voter : Voter) (ballot : Ballot)
      (keypair : KeyPair) (publicKey : PublicKey)

namespace Visit

def voterId : Visit → VoterId
  | .inPerson _ _ _ voter _ _ => voter.id
  | .remote _ _ _ _ _ voter _ _ _ => voter.id

def ballot : Visit → Ballot
  | .inPerson _ _ _ _ ballot _ => ballot
  | .remote _ _ _ _ _ _ ballot _ _ => ballot

/-- When the vote is cast. -/
def now : Visit → Timestamp
  | .inPerson now _ _ _ _ _ => now
  | .remote _ _ _ now _ _ _ _ _ => now

variable (S : BallotSuite) (electionKey : EncryptionKey)

/-- The session of a remote voter, from its start to the submission. -/
def session [Hex] (startedAt : Timestamp) (electionId : ElectionId) (draw : VotingSession.Draw)
    (voter : Voter) (ballot : Ballot) (keypair : KeyPair) : Result (VoteSubmission × VoteReceipt) :=
  match (VotingSession.setBallot ballot).exec (VotingSession.new startedAt electionId voter) with
  | (.ok _, session) => session.submit S.toVotingSuite draw keypair electionKey
  | (.error e, _) => .error e

def attend [Hex] : Visit → Exec VoteCaster VoteReceipt
  | .inPerson now draw receiptId voter ballot keypair =>
      VoteCaster.castVote S.toVotingSuite now draw receiptId voter ballot keypair electionKey
  | .remote startedAt electionId draw now receiptId voter ballot keypair publicKey => do
      let (submission, _) ←
        Exec.lift (session S electionKey startedAt electionId draw voter ballot keypair)
      VoteCaster.submitVote S.toVotingSuite now receiptId submission publicKey

/-- The ballot is for the election and in order, it can be encrypted, and the signatures of the
voter verify under the key that is given for him. -/
def Proper (election : Election) : Visit → Prop
  | .inPerson now draw _ _ ballot _ =>
      election.isActive now = true ∧ ballot.electionId = election.id ∧ ballot.validate = .ok () ∧
      ∃ encrypted, encrypt S.toSuite draw.nonce (S.bincode ballot) electionKey = .ok encrypted
  | .remote _ electionId draw now _ _ ballot keypair publicKey =>
      election.isActive now = true ∧ ballot.electionId = electionId ∧
      S.Accepts keypair publicKey ∧
      ∃ encrypted,
        encrypt S.toSuite draw.cast.nonce (S.bincode ballot) electionKey = .ok encrypted

end Visit

/-- What happens at the caster. -/
inductive ElectionEvent
  | register (voterId : VoterId)
  | visit (visit : Visit)

section
variable (S : BallotSuite) (electionKey : EncryptionKey)

def VoteCaster.event [Hex] (caster : VoteCaster) : ElectionEvent → VoteCaster
  | .register voterId => caster.registerVoter voterId
  | .visit visit => (visit.attend S electionKey).next caster

/-- The voter and the ballot of a visit that returned `Ok`. -/
def VoteCaster.counted [Hex] (caster : VoteCaster) : ElectionEvent → List (VoterId × Ballot)
  | .register _ => []
  | .visit visit =>
      match ((visit.attend S electionKey).exec caster).1 with
      | .ok _ => [(visit.voterId, visit.ballot)]
      | .error _ => []

/-- The caster at the end of the day. -/
def VoteCaster.day [Hex] (election : Election) (events : List ElectionEvent) : VoteCaster :=
  Runs.run (VoteCaster.event S electionKey) (VoteCaster.new election) events

/-- The voters and the ballots of all visits that returned `Ok`. -/
def VoteCaster.accepted [Hex] (election : Election) (events : List ElectionEvent) :
    List (VoterId × Ballot) :=
  Runs.trace (VoteCaster.event S electionKey) (VoteCaster.counted S electionKey)
    (VoteCaster.new election) events

end

/-! ## One ballot -/

section
variable {S : BallotSuite} {electionKey : EncryptionKey}

theorem CastBallot.opened_create (hopens : S.toAeadSuite.Opens) {draw : CastBallot.Draw}
    {ballot : Ballot} {voterId : VoterId} {keypair : KeyPair} {castBallot : CastBallot}
    (hdecode : S.bincodeBallot (S.bincode ballot) = .ok ballot)
    (h : create S.toVotingSuite draw ballot voterId electionKey keypair = .ok castBallot) :
    castBallot.opened S electionKey = .ok ballot := by
  simp only [create, bind_eq_ok] at h
  obtain ⟨encryptedBallot, hencrypt, _, -, hpure⟩ := h
  cases hpure
  have hdecrypt : decrypt S.toAeadSuite encryptedBallot electionKey = .ok (S.bincode ballot) :=
    decrypt_encrypt hopens hencrypt
  refine bind_eq_ok.mpr ⟨_, hdecrypt, ?_⟩
  simp only [Ballot.deserialize, hdecode]

theorem CastBallot.create_of_encrypt {draw : CastBallot.Draw} {ballot : Ballot} {voterId : VoterId}
    {keypair : KeyPair} {encrypted : EncryptedData}
    (h : encrypt S.toSuite draw.nonce (S.bincode ballot) electionKey = .ok encrypted) :
    ∃ castBallot, create S.toVotingSuite draw ballot voterId electionKey keypair =
      .ok castBallot := by
  simp only [create, bind_eq_ok]
  exact ⟨_, encrypted, h, _, rfl, rfl⟩

namespace Visit

/-- What a session leads to: the ballot, cast and submitted in the voter's name. -/
theorem session_eq_ok [Hex] {startedAt : Timestamp} {electionId : ElectionId}
    {draw : VotingSession.Draw} {voter : Voter} {ballot : Ballot} {keypair : KeyPair}
    {submission : VoteSubmission} {receipt : VoteReceipt}
    (h : session S electionKey startedAt electionId draw voter ballot keypair =
      .ok (submission, receipt)) :
    CastBallot.create S.toVotingSuite draw.cast ballot voter.id electionKey keypair =
        .ok submission.castBallot ∧
      VoteSubmission.create S.toVotingSuite draw.submittedAt voter.id submission.castBallot
        keypair = .ok submission := by
  rw [session] at h
  split at h
  · next session hset =>
      rw [VotingSession.setBallot_eq_ok hset] at h
      simp only [VotingSession.submit, VotingSession.new, bind_eq_ok] at h
      obtain ⟨_, -, castBallot, hcast, submission', hsubmission, hpure⟩ := h
      cases hpure
      cases hsubmission
      exact ⟨hcast, rfl⟩
  · cases h

theorem session_of_encrypt [Hex] {startedAt : Timestamp} {electionId : ElectionId}
    {draw : VotingSession.Draw} {voter : Voter} {ballot : Ballot} {keypair : KeyPair}
    {encrypted : EncryptedData} (helection : ballot.electionId = electionId)
    (h : encrypt S.toSuite draw.cast.nonce (S.bincode ballot) electionKey = .ok encrypted) :
    ∃ submission receipt,
      session S electionKey startedAt electionId draw voter ballot keypair =
        .ok (submission, receipt) := by
  have hcreate : ∃ castBallot, CastBallot.create S.toVotingSuite draw.cast ballot voter.id
      electionKey keypair = .ok castBallot := CastBallot.create_of_encrypt h
  obtain ⟨castBallot, hcast⟩ := hcreate
  rw [session, VotingSession.setBallot_new helection]
  simp only [VotingSession.submit, ensure, decide_true, if_true, hcast]
  exact ⟨_, _, rfl⟩

theorem verify_submission {draw : CastBallot.Draw} {ballot : Ballot} {voterId : VoterId}
    {keypair : KeyPair} {publicKey : PublicKey} {now : Timestamp} {submission : VoteSubmission}
    (haccepts : S.Accepts keypair publicKey)
    (hcast : CastBallot.create S.toVotingSuite draw ballot voterId electionKey keypair =
      .ok submission.castBallot)
    (hsubmission : VoteSubmission.create S.toVotingSuite now voterId submission.castBallot
      keypair = .ok submission) :
    submission.verify S.toVotingSuite publicKey = .ok () := by
  obtain ⟨-, -, -, hsignature⟩ := CastBallot.create_eq_ok hcast
  have hballot : submission.castBallot.verify S.toVotingSuite publicKey = .ok () := by
    rw [CastBallot.verify, hsignature]
    exact haccepts _
  refine bind_eq_ok.mpr ⟨(), hballot, ?_⟩
  have hmade := (Except.ok.inj hsubmission).symm
  have hvoter : submission.voterId = voterId := congrArg VoteSubmission.voterId hmade
  have htime : submission.submittedAt = now := congrArg VoteSubmission.submittedAt hmade
  have hsigned : submission.submissionSignature = S.ed25519Sign keypair.privateKey
      (VoteSubmission.computeMessage S.toVotingSuite voterId submission.castBallot now) :=
    congrArg VoteSubmission.submissionSignature hmade
  rw [hsigned, hvoter, htime]
  exact haccepts _

variable (S electionKey) in
/-- The call of a visit that votes, if the voter gets that far. -/
def vote [Hex] : Visit → Result VoteCaster.Vote
  | .inPerson now draw receiptId voter ballot keypair =>
      .ok (.cast now draw receiptId voter ballot keypair electionKey)
  | .remote startedAt electionId draw now receiptId voter ballot keypair publicKey => do
      let (submission, _) ← session S electionKey startedAt electionId draw voter ballot keypair
      return .submit now receiptId submission publicKey

theorem exec_attend [Hex] (visit : Visit) (caster : VoteCaster) :
    (visit.attend S electionKey).exec caster =
      match visit.vote S electionKey with
      | .error e => (.error e, caster)
      | .ok vote => (vote.perform S.toVotingSuite).exec caster := by
  cases visit with
  | inPerson now draw receiptId voter ballot keypair => rfl
  | remote startedAt electionId draw now receiptId voter ballot keypair publicKey =>
      rw [attend, Exec.exec_lift_bind, vote]
      cases session S electionKey startedAt electionId draw voter ballot keypair <;> rfl

theorem casts_of_vote [Hex] {visit : Visit} {vote : VoteCaster.Vote}
    (h : visit.vote S electionKey = .ok vote) :
    vote.voterId = visit.voterId ∧ vote.now = visit.now ∧
    ∀ election castBallot, vote.castBallot S.toVotingSuite election = .ok castBallot →
      ∃ draw keypair, CastBallot.create S.toVotingSuite draw visit.ballot visit.voterId
        electionKey keypair = .ok castBallot := by
  cases visit with
  | inPerson now draw receiptId voter ballot keypair =>
      cases h
      refine ⟨rfl, rfl, fun election castBallot hcast => ?_⟩
      simp only [VoteCaster.Vote.castBallot, bind_eq_ok] at hcast
      obtain ⟨_, -, _, -, hcreate⟩ := hcast
      exact ⟨draw, keypair, hcreate⟩
  | remote startedAt electionId draw now receiptId voter ballot keypair publicKey =>
      simp only [Visit.vote, bind_eq_ok] at h
      obtain ⟨⟨submission, receipt⟩, hsession, hpure⟩ := h
      cases hpure
      obtain ⟨hcast, hsubmission⟩ := session_eq_ok hsession
      refine ⟨congrArg VoteSubmission.voterId (Except.ok.inj hsubmission).symm, rfl, ?_⟩
      intro election castBallot hvote
      obtain ⟨-, rfl⟩ := VoteCaster.castBallot_submit.mp hvote
      exact ⟨draw.cast, keypair, hcast⟩

variable (electionKey) in
/-- **What a visit does**: it returns a receipt, and a ballot that opens as the voter's is
stored in his name, or it fails and changes nothing. -/
theorem attend_cases [Hex] (hopens : S.toAeadSuite.Opens) {visit : Visit}
    (hdecode : S.bincodeBallot (S.bincode visit.ballot) = .ok visit.ballot) (caster : VoteCaster) :
    (∃ receipt record, visit.voterId ∉ caster.votesCast ∧ record.voterId = visit.voterId ∧
      record.castBallot.opened S electionKey = .ok visit.ballot ∧
      (visit.attend S electionKey).exec caster = (.ok receipt, caster.store record)) ∨
    ∃ e, (visit.attend S electionKey).exec caster = (.error e, caster) := by
  rw [exec_attend]
  cases hvote : visit.vote S electionKey with
  | error e => exact Or.inr ⟨e, rfl⟩
  | ok vote =>
      obtain ⟨hvoter, -, hcasts⟩ := casts_of_vote hvote
      rcases VoteCaster.perform_cases (S := S.toVotingSuite) vote caster with
        ⟨castBallot, receipt, hacc, hexec⟩ | ⟨-, e, hexec⟩
      · obtain ⟨draw, keypair, hcreate⟩ := hcasts _ _ hacc.casts
        refine Or.inl ⟨receipt, ⟨vote.voterId, castBallot, vote.now⟩, ?_, hvoter, ?_, hexec⟩
        · rw [← hvoter]
          exact hacc.fresh
        · exact CastBallot.opened_create hopens hdecode hcreate
      · exact Or.inr ⟨e, hexec⟩

theorem attend_of_proper [Hex] {visit : Visit} {caster : VoteCaster}
    (hproper : visit.Proper S electionKey caster.election)
    (hregistered : visit.voterId ∈ caster.voterRegistry)
    (hfresh : visit.voterId ∉ caster.votesCast) :
    ∃ receipt caster', (visit.attend S electionKey).exec caster = (.ok receipt, caster') := by
  have haccepts : ∃ vote castBallot, visit.vote S electionKey = .ok vote ∧
      VoteCaster.Accepts S.toVotingSuite caster vote castBallot := by
    cases visit with
    | inPerson now draw receiptId voter ballot keypair =>
        obtain ⟨hactive, helection, hvalid, encrypted, hencrypt⟩ := hproper
        have hcreate : ∃ castBallot, CastBallot.create S.toVotingSuite draw ballot voter.id
            electionKey keypair = .ok castBallot := CastBallot.create_of_encrypt hencrypt
        obtain ⟨castBallot, hcast⟩ := hcreate
        refine ⟨_, castBallot, rfl, hregistered, hfresh, hactive, ?_⟩
        simp only [VoteCaster.Vote.castBallot, bind_eq_ok, ensure_eq_ok, decide_eq_true_eq]
        exact ⟨(), helection, (), hvalid, hcast⟩
    | remote startedAt electionId draw now receiptId voter ballot keypair publicKey =>
        obtain ⟨hactive, helection, hkey, encrypted, hencrypt⟩ := hproper
        have hsession : ∃ submission receipt, session S electionKey startedAt electionId draw voter
            ballot keypair = .ok (submission, receipt) := session_of_encrypt helection hencrypt
        obtain ⟨submission, receipt, hsession⟩ := hsession
        obtain ⟨hcast, hsubmission⟩ := session_eq_ok hsession
        have hvoter : submission.voterId = voter.id :=
          congrArg VoteSubmission.voterId (Except.ok.inj hsubmission).symm
        refine ⟨.submit now receiptId submission publicKey, submission.castBallot, ?_, ?_, ?_,
          hactive, ?_⟩
        · rw [Visit.vote, hsession]
          rfl
        · rw [VoteCaster.Vote.voterId, hvoter]
          exact hregistered
        · rw [VoteCaster.Vote.voterId, hvoter]
          exact hfresh
        · exact VoteCaster.castBallot_submit.mpr ⟨verify_submission hkey hcast hsubmission, rfl⟩
  obtain ⟨vote, castBallot, hvote, hacc⟩ := haccepts
  rw [exec_attend, hvote]
  rcases VoteCaster.perform_cases (S := S.toVotingSuite) vote caster with
    ⟨castBallot', receipt, -, hexec⟩ | ⟨hnot, -⟩
  · exact ⟨receipt, _, hexec⟩
  · exact absurd hacc (hnot castBallot)

end Visit

end

/-! ## The day -/

namespace VoteCaster
variable {S : BallotSuite} {electionKey : EncryptionKey}

variable (S electionKey) in
/-- What is recorded opens as what was accepted, voter by voter. -/
def Collected (caster : VoteCaster) (accepted : List (VoterId × Ballot)) : Prop :=
  caster.votesCast.entries.map
      (fun entry => (entry.1, entry.2.castBallot.opened S electionKey)) =
    (accepted.map fun voted => (voted.1, Except.ok voted.2) : List (VoterId × Result Ballot))

theorem Collected.step [Hex] (hopens : S.toAeadSuite.Opens) {caster : VoteCaster}
    {accepted : List (VoterId × Ballot)} (h : Collected S electionKey caster accepted)
    {event : ElectionEvent}
    (hdecode : ∀ visit, event = .visit visit →
      S.bincodeBallot (S.bincode visit.ballot) = .ok visit.ballot) :
    Collected S electionKey (caster.event S electionKey event)
      (accepted ++ caster.counted S electionKey event) := by
  cases event with
  | register voterId =>
      rw [counted, List.append_nil]
      exact h
  | visit visit =>
      rcases visit.attend_cases electionKey hopens (hdecode visit rfl) caster with
        ⟨receipt, record, hfresh, hvoter, hopened, hexec⟩ | ⟨e, hexec⟩
      · rw [event, Exec.next_of_ok hexec, counted, hexec]
        rw [← hvoter] at hfresh
        simp only [Collected, store, Finmap.entries_insert_of_notMem hfresh, Multiset.map_cons]
        rw [h, hvoter, hopened, Multiset.cons_coe, Multiset.coe_eq_coe, List.map_append]
        exact (List.perm_append_singleton _ _).symm
      · rw [event, Exec.next_of_error hexec, counted, hexec, List.append_nil]
        exact h

namespace Collected
variable {caster : VoteCaster} {accepted : List (VoterId × Ballot)}

theorem keys_eq (h : Collected S electionKey caster accepted) :
    caster.votesCast.entries.keys = (accepted.map fun voted => voted.1 : List VoterId) := by
  have hfst := congrArg (Multiset.map Prod.fst) h
  rw [Multiset.map_map, Multiset.map_coe, List.map_map] at hfst
  exact hfst

theorem mem_iff (h : Collected S electionKey caster accepted) {v : VoterId} :
    v ∈ caster.votesCast ↔ v ∈ accepted.map fun voted => voted.1 := by
  rw [Finmap.mem_def, h.keys_eq, Multiset.mem_coe]

theorem nodup (h : Collected S electionKey caster accepted) :
    (accepted.map fun voted => voted.1).Nodup := by
  rw [← Multiset.coe_nodup, ← h.keys_eq]
  exact caster.votesCast.nodupKeys.nodup_keys

theorem voteCount_eq (h : Collected S electionKey caster accepted) :
    caster.voteCount = accepted.length := by
  have hcard := congrArg Multiset.card h
  rw [Multiset.card_map, Multiset.coe_card, List.length_map] at hcard
  rw [← hcard]
  exact Multiset.card_map _ _

theorem perm_opened (h : Collected S electionKey caster accepted)
    (order : MapOrder VoterId VoteRecord) :
    ((caster.allCastBallots order).map (CastBallot.opened S electionKey)).Perm
      (accepted.map fun voted => Except.ok voted.2) := by
  have hsnd := congrArg (Multiset.map Prod.snd) h
  rw [Multiset.map_map, Multiset.map_coe, List.map_map] at hsnd
  rw [← Multiset.coe_eq_coe, allCastBallots, ← Multiset.map_coe, ← Multiset.map_coe,
    order.coe_values, Multiset.map_map, Multiset.map_map]
  exact hsnd

end Collected

theorem collected_day [Hex] (hopens : S.toAeadSuite.Opens) (electionKey : EncryptionKey)
    (election : Election)
    {events : List ElectionEvent}
    (hdecode : ∀ visit, .visit visit ∈ events →
      S.bincodeBallot (S.bincode visit.ballot) = .ok visit.ballot) :
    Collected S electionKey (day S electionKey election events)
      (VoteCaster.accepted S electionKey election events) := by
  induction events using List.reverseRecOn with
  | nil => rfl
  | append_singleton events event ih =>
      rw [day, VoteCaster.accepted, Runs.run_concat, Runs.trace_concat]
      refine (ih fun visit hvisit => ?_).step hopens fun visit hvisit => ?_
      · exact hdecode visit (List.mem_append_left _ hvisit)
      · refine hdecode visit (List.mem_append_right _ ?_)
        rw [hvisit]
        exact List.mem_singleton_self _

theorem registered_event [Hex] (hopens : S.toAeadSuite.Opens) (electionKey : EncryptionKey)
    (caster : VoteCaster)
    {event : ElectionEvent}
    (hdecode : ∀ visit, event = .visit visit →
      S.bincodeBallot (S.bincode visit.ballot) = .ok visit.ballot) :
    caster.voterRegistry ⊆ (caster.event S electionKey event).voterRegistry ∧
      (caster.event S electionKey event).election = caster.election := by
  cases event with
  | register voterId => exact ⟨Finset.subset_insert _ _, rfl⟩
  | visit visit =>
      rcases visit.attend_cases electionKey hopens (hdecode visit rfl) caster with
        ⟨receipt, record, -, -, -, hexec⟩ | ⟨e, hexec⟩
      · rw [event, Exec.next_of_ok hexec]
        exact ⟨Finset.Subset.refl _, rfl⟩
      · rw [event, Exec.next_of_error hexec]
        exact ⟨Finset.Subset.refl _, rfl⟩

theorem registered_day [Hex] (hopens : S.toAeadSuite.Opens) (electionKey : EncryptionKey)
    (election : Election)
    {events : List ElectionEvent}
    (hdecode : ∀ visit, .visit visit ∈ events →
      S.bincodeBallot (S.bincode visit.ballot) = .ok visit.ballot) :
    (∀ v, .register v ∈ events → v ∈ (day S electionKey election events).voterRegistry) ∧
      (day S electionKey election events).election = election := by
  induction events using List.reverseRecOn with
  | nil => exact ⟨fun v hv => absurd hv List.not_mem_nil, rfl⟩
  | append_singleton events event ih =>
      have hlast : ∀ visit, event = .visit visit →
          S.bincodeBallot (S.bincode visit.ballot) = .ok visit.ballot := by
        intro visit hvisit
        refine hdecode visit (List.mem_append_right _ ?_)
        rw [hvisit]
        exact List.mem_singleton_self _
      obtain ⟨hregistered, helection⟩ :=
        ih fun visit hvisit => hdecode visit (List.mem_append_left _ hvisit)
      obtain ⟨hsub, hsame⟩ := registered_event hopens electionKey
        (day S electionKey election events) hlast
      rw [day, Runs.run_concat]
      refine ⟨fun v hv => ?_, hsame.trans helection⟩
      rcases List.mem_append.mp hv with hv | hv
      · exact hsub (hregistered v hv)
      · rw [← List.mem_singleton.mp hv]
        exact Finset.mem_insert_self _ _

/-- **What was voted is what is counted.**  After any run of registrations and visits, whatever
order the records are listed in: all cast ballots decrypt and deserialise, to the ballots of the
visits that returned `Ok`, one for each; no voter is among them twice; and every voter who was
registered before a proper visit is among them. -/
theorem ballots_counted [Hex] (hopens : S.toAeadSuite.Opens) (election : Election)
    (electionKey : EncryptionKey) {events : List ElectionEvent}
    (hdecode : ∀ visit, .visit visit ∈ events →
      S.bincodeBallot (S.bincode visit.ballot) = .ok visit.ballot)
    (order : MapOrder VoterId VoteRecord) :
    (((day S electionKey election events).allCastBallots order).map
        (CastBallot.opened S electionKey)).Perm
      ((VoteCaster.accepted S electionKey election events).map fun voted => .ok voted.2) ∧
    ((VoteCaster.accepted S electionKey election events).map fun voted => voted.1).Nodup ∧
    (day S electionKey election events).voteCount =
      (VoteCaster.accepted S electionKey election events).length ∧
    ∀ before visit after, events = before ++ .visit visit :: after →
      .register visit.voterId ∈ before → visit.Proper S electionKey election →
      (day S electionKey election events).hasVoted visit.voterId = true := by
  have hday := collected_day hopens electionKey election hdecode
  refine ⟨hday.perm_opened order, hday.nodup, hday.voteCount_eq, ?_⟩
  intro before visit after hevents hbefore hproper
  have hdecode' : ∀ visit, .visit visit ∈ before →
      S.bincodeBallot (S.bincode visit.ballot) = .ok visit.ballot := by
    intro visit hvisit
    refine hdecode visit ?_
    rw [hevents]
    exact List.mem_append_left _ hvisit
  have hcollected := collected_day hopens electionKey election hdecode'
  obtain ⟨hregistered, helection⟩ :=
    registered_day hopens electionKey election hdecode'
  rw [hasVoted, decide_eq_true_iff, hday.mem_iff, hevents, VoteCaster.accepted, Runs.trace_append,
    List.map_append, List.mem_append]
  by_cases hfresh : visit.voterId ∈ (day S electionKey election before).votesCast
  · exact Or.inl (hcollected.mem_iff.mp hfresh)
  · -- it is this visit that is counted
    rw [← helection] at hproper
    obtain ⟨receipt, caster', hexec⟩ := Visit.attend_of_proper hproper
      (hregistered visit.voterId hbefore) hfresh
    have hcounted : (day S electionKey election before).counted S electionKey (.visit visit) =
        [(visit.voterId, visit.ballot)] := by
      rw [counted, hexec]
    right
    rw [Runs.trace]
    rw [day] at hcounted
    rw [hcounted]
    exact List.mem_map_of_mem (List.mem_append_left _ (List.mem_singleton_self _))

end VoteCaster

namespace Reference

/-- A vote for the second candidate. -/
def otherBallot : Ballot :=
  { ballot with
    ballotId := ⟨List.Vector.replicate 32 5⟩
    choices := [⟨"c2", none, none⟩]
    timestamp := 2400 }

/-- The algorithms of the program; of the ballots, only two are read. -/
def ballotSuite : BallotSuite :=
  { votingSuite, aeadSuite with
    bincodeBallot := fun data =>
      if data = encodeBallot ballot then .ok ballot
      else if data = encodeBallot otherBallot then .ok otherBallot
      else .error "invalid ballot" }

theorem bincodeBallot_ballot : ballotSuite.bincodeBallot (encodeBallot ballot) = .ok ballot := by
  simp [ballotSuite]

theorem bincodeBallot_otherBallot :
    ballotSuite.bincodeBallot (encodeBallot otherBallot) = .ok otherBallot := by
  have hne : encodeBallot otherBallot ≠ encodeBallot ballot := by decide +kernel
  simp [ballotSuite, hne]

theorem opens_ballotSuite : ballotSuite.toAeadSuite.Opens := opens_aeadSuite

/-- One voter votes from home. -/
def remoteVisit : Visit :=
  .remote 1500 election.id sessionDraw 2100 ⟨List.Vector.replicate 32 4⟩ voter ballot keyPair key

/-- The other one comes in person. -/
def visit : Visit :=
  .inPerson 2500 ⟨List.Vector.replicate 12 2, List.Vector.replicate 32 4, 2500⟩
    ⟨List.Vector.replicate 32 6⟩ ⟨otherVoterId, otherKeyPair.publicKey⟩ otherBallot otherKeyPair

/-- Both vote, and one of them tries it once more. -/
def electionEvents : List ElectionEvent :=
  [.register voter.id, .visit remoteVisit, .register otherVoterId, .visit visit,
    .visit remoteVisit]

end Reference

namespace VoteCaster
open Reference (ballotSuite electionEvents voter otherVoterId visit remoteVisit)

theorem ballots_counted_visit :
    (((day ballotSuite Reference.electionKey Reference.election electionEvents).allCastBallots
        default).map (CastBallot.opened ballotSuite Reference.electionKey)).Perm
      ((VoteCaster.accepted ballotSuite Reference.electionKey Reference.election electionEvents).map
        fun voted => .ok voted.2) ∧
    ((VoteCaster.accepted ballotSuite Reference.electionKey Reference.election
      electionEvents).map fun voted => voted.1).Nodup ∧
    (day ballotSuite Reference.electionKey Reference.election electionEvents).hasVoted voter.id =
      true ∧
    (day ballotSuite Reference.electionKey Reference.election electionEvents).hasVoted
      otherVoterId = true := by
  have hdecode : ∀ visit', .visit visit' ∈ electionEvents →
      ballotSuite.bincodeBallot (ballotSuite.bincode visit'.ballot) = .ok visit'.ballot := by
    intro visit' h
    have hvisit : visit' = remoteVisit ∨ visit' = visit ∨ visit' = remoteVisit := by
      simpa [electionEvents] using h
    rcases hvisit with rfl | rfl | rfl
    · exact Reference.bincodeBallot_ballot
    · exact Reference.bincodeBallot_otherBallot
    · exact Reference.bincodeBallot_ballot
  have hremote : remoteVisit.Proper ballotSuite Reference.electionKey Reference.election :=
    ⟨by decide, rfl, Reference.accepts_keyPair, _, rfl⟩
  have hproper : visit.Proper ballotSuite Reference.electionKey Reference.election :=
    ⟨by decide, rfl, rfl, _, rfl⟩
  obtain ⟨hperm, hnodup, -, hvoted⟩ := ballots_counted Reference.opens_ballotSuite
    Reference.election Reference.electionKey hdecode default
  refine ⟨hperm, hnodup, ?_, ?_⟩
  · exact hvoted [.register voter.id] remoteVisit [.register otherVoterId, .visit visit,
      .visit remoteVisit] rfl List.mem_cons_self hremote
  · exact hvoted [.register voter.id, .visit remoteVisit, .register otherVoterId] visit
      [.visit remoteVisit] rfl (by simp [Visit.voterId, visit]) hproper

end VoteCaster

end VotingChain
