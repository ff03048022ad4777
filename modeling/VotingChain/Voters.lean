/-
# `VotingChain.Voters` — the status of a voter

The model of `Voter` in `voting/src/voter.rs`, with the check of a voter's eligibility in
`verification.rs`.  `Voter` is the part of a voter that stays; a `VoterState` has the rest.

There are five statuses.  `verify` asks for one of them and `register` refuses one of them,
so what the two do to the other statuses is

              unregistered   registered   verified     suspended    revoked
    register  registered     (refused)    registered   registered   registered
    verify    (nothing)      verified     (nothing)    (nothing)    (nothing)

while `suspend` and `revoke` overwrite whatever is there.  So the one way back from a
revocation is `register`, and it is always open (`VoterState.revocation_final_iff`).
-/
import VotingChain.Registration
import VotingChain.Verification
import VotingChain.Lib.Runs

namespace VotingChain

/-- The credentials have not expired. -/
def VoterCredentials.isValid (credentials : VoterCredentials) (currentTime : Timestamp) : Bool :=
  match credentials.expiresAt with
  | some expiresAt => decide (currentTime < expiresAt)
  | none => true

inductive VoterStatus where
  | unregistered
  | registered
  | verified
  | suspended (reason : String)
  | revoked
  deriving DecidableEq

/-- A voter, with what changes. -/
structure VoterState extends Voter where
  status : VoterStatus
  credentials : Option VoterCredentials
  electionsVoted : Finset ElectionId
  deriving DecidableEq

namespace VoterState

/-- A voter who is not registered. -/
def new (voter : Voter) : VoterState where
  toVoter := voter
  status := .unregistered
  credentials := none
  electionsVoted := ∅

def withCredentials (voter : Voter) (credentials : VoterCredentials) : VoterState :=
  { new voter with
    credentials := some credentials
    status := .registered }

def register (credentials : VoterCredentials) : Exec VoterState Unit := do
  Exec.lift (ensure (decide ((← get).status ≠ .registered))
    (.invalidInput "Voter already registered"))
  modify fun voter =>
    { voter with
      credentials := some credentials
      status := .registered }

def isRegistered (voter : VoterState) : Bool :=
  match voter.status with
  | .registered => true
  | .verified => true
  | _ => false

def hasVoted (voter : VoterState) (electionId : ElectionId) : Bool :=
  decide (electionId ∈ voter.electionsVoted)

def isEligible (voter : VoterState) (electionId : ElectionId) : Bool :=
  voter.isRegistered && !voter.hasVoted electionId

def markVoted (electionId : ElectionId) : Exec VoterState Unit := do
  Exec.lift (ensure (!(← get).hasVoted electionId) .alreadyVoted)
  modify fun voter => { voter with electionsVoted := insert electionId voter.electionsVoted }

def revoke (voter : VoterState) : VoterState := { voter with status := .revoked }

def verify (voter : VoterState) : VoterState :=
  if voter.status = .registered then { voter with status := .verified } else voter

def suspend (reason : String) (voter : VoterState) : VoterState :=
  { voter with status := .suspended reason }

/-! ## What the calls do -/

theorem exec_register (credentials : VoterCredentials) (voter : VoterState) :
    (voter.status ≠ .registered ∧ (register credentials).exec voter =
      (.ok (), { voter with credentials := some credentials, status := .registered })) ∨
    (voter.status = .registered ∧
      (register credentials).exec voter =
        (fail (.invalidInput "Voter already registered"), voter)) := by
  rw [register, Exec.exec_get_bind, Exec.exec_lift_bind]
  by_cases h : voter.status = .registered
  · rw [decide_eq_false (not_not.mpr h)]
    exact Or.inr ⟨h, rfl⟩
  · rw [decide_eq_true h]
    exact Or.inl ⟨h, rfl⟩

theorem exec_markVoted (electionId : ElectionId) (voter : VoterState) :
    (electionId ∉ voter.electionsVoted ∧ (markVoted electionId).exec voter =
      (.ok (), { voter with electionsVoted := insert electionId voter.electionsVoted })) ∨
    (electionId ∈ voter.electionsVoted ∧
      (markVoted electionId).exec voter = (fail .alreadyVoted, voter)) := by
  rw [markVoted, Exec.exec_get_bind, Exec.exec_lift_bind, hasVoted]
  by_cases h : electionId ∈ voter.electionsVoted
  · rw [decide_eq_true h]
    exact Or.inr ⟨h, rfl⟩
  · rw [decide_eq_false h]
    exact Or.inl ⟨h, rfl⟩

theorem isRegistered_iff {voter : VoterState} :
    voter.isRegistered = true ↔ voter.status = .registered ∨ voter.status = .verified := by
  rw [isRegistered]
  cases voter.status <;> simp

/-- A call on a voter. -/
inductive Call where
  | register (credentials : VoterCredentials)
  | verify
  | suspend (reason : String)
  | markVoted (electionId : ElectionId)

/-- The voter after a call. -/
def step (voter : VoterState) : Call → VoterState
  | .register credentials => (VoterState.register credentials).next voter
  | .verify => voter.verify
  | .suspend reason => voter.suspend reason
  | .markVoted electionId => (VoterState.markVoted electionId).next voter

/-- The call is `register`. -/
def Call.IsRegister (call : Call) : Prop := ∃ credentials, call = .register credentials

end VoterState

/-! ## Eligibility -/

namespace VoteVerifier

/-- `now` is what the clock says. -/
def verifyVoterEligibility (now : Timestamp) (verifier : VoteVerifier) (voter : VoterState)
    (currentTime : Timestamp) : Result VerificationResult := do
  let result := VerificationResult.new now voter.id
  if !voter.isRegistered then return result.addError "Voter is not registered"
  match voter.credentials with
  | some credentials =>
    if !credentials.isValid currentTime then
      return result.addError "Voter credentials have expired"
    if voter.hasVoted verifier.election.id then
      return result.addError "Voter has already voted in this election"
    return result.markValid
  | none => return result.addError "Voter has no credentials"

theorem not_isValid_addError (result : VerificationResult) (error : String) :
    ¬∃ result', (.ok (result.addError error) : Result VerificationResult) = .ok result' ∧
      result'.isValid = true := by
  rintro ⟨result', hresult, hvalid⟩
  obtain rfl := Except.ok.inj hresult
  cases hvalid

/-- **Who may vote**: a registered voter with credentials that have not expired, who has
not voted in the election. -/
theorem verifyVoterEligibility_isValid_iff (now : Timestamp) (verifier : VoteVerifier)
    (voter : VoterState) (currentTime : Timestamp) :
    (∃ result, verifier.verifyVoterEligibility now voter currentTime = .ok result ∧
      result.isValid = true) ↔
    voter.isEligible verifier.election.id = true ∧
      ∃ credentials, voter.credentials = some credentials ∧
        credentials.isValid currentTime = true := by
  rw [verifyVoterEligibility, VoterState.isEligible]
  cases hregistered : voter.isRegistered with
  | false =>
      exact iff_of_false (not_isValid_addError _ _) fun h => Bool.false_ne_true h.1
  | true =>
      cases hcredentials : voter.credentials with
      | none =>
          refine iff_of_false (not_isValid_addError _ _) ?_
          rintro ⟨-, credentials, hnone, -⟩
          cases hnone
      | some credentials =>
          simp only [Option.some.injEq, exists_eq_left']
          cases hexpired : credentials.isValid currentTime with
          | false => exact iff_of_false (not_isValid_addError _ _) fun h => Bool.false_ne_true h.2
          | true =>
              cases hvoted : voter.hasVoted verifier.election.id with
              | true =>
                  exact iff_of_false (not_isValid_addError _ _) fun h => Bool.false_ne_true h.1
              | false => exact iff_of_true ⟨_, rfl, rfl⟩ ⟨rfl, rfl⟩

end VoteVerifier

/-! ## Revocation -/

namespace VoterState

/-- The voter cannot vote: not registered, eligible for no election, and found valid by no
verifier at no time. -/
structure ShutOut (voter : VoterState) : Prop where
  notRegistered : voter.isRegistered = false
  notEligible : ∀ electionId, voter.isEligible electionId = false
  notValid : ∀ now (verifier : VoteVerifier) currentTime result,
    verifier.verifyVoterEligibility now voter currentTime = .ok result → result.isValid = false

theorem shutOut_iff {voter : VoterState} : voter.ShutOut ↔ voter.isRegistered = false := by
  constructor
  · intro h
    exact h.notRegistered
  · intro h
    have hnot : ∀ electionId, voter.isEligible electionId = false := by
      intro electionId
      rw [isEligible, h, Bool.false_and]
    refine ⟨h, hnot, ?_⟩
    intro now verifier currentTime result hresult
    by_contra hvalid
    have hvalid : result.isValid = true := (Bool.not_eq_false _).mp hvalid
    have heligible := ((verifier.verifyVoterEligibility_isValid_iff now voter currentTime).mp
      ⟨result, hresult, hvalid⟩).1
    rw [hnot] at heligible
    cases heligible

/-- The registration was taken away. -/
def TakenAway (voter : VoterState) : Prop :=
  voter.status = .revoked ∨ ∃ reason, voter.status = .suspended reason

theorem TakenAway.shutOut {voter : VoterState} (h : voter.TakenAway) : voter.ShutOut := by
  rw [shutOut_iff, Bool.eq_false_iff, Ne, isRegistered_iff]
  rcases h with h | ⟨reason, h⟩
  · rw [h]
    rintro (h | h) <;> cases h
  · rw [h]
    rintro (h | h) <;> cases h

theorem TakenAway.step {voter : VoterState} (h : voter.TakenAway) {call : Call}
    (hcall : ¬call.IsRegister) : (VoterState.step voter call).TakenAway := by
  cases call with
  | register credentials => exact absurd ⟨credentials, rfl⟩ hcall
  | verify =>
      have hne : voter.status ≠ .registered := by
        rcases h with h | ⟨reason, h⟩
        · rw [h]
          exact nofun
        · rw [h]
          exact nofun
      rw [VoterState.step, verify, if_neg hne]
      exact h
  | suspend reason => exact Or.inr ⟨reason, rfl⟩
  | markVoted electionId =>
      rcases exec_markVoted electionId voter with ⟨-, hexec⟩ | ⟨-, hexec⟩
      · rw [VoterState.step, Exec.next_of_ok hexec]
        exact h
      · rw [VoterState.step, Exec.next_of_error hexec]
        exact h

theorem isRegistered_step_register (voter : VoterState) (credentials : VoterCredentials) :
    (step voter (.register credentials)).isRegistered = true := by
  rw [isRegistered_iff]
  rcases exec_register credentials voter with ⟨-, hexec⟩ | ⟨hstatus, hexec⟩
  · rw [step, Exec.next_of_ok hexec]
    exact Or.inl rfl
  · rw [step, Exec.next_of_error hexec]
    exact Or.inl hstatus

/-- **When a revocation is final.**  In a run of calls after `revoke` the voter is shut out
all the time exactly if no call of the run is `register`. -/
theorem revocation_final_iff (voter : VoterState) (calls : List Call) :
    Runs.Visits step ShutOut voter.revoke calls ↔ ∀ call ∈ calls, ¬call.IsRegister := by
  have hexact : ∀ (voter : VoterState) (call : Call), voter.TakenAway →
      (step voter call).ShutOut → ¬call.IsRegister := by
    rintro voter call - hshut ⟨credentials, rfl⟩
    have hregistered := isRegistered_step_register voter credentials
    rw [hshut.notRegistered] at hregistered
    cases hregistered
  rw [Runs.visits_iff_along (C := fun _ call => ¬call.IsRegister) (fun _ => TakenAway.shutOut)
    (fun _ _ h => h.step) hexact (Or.inl rfl)]
  exact Runs.along_const

/-- A revoked voter registers again, and may vote. -/
theorem registered_after_revocation :
    let credentials :=
      VoterCredentials.new Reference.votingSuite.toSuite 1000 Reference.voter.id "Test"
    let voter := Runs.run step (new Reference.voter).revoke [.register credentials]
    voter.isRegistered = true ∧ voter.isEligible Reference.election.id = true ∧
      ∃ result, VoteVerifier.verifyVoterEligibility 1500 (.new Reference.election) voter 1500 =
        .ok result ∧ result.isValid = true := by
  intro credentials voter
  have hregistered : voter.isRegistered = true :=
    isRegistered_step_register (new Reference.voter).revoke credentials
  have heligible : voter.isEligible Reference.election.id = true := rfl
  refine ⟨hregistered, heligible, ?_⟩
  rw [VoteVerifier.verifyVoterEligibility_isValid_iff]
  exact ⟨heligible, credentials, rfl, rfl⟩

end VoterState

end VotingChain
