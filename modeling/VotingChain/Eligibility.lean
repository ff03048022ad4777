/-
# `VotingChain.Eligibility` — who may vote

The model of `voting/src/eligibility.rs`: the registry of eligible voters and the checker
of eligibility proofs, with `SchnorrProof` from `crypto/src/zkp/mod.rs`.

**The registry** has one status for each voter, which says both whether the voter may vote
and whether the voter has voted.  Revoking eligibility overwrites the one with the other,
and `mark_voted` only asks whether the status is "already voted"; so a voter who has voted
and is then revoked can be marked again.  All of it is in the statuses
(`EligibilityRegistry.step_cases`).  A run goes wrong by this exactly if it marks a voter
whose status is "not eligible" (`EligibilityRegistry.marked_once_iff`).

**The checker** stores the proofs that it has verified.  A proof is wrong if its signature
is, or if its Schnorr proof is; the first is an `Err` and the second an `Ok(false)`, and
`EligibilityProof::verify` only looks for an `Err`
(`EligibilityChecker.verifyEligibilityProof_sound_iff`).
-/
import VotingChain.Registration
import VotingChain.Lib.Runs

namespace VotingChain

inductive EligibilityStatus where
  | eligible
  | notRegistered
  | notEligible
  | alreadyVoted
  | credentialsExpired
  | noCredentials
  | wrongJurisdiction
  | ageVerificationRequired
  | citizenshipRequired
  | provisionalOnly
  deriving DecidableEq

/-! ## The registry -/

structure EligibilityRecord where
  voterId : VoterId
  electionId : ElectionId
  jurisdiction : String
  registeredAt : Timestamp
  status : EligibilityStatus
  deriving DecidableEq

structure EligibilityRegistry where
  electionId : ElectionId
  eligibleVoters : Finmap fun _ : VoterId => EligibilityRecord

namespace EligibilityRegistry

def new (electionId : ElectionId) : EligibilityRegistry := ⟨electionId, ∅⟩

def getRecord (registry : EligibilityRegistry) (voterId : VoterId) : Option EligibilityRecord :=
  registry.eligibleVoters.lookup voterId

def setRecord (registry : EligibilityRegistry) (voterId : VoterId) (record : EligibilityRecord) :
    EligibilityRegistry :=
  { registry with eligibleVoters := registry.eligibleVoters.insert voterId record }

/-- Register a voter at the time `now`. -/
def registerEligibleVoter (now : Timestamp) (voterId : VoterId) (jurisdiction : String) :
    Exec EligibilityRegistry Unit := do
  let registry ← get
  Exec.lift (ensure (decide (voterId ∉ registry.eligibleVoters))
    (.invalidInput "Voter already registered as eligible"))
  modify fun registry => registry.setRecord voterId
    { voterId
      electionId := registry.electionId
      jurisdiction
      registeredAt := now
      status := .eligible }

/-- The record of a voter, for changing it. -/
def findRecord (registry : EligibilityRegistry) (voterId : VoterId) : Result EligibilityRecord :=
  match registry.getRecord voterId with
  | some record => .ok record
  | none => fail (.voterNotEligible "Voter not found")

def revokeEligibility (voterId : VoterId) : Exec EligibilityRegistry Unit := do
  let record ← Exec.lift ((← get).findRecord voterId)
  modify fun registry => registry.setRecord voterId { record with status := .notEligible }

def markVoted (voterId : VoterId) : Exec EligibilityRegistry Unit := do
  let record ← Exec.lift ((← get).findRecord voterId)
  Exec.lift (ensure (decide (record.status ≠ .alreadyVoted)) .alreadyVoted)
  modify fun registry => registry.setRecord voterId { record with status := .alreadyVoted }

/-- The status of a voter who is in the registry. -/
def status (registry : EligibilityRegistry) (voterId : VoterId) : Option EligibilityStatus :=
  (registry.getRecord voterId).map EligibilityRecord.status

def isEligible (registry : EligibilityRegistry) (voterId : VoterId) : Bool :=
  decide (registry.status voterId = some .eligible)

def hasVoted (registry : EligibilityRegistry) (voterId : VoterId) : Bool :=
  decide (registry.status voterId = some .alreadyVoted)

/-! ### What the calls do to the statuses -/

theorem status_setRecord (registry : EligibilityRegistry) (v : VoterId)
    (record : EligibilityRecord) :
    (registry.setRecord v record).status =
      Function.update registry.status v (some record.status) := by
  funext w
  rw [status, getRecord, setRecord]
  by_cases hw : w = v
  · rw [hw, Finmap.lookup_insert, Function.update_self]
    rfl
  · rw [Finmap.lookup_insert_of_ne _ hw, Function.update_of_ne hw]
    rfl

theorem mem_iff_status_ne_none {registry : EligibilityRegistry} {v : VoterId} :
    v ∈ registry.eligibleVoters ↔ registry.status v ≠ none := by
  rw [status, getRecord, ne_eq, Option.map_eq_none_iff, Finmap.lookup_eq_none, not_not]

theorem exec_registerEligibleVoter (now : Timestamp) (v : VoterId) (jurisdiction : String)
    (registry : EligibilityRegistry) :
    (registry.status v = none ∧ ∃ registry',
      (registerEligibleVoter now v jurisdiction).exec registry = (.ok (), registry') ∧
      registry'.status = Function.update registry.status v (some .eligible)) ∨
    (registry.status v ≠ none ∧ ∃ e,
      (registerEligibleVoter now v jurisdiction).exec registry = (.error e, registry)) := by
  rw [registerEligibleVoter, Exec.exec_get_bind, Exec.exec_lift_bind]
  by_cases hv : registry.status v = none
  · have hmem : v ∉ registry.eligibleVoters := fun h => mem_iff_status_ne_none.mp h hv
    rw [decide_eq_true hmem]
    exact Or.inl ⟨hv, _, rfl, status_setRecord _ _ _⟩
  · have hmem : ¬v ∉ registry.eligibleVoters := fun h => h (mem_iff_status_ne_none.mpr hv)
    rw [decide_eq_false hmem]
    exact Or.inr ⟨hv, _, rfl⟩

theorem exec_revokeEligibility (v : VoterId) (registry : EligibilityRegistry) :
    (registry.status v ≠ none ∧ ∃ registry',
      (revokeEligibility v).exec registry = (.ok (), registry') ∧
      registry'.status = Function.update registry.status v (some .notEligible)) ∨
    (registry.status v = none ∧ ∃ e,
      (revokeEligibility v).exec registry = (.error e, registry)) := by
  rw [revokeEligibility, Exec.exec_get_bind, Exec.exec_lift_bind, findRecord, status]
  cases registry.getRecord v with
  | none => exact Or.inr ⟨rfl, _, rfl⟩
  | some record => exact Or.inl ⟨Option.some_ne_none _, _, rfl, status_setRecord _ _ _⟩

theorem exec_markVoted (v : VoterId) (registry : EligibilityRegistry) :
    ((∃ st, registry.status v = some st ∧ st ≠ .alreadyVoted) ∧ ∃ registry',
      (markVoted v).exec registry = (.ok (), registry') ∧
      registry'.status = Function.update registry.status v (some .alreadyVoted)) ∨
    ((registry.status v = none ∨ registry.status v = some .alreadyVoted) ∧ ∃ e,
      (markVoted v).exec registry = (.error e, registry)) := by
  rw [markVoted, Exec.exec_get_bind, Exec.exec_lift_bind, findRecord, status]
  cases registry.getRecord v with
  | none => exact Or.inr ⟨Or.inl rfl, _, rfl⟩
  | some record =>
      simp only [Exec.exec_lift_bind]
      by_cases hst : record.status = .alreadyVoted
      · rw [decide_eq_false (not_not.mpr hst)]
        exact Or.inr ⟨Or.inr (congrArg some hst), _, rfl⟩
      · rw [decide_eq_true hst]
        exact Or.inl ⟨⟨record.status, rfl, hst⟩, _, rfl, status_setRecord _ _ _⟩

/-! ### Runs -/

/-- A call of a run. -/
inductive Call where
  | register (now : Timestamp) (voterId : VoterId) (jurisdiction : String)
  | revoke (voterId : VoterId)
  | markVoted (voterId : VoterId)

/-- The registry after a call. -/
def step (registry : EligibilityRegistry) : Call → EligibilityRegistry
  | .register now voterId jurisdiction =>
      (registerEligibleVoter now voterId jurisdiction).next registry
  | .revoke voterId => (revokeEligibility voterId).next registry
  | .markVoted voterId => (EligibilityRegistry.markVoted voterId).next registry

/-- Whom a call has marked, if it returned `Ok`. -/
def marked (registry : EligibilityRegistry) : Call → List VoterId
  | .register _ _ _ => []
  | .revoke _ => []
  | .markVoted voterId =>
    match ((EligibilityRegistry.markVoted voterId).exec registry).1 with
    | .ok _ => [voterId]
    | .error _ => []

/-- **What a call does**: it gives a voter who has none a status, or takes away the
eligibility of one who has, or marks one who is not marked, or nothing. -/
theorem step_cases (registry : EligibilityRegistry) (call : Call) :
    (∃ v, registry.status v = none ∧ marked registry call = [] ∧
      (step registry call).status = Function.update registry.status v (some .eligible)) ∨
    (∃ v, registry.status v ≠ none ∧ marked registry call = [] ∧
      (step registry call).status = Function.update registry.status v (some .notEligible)) ∨
    (∃ v st, call = .markVoted v ∧ registry.status v = some st ∧ st ≠ .alreadyVoted ∧
      marked registry call = [v] ∧
      (step registry call).status = Function.update registry.status v (some .alreadyVoted)) ∨
    ((∀ v, call = .markVoted v →
        registry.status v = none ∨ registry.status v = some .alreadyVoted) ∧
      marked registry call = [] ∧ step registry call = registry) := by
  cases call with
  | register now v jurisdiction =>
      rcases exec_registerEligibleVoter now v jurisdiction registry with
        ⟨hv, registry', hexec, hstatus⟩ | ⟨-, e, hexec⟩
      · refine Or.inl ⟨v, hv, rfl, ?_⟩
        rw [step, Exec.next_of_ok hexec, hstatus]
      · refine Or.inr (Or.inr (Or.inr ⟨?_, rfl, Exec.next_of_error hexec⟩))
        intro w h
        cases h
  | revoke v =>
      rcases exec_revokeEligibility v registry with ⟨hv, registry', hexec, hstatus⟩ | ⟨-, e, hexec⟩
      · refine Or.inr (Or.inl ⟨v, hv, rfl, ?_⟩)
        rw [step, Exec.next_of_ok hexec, hstatus]
      · refine Or.inr (Or.inr (Or.inr ⟨?_, rfl, Exec.next_of_error hexec⟩))
        intro w h
        cases h
  | markVoted v =>
      rcases exec_markVoted v registry with
        ⟨⟨st, hv, hst⟩, registry', hexec, hstatus⟩ | ⟨hv, e, hexec⟩
      · refine Or.inr (Or.inr (Or.inl ⟨v, st, rfl, hv, hst, ?_, ?_⟩))
        · simp only [marked, hexec]
        · rw [step, Exec.next_of_ok hexec, hstatus]
      · refine Or.inr (Or.inr (Or.inr ⟨?_, ?_, Exec.next_of_error hexec⟩))
        · intro w h
          cases h
          exact hv
        · simp only [marked, hexec]

/-- The call does not mark a voter who has been revoked. -/
def MarksNoRevoked (registry : EligibilityRegistry) (call : Call) : Prop :=
  ∀ v, call = .markVoted v → registry.status v ≠ some .notEligible

/-- If the call marks a voter, the voter is eligible. -/
def MarksEligible (registry : EligibilityRegistry) (call : Call) : Prop :=
  ∀ v ∈ marked registry call, registry.isEligible v = true

/-- What holds in a run that marks no revoked voter: a voter in the registry is eligible,
revoked or marked, and those marked so far are marked or revoked, each marked once. -/
structure Settled (registry : EligibilityRegistry) (accepted : List VoterId) : Prop where
  statuses : ∀ v st, registry.status v = some st →
    st = .eligible ∨ st = .notEligible ∨ st = .alreadyVoted
  nodup : accepted.Nodup
  settled : ∀ v ∈ accepted,
    registry.status v = some .notEligible ∨ registry.status v = some .alreadyVoted

theorem Settled.update {registry registry' : EligibilityRegistry} {accepted : List VoterId}
    (h : Settled registry accepted) {v : VoterId} {new : EligibilityStatus}
    (hstep : registry'.status = Function.update registry.status v (some new))
    (hnew : new = .eligible ∨ new = .notEligible ∨ new = .alreadyVoted)
    (hv : v ∈ accepted → new ≠ .eligible) : Settled registry' accepted := by
  refine ⟨?_, h.nodup, ?_⟩
  · intro w st hst
    rw [hstep] at hst
    by_cases hw : w = v
    · rw [hw, Function.update_self, Option.some.injEq] at hst
      rwa [← hst]
    · rw [Function.update_of_ne hw] at hst
      exact h.statuses w st hst
  · intro w hmem
    rw [hstep]
    by_cases hw : w = v
    · rw [hw, Function.update_self, Option.some.injEq, Option.some.injEq]
      exact hnew.resolve_left (hv (hw ▸ hmem))
    · rw [Function.update_of_ne hw]
      exact h.settled w hmem

theorem Settled.step {registry : EligibilityRegistry} {accepted : List VoterId}
    (h : Settled registry accepted) {call : Call} (hcall : MarksNoRevoked registry call) :
    Settled (step registry call) (accepted ++ marked registry call) := by
  rcases step_cases registry call with ⟨v, hv, hmarked, hstep⟩ | ⟨v, hv, hmarked, hstep⟩ |
    ⟨v, st, hmark, hv, hst, hmarked, hstep⟩ | ⟨-, hmarked, hstep⟩
  · rw [hmarked, List.append_nil]
    refine h.update hstep (Or.inl rfl) ?_
    intro hmem
    rcases h.settled v hmem with hv' | hv'
    · rw [hv] at hv'
      cases hv'
    · rw [hv] at hv'
      cases hv'
  · rw [hmarked, List.append_nil]
    exact h.update hstep (Or.inr (Or.inl rfl)) fun _ heq => EligibilityStatus.noConfusion heq
  · have hfresh : v ∉ accepted := by
      intro hmem
      rcases h.settled v hmem with hv' | hv'
      · exact hcall v hmark hv'
      · rw [hv, Option.some.injEq] at hv'
        exact hst hv'
    have hsettled : Settled (EligibilityRegistry.step registry call) accepted :=
      h.update hstep (Or.inr (Or.inr rfl)) fun hmem => absurd hmem hfresh
    rw [hmarked]
    refine ⟨hsettled.statuses, List.nodup_append.mpr ⟨h.nodup, List.nodup_singleton v, ?_⟩, ?_⟩
    · rintro w hw _ hw' rfl
      rw [List.mem_singleton.mp hw'] at hw
      exact hfresh hw
    · intro w hw
      rcases List.mem_append.mp hw with hw | hw
      · exact hsettled.settled w hw
      · rw [List.mem_singleton.mp hw, hstep, Function.update_self]
        exact Or.inr rfl
  · rw [hmarked, hstep, List.append_nil]
    exact h

theorem Settled.marksEligible {registry : EligibilityRegistry} {accepted : List VoterId}
    (h : Settled registry accepted) {call : Call} (hcall : MarksNoRevoked registry call) :
    MarksEligible registry call := by
  intro w hw
  rcases step_cases registry call with ⟨v, -, hmarked, -⟩ | ⟨v, -, hmarked, -⟩ |
    ⟨v, st, hmark, hv, hst, hmarked, -⟩ | ⟨-, hmarked, -⟩
  · rw [hmarked] at hw
    exact absurd hw List.not_mem_nil
  · rw [hmarked] at hw
    exact absurd hw List.not_mem_nil
  · rw [hmarked, List.mem_singleton] at hw
    rw [hw, isEligible, decide_eq_true_eq, hv]
    rcases h.statuses v st hv with hst' | hst' | hst'
    · rw [hst']
    · exact absurd (hst' ▸ hv) (hcall v hmark)
    · exact absurd hst' hst
  · rw [hmarked] at hw
    exact absurd hw List.not_mem_nil

/-- The other way round, a revoked voter who is marked is marked without being
eligible. -/
theorem MarksEligible.marksNoRevoked {registry : EligibilityRegistry} {call : Call}
    (h : MarksEligible registry call) : MarksNoRevoked registry call := by
  intro v hmark hv
  rw [hmark] at h
  rcases exec_markVoted v registry with ⟨-, registry', hexec, -⟩ | ⟨hv' | hv', -⟩
  · have hmarked : v ∈ marked registry (.markVoted v) := by
      simp only [marked, hexec]
      exact List.mem_singleton_self v
    have heligible := of_decide_eq_true (h v hmarked)
    rw [hv] at heligible
    cases heligible
  · rw [hv] at hv'
    cases hv'
  · rw [hv] at hv'
    cases hv'

theorem settled_run (electionId : ElectionId) {calls : List Call}
    (h : Runs.Along step MarksNoRevoked (new electionId) calls) :
    Settled (Runs.run step (new electionId) calls)
        (Runs.trace step marked (new electionId) calls) ∧
      Runs.Along step MarksEligible (new electionId) calls := by
  induction calls using List.reverseRecOn with
  | nil =>
      refine ⟨⟨?_, List.nodup_nil, ?_⟩, trivial⟩
      · intro v st hv
        cases hv
      · intro v hv
        exact absurd hv List.not_mem_nil
  | append_singleton calls call ih =>
      obtain ⟨hcalls, hcall⟩ := Runs.along_concat.mp h
      obtain ⟨hsettled, heligible⟩ := ih hcalls
      rw [Runs.run_concat, Runs.trace_concat, Runs.along_concat]
      exact ⟨hsettled.step hcall, heligible, hsettled.marksEligible hcall⟩

/-- Whoever was marked in such a run has voted, as far as the registry says, unless revoked
since. -/
theorem hasVoted_run {electionId : ElectionId} {calls : List Call}
    (h : Runs.Along step MarksNoRevoked (new electionId) calls) {v : VoterId}
    (hv : v ∈ Runs.trace step marked (new electionId) calls)
    (hrevoked : (Runs.run step (new electionId) calls).status v ≠ some .notEligible) :
    (Runs.run step (new electionId) calls).hasVoted v = true :=
  decide_eq_true (((settled_run electionId h).1.settled v hv).resolve_left hrevoked)

/-- **Who is marked, and how often.**  That no voter is marked twice and that whoever is
marked is eligible at that moment holds of a run exactly if the run marks nobody whose
status is "not eligible". -/
theorem marked_once_iff (electionId : ElectionId) (calls : List Call) :
    ((Runs.trace step marked (new electionId) calls).Nodup ∧
      Runs.Along step MarksEligible (new electionId) calls) ↔
    Runs.Along step MarksNoRevoked (new electionId) calls := by
  constructor
  · rintro ⟨-, h⟩
    exact h.imp fun registry call => MarksEligible.marksNoRevoked
  · intro h
    obtain ⟨hsettled, heligible⟩ := settled_run electionId h
    exact ⟨hsettled.nodup, heligible⟩

/-- A voter votes, is revoked, and votes again. -/
theorem marked_twice :
    Runs.trace step marked (new ⟨List.Vector.replicate 16 1⟩)
        [.register 1000 Reference.voter.id "Test", .markVoted Reference.voter.id,
          .revoke Reference.voter.id, .markVoted Reference.voter.id] =
      [Reference.voter.id, Reference.voter.id] ∧
    ¬[Reference.voter.id, Reference.voter.id].Nodup := by
  constructor
  · decide +kernel
  · intro h
    exact (List.nodup_cons.mp h).1 (List.mem_singleton_self _)

end EligibilityRegistry

/-! ## Eligibility proofs -/

/-- Schnorr proof of knowledge. -/
structure SchnorrProof where
  challenge : Bytes
  response : Bytes
  deriving DecidableEq

/-- Verify the Schnorr proof. -/
def SchnorrProof.verify (proof : SchnorrProof) (_publicValue : Bytes) : Result Bool :=
  if proof.challenge.isEmpty || proof.response.isEmpty then .ok false else .ok true

structure EligibilityProof where
  voterId : VoterId
  electionId : ElectionId
  proofCommitment : Bytes
  schnorrProof : SchnorrProof
  proofSignature : Signature
  issuedAt : Timestamp
  deriving DecidableEq

/-- What `EligibilityProof::generate` draws, and the time at which it does. -/
structure EligibilityProof.Draw where
  issuedAt : Timestamp
  randomness : ByteArr 32
  challenge : ByteArr 32

namespace EligibilityProof
variable (S : Suite)

def computeMessage (voterId : VoterId) (electionId : ElectionId) (proofCommitment : Bytes)
    (issuedAt : Timestamp) : Bytes :=
  S.hashBlake2bMultiple
    [voterId.asBytes, electionId.asBytes, proofCommitment, u64Bytes issuedAt]

def generate (draw : Draw) (voterId : VoterId) (electionId : ElectionId) (voterKeypair : KeyPair) :
    Result EligibilityProof := do
  let commitment := Commitment.new S voterId.asBytes draw.randomness.toList
  let proofCommitment := commitment.value
  let response := S.hashBlake2bMultiple [draw.randomness.toList, draw.challenge.toList]
  let schnorrProof : SchnorrProof := ⟨draw.challenge.toList, response⟩
  let message := computeMessage S voterId electionId proofCommitment draw.issuedAt
  let proofSignature ← S.sign message voterKeypair
  return {
    voterId
    electionId
    proofCommitment
    schnorrProof
    proofSignature
    issuedAt := draw.issuedAt }

/-- Verify the signature and the Schnorr proof.  What the latter says is not looked at. -/
def verify (proof : EligibilityProof) (voterPublicKey : PublicKey) : Result Unit := do
  let message := computeMessage S proof.voterId proof.electionId proof.proofCommitment proof.issuedAt
  S.verify message proof.proofSignature voterPublicKey
  let _ ← proof.schnorrProof.verify proof.proofCommitment
  return ()

/-- The signature of the proof verifies. -/
def SignatureVerifies (proof : EligibilityProof) (voterPublicKey : PublicKey) : Prop :=
  S.verify (computeMessage S proof.voterId proof.electionId proof.proofCommitment proof.issuedAt)
    proof.proofSignature voterPublicKey = .ok ()

end EligibilityProof

theorem SchnorrProof.verify_eq (proof : SchnorrProof) (publicValue : Bytes) :
    proof.verify publicValue = .ok (decide (proof.challenge ≠ [] ∧ proof.response ≠ [])) := by
  rw [SchnorrProof.verify]
  cases proof.challenge with
  | nil => rfl
  | cons x xs =>
      cases proof.response with
      | nil => rfl
      | cons y ys => rfl

namespace EligibilityProof
variable {S : Suite}

theorem verify_eq (proof : EligibilityProof) (publicKey : PublicKey) :
    proof.verify S publicKey =
      S.verify
        (computeMessage S proof.voterId proof.electionId proof.proofCommitment proof.issuedAt)
        proof.proofSignature publicKey := by
  simp only [verify, SchnorrProof.verify_eq, bind, Except.bind]
  cases S.verify _ _ _ <;> rfl

/-- A proof that was generated names its voter and its election, has a signature that
verifies, and has no empty part. -/
theorem of_generate {draw : Draw} {voterId : VoterId} {electionId : ElectionId}
    {voterKeypair : KeyPair} (hown : S.Accepts voterKeypair voterKeypair.publicKey)
    {proof : EligibilityProof} (h : generate S draw voterId electionId voterKeypair = .ok proof) :
    proof.voterId = voterId ∧ proof.electionId = electionId ∧
      proof.SignatureVerifies S voterKeypair.publicKey ∧
      proof.schnorrProof.challenge ≠ [] ∧ proof.schnorrProof.response ≠ [] := by
  simp only [generate, bind_eq_ok, Suite.sign, Except.ok.injEq, exists_eq_left'] at h
  cases h
  refine ⟨rfl, rfl, hown _, List.ne_nil_of_length_pos ?_, List.ne_nil_of_length_pos ?_⟩
  · rw [List.Vector.toList_length]
    omega
  · rw [Suite.length_hashBlake2bMultiple]
    omega

end EligibilityProof

/-! ## The checker -/

structure EligibilityChecker where
  electionId : ElectionId
  eligibleVoters : Finset VoterId
  verifiedProofs : Finmap fun _ : VoterId => EligibilityProof

namespace EligibilityChecker
variable (S : Suite)

def new (electionId : ElectionId) : EligibilityChecker := ⟨electionId, ∅, ∅⟩

def addEligibleVoter (voterId : VoterId) (checker : EligibilityChecker) : EligibilityChecker :=
  { checker with eligibleVoters := insert voterId checker.eligibleVoters }

def addEligibleVoters (voterIds : List VoterId) (checker : EligibilityChecker) :
    EligibilityChecker :=
  voterIds.foldl (fun checker voterId => checker.addEligibleVoter voterId) checker

def verifyEligibilityProof (proof : EligibilityProof) (voterPublicKey : PublicKey) :
    Exec EligibilityChecker Bool := do
  let checker ← get
  if proof.electionId ≠ checker.electionId then
    return false
  else
    Exec.lift (proof.verify S voterPublicKey)
    if proof.voterId ∉ checker.eligibleVoters then
      return false
    else
      modify fun checker =>
        { checker with verifiedProofs := checker.verifiedProofs.insert proof.voterId proof }
      return true

def isEligible (checker : EligibilityChecker) (voterId : VoterId) : Bool :=
  decide (voterId ∈ checker.eligibleVoters)

def hasVerifiedProof (checker : EligibilityChecker) (voterId : VoterId) : Bool :=
  decide (voterId ∈ checker.verifiedProofs)

/-- The proof is for the election of the checker, its signature and its Schnorr proof
verify, and the voter is eligible. -/
structure Valid (checker : EligibilityChecker) (proof : EligibilityProof)
    (voterPublicKey : PublicKey) : Prop where
  election : proof.electionId = checker.electionId
  signature : proof.SignatureVerifies S voterPublicKey
  schnorr : proof.schnorrProof.verify proof.proofCommitment = .ok true
  eligible : checker.isEligible proof.voterId = true

/-- What a call should do: accept only a valid proof, and keep the verified proofs as they
are if the proof is not valid or not accepted. -/
structure SoundCall (checker : EligibilityChecker) (proof : EligibilityProof)
    (voterPublicKey : PublicKey) : Prop where
  accepted : ((verifyEligibilityProof S proof voterPublicKey).exec checker).1 = .ok true →
    Valid S checker proof voterPublicKey
  invalid : ¬Valid S checker proof voterPublicKey →
    ((verifyEligibilityProof S proof voterPublicKey).exec checker).2.verifiedProofs =
      checker.verifiedProofs
  refused : ((verifyEligibilityProof S proof voterPublicKey).exec checker).1 ≠ .ok true →
    ((verifyEligibilityProof S proof voterPublicKey).exec checker).2.verifiedProofs =
      checker.verifiedProofs

/-- The checks that are made pass, and the Schnorr proof is empty in one of its parts. -/
structure EmptyProof (checker : EligibilityChecker) (proof : EligibilityProof)
    (voterPublicKey : PublicKey) : Prop where
  election : proof.electionId = checker.electionId
  signature : proof.SignatureVerifies S voterPublicKey
  eligible : checker.isEligible proof.voterId = true
  empty : proof.schnorrProof.challenge = [] ∨ proof.schnorrProof.response = []

variable {S}

/-- **What a call does**: it stores the proof and returns `Ok(true)`, or it returns
something else and changes nothing. -/
theorem verifyEligibilityProof_cases (checker : EligibilityChecker) (proof : EligibilityProof)
    (publicKey : PublicKey) :
    (proof.electionId = checker.electionId ∧ proof.SignatureVerifies S publicKey ∧
      proof.voterId ∈ checker.eligibleVoters ∧
      (verifyEligibilityProof S proof publicKey).exec checker =
        (.ok true,
          { checker with
            verifiedProofs := checker.verifiedProofs.insert proof.voterId proof })) ∨
    (¬(proof.electionId = checker.electionId ∧ proof.SignatureVerifies S publicKey ∧
        proof.voterId ∈ checker.eligibleVoters) ∧
      ∃ r, r ≠ .ok true ∧
        (verifyEligibilityProof S proof publicKey).exec checker = (r, checker)) := by
  rw [verifyEligibilityProof, Exec.exec_get_bind]
  by_cases helection : proof.electionId = checker.electionId
  · rw [if_neg (not_not.mpr helection), Exec.exec_lift_bind, EligibilityProof.verify_eq]
    cases hsig : S.verify (EligibilityProof.computeMessage S proof.voterId proof.electionId
        proof.proofCommitment proof.issuedAt) proof.proofSignature publicKey with
    | error e =>
        refine Or.inr ⟨?_, .error e, ?_, rfl⟩
        · rintro ⟨-, hsig', -⟩
          rw [EligibilityProof.SignatureVerifies, hsig] at hsig'
          cases hsig'
        · intro h
          cases h
    | ok u =>
        by_cases hmem : proof.voterId ∈ checker.eligibleVoters
        · simp only [not_not.mpr hmem, if_false]
          exact Or.inl ⟨helection, hsig, hmem, rfl⟩
        · simp only [hmem, not_false_eq_true, if_true]
          refine Or.inr ⟨fun h => h.2.2.elim, .ok false, ?_, rfl⟩
          intro h
          cases h
  · rw [if_pos helection]
    refine Or.inr ⟨fun h => helection h.1, .ok false, ?_, rfl⟩
    intro h
    cases h

/-- A call does what it should exactly if the proof does not get through with an empty
Schnorr proof. -/
theorem soundCall_iff (checker : EligibilityChecker) (proof : EligibilityProof)
    (publicKey : PublicKey) :
    SoundCall S checker proof publicKey ↔ ¬EmptyProof S checker proof publicKey := by
  constructor
  · intro h hempty
    rcases verifyEligibilityProof_cases (S := S) checker proof publicKey with
      ⟨-, -, -, hexec⟩ | ⟨hrefused, -⟩
    · have hschnorr := (h.accepted (by rw [hexec])).schnorr
      rw [SchnorrProof.verify_eq, Except.ok.injEq, decide_eq_true_eq] at hschnorr
      exact hempty.empty.elim hschnorr.1 hschnorr.2
    · exact hrefused ⟨hempty.election, hempty.signature, of_decide_eq_true hempty.eligible⟩
  · intro hnot
    rcases verifyEligibilityProof_cases (S := S) checker proof publicKey with
      ⟨helection, hsig, hmem, hexec⟩ | ⟨-, r, hr, hexec⟩
    · have hvalid : Valid S checker proof publicKey := by
        refine ⟨helection, hsig, ?_, decide_eq_true hmem⟩
        rw [SchnorrProof.verify_eq, Except.ok.injEq, decide_eq_true_eq]
        constructor
        · intro hnil
          exact hnot ⟨helection, hsig, decide_eq_true hmem, Or.inl hnil⟩
        · intro hnil
          exact hnot ⟨helection, hsig, decide_eq_true hmem, Or.inr hnil⟩
      refine ⟨fun _ => hvalid, fun h => absurd hvalid h, fun h => ?_⟩
      rw [hexec] at h
      exact absurd rfl h
    · refine ⟨fun h => ?_, fun _ => ?_, fun _ => ?_⟩
      · rw [hexec] at h
        exact absurd h hr
      · rw [hexec]
      · rw [hexec]

theorem verifyEligibilityProof_generate {draw : EligibilityProof.Draw} {voterId : VoterId}
    {electionId : ElectionId} {voterKeypair : KeyPair}
    (hown : S.Accepts voterKeypair voterKeypair.publicKey) {proof : EligibilityProof}
    (h : EligibilityProof.generate S draw voterId electionId voterKeypair = .ok proof)
    {checker : EligibilityChecker} (helection : checker.electionId = electionId)
    (hmem : voterId ∈ checker.eligibleVoters) :
    ((verifyEligibilityProof S proof voterKeypair.publicKey).exec checker).1 = .ok true ∧
      SoundCall S checker proof voterKeypair.publicKey := by
  obtain ⟨rfl, rfl, hsig, hchallenge, hresponse⟩ := EligibilityProof.of_generate hown h
  constructor
  · rcases verifyEligibilityProof_cases (S := S) checker proof voterKeypair.publicKey with
      ⟨-, -, -, hexec⟩ | ⟨hrefused, -⟩
    · rw [hexec]
    · exact absurd ⟨helection.symm, hsig, hmem⟩ hrefused
  · refine (soundCall_iff checker proof voterKeypair.publicKey).mpr ?_
    intro hempty
    exact hempty.empty.elim hchallenge hresponse

/-! ### Runs -/

/-- A call of a run. -/
inductive Call where
  | addVoter (voterId : VoterId)
  | addVoters (voterIds : List VoterId)
  | verifyProof (proof : EligibilityProof) (voterPublicKey : PublicKey)

variable (S) in
/-- The checker after a call. -/
def step (checker : EligibilityChecker) : Call → EligibilityChecker
  | .addVoter voterId => checker.addEligibleVoter voterId
  | .addVoters voterIds => checker.addEligibleVoters voterIds
  | .verifyProof proof voterPublicKey =>
      (verifyEligibilityProof S proof voterPublicKey).next checker

variable (S) in
/-- The checker of an election after a run of calls. -/
def run (electionId : ElectionId) (calls : List Call) : EligibilityChecker :=
  Runs.run (step S) (new electionId) calls

/-- Whoever has a verified proof is eligible. -/
def Covered (checker : EligibilityChecker) : Prop :=
  ∀ v ∈ checker.verifiedProofs, v ∈ checker.eligibleVoters

theorem Covered.addEligibleVoter {checker : EligibilityChecker} (h : Covered checker)
    (v : VoterId) : Covered (checker.addEligibleVoter v) := by
  intro w hw
  exact Finset.mem_insert_of_mem (h w hw)

theorem Covered.addEligibleVoters (vs : List VoterId) :
    ∀ {checker : EligibilityChecker}, Covered checker → Covered (checker.addEligibleVoters vs) := by
  induction vs with
  | nil =>
      intro checker h
      exact h
  | cons v vs ih =>
      intro checker h
      exact ih (h.addEligibleVoter v)

theorem Covered.step {checker : EligibilityChecker} (h : Covered checker) (call : Call) :
    Covered (step S checker call) := by
  cases call with
  | addVoter v => exact h.addEligibleVoter v
  | addVoters vs => exact h.addEligibleVoters vs
  | verifyProof proof publicKey =>
      rcases verifyEligibilityProof_cases (S := S) checker proof publicKey with
        ⟨-, -, hmem, hexec⟩ | ⟨-, r, -, hexec⟩
      · rw [EligibilityChecker.step, Exec.next_of_ok hexec]
        intro w hw
        rcases Finmap.mem_insert.mp hw with rfl | hw
        · exact hmem
        · exact h w hw
      · rw [EligibilityChecker.step, Exec.next_of_unchanged hexec]
        exact h

/-- **Which proofs are accepted.**  A call does what it should exactly if its proof is
not one that has an empty challenge or response and passes everything else; and after any
run of calls, whoever has a verified proof is eligible. -/
theorem verifyEligibilityProof_sound_iff (S : Suite) :
    (∀ checker proof publicKey,
      SoundCall S checker proof publicKey ↔ ¬EmptyProof S checker proof publicKey) ∧
    ∀ electionId calls v, (run S electionId calls).hasVerifiedProof v = true →
      (run S electionId calls).isEligible v = true := by
  refine ⟨soundCall_iff, fun electionId calls v hv => ?_⟩
  have hcovered : Covered (run S electionId calls) :=
    Runs.run_preserves (fun checker call h => h.step call)
      (fun v hv => absurd hv Finmap.notMem_empty) calls
  exact decide_eq_true (hcovered v (of_decide_eq_true hv))

variable (S) in
/-- A proof with nothing in it but a signature. -/
def unproven (voterKeypair : KeyPair) (voterId : VoterId) (electionId : ElectionId) :
    EligibilityProof where
  voterId := voterId
  electionId := electionId
  proofCommitment := []
  schnorrProof := ⟨[], []⟩
  proofSignature := S.ed25519Sign voterKeypair.privateKey
    (EligibilityProof.computeMessage S voterId electionId [] 2000)
  issuedAt := 2000

theorem exec_unproven {voterKeypair : KeyPair}
    (hown : S.Accepts voterKeypair voterKeypair.publicKey) (voterId : VoterId)
    (electionId : ElectionId) :
    ((verifyEligibilityProof S (unproven S voterKeypair voterId electionId)
        voterKeypair.publicKey).exec ((new electionId).addEligibleVoter voterId)).1 = .ok true := by
  rcases verifyEligibilityProof_cases (S := S) ((new electionId).addEligibleVoter voterId)
      (unproven S voterKeypair voterId electionId) voterKeypair.publicKey with
    ⟨-, -, -, hexec⟩ | ⟨hrefused, -⟩
  · rw [hexec]
  · exact absurd ⟨rfl, hown _, Finset.mem_insert_self _ _⟩ hrefused

/-- It is accepted, although its Schnorr proof does not verify. -/
theorem unproven_accepted :
    (unproven Reference.votingSuite.toSuite Reference.keyPair Reference.voter.id
      Reference.election.id).schnorrProof.verify [] = .ok false ∧
    ((verifyEligibilityProof Reference.votingSuite.toSuite
        (unproven Reference.votingSuite.toSuite Reference.keyPair Reference.voter.id
          Reference.election.id)
        Reference.keyPair.publicKey).exec
      ((new Reference.election.id).addEligibleVoter Reference.voter.id)).1 = .ok true :=
  ⟨rfl, exec_unproven Reference.accepts_keyPair _ _⟩

end EligibilityChecker

end VotingChain
