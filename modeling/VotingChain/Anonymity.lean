/-
# `VotingChain.Anonymity` — anonymous ids, anonymous votes and ring signatures

The model of `voting/src/anonymity.rs`.

**`AnonymityLayer`** gives each voter an anonymous id, the hash of the voter id and of a
salt that is drawn, and keeps two maps, one for each direction.  They stay inverse to each
other as long as the hash function tells apart the strings that are hashed
(`AnonymityLayer.anonymize_bijection`).

**`AnonymityProof`**.  `generate` makes a challenge out of the anonymous id, the election id
and a commitment; `verify` computes the same challenge, and from it a response that it does
not compare with anything.  All it checks is that the commitment is not empty and that the
response has the length of a hash.  So a proof verifies for every id and every election
(`AnonymityProof.binds_never`).

**`RingSignature`**.  `sign` puts the hash of the signer's public key next to the signature,
the key image, by which two signatures of one signer are to be recognised; `verify` does not
look at it (`RingSignature.linkable_iff`).
-/
import VotingChain.VoteCasting
import VotingChain.Lib.Maps
import VotingChain.Lib.Runs

namespace VotingChain

open Bimap (Inverse)

/-! ## Anonymous ids -/

structure AnonymousId where
  bytes : ByteArr 32
  deriving DecidableEq

namespace AnonymousId

def asBytes (id : AnonymousId) : Bytes := id.bytes.toList

def fromVoterId (S : Suite) (voterId : VoterId) (salt : Bytes) : AnonymousId :=
  ⟨S.blake2b256 [voterId.asBytes, salt].flatten⟩

end AnonymousId

structure MixingInfo where
  originalVoterId : VoterId
  anonymousId : AnonymousId
  salt : Bytes
  mixedAt : Timestamp
  mixingRound : Nat
  deriving DecidableEq

structure AnonymityLayer where
  electionId : ElectionId
  mixingRounds : Nat
  voterMappings : Finmap fun _ : VoterId => AnonymousId
  anonymousMappings : Finmap fun _ : AnonymousId => MixingInfo

/-- What `anonymize_voter` draws, and the time at which it does. -/
structure AnonymityLayer.Draw where
  salt : ByteArr 32
  mixedAt : Timestamp

namespace AnonymityLayer
variable (S : Suite)

def new (electionId : ElectionId) (mixingRounds : Nat) : AnonymityLayer :=
  ⟨electionId, mixingRounds, ∅, ∅⟩

def anonymizeVoter (draw : Draw) (voterId : VoterId) : Exec AnonymityLayer AnonymousId := do
  match (← get).voterMappings.lookup voterId with
  | some anonymousId => return anonymousId
  | none =>
    let anonymousId := AnonymousId.fromVoterId S voterId draw.salt.toList
    let mixingInfo : MixingInfo :=
      { originalVoterId := voterId
        anonymousId
        salt := draw.salt.toList
        mixedAt := draw.mixedAt
        mixingRound := 0 }
    modify fun layer =>
      { layer with
        voterMappings := layer.voterMappings.insert voterId anonymousId
        anonymousMappings := layer.anonymousMappings.insert anonymousId mixingInfo }
    return anonymousId

def getAnonymousId (layer : AnonymityLayer) (voterId : VoterId) : Option AnonymousId :=
  layer.voterMappings.lookup voterId

def isAnonymized (layer : AnonymityLayer) (voterId : VoterId) : Bool :=
  decide (voterId ∈ layer.voterMappings)

def anonymizedCount (layer : AnonymityLayer) : Nat := layer.voterMappings.keys.card

/-! ### What a call does -/

/-- A call: the voter, and what is drawn if need be. -/
structure Call where
  voterId : VoterId
  draw : Draw

/-- The layer after a call. -/
def step (layer : AnonymityLayer) (call : Call) : AnonymityLayer :=
  (anonymizeVoter S call.draw call.voterId).next layer

/-- Whose call it was, and the id that it returned. -/
def answered (layer : AnonymityLayer) (call : Call) : List (VoterId × AnonymousId) :=
  match ((anonymizeVoter S call.draw call.voterId).exec layer).1 with
  | .ok anonymousId => [(call.voterId, anonymousId)]
  | .error _ => []

/-- The string whose hash is the id, if one is needed. -/
def Call.hashed (call : Call) : Bytes := [call.voterId.asBytes, call.draw.salt.toList].flatten

/-- The id that is given if the voter has none. -/
def Call.fresh (call : Call) : AnonymousId :=
  AnonymousId.fromVoterId S call.voterId call.draw.salt.toList

/-- The record that is put down with it. -/
def Call.info (call : Call) : MixingInfo where
  originalVoterId := call.voterId
  anonymousId := call.fresh S
  salt := call.draw.salt.toList
  mixedAt := call.draw.mixedAt
  mixingRound := 0

variable {S}

/-- **What a call does**: it returns the id that the voter has, or gives the voter one. -/
theorem step_cases (layer : AnonymityLayer) (call : Call) :
    (∃ anonymousId, layer.voterMappings.lookup call.voterId = some anonymousId ∧
      answered S layer call = [(call.voterId, anonymousId)] ∧ step S layer call = layer) ∨
    (call.voterId ∉ layer.voterMappings ∧
      answered S layer call = [(call.voterId, call.fresh S)] ∧
      step S layer call = { layer with
        voterMappings := layer.voterMappings.insert call.voterId (call.fresh S)
        anonymousMappings := layer.anonymousMappings.insert (call.fresh S) (call.info S) }) := by
  cases hlookup : layer.voterMappings.lookup call.voterId with
  | some anonymousId =>
      have hexec : (anonymizeVoter S call.draw call.voterId).exec layer =
          (.ok anonymousId, layer) := by
        rw [anonymizeVoter, Exec.exec_get_bind, hlookup]
        rfl
      refine Or.inl ⟨anonymousId, rfl, ?_, Exec.next_of_ok hexec⟩
      rw [answered, hexec]
  | none =>
      have hexec : (anonymizeVoter S call.draw call.voterId).exec layer =
          (.ok (call.fresh S), { layer with
            voterMappings := layer.voterMappings.insert call.voterId (call.fresh S)
            anonymousMappings :=
              layer.anonymousMappings.insert (call.fresh S) (call.info S) }) := by
        rw [anonymizeVoter, Exec.exec_get_bind, hlookup]
        rfl
      refine Or.inr ⟨Finmap.lookup_eq_none.mp hlookup, ?_, Exec.next_of_ok hexec⟩
      rw [answered, hexec]

/-! ### What a run of calls keeps -/

theorem keys_step (layer : AnonymityLayer) (call : Call) :
    (step S layer call).voterMappings.keys = insert call.voterId layer.voterMappings.keys := by
  rcases step_cases (S := S) layer call with ⟨known, hknown, -, hstep⟩ | ⟨-, -, hstep⟩
  · rw [hstep, Finset.insert_eq_self.mpr]
    exact Finmap.mem_keys.mpr (Finmap.mem_of_lookup_eq_some hknown)
  · rw [hstep]
    ext voterId
    rw [Finset.mem_insert, Finmap.mem_keys, Finmap.mem_keys, Finmap.mem_insert]

theorem keys_run (electionId : ElectionId) (mixingRounds : Nat) (calls : List Call) :
    (Runs.run (step S) (new electionId mixingRounds) calls).voterMappings.keys =
      (calls.map Call.voterId).toFinset := by
  induction calls using List.reverseRecOn with
  | nil => exact Finmap.keys_empty
  | append_singleton calls call ih =>
      rw [Runs.run_concat, keys_step, ih, List.map_append, List.toFinset_append, Finset.union_comm]
      rfl

theorem isAnonymized_run (electionId : ElectionId) (mixingRounds : Nat) (calls : List Call)
    (voterId : VoterId) :
    (Runs.run (step S) (new electionId mixingRounds) calls).isAnonymized voterId = true ↔
      voterId ∈ calls.map Call.voterId := by
  rw [isAnonymized, decide_eq_true_eq, ← Finmap.mem_keys, keys_run, List.mem_toFinset]

/-- Calls that get the same id are calls of one voter: the voter id stands in front of what
is hashed, and has a fixed width. -/
theorem Call.voterId_eq_of_fresh_eq {calls : List Call}
    (hinj : Set.InjOn S.blake2b256 {x | ∃ call ∈ calls, x = call.hashed}) {call call' : Call}
    (hcall : call ∈ calls) (hcall' : call' ∈ calls) (h : call.fresh S = call'.fresh S) :
    call.voterId = call'.voterId := by
  have hhashed : call.hashed = call'.hashed :=
    hinj ⟨call, hcall, rfl⟩ ⟨call', hcall', rfl⟩ (AnonymousId.mk.inj h)
  simp only [Call.hashed, List.flatten_cons] at hhashed
  exact (selfDelimiting_voterId _ _ _ _ hhashed).1

/-- What there is to know of a layer after `calls`, of which each had one of `answers`. -/
structure Consistent (S : Suite) (calls : List Call) (answers : List (VoterId × AnonymousId))
    (layer : AnonymityLayer) : Prop where
  inverse : Inverse MixingInfo.originalVoterId layer.voterMappings layer.anonymousMappings
  given : ∀ voterId anonymousId, layer.voterMappings.lookup voterId = some anonymousId →
    ∃ call ∈ calls, call.voterId = voterId ∧ anonymousId = call.fresh S
  named : ∀ anonymousId info, layer.anonymousMappings.lookup anonymousId = some info →
    info.anonymousId = anonymousId
  answersOf : answers.map Prod.fst = calls.map Call.voterId
  answer_iff : ∀ voterId anonymousId, (voterId, anonymousId) ∈ answers ↔
    layer.voterMappings.lookup voterId = some anonymousId

theorem consistent_new (electionId : ElectionId) (mixingRounds : Nat) :
    Consistent S [] [] (new electionId mixingRounds) where
  inverse := Bimap.inverse_empty
  given := by
    intro voterId anonymousId h
    rw [new, Finmap.lookup_empty] at h
    cases h
  named := by
    intro anonymousId info h
    rw [new, Finmap.lookup_empty] at h
    cases h
  answersOf := rfl
  answer_iff := by
    intro voterId anonymousId
    rw [new, Finmap.lookup_empty]
    exact iff_of_false List.not_mem_nil nofun

theorem Consistent.step {calls : List Call} {answers : List (VoterId × AnonymousId)}
    {layer : AnonymityLayer} (h : Consistent S calls answers layer) (call : Call)
    (hinj : Set.InjOn S.blake2b256 {x | ∃ c ∈ calls ++ [call], x = c.hashed}) :
    Consistent S (calls ++ [call]) (answers ++ answered S layer call)
      (AnonymityLayer.step S layer call) := by
  have hmem : call ∈ calls ++ [call] := List.mem_append_right calls (List.mem_singleton_self call)
  have hgiven : ∀ voterId anonymousId, layer.voterMappings.lookup voterId = some anonymousId →
      ∃ c ∈ calls ++ [call], c.voterId = voterId ∧ anonymousId = c.fresh S := by
    intro voterId anonymousId hlookup
    obtain ⟨c, hc, hvoter, hid⟩ := h.given voterId anonymousId hlookup
    exact ⟨c, List.mem_append_left _ hc, hvoter, hid⟩
  rcases step_cases (S := S) layer call with ⟨known, hknown, hanswer, hstep⟩ |
    ⟨hnew, hanswer, hstep⟩
  · -- the voter has an id: nothing changes, and the answer is that id
    rw [hanswer, hstep]
    refine ⟨h.inverse, hgiven, h.named, ?_, ?_⟩
    · rw [List.map_append, List.map_append, h.answersOf]
      rfl
    · intro voterId anonymousId
      rw [List.mem_append, List.mem_singleton, h.answer_iff, Prod.mk.injEq, or_iff_left_iff_imp]
      rintro ⟨rfl, rfl⟩
      exact hknown
  · -- the voter gets an id, which no voter has
    have hunused : ∀ voterId, layer.voterMappings.lookup voterId ≠ some (call.fresh S) := by
      intro voterId hlookup
      obtain ⟨c, hc, hvoter, hid⟩ := hgiven voterId _ hlookup
      have hsame : call.voterId = voterId :=
        (Call.voterId_eq_of_fresh_eq hinj hmem hc hid).trans hvoter
      rw [hsame, ← Finmap.lookup_eq_none, hlookup] at hnew
      cases hnew
    rw [hanswer, hstep]
    refine ⟨h.inverse.insert hnew hunused rfl, ?_, ?_, ?_, ?_⟩
    · exact Finmap.forall_lookup_insert hgiven ⟨call, hmem, rfl, rfl⟩
    · exact Finmap.forall_lookup_insert h.named rfl
    · rw [List.map_append, List.map_append, h.answersOf]
      rfl
    · intro voterId anonymousId
      rw [List.mem_append, List.mem_singleton, h.answer_iff, Prod.mk.injEq]
      by_cases hsame : voterId = call.voterId
      · rw [hsame, Finmap.lookup_insert, Finmap.lookup_eq_none.mpr hnew, Option.some.injEq,
          eq_comm (a := anonymousId)]
        exact ⟨fun hor => hor.elim nofun And.right, fun heq => Or.inr ⟨rfl, heq⟩⟩
      · rw [Finmap.lookup_insert_of_ne _ hsame]
        exact or_iff_left fun hand => hsame hand.1

theorem consistent_run (electionId : ElectionId) (mixingRounds : Nat) {calls : List Call}
    (hinj : Set.InjOn S.blake2b256 {x | ∃ call ∈ calls, x = call.hashed}) :
    Consistent S calls
      (Runs.trace (AnonymityLayer.step S) (answered S) (new electionId mixingRounds) calls)
      (Runs.run (AnonymityLayer.step S) (new electionId mixingRounds) calls) := by
  induction calls using List.reverseRecOn with
  | nil => exact consistent_new electionId mixingRounds
  | append_singleton calls call ih =>
      rw [Runs.trace_concat, Runs.run_concat]
      refine (ih (hinj.mono ?_)).step call hinj
      rintro x ⟨c, hc, rfl⟩
      exact ⟨c, List.mem_append_left _ hc, rfl⟩

/-- **The layer is a bijection between voters and anonymous ids.**  Every call returns an
id, two calls the same one exactly if they are of one voter; the layer has as many ids as
there were voters, and holds for each of them the voter it was given to. -/
theorem anonymize_bijection (electionId : ElectionId) (mixingRounds : Nat) (calls : List Call)
    (hinj : Set.InjOn S.blake2b256 {x | ∃ call ∈ calls, x = call.hashed}) :
    let layer := Runs.run (step S) (new electionId mixingRounds) calls
    let answers := Runs.trace (step S) (answered S) (new electionId mixingRounds) calls
    answers.map Prod.fst = calls.map Call.voterId ∧
    (∀ p ∈ answers, ∀ q ∈ answers, p.1 = q.1 ↔ p.2 = q.2) ∧
    layer.anonymizedCount = (calls.map Call.voterId).toFinset.card ∧
    (∀ voterId anonymousId, layer.getAnonymousId voterId = some anonymousId ↔
      (voterId, anonymousId) ∈ answers) ∧
    ∀ voterId anonymousId, (voterId, anonymousId) ∈ answers ↔
      ∃ info, layer.anonymousMappings.lookup anonymousId = some info ∧
        info.originalVoterId = voterId ∧ info.anonymousId = anonymousId := by
  intro layer answers
  have h : Consistent S calls answers layer := consistent_run electionId mixingRounds hinj
  refine ⟨h.answersOf, ?_, ?_, fun voterId anonymousId => (h.answer_iff _ _).symm, ?_⟩
  · rintro ⟨voterId, anonymousId⟩ hp ⟨voterId', anonymousId'⟩ hq
    have hforward := (h.answer_iff _ _).mp hp
    have hforward' := (h.answer_iff _ _).mp hq
    constructor
    · rintro rfl
      exact Option.some.inj (hforward.symm.trans hforward')
    · rintro rfl
      exact h.inverse.injective hforward hforward'
  · rw [anonymizedCount, keys_run]
  · intro voterId anonymousId
    rw [h.answer_iff, h.inverse]
    constructor
    · rintro ⟨info, hinfo, hvoter⟩
      exact ⟨info, hinfo, hvoter, h.named anonymousId info hinfo⟩
    · rintro ⟨info, hinfo, hvoter, -⟩
      exact ⟨info, hinfo, hvoter⟩

end AnonymityLayer

namespace Reference

/-- Two voters, one of them twice. -/
def anonymizeCalls : List AnonymityLayer.Call :=
  [⟨voter.id, List.Vector.replicate 32 1, 1000⟩,
    ⟨⟨List.Vector.replicate 32 8⟩, List.Vector.replicate 32 2, 1001⟩,
    ⟨voter.id, List.Vector.replicate 32 3, 1002⟩]

theorem injOn_anonymizeCalls :
    Set.InjOn votingSuite.blake2b256 {x | ∃ call ∈ anonymizeCalls, x = call.hashed} := by
  have hnodup : ((anonymizeCalls.map AnonymityLayer.Call.hashed).map
      votingSuite.blake2b256).Nodup := by
    decide +kernel
  refine injOn_of_nodup_map hnodup ?_
  rintro x ⟨call, hcall, rfl⟩
  exact List.mem_map_of_mem hcall

end Reference

/-- Three calls, two voters, two ids. -/
theorem AnonymityLayer.anonymize_bijection_calls :
    (Runs.run (step Reference.votingSuite.toSuite) (new Reference.election.id 3)
      Reference.anonymizeCalls).anonymizedCount = 2 :=
  (anonymize_bijection Reference.election.id 3 Reference.anonymizeCalls
    Reference.injOn_anonymizeCalls).2.2.1.trans (by decide)

/-! ## Anonymity proofs -/

structure AnonymityProof where
  proofCommitment : Bytes
  proofResponse : Bytes
  timestamp : Timestamp
  deriving DecidableEq

/-- What `AnonymityProof::generate` draws, and the time at which it does. -/
structure AnonymityProof.Draw where
  randomness : ByteArr 32
  timestamp : Timestamp

namespace AnonymityProof
variable (S : Suite)

/-- The challenge, which `generate` and `verify` compute alike. -/
def computeChallenge (anonymousId : AnonymousId) (electionId : ElectionId)
    (proofCommitment : Bytes) : Bytes :=
  S.hashBlake2bMultiple [anonymousId.asBytes, electionId.asBytes, proofCommitment]

def generate (draw : Draw) (anonymousId : AnonymousId) (electionId : ElectionId) :
    Result AnonymityProof :=
  let commitment := Commitment.new S anonymousId.asBytes draw.randomness.toList
  let proofCommitment := commitment.value
  let challenge := computeChallenge S anonymousId electionId proofCommitment
  let proofResponse := S.hashBlake2bMultiple [draw.randomness.toList, challenge]
  .ok { proofCommitment, proofResponse, timestamp := draw.timestamp }

def verify (proof : AnonymityProof) (anonymousId : AnonymousId) (electionId : ElectionId) :
    Result Unit := do
  ensure (!(proof.proofCommitment.isEmpty || proof.proofResponse.isEmpty))
    (.cryptoError "Invalid anonymity proof")
  let challenge := computeChallenge S anonymousId electionId proof.proofCommitment
  -- the response that is computed here is not compared with anything
  let _expectedResponse := (S.blake2b256 challenge).toList
  ensure (decide (proof.proofResponse.length = 32)) (.cryptoError "Invalid proof response length")

/-- The proof verifies for this id in this election, and for no other id or election. -/
structure Binds (proof : AnonymityProof) (anonymousId : AnonymousId) (electionId : ElectionId) :
    Prop where
  own : proof.verify S anonymousId electionId = .ok ()
  others : ∀ anonymousId' electionId', (anonymousId', electionId') ≠ (anonymousId, electionId) →
    ∃ e, proof.verify S anonymousId' electionId' = .error e

variable {S}

/-- **When a proof verifies**: the id and the election have no part in it. -/
theorem verify_eq_ok {proof : AnonymityProof} {anonymousId : AnonymousId}
    {electionId : ElectionId} : proof.verify S anonymousId electionId = .ok () ↔
      proof.proofCommitment ≠ [] ∧ proof.proofResponse.length = 32 := by
  simp only [verify, bind_eq_ok, ensure_eq_ok, exists_const, Bool.not_eq_true',
    Bool.or_eq_false_iff, List.isEmpty_eq_false_iff, decide_eq_true_eq]
  constructor
  · rintro ⟨⟨hcommitment, -⟩, hlen⟩
    exact ⟨hcommitment, hlen⟩
  · rintro ⟨hcommitment, hlen⟩
    refine ⟨⟨hcommitment, ?_⟩, hlen⟩
    rintro hnil
    rw [hnil] at hlen
    cases hlen

theorem verify_generate {draw : Draw} {anonymousId : AnonymousId} {electionId : ElectionId}
    {proof : AnonymityProof} (h : generate S draw anonymousId electionId = .ok proof)
    (anonymousId' : AnonymousId) (electionId' : ElectionId) :
    proof.verify S anonymousId' electionId' = .ok () := by
  cases h
  refine verify_eq_ok.mpr ⟨?_, Suite.length_hashBlake2bMultiple _⟩
  refine List.ne_nil_of_length_pos ?_
  rw [Commitment.new, Suite.length_hashBlake2bMultiple]
  omega

end AnonymityProof

/-! ## Anonymous votes -/

structure AnonymousVote where
  anonymousId : AnonymousId
  electionId : ElectionId
  encryptedBallot : EncryptedData
  anonymityProof : AnonymityProof
  castAt : Timestamp
  deriving DecidableEq

/-- What `AnonymousVote::create` draws, and the time at which it is done. -/
structure AnonymousVote.Draw where
  nonce : ByteArr 12
  anonymousId : AnonymousId
  proof : AnonymityProof.Draw
  castAt : Timestamp

namespace AnonymousVote
variable (S : VotingSuite)

/-- A vote; the id is drawn, and the layer has no part in it. -/
def create (draw : Draw) (ballot : Ballot) (electionId : ElectionId)
    (electionKey : EncryptionKey) (_anonymityLayer : AnonymityLayer) : Result AnonymousVote := do
  let ballotData := S.bincode ballot
  let encryptedBallot ← encrypt S.toSuite draw.nonce ballotData electionKey
  let anonymityProof ←
    AnonymityProof.generate S.toSuite draw.proof draw.anonymousId electionId
  return {
    anonymousId := draw.anonymousId
    electionId
    encryptedBallot
    anonymityProof
    castAt := draw.castAt }

def verify (vote : AnonymousVote) : Result Unit :=
  vote.anonymityProof.verify S.toSuite vote.anonymousId vote.electionId

/-- The vote with another id and another election. -/
def replaced (vote : AnonymousVote) (anonymousId : AnonymousId) (electionId : ElectionId) :
    AnonymousVote :=
  { vote with anonymousId, electionId }

/-- The vote does not verify once the id or the election is another. -/
def Bound (vote : AnonymousVote) : Prop :=
  ∀ anonymousId electionId, (anonymousId, electionId) ≠ (vote.anonymousId, vote.electionId) →
    (vote.replaced anonymousId electionId).verify S ≠ .ok ()

variable {S}

/-- A vote that was created verifies under every id and in every election. -/
theorem verify_replaced {draw : Draw} {ballot : Ballot} {electionId : ElectionId}
    {electionKey : EncryptionKey} {layer : AnonymityLayer} {vote : AnonymousVote}
    (h : create S draw ballot electionId electionKey layer = .ok vote)
    (anonymousId' : AnonymousId) (electionId' : ElectionId) :
    (vote.replaced anonymousId' electionId').verify S = .ok () := by
  simp only [create, bind_eq_ok] at h
  obtain ⟨encryptedBallot, -, anonymityProof, hproof, hpure⟩ := h
  cases hpure
  exact AnonymityProof.verify_generate hproof anonymousId' electionId'

end AnonymousVote

instance : Nontrivial AnonymousId :=
  ⟨⟨List.Vector.replicate 32 0⟩, ⟨List.Vector.replicate 32 1⟩, by decide⟩

/-- **No proof binds the id and the election it was generated for**, nor is a vote bound to
its own: what is generated, or created, verifies for all of them. -/
theorem AnonymityProof.binds_never (S : VotingSuite) (draw : AnonymityProof.Draw)
    (anonymousId : AnonymousId) (electionId : ElectionId) :
    (∃ proof, generate S.toSuite draw anonymousId electionId = .ok proof ∧
      (∀ anonymousId' electionId', proof.verify S.toSuite anonymousId' electionId' = .ok ()) ∧
      ¬proof.Binds S.toSuite anonymousId electionId) ∧
    ∀ (voteDraw : AnonymousVote.Draw) (ballot : Ballot) (electionKey : EncryptionKey)
      (layer : AnonymityLayer) (vote : AnonymousVote),
      AnonymousVote.create S voteDraw ballot electionId electionKey layer = .ok vote →
      (∀ anonymousId' electionId', (vote.replaced anonymousId' electionId').verify S = .ok ()) ∧
        ¬vote.Bound S := by
  constructor
  · obtain ⟨proof, hproof⟩ : ∃ proof, generate S.toSuite draw anonymousId electionId = .ok proof :=
      ⟨_, rfl⟩
    refine ⟨proof, hproof, verify_generate hproof, ?_⟩
    intro hbinds
    obtain ⟨other, hother⟩ := exists_ne anonymousId
    obtain ⟨e, herr⟩ := hbinds.others other electionId fun heq => hother (congrArg Prod.fst heq)
    rw [verify_generate hproof] at herr
    cases herr
  · intro voteDraw ballot electionKey layer vote hcreate
    refine ⟨AnonymousVote.verify_replaced hcreate, ?_⟩
    intro hbound
    obtain ⟨other, hother⟩ := exists_ne vote.anonymousId
    exact hbound other vote.electionId (fun heq => hother (congrArg Prod.fst heq))
      (AnonymousVote.verify_replaced hcreate other vote.electionId)

namespace Reference

def anonymousId : AnonymousId := ⟨List.Vector.replicate 32 5⟩

def otherAnonymousId : AnonymousId := ⟨List.Vector.replicate 32 6⟩

def proofDraw : AnonymityProof.Draw := ⟨List.Vector.replicate 32 2, 2000⟩

/-- The proof of `anonymousId` in `election`. -/
def anonymityProof : AnonymityProof :=
  let proofCommitment :=
    (Commitment.new votingSuite.toSuite anonymousId.asBytes proofDraw.randomness.toList).value
  { proofCommitment
    proofResponse := votingSuite.hashBlake2bMultiple
      [proofDraw.randomness.toList,
        AnonymityProof.computeChallenge votingSuite.toSuite anonymousId election.id
          proofCommitment]
    timestamp := 2000 }

theorem generate_anonymityProof :
    AnonymityProof.generate votingSuite.toSuite proofDraw anonymousId election.id =
      .ok anonymityProof :=
  rfl

/-- The strings that are hashed to make it, and to check it, for its own id and for another
in another election. -/
def anonymityInputs : List Bytes :=
  let challenge := AnonymityProof.computeChallenge votingSuite.toSuite anonymousId election.id
    anonymityProof.proofCommitment
  [[anonymousId.asBytes, proofDraw.randomness.toList].flatten,
    [anonymousId.asBytes, election.id.asBytes, anonymityProof.proofCommitment].flatten,
    [proofDraw.randomness.toList, challenge].flatten,
    challenge,
    [otherAnonymousId.asBytes, otherElection.id.asBytes, anonymityProof.proofCommitment].flatten,
    AnonymityProof.computeChallenge votingSuite.toSuite otherAnonymousId otherElection.id
      anonymityProof.proofCommitment]

/-- A vote in `election`. -/
def anonymousVote : AnonymousVote where
  anonymousId := anonymousId
  electionId := election.id
  encryptedBallot := EncryptedData.new castDraw.nonce
    (ChaCha20Poly1305.encrypt electionKey.key castDraw.nonce (encodeBallot ballot))
  anonymityProof := anonymityProof
  castAt := 2000

theorem create_anonymousVote :
    AnonymousVote.create votingSuite ⟨castDraw.nonce, anonymousId, proofDraw, 2000⟩ ballot
      election.id electionKey (AnonymityLayer.new election.id 3) = .ok anonymousVote :=
  rfl

end Reference

open Reference (votingSuite election otherElection anonymousId otherAnonymousId) in
/-- A proof that verifies for another id in another election, and the vote with it, though
the hash function tells apart all strings that are hashed. -/
theorem AnonymityProof.verifies_elsewhere :
    Set.InjOn votingSuite.blake2b256 {x | x ∈ Reference.anonymityInputs} ∧
    (otherAnonymousId, otherElection.id) ≠ (anonymousId, election.id) ∧
    generate votingSuite.toSuite Reference.proofDraw anonymousId election.id =
      .ok Reference.anonymityProof ∧
    Reference.anonymityProof.verify votingSuite.toSuite otherAnonymousId otherElection.id =
      .ok () ∧
    AnonymousVote.create votingSuite
        ⟨Reference.castDraw.nonce, anonymousId, Reference.proofDraw, 2000⟩ Reference.ballot
        election.id Reference.electionKey (AnonymityLayer.new election.id 3) =
      .ok Reference.anonymousVote ∧
    (Reference.anonymousVote.replaced otherAnonymousId otherElection.id).verify votingSuite =
      .ok () := by
  have hnodup : (Reference.anonymityInputs.map votingSuite.blake2b256).Nodup := by
    decide +kernel
  refine ⟨List.inj_on_of_nodup_map hnodup, by decide, Reference.generate_anonymityProof, ?_,
    Reference.create_anonymousVote, ?_⟩
  · exact verify_generate Reference.generate_anonymityProof otherAnonymousId otherElection.id
  · exact AnonymousVote.verify_replaced Reference.create_anonymousVote otherAnonymousId
      otherElection.id

/-! ## Ring signatures -/

structure RingSignature where
  ringMembers : List PublicKey
  signature : Signature
  keyImage : Bytes
  deriving DecidableEq

namespace RingSignature
variable (S : Suite)

/-- The key image that `sign` puts down for a public key. -/
def imageOf (publicKey : PublicKey) : Bytes := (S.blake2b256 publicKey.asBytes).toList

def sign (message : Bytes) (signerKeypair : KeyPair) (ringMembers : List PublicKey) :
    Result RingSignature := do
  ensure (!ringMembers.isEmpty) (.cryptoError "Ring must have at least one member")
  let signature ← S.sign message signerKeypair
  let keyImage := imageOf S signerKeypair.publicKey
  return { ringMembers, signature, keyImage }

/-- Members are tried in order, up to the first under whose key the signature verifies. -/
def verify (ring : RingSignature) (message : Bytes) : Result Bool :=
  if ring.ringMembers.isEmpty then .ok false
  else .ok (ring.ringMembers.any fun publicKey =>
    (S.verify message ring.signature publicKey).isOk)

/-- The signature verifies under the key, which is that of a ring member. -/
def VerifiesUnder (ring : RingSignature) (message : Bytes) (publicKey : PublicKey) : Prop :=
  publicKey ∈ ring.ringMembers ∧ S.verify message ring.signature publicKey = .ok ()

/-- If the signature is accepted, its key image is that of a ring member under whose key it
verifies. -/
def Linkable (ring : RingSignature) (message : Bytes) : Prop :=
  ring.verify S message = .ok true →
    ∃ publicKey, ring.VerifiesUnder S message publicKey ∧ ring.keyImage = imageOf S publicKey

variable {S}

/-- **When a ring signature is accepted**: the key image has no part in it. -/
theorem verify_eq_true {ring : RingSignature} {message : Bytes} :
    ring.verify S message = .ok true ↔ ∃ publicKey, ring.VerifiesUnder S message publicKey := by
  have hok : ∀ publicKey, (S.verify message ring.signature publicKey).isOk = true ↔
      S.verify message ring.signature publicKey = .ok () := by
    intro publicKey
    rcases S.verify_cases message ring.signature publicKey with h | ⟨e, h⟩
    · rw [h]
      exact iff_of_true rfl rfl
    · rw [h]
      exact iff_of_false Bool.false_ne_true nofun
  rw [verify]
  split
  · next hempty =>
      refine iff_of_false (by simp) ?_
      rintro ⟨publicKey, hmem, -⟩
      rw [List.isEmpty_iff.mp hempty] at hmem
      exact List.not_mem_nil hmem
  · simp only [Except.ok.injEq, List.any_eq_true, hok, VerifiesUnder]

theorem sign_eq_ok {message : Bytes} {signerKeypair : KeyPair} {ringMembers : List PublicKey}
    {ring : RingSignature} (h : sign S message signerKeypair ringMembers = .ok ring) :
    ring = ⟨ringMembers, S.ed25519Sign signerKeypair.privateKey message,
      imageOf S signerKeypair.publicKey⟩ := by
  simp only [sign, bind_eq_ok, Suite.sign, Except.ok.injEq, exists_eq_left'] at h
  obtain ⟨-, -, hpure⟩ := h
  cases hpure
  rfl

theorem image_ne_nil (publicKey : PublicKey) : [] ≠ imageOf S publicKey := by
  intro hnil
  have hlen : (imageOf S publicKey).length = 32 := List.Vector.toList_length _
  rw [← hnil] at hlen
  cases hlen

/-- **What is accepted, and with what key image.**  A signature that verifies under the key
of a ring member is accepted with every key image there is, so only one that verifies under
none is linkable whatever stands next to it.  What the holder of a member's key signs is
linkable as it comes, with the key image of that key. -/
theorem linkable_iff (ringMembers : List PublicKey) (signature : Signature) (message : Bytes) :
    ((∀ keyImage, Linkable S ⟨ringMembers, signature, keyImage⟩ message) ↔
      ∀ publicKey ∈ ringMembers, S.verify message signature publicKey ≠ .ok ()) ∧
    (∀ keyImage, Linkable S ⟨ringMembers, signature, keyImage⟩ message ↔
      (∀ publicKey ∈ ringMembers, S.verify message signature publicKey ≠ .ok ()) ∨
        ∃ publicKey ∈ ringMembers, S.verify message signature publicKey = .ok () ∧
          keyImage = imageOf S publicKey) ∧
    ∀ signerKeypair ring, S.Accepts signerKeypair signerKeypair.publicKey →
      signerKeypair.publicKey ∈ ringMembers →
      sign S message signerKeypair ringMembers = .ok ring →
      ring.verify S message = .ok true ∧ ring.Linkable S message ∧
        ring.keyImage = imageOf S signerKeypair.publicKey := by
  have hpoint : ∀ keyImage, Linkable S ⟨ringMembers, signature, keyImage⟩ message ↔
      (∀ publicKey ∈ ringMembers, S.verify message signature publicKey ≠ .ok ()) ∨
        ∃ publicKey ∈ ringMembers, S.verify message signature publicKey = .ok () ∧
          keyImage = imageOf S publicKey := by
    intro keyImage
    rw [Linkable, verify_eq_true, imp_iff_not_or]
    simp only [VerifiesUnder, not_exists, not_and, and_assoc, ne_eq]
  refine ⟨?_, hpoint, ?_⟩
  · constructor
    · intro hall
      rcases (hpoint []).mp (hall []) with hnone | ⟨publicKey, -, -, himage⟩
      · exact hnone
      · exact absurd himage (image_ne_nil publicKey)
    · intro hnone keyImage
      exact (hpoint keyImage).mpr (Or.inl hnone)
  · intro signerKeypair ring hown hmem hsign
    rw [sign_eq_ok hsign]
    refine ⟨verify_eq_true.mpr ⟨_, hmem, hown message⟩, ?_, rfl⟩
    intro _
    exact ⟨_, ⟨hmem, hown message⟩, rfl⟩

open Reference (votingSuite keyPair) in
/-- The key image of a signature, erased: it is accepted as before, and linked to nobody. -/
theorem image_erased :
    ∃ ring, sign votingSuite.toSuite [1] keyPair [keyPair.publicKey] = .ok ring ∧
      ring.verify votingSuite.toSuite [1] = .ok true ∧
      ({ ring with keyImage := [] } : RingSignature).verify votingSuite.toSuite [1] = .ok true ∧
      ring.keyImage ≠ [] ∧
      ¬({ ring with keyImage := [] } : RingSignature).Linkable votingSuite.toSuite [1] := by
  have hunder : ∀ keyImage, VerifiesUnder votingSuite.toSuite
      ⟨[keyPair.publicKey], votingSuite.ed25519Sign keyPair.privateKey [1], keyImage⟩ [1]
      keyPair.publicKey :=
    fun _ => ⟨List.mem_singleton_self _, Reference.accepts_keyPair [1]⟩
  refine ⟨_, rfl, verify_eq_true.mpr ⟨_, hunder _⟩, verify_eq_true.mpr ⟨_, hunder _⟩,
    (image_ne_nil _).symm, ?_⟩
  intro hlinkable
  obtain ⟨publicKey, -, himage⟩ := hlinkable (verify_eq_true.mpr ⟨_, hunder _⟩)
  exact image_ne_nil publicKey himage

end RingSignature

end VotingChain
