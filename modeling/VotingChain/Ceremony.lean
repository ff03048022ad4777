/-
# `VotingChain.Ceremony` — a signing ceremony, from the keys to the signature

The rest of `crypto/src/threshold.rs`: `DistributedKeyGen` hands out keys.  Whoever has one
signs the hash of the message and sends the signature to the aggregator, where it comes in
among whatever else is sent: signatures of others, signatures that are no good, the same
signature again.

    generate ──▶ share i ──▶ sign ──▶ add_signature ─ ⋯ ─▶ finalize ──▶ verify
                                          ▲
                                anything, at any time

Nobody can keep a participant out, since an attempt takes no place but that of its own signer,
and only if it verifies (`mem_signers_run`).  So the ceremony can be ended exactly if as many
participants have signed as the threshold says, and what comes of it then has the signatures
of exactly these participants (`finalize_iff_signed`).
-/
import VotingChain.Threshold

namespace VotingChain

section
variable (publicKeyOf : ByteArr 32 → PublicKey)

/-- Generate a new keypair, from the bytes that are drawn. -/
def KeyPair.generate (drawn : ByteArr 32) : KeyPair := ⟨drawn, publicKeyOf drawn⟩

/-- Create from existing private key. -/
def KeyPair.fromPrivateKey (privateKey : ByteArr 32) : Result KeyPair :=
  .ok ⟨privateKey, publicKeyOf privateKey⟩

end

/-- Distributed key generation for threshold signatures. -/
structure DistributedKeyGen where
  scheme : ThresholdScheme
  shares : List (ByteArr 32)
  deriving DecidableEq

namespace DistributedKeyGen
variable (S : Suite) (publicKeyOf : ByteArr 32 → PublicKey)

/-- Simulate distributed key generation.  Draw `i` is for participant `i`. -/
def generate (draw : Nat → ByteArr 32) (threshold totalParticipants : Nat) :
    Result DistributedKeyGen := do
  ensure (decide (threshold ≤ totalParticipants))
    (.cryptoError "Threshold exceeds total participants")
  let keypairs := (List.range totalParticipants).map fun i => KeyPair.generate publicKeyOf (draw i)
  let shares := keypairs.map KeyPair.privateKey
  let participants := keypairs.map KeyPair.publicKey
  let scheme ← ThresholdScheme.new threshold participants
  return { scheme, shares }

/-- Get key share for a specific participant. -/
def getShare (dkg : DistributedKeyGen) (index : Nat) : Option (ByteArr 32) := dkg.shares[index]?

/-- What a participant sends: the hash signed with the key of the share. -/
def signShare (messageHash : Hash) (share : ByteArr 32) : Result Attempt := do
  let keypair ← KeyPair.fromPrivateKey publicKeyOf share
  let signature ← S.sign messageHash.toList keypair
  return ⟨keypair.publicKey, signature⟩

end DistributedKeyGen

/-! ## Who is kept -/

theorem ThresholdScheme.nodup_of_new {threshold : Nat} {participants : List PublicKey}
    {scheme : ThresholdScheme} (h : new threshold participants = .ok scheme) :
    participants.Nodup := by
  simp only [new, bind_eq_ok, ensure_eq_ok, decide_eq_true_eq] at h
  obtain ⟨-, -, -, -, -, -, -, hcard, -⟩ := h
  exact Multiset.toFinset_card_eq_card_iff_nodup.mp hcard

namespace Attempt
variable {S : Suite} {scheme : ThresholdScheme} {messageHash : Hash}

/-- **Who is kept**: every participant of whom there is an attempt that verifies. -/
theorem mem_signers_run (attempts : List Attempt) {k : PublicKey} :
    k ∈ (Runs.run (accept S scheme messageHash) [] attempts).map signer ↔
      k ∈ scheme.participants ∧ ∃ attempt ∈ attempts, attempt.signer = k ∧
        S.verify messageHash.toList attempt.signature k = .ok () := by
  induction attempts using List.reverseRecOn with
  | nil => simp
  | append_singleton attempts attempt ih =>
      simp only [List.mem_append, List.mem_singleton]
      rw [Runs.run_concat, accept]
      by_cases hadm : Admitted S scheme messageHash
          (Runs.run (accept S scheme messageHash) [] attempts) attempt
      · rw [if_pos hadm, List.map_append, List.mem_append, ih, List.map_singleton,
          List.mem_singleton]
        constructor
        · rintro (⟨hk, a, ha, hsigner, hverify⟩ | rfl)
          · exact ⟨hk, a, Or.inl ha, hsigner, hverify⟩
          · exact ⟨hadm.1, attempt, Or.inr rfl, rfl, hadm.2.2⟩
        · rintro ⟨hk, a, ha | rfl, hsigner, hverify⟩
          · exact Or.inl ⟨hk, a, ha, hsigner, hverify⟩
          · exact Or.inr hsigner.symm
      · rw [if_neg hadm, ih]
        constructor
        · rintro ⟨hk, a, ha, hsigner, hverify⟩
          exact ⟨hk, a, Or.inl ha, hsigner, hverify⟩
        · rintro ⟨hk, a, ha | rfl, hsigner, hverify⟩
          · exact ⟨hk, a, ha, hsigner, hverify⟩
          · -- it verifies and is of a participant, so it was refused for an earlier one
            by_contra hnot
            rw [← ih, ← hsigner] at hnot
            rw [← hsigner] at hk hverify
            exact hadm ⟨hk, hnot, hverify⟩

end Attempt

/-! ## The ceremony -/

namespace DistributedKeyGen
variable {S : Suite} {publicKeyOf : ByteArr 32 → PublicKey}

theorem generate_eq_ok {draw : Nat → ByteArr 32} {threshold totalParticipants : Nat}
    {dkg : DistributedKeyGen}
    (h : generate publicKeyOf draw threshold totalParticipants = .ok dkg) :
    dkg.scheme.threshold = threshold ∧ dkg.scheme.participants.Nodup ∧
      dkg.scheme.participants = (List.range totalParticipants).map (publicKeyOf ∘ draw) ∧
      dkg.shares = (List.range totalParticipants).map draw := by
  simp only [generate, bind_eq_ok] at h
  obtain ⟨-, -, scheme, hnew, h⟩ := h
  cases h
  obtain ⟨hthreshold, hparticipants⟩ := ThresholdScheme.new_eq_ok hnew
  refine ⟨hthreshold, hparticipants ▸ ThresholdScheme.nodup_of_new hnew, ?_, ?_⟩
  · rw [hparticipants, List.map_map]
    rfl
  · rw [List.map_map]
    rfl

theorem getShare_eq_some {draw : Nat → ByteArr 32} {threshold totalParticipants : Nat}
    {dkg : DistributedKeyGen}
    (h : generate publicKeyOf draw threshold totalParticipants = .ok dkg) {i : Nat}
    {share : ByteArr 32} :
    dkg.getShare i = some share ↔ i < totalParticipants ∧ draw i = share := by
  rw [getShare, (generate_eq_ok h).2.2.2, List.getElem?_map]
  by_cases hi : i < totalParticipants
  · rw [List.getElem?_range hi]
    simp [hi]
  · rw [List.getElem?_eq_none (by simpa using hi)]
    simp [hi]

theorem participantIndex_generate {draw : Nat → ByteArr 32} {threshold totalParticipants : Nat}
    {dkg : DistributedKeyGen}
    (h : generate publicKeyOf draw threshold totalParticipants = .ok dkg) {i : Nat}
    (hi : i < totalParticipants) :
    dkg.scheme.participantIndex (publicKeyOf (draw i)) = some i := by
  obtain ⟨-, hnodup, hparticipants, -⟩ := generate_eq_ok h
  have hlength : i < dkg.scheme.participants.length := by
    rw [hparticipants, List.length_map, List.length_range]
    exact hi
  have hget : dkg.scheme.participants[i] = publicKeyOf (draw i) := by
    simp [hparticipants]
  rw [ThresholdScheme.participantIndex, List.findIdx?_eq_some_iff_getElem]
  refine ⟨hlength, decide_eq_true hget, ?_⟩
  intro j hj
  rw [decide_eq_true_eq, ← hget, hnodup.getElem_inj_iff]
  exact Nat.ne_of_lt hj

theorem injOn_generate {draw : Nat → ByteArr 32} {threshold totalParticipants : Nat}
    {dkg : DistributedKeyGen}
    (h : generate publicKeyOf draw threshold totalParticipants = .ok dkg) :
    Set.InjOn (publicKeyOf ∘ draw) {i | i < totalParticipants} := by
  intro i hi j hj heq
  have hindex := participantIndex_generate h hi
  rw [show publicKeyOf (draw i) = publicKeyOf (draw j) from heq,
    participantIndex_generate h hj] at hindex
  exact (Option.some.inj hindex).symm

end DistributedKeyGen

namespace Reference

/-- The public keys of the two seeds there are. -/
def publicKeyOf (privateKey : ByteArr 32) : PublicKey :=
  if privateKey = keyPair.privateKey then key else otherKeyPair.publicKey

/-- The seeds, drawn one after the other. -/
def seeds (i : Nat) : ByteArr 32 := if i = 0 then keyPair.privateKey else otherKeyPair.privateKey

/-- One of two participants is enough. -/
def dealtKeys : DistributedKeyGen := ⟨oneOfTwo, [keyPair.privateKey, otherKeyPair.privateKey]⟩

end Reference

namespace DistributedKeyGen

section Signed
variable {draw : Nat → ByteArr 32} {threshold totalParticipants : Nat} {dkg : DistributedKeyGen}
  (hgen : generate publicKeyOf draw threshold totalParticipants = .ok dkg) {message : Bytes}
  {signed : Finset Nat} {attempts : List Attempt}
  (hsent : ∀ i ∈ signed, ∃ share attempt, dkg.getShare i = some share ∧
    signShare S publicKeyOf (S.blake2b256 message) share = .ok attempt ∧ attempt ∈ attempts)
include hgen hsent

theorem lt_of_signed {i : Nat} (hi : i ∈ signed) : i < totalParticipants := by
  obtain ⟨share, -, hshare, -⟩ := hsent i hi
  exact ((getShare_eq_some hgen).mp hshare).1

theorem map_signer_run
    (hverify : ∀ i ∈ signed, S.verify (S.blake2b256 message).toList
      (S.ed25519Sign (draw i) (S.blake2b256 message).toList) (publicKeyOf (draw i)) = .ok ())
    (hforged : ∀ i < totalParticipants, ∀ attempt ∈ attempts,
      attempt.signer = publicKeyOf (draw i) →
      S.verify (S.blake2b256 message).toList attempt.signature attempt.signer = .ok () →
      i ∈ signed) :
    ((Runs.run (Attempt.accept S dkg.scheme (S.blake2b256 message)) [] attempts).map
        Attempt.signer : Multiset PublicKey) = signed.val.map (publicKeyOf ∘ draw) := by
  have hparticipants := (generate_eq_ok hgen).2.2.1
  refine (Multiset.Nodup.ext ?_ ?_).mpr ?_
  · exact Multiset.coe_nodup.mpr (Attempt.good_run S dkg.scheme message attempts).nodup
  · refine Multiset.Nodup.map_on ?_ signed.nodup
    intro i hi j hj
    exact injOn_generate hgen (lt_of_signed hgen hsent hi) (lt_of_signed hgen hsent hj)
  · intro k
    rw [Multiset.mem_coe, Attempt.mem_signers_run, Multiset.mem_map]
    constructor
    · rintro ⟨hk, attempt, hattempt, hsigner, hvalid⟩
      rw [hparticipants, List.mem_map] at hk
      obtain ⟨i, hi, rfl⟩ := hk
      rw [← hsigner] at hvalid
      exact ⟨i, hforged i (List.mem_range.mp hi) attempt hattempt hsigner hvalid, rfl⟩
    · rintro ⟨i, hi, rfl⟩
      obtain ⟨share, attempt, hshare, hsign, hattempt⟩ := hsent i hi
      obtain ⟨hlt, rfl⟩ := (getShare_eq_some hgen).mp hshare
      cases hsign
      refine ⟨?_, _, hattempt, rfl, hverify i hi⟩
      rw [hparticipants]
      exact List.mem_map_of_mem (List.mem_range.mpr hlt)

theorem participantIndex_of_signed {i : Nat} (hi : i ∈ signed) :
    (dkg.scheme.participantIndex (publicKeyOf (draw i))).getD 0 = i := by
  rw [participantIndex_generate hgen (lt_of_signed hgen hsent hi)]
  rfl

theorem map_participantIndex {accepted : List Attempt}
    (hsigners : (accepted.map Attempt.signer : Multiset PublicKey) =
      signed.val.map (publicKeyOf ∘ draw)) :
    ((accepted.map (Attempt.toPartial dkg.scheme)).map PartialSignature.participantIndex :
      Multiset Nat) = signed.val := by
  calc ((accepted.map (Attempt.toPartial dkg.scheme)).map PartialSignature.participantIndex :
          Multiset Nat)
      = (accepted.map Attempt.signer : Multiset PublicKey).map
          fun k => (dkg.scheme.participantIndex k).getD 0 := by
        rw [Multiset.map_coe, List.map_map, List.map_map]
        rfl
    _ = (signed.val.map (publicKeyOf ∘ draw)).map
          fun k => (dkg.scheme.participantIndex k).getD 0 := by rw [hsigners]
    _ = signed.val := by
        rw [Multiset.map_map]
        exact (Multiset.map_congr rfl fun i => participantIndex_of_signed hgen hsent).trans
          (Multiset.map_id' _)

theorem signer_toPartial {accepted : List Attempt}
    (hsigners : (accepted.map Attempt.signer : Multiset PublicKey) =
      signed.val.map (publicKeyOf ∘ draw)) {a : Attempt} (ha : a ∈ accepted) :
    (a.toPartial dkg.scheme).signer =
      publicKeyOf (draw (a.toPartial dkg.scheme).participantIndex) := by
  have hsigner : a.signer ∈ (accepted.map Attempt.signer : Multiset PublicKey) :=
    Multiset.mem_coe.mpr (List.mem_map_of_mem ha)
  rw [hsigners, Multiset.mem_map] at hsigner
  obtain ⟨i, hi, hsame⟩ := hsigner
  rw [Attempt.toPartial, ← hsame]
  exact congrArg (publicKeyOf ∘ draw) (participantIndex_of_signed hgen hsent hi).symm

end Signed

/-- **A ceremony ends well exactly if enough have signed.**  Let keys be handed out to so many
participants, let the participants in `signed` send what they sign, and let nobody else's
signature be forged.  Whatever else arrives at the aggregator, and in whatever order, it can
be finalized exactly if the threshold is no more than the number of those who signed.  What
comes of it verifies and has one signature of each of them and no other, with the index of
the share. -/
theorem finalize_iff_signed {draw : Nat → ByteArr 32} {threshold totalParticipants : Nat}
    {dkg : DistributedKeyGen}
    (hgen : generate publicKeyOf draw threshold totalParticipants = .ok dkg) (message : Bytes)
    (signed : Finset Nat) (attempts : List Attempt)
    (hsent : ∀ i ∈ signed, ∃ share attempt, dkg.getShare i = some share ∧
      signShare S publicKeyOf (S.blake2b256 message) share = .ok attempt ∧ attempt ∈ attempts)
    (hverify : ∀ i ∈ signed, S.verify (S.blake2b256 message).toList
      (S.ed25519Sign (draw i) (S.blake2b256 message).toList) (publicKeyOf (draw i)) = .ok ())
    (hforged : ∀ i < totalParticipants, ∀ attempt ∈ attempts,
      attempt.signer = publicKeyOf (draw i) →
      S.verify (S.blake2b256 message).toList attempt.signature attempt.signer = .ok () →
      i ∈ signed) (order : MapOrder PublicKey PartialSignature) :
    let aggregator := Runs.run (ThresholdAggregator.step S)
      (ThresholdAggregator.new S dkg.scheme message) attempts
    ((∃ sig, aggregator.finalize order = .ok sig) ↔ threshold ≤ signed.card) ∧
    ∀ sig, aggregator.finalize order = .ok sig →
      verifyThresholdSignature S sig = .ok () ∧
      (sig.partialSignatures.map PartialSignature.participantIndex : Multiset Nat) = signed.val ∧
      ∀ p ∈ sig.partialSignatures, p.signer = publicKeyOf (draw p.participantIndex) := by
  intro aggregator
  have hrep := (ThresholdAggregator.represents_run S dkg.scheme message attempts).2
  have hgood := Attempt.good_run S dkg.scheme message attempts
  have hsigners := map_signer_run hgen hsent hverify hforged
  generalize Runs.run (Attempt.accept S dkg.scheme (S.blake2b256 message)) [] attempts = accepted
    at hrep hgood hsigners
  have hlength : accepted.length = signed.card := by
    have hcard := congrArg Multiset.card hsigners
    rwa [Multiset.coe_card, List.length_map, Multiset.card_map] at hcard
  constructor
  · rw [hrep.exists_finalize_iff order, (generate_eq_ok hgen).1, hlength]
  · intro sig hfinal
    obtain ⟨hperm, hvalid⟩ := hrep.finalized hgood hfinal
    refine ⟨hvalid, ?_, ?_⟩
    · rw [← map_participantIndex hgen hsent hsigners]
      exact Multiset.coe_eq_coe.mpr (hperm.map _)
    · intro p hp
      obtain ⟨a, ha, rfl⟩ := List.mem_map.mp (hperm.mem_iff.mp hp)
      exact signer_toPartial hgen hsent hsigners ha

/-- One participant has signed, and that is enough; a signature that is no good comes first. -/
theorem finalize_iff_signed_blockOne :
    ∃ sig, (Runs.run (ThresholdAggregator.step Reference.thresholdSuite)
        (ThresholdAggregator.new Reference.thresholdSuite Reference.oneOfTwo (strBytes "block 1"))
        [⟨Reference.otherKeyPair.publicKey, Reference.blockOneSignature⟩,
          ⟨Reference.key, Reference.blockOneSignature⟩]).finalize default = .ok sig ∧
      verifyThresholdSignature Reference.thresholdSuite sig = .ok () ∧
      sig.partialSignatures.map PartialSignature.participantIndex = [0] := by
  have hgen : generate Reference.publicKeyOf Reference.seeds 1 2 = .ok Reference.dealtKeys := by
    decide
  have hvalid : ∀ {signature : Signature} {publicKey : PublicKey},
      Reference.thresholdSuite.verify
          (Reference.thresholdSuite.blake2b256 (strBytes "block 1")).toList signature publicKey =
        .ok () ↔ publicKey = Reference.key ∧ signature = Reference.blockOneSignature := by
    intro signature publicKey
    rw [Reference.verify_thresholdSuite, Reference.blake2b256_blockOne]
    simp
  obtain ⟨attempts, hattempts⟩ : ∃ attempts : List Attempt,
      attempts = [⟨Reference.otherKeyPair.publicKey, Reference.blockOneSignature⟩,
        ⟨Reference.key, Reference.blockOneSignature⟩] := ⟨_, rfl⟩
  have hsent : ∀ i ∈ ({0} : Finset Nat), ∃ share attempt,
      Reference.dealtKeys.getShare i = some share ∧
      signShare Reference.thresholdSuite Reference.publicKeyOf
        (Reference.thresholdSuite.blake2b256 (strBytes "block 1")) share = .ok attempt ∧
      attempt ∈ attempts := by
    intro i hi
    rw [Finset.mem_singleton.mp hi, hattempts]
    refine ⟨Reference.keyPair.privateKey, _, rfl, rfl, ?_⟩
    exact List.mem_cons_of_mem _ List.mem_cons_self
  obtain ⟨hiff, hsig⟩ := finalize_iff_signed hgen (strBytes "block 1") {0} attempts hsent
    (fun i hi => hvalid.mpr ⟨by rw [Finset.mem_singleton.mp hi]; decide, rfl⟩)
    (fun i hi attempt _ hsigner hverify => by
      have hkey : Reference.publicKeyOf (Reference.seeds i) = Reference.key :=
        hsigner.symm.trans (hvalid.mp hverify).1
      have hcases : i = 0 ∨ i = 1 := by omega
      rcases hcases with rfl | rfl
      · exact Finset.mem_singleton_self 0
      · exact absurd hkey (by decide)) default
  rw [hattempts] at hiff hsig
  obtain ⟨sig, hfinal⟩ := hiff.mpr (le_refl 1)
  obtain ⟨hverify, hindices, -⟩ := hsig sig hfinal
  exact ⟨sig, hfinal, hverify, Multiset.coe_eq_singleton.mp hindices⟩

end DistributedKeyGen

end VotingChain
