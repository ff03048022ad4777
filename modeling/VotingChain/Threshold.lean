/-
# `VotingChain.Threshold` — signatures of several signers

The model of `crypto/src/threshold.rs`, and of `MultiSignature` in `signatures.rs`.

There are two collectors of partial signatures, one with a list (`ThresholdSignature`)
and one with a hash map (`ThresholdAggregator`).  Both do the same thing: they keep an
attempt if its signer is a participant who has not signed before, and the signature
verifies.  That is `accept`, on the list of the attempts kept so far; each collector
refines it (`represents_run`), and that they agree with each other follows
(`collectors_agree`).

What the collectors check on the way in, `verify` does not check again.  It counts
signatures, not signers, and does not ask who the signers are (`enough_signers_iff`).
-/
import VotingChain.Lib.Maps
import VotingChain.VoteCasting

namespace VotingChain

/-! ## Schemes -/

/-- Threshold signature scheme for distributed signing. -/
structure ThresholdScheme where
  totalParticipants : Nat
  threshold : Nat
  participants : List PublicKey
  deriving DecidableEq

namespace ThresholdScheme

/-- Create a new threshold scheme, if the parameters are valid. -/
def new (threshold : Nat) (participants : List PublicKey) : Result ThresholdScheme := do
  let totalParticipants := participants.length
  ensure (decide (threshold ≠ 0)) (.cryptoError "Threshold must be at least 1")
  ensure (decide (threshold ≤ totalParticipants))
    (.cryptoError ("Threshold " ++ toString threshold ++ " cannot exceed total participants " ++
      toString totalParticipants))
  ensure (decide (totalParticipants ≠ 0)) (.cryptoError "Must have at least one participant")
  ensure (decide (participants.toFinset.card = participants.length))
    (.cryptoError "Duplicate participants not allowed")
  return { totalParticipants, threshold, participants }

/-- Check if this participant is part of the scheme. -/
def isParticipant (scheme : ThresholdScheme) (publicKey : PublicKey) : Bool :=
  decide (publicKey ∈ scheme.participants)

/-- Get participant index. -/
def participantIndex (scheme : ThresholdScheme) (publicKey : PublicKey) : Option Nat :=
  scheme.participants.findIdx? fun pk => decide (pk = publicKey)

def isThresholdMet (scheme : ThresholdScheme) (signatureCount : Nat) : Bool :=
  decide (scheme.threshold ≤ signatureCount)

theorem new_eq_ok {threshold : Nat} {participants : List PublicKey} {scheme : ThresholdScheme}
    (h : new threshold participants = .ok scheme) :
    scheme.threshold = threshold ∧ scheme.participants = participants := by
  simp only [new, bind_eq_ok, ensure_eq_ok] at h
  obtain ⟨-, -, -, -, -, -, -, -, h⟩ := h
  cases h
  exact ⟨rfl, rfl⟩

theorem participantIndex_eq_none {scheme : ThresholdScheme} {publicKey : PublicKey} :
    scheme.participantIndex publicKey = none ↔ publicKey ∉ scheme.participants := by
  rw [participantIndex, List.findIdx?_eq_none_iff]
  constructor
  · intro h hmem
    exact Bool.false_ne_true ((h publicKey hmem).symm.trans (decide_eq_true rfl))
  · intro h pk hpk
    refine decide_eq_false ?_
    rintro rfl
    exact h hpk

end ThresholdScheme

/-- A partial signature from one participant. -/
structure PartialSignature where
  signer : PublicKey
  signature : Signature
  participantIndex : Nat
  deriving DecidableEq

/-- Verify this partial signature. -/
def PartialSignature.verify (S : Suite) (partialSig : PartialSignature) (message : Bytes) :
    Result Unit :=
  S.verify message partialSig.signature partialSig.signer

/-! ## The collector with a list -/

/-- Aggregated threshold signature. -/
structure ThresholdSignature where
  scheme : ThresholdScheme
  partialSignatures : List PartialSignature
  messageHash : Hash
  deriving DecidableEq

namespace ThresholdSignature
variable (S : Suite)

def new (scheme : ThresholdScheme) (messageHash : Hash) : ThresholdSignature :=
  { scheme, partialSignatures := [], messageHash }

/-- Check if threshold is met. -/
def isComplete (sig : ThresholdSignature) : Bool :=
  sig.scheme.isThresholdMet sig.partialSignatures.length

/-- Add a partial signature: whether the threshold is now met, or an error. -/
def addPartialSignature (partialSig : PartialSignature) : Exec ThresholdSignature Bool := do
  Exec.lift (ensure ((← get).scheme.isParticipant partialSig.signer)
    (.invalidValidator "Signer not in threshold scheme"))
  Exec.lift (ensure
    (!(← get).partialSignatures.any fun ps => decide (ps.signer = partialSig.signer))
    (.cryptoError "Duplicate signature from same participant"))
  Exec.lift (partialSig.verify S (← get).messageHash.toList)
  modify fun sig => { sig with partialSignatures := sig.partialSignatures ++ [partialSig] }
  return (← get).isComplete

/-- Verify all partial signatures. -/
def verify (sig : ThresholdSignature) : Result Unit := do
  ensure sig.isComplete .insufficientValidators
  forEach (fun partialSig => partialSig.verify S sig.messageHash.toList) sig.partialSignatures

end ThresholdSignature

/-- Verify a threshold signature. -/
def verifyThresholdSignature (S : Suite) (thresholdSig : ThresholdSignature) : Result Unit :=
  thresholdSig.verify S

/-- The loop of `create_threshold_signature`: every partial signature is added, up to the
first error. -/
def addPartialSignatures (S : Suite) :
    List PartialSignature → ThresholdSignature → Result ThresholdSignature
  | [], sig => .ok sig
  | partialSig :: rest, sig =>
    match (ThresholdSignature.addPartialSignature S partialSig).exec sig with
    | (.ok _, sig) => addPartialSignatures S rest sig
    | (.error e, _) => .error e

/-- Create a threshold signature from individual signatures. -/
def createThresholdSignature (S : Suite) (scheme : ThresholdScheme) (message : Bytes)
    (partialSigs : List PartialSignature) : Result ThresholdSignature := do
  let messageHash := S.blake2b256 message
  let thresholdSig ← addPartialSignatures S partialSigs (ThresholdSignature.new scheme messageHash)
  ensure thresholdSig.isComplete .insufficientValidators
  return thresholdSig

/-! ## The collector with a map -/

/-- Threshold signature aggregator. -/
structure ThresholdAggregator where
  scheme : ThresholdScheme
  message : Bytes
  messageHash : Hash
  signatures : Finmap fun _ : PublicKey => PartialSignature

namespace ThresholdAggregator
variable (S : Suite)

def new (scheme : ThresholdScheme) (message : Bytes) : ThresholdAggregator :=
  { scheme, message, messageHash := S.blake2b256 message, signatures := ∅ }

/-- Check if threshold is met. -/
def isComplete (aggregator : ThresholdAggregator) : Bool :=
  aggregator.scheme.isThresholdMet aggregator.signatures.entries.card

/-- Add a partial signature. -/
def addSignature (signer : PublicKey) (signature : Signature) :
    Exec ThresholdAggregator Bool := do
  match (← get).scheme.participantIndex signer with
  | none => Exec.lift (fail (.invalidValidator "Signer not in threshold scheme"))
  | some participantIndex =>
    Exec.lift (ensure (decide (signer ∉ (← get).signatures))
      (.cryptoError "Duplicate signature from participant"))
    Exec.lift (S.verify (← get).messageHash.toList signature signer)
    modify fun aggregator =>
      { aggregator with
        signatures :=
          aggregator.signatures.insert signer { signer, signature, participantIndex } }
    return (← get).isComplete

/-- Finalize and produce threshold signature.  The values of the map come in its order. -/
def finalize (order : MapOrder PublicKey PartialSignature) (aggregator : ThresholdAggregator) :
    Result ThresholdSignature := do
  ensure aggregator.isComplete .insufficientValidators
  return { ThresholdSignature.new aggregator.scheme aggregator.messageHash with
    partialSignatures := order.values aggregator.signatures }

end ThresholdAggregator

/-! ## What both do -/

/-- An attempt to sign. -/
structure Attempt where
  signer : PublicKey
  signature : Signature
  deriving DecidableEq

namespace Attempt
variable (S : Suite) (scheme : ThresholdScheme) (messageHash : Hash)

/-- The partial signature it makes, with the index the scheme has for the signer. -/
def toPartial (attempt : Attempt) : PartialSignature where
  signer := attempt.signer
  signature := attempt.signature
  participantIndex := (scheme.participantIndex attempt.signer).getD 0

/-- The signer is a participant who has not signed yet, and the signature verifies. -/
def Admitted (accepted : List Attempt) (attempt : Attempt) : Prop :=
  attempt.signer ∈ scheme.participants ∧ attempt.signer ∉ accepted.map Attempt.signer ∧
    S.verify messageHash.toList attempt.signature attempt.signer = .ok ()

instance (accepted : List Attempt) (attempt : Attempt) :
    Decidable (Admitted S scheme messageHash accepted attempt) :=
  inferInstanceAs (Decidable (_ ∧ _ ∧ _))

/-- The attempts kept so far, after one more. -/
def accept (accepted : List Attempt) (attempt : Attempt) : List Attempt :=
  if Admitted S scheme messageHash accepted attempt then accepted ++ [attempt] else accepted

/-- What a collector answers: whether the threshold is met, or nothing if the attempt is
refused. -/
def answer (accepted : List Attempt) (attempt : Attempt) : List (Option Bool) :=
  [if Admitted S scheme messageHash accepted attempt then
    some (scheme.isThresholdMet (accepted.length + 1)) else none]

/-- What a collector keeps of one attempt. -/
def kept (accepted : List Attempt) (attempt : Attempt) : List Attempt :=
  if Admitted S scheme messageHash accepted attempt then [attempt] else []

/-- The signers are different participants, and their signatures verify. -/
structure Good (accepted : List Attempt) : Prop where
  nodup : (accepted.map Attempt.signer).Nodup
  participant : ∀ a ∈ accepted, a.signer ∈ scheme.participants
  verifies : ∀ a ∈ accepted, S.verify messageHash.toList a.signature a.signer = .ok ()

variable {S scheme messageHash}

theorem accept_of_admitted {accepted : List Attempt} {attempt : Attempt}
    (h : Admitted S scheme messageHash accepted attempt) :
    accept S scheme messageHash accepted attempt = accepted ++ [attempt] := if_pos h

theorem accept_of_not_admitted {accepted : List Attempt} {attempt : Attempt}
    (h : ¬Admitted S scheme messageHash accepted attempt) :
    accept S scheme messageHash accepted attempt = accepted := if_neg h

theorem good_nil : Good S scheme messageHash [] :=
  ⟨List.nodup_nil, fun _ h => absurd h List.not_mem_nil, fun _ h => absurd h List.not_mem_nil⟩

theorem Good.left {accepted rest : List Attempt} (h : Good S scheme messageHash (accepted ++ rest)) :
    Good S scheme messageHash accepted := by
  have hnodup := h.nodup
  rw [List.map_append] at hnodup
  exact ⟨hnodup.of_append_left, fun a ha => h.participant a (List.mem_append_left _ ha),
    fun a ha => h.verifies a (List.mem_append_left _ ha)⟩

theorem good_concat {accepted : List Attempt} {attempt : Attempt} :
    Good S scheme messageHash (accepted ++ [attempt]) ↔
      Good S scheme messageHash accepted ∧ Admitted S scheme messageHash accepted attempt := by
  constructor
  · intro h
    have hnodup := h.nodup
    rw [List.map_append, List.map_singleton, ← List.concat_eq_append, List.nodup_concat] at hnodup
    have hlast : attempt ∈ accepted ++ [attempt] :=
      List.mem_append_right _ (List.mem_singleton_self _)
    exact ⟨h.left, h.participant _ hlast, hnodup.1, h.verifies _ hlast⟩
  · rintro ⟨h, hparticipant, hfresh, hverify⟩
    refine ⟨?_, ?_, ?_⟩
    · rw [List.map_append, List.map_singleton, ← List.concat_eq_append]
      exact List.Nodup.concat hfresh h.nodup
    · intro a ha
      rcases List.mem_append.mp ha with ha | ha
      · exact h.participant a ha
      · rw [List.mem_singleton.mp ha]
        exact hparticipant
    · intro a ha
      rcases List.mem_append.mp ha with ha | ha
      · exact h.verifies a ha
      · rw [List.mem_singleton.mp ha]
        exact hverify

theorem Good.accept {accepted : List Attempt} (h : Good S scheme messageHash accepted)
    (attempt : Attempt) :
    Good S scheme messageHash (accept S scheme messageHash accepted attempt) := by
  rw [Attempt.accept]
  split
  · next hadm => exact good_concat.mpr ⟨h, hadm⟩
  · exact h

theorem run_accept (accepted attempts : List Attempt) :
    Runs.run (accept S scheme messageHash) accepted attempts =
      accepted ++ Runs.trace (accept S scheme messageHash) (kept S scheme messageHash) accepted
        attempts := by
  induction attempts generalizing accepted with
  | nil => exact (List.append_nil _).symm
  | cons attempt attempts ih =>
      rw [Runs.run_cons, ih, Runs.trace, ← List.append_assoc]
      congr 1
      rw [accept, kept]
      split
      · rfl
      · exact (List.append_nil _).symm

end Attempt

/-! ## The two collectors refine it -/

namespace ThresholdSignature
variable (S : Suite)

/-- An attempt is made. -/
def step (sig : ThresholdSignature) (attempt : Attempt) : ThresholdSignature :=
  (addPartialSignature S (attempt.toPartial sig.scheme)).next sig

def answer (sig : ThresholdSignature) (attempt : Attempt) : List (Option Bool) :=
  [((addPartialSignature S (attempt.toPartial sig.scheme)).exec sig).1.toOption]

/-- The partial signatures are those of the attempts that were kept. -/
def Represents (scheme : ThresholdScheme) (messageHash : Hash) (sig : ThresholdSignature)
    (accepted : List Attempt) : Prop :=
  sig = { scheme, messageHash, partialSignatures := accepted.map (Attempt.toPartial scheme) }

variable {S} {scheme : ThresholdScheme} {messageHash : Hash}

theorem any_signer_eq_true {accepted : List Attempt} {attempt : Attempt} :
    ((accepted.map (Attempt.toPartial scheme)).any fun ps =>
      decide (ps.signer = (attempt.toPartial scheme).signer)) = true ↔
      attempt.signer ∈ accepted.map Attempt.signer := by
  rw [List.any_eq_true, List.mem_map]
  constructor
  · rintro ⟨ps, hps, hsigner⟩
    obtain ⟨a, ha, rfl⟩ := List.mem_map.mp hps
    exact ⟨a, ha, of_decide_eq_true hsigner⟩
  · rintro ⟨a, ha, hsigner⟩
    exact ⟨a.toPartial scheme, List.mem_map_of_mem ha, decide_eq_true hsigner⟩

/-- **What `add_partial_signature` does.** -/
theorem Represents.exec_addPartialSignature {sig : ThresholdSignature} {accepted : List Attempt}
    (h : Represents scheme messageHash sig accepted) (attempt : Attempt) :
    (attempt.Admitted S scheme messageHash accepted ∧ ∃ sig',
      (addPartialSignature S (attempt.toPartial scheme)).exec sig =
        (.ok (scheme.isThresholdMet (accepted.length + 1)), sig') ∧
      Represents scheme messageHash sig' (accepted ++ [attempt])) ∨
    (¬attempt.Admitted S scheme messageHash accepted ∧ ∃ e,
      (addPartialSignature S (attempt.toPartial scheme)).exec sig = (.error e, sig)) := by
  subst h
  rw [addPartialSignature]
  simp only [Exec.exec_get_bind, Exec.exec_lift_bind]
  by_cases hparticipant : attempt.signer ∈ scheme.participants
  · have hok : scheme.isParticipant (attempt.toPartial scheme).signer = true :=
      decide_eq_true hparticipant
    rw [hok]
    by_cases hfresh : attempt.signer ∈ accepted.map Attempt.signer
    · rw [any_signer_eq_true.mpr hfresh]
      exact Or.inr ⟨fun hadm => hadm.2.1 hfresh, _, rfl⟩
    · rw [Bool.eq_false_iff.mpr (mt any_signer_eq_true.mp hfresh)]
      rcases S.verify_cases messageHash.toList attempt.signature attempt.signer with hverify | ⟨e, he⟩
      · have hvalid : (attempt.toPartial scheme).verify S messageHash.toList = .ok () := hverify
        refine Or.inl ⟨⟨hparticipant, hfresh, hverify⟩,
          ⟨scheme, (accepted ++ [attempt]).map (Attempt.toPartial scheme), messageHash⟩, ?_, rfl⟩
        simp only [ensure, Bool.not_false, if_true, hvalid, Exec.exec_modify_bind,
          Exec.exec_get_bind, Exec.exec_pure, isComplete, List.map_append, List.map_singleton,
          List.length_append, List.length_map, List.length_singleton]
      · have hvalid : (attempt.toPartial scheme).verify S messageHash.toList = fail e := he
        refine Or.inr ⟨fun hadm => ?_, .err e, ?_⟩
        · rw [hadm.2.2] at he
          cases he
        · simp only [ensure, Bool.not_false, if_true, hvalid, fail]
  · have hbad : scheme.isParticipant (attempt.toPartial scheme).signer = false :=
      decide_eq_false hparticipant
    rw [hbad]
    exact Or.inr ⟨fun hadm => hparticipant hadm.1, _, rfl⟩

theorem Represents.step {sig : ThresholdSignature} {accepted : List Attempt}
    (h : Represents scheme messageHash sig accepted) (attempt : Attempt) :
    answer S sig attempt = Attempt.answer S scheme messageHash accepted attempt ∧
      Represents scheme messageHash (step S sig attempt)
        (Attempt.accept S scheme messageHash accepted attempt) := by
  have hscheme : sig.scheme = scheme := by rw [h]
  rw [answer, Attempt.answer, ThresholdSignature.step, Attempt.accept, hscheme]
  rcases h.exec_addPartialSignature (S := S) attempt with ⟨hadm, sig', hexec, hrep⟩ | ⟨hadm, e, hexec⟩
  · rw [hexec, Exec.next_of_ok hexec, if_pos hadm, if_pos hadm]
    exact ⟨rfl, hrep⟩
  · rw [hexec, Exec.next_of_error hexec, if_neg hadm, if_neg hadm]
    exact ⟨rfl, h⟩

theorem addPartialSignatures_of_good (rest : List Attempt) :
    ∀ {sig : ThresholdSignature} {accepted : List Attempt},
      Represents scheme messageHash sig accepted →
      Attempt.Good S scheme messageHash (accepted ++ rest) →
      ∃ sig', addPartialSignatures S (rest.map (Attempt.toPartial scheme)) sig = .ok sig' ∧
        Represents scheme messageHash sig' (accepted ++ rest) := by
  induction rest with
  | nil =>
      intro sig accepted h _
      rw [List.append_nil]
      exact ⟨sig, rfl, h⟩
  | cons attempt rest ih =>
      intro sig accepted h hgood
      rw [List.append_cons] at hgood ⊢
      have hadm := (Attempt.good_concat.mp hgood.left).2
      rcases h.exec_addPartialSignature (S := S) attempt with ⟨-, sig', hexec, hrep⟩ | ⟨hnot, -⟩
      · obtain ⟨sig'', hrest, hrep'⟩ := ih hrep hgood
        refine ⟨sig'', ?_, hrep'⟩
        rw [List.map_cons, addPartialSignatures, hexec]
        exact hrest
      · exact absurd hadm hnot

end ThresholdSignature

namespace ThresholdAggregator
variable (S : Suite)

/-- An attempt is made. -/
def step (aggregator : ThresholdAggregator) (attempt : Attempt) : ThresholdAggregator :=
  (addSignature S attempt.signer attempt.signature).next aggregator

def answer (aggregator : ThresholdAggregator) (attempt : Attempt) : List (Option Bool) :=
  [((addSignature S attempt.signer attempt.signature).exec aggregator).1.toOption]

/-- What is kept of an attempt. -/
def kept (aggregator : ThresholdAggregator) (attempt : Attempt) : List Attempt :=
  match ((addSignature S attempt.signer attempt.signature).exec aggregator).1 with
  | .ok _ => [attempt]
  | .error _ => []

/-- The map has the partial signatures of the attempts that were kept, each under its
signer. -/
structure Represents (scheme : ThresholdScheme) (messageHash : Hash)
    (aggregator : ThresholdAggregator) (accepted : List Attempt) : Prop where
  schemeEq : aggregator.scheme = scheme
  messageHashEq : aggregator.messageHash = messageHash
  entries : aggregator.signatures.entries =
    ((accepted.map fun a => ⟨a.signer, a.toPartial scheme⟩ :
      List (Σ _ : PublicKey, PartialSignature)) : Multiset (Σ _ : PublicKey, PartialSignature))

variable {S} {scheme : ThresholdScheme} {messageHash : Hash}

theorem Represents.mem_iff {aggregator : ThresholdAggregator} {accepted : List Attempt}
    (h : Represents scheme messageHash aggregator accepted) {k : PublicKey} :
    k ∈ aggregator.signatures ↔ k ∈ accepted.map Attempt.signer := by
  rw [Finmap.mem_def, h.entries, Multiset.coe_keys, Multiset.mem_coe, List.keys, List.map_map]
  rfl

theorem Represents.card {aggregator : ThresholdAggregator} {accepted : List Attempt}
    (h : Represents scheme messageHash aggregator accepted) :
    aggregator.signatures.entries.card = accepted.length := by
  rw [h.entries, Multiset.coe_card, List.length_map]

/-- **What `add_signature` does.** -/
theorem Represents.exec_addSignature {aggregator : ThresholdAggregator} {accepted : List Attempt}
    (h : Represents scheme messageHash aggregator accepted) (attempt : Attempt) :
    (attempt.Admitted S scheme messageHash accepted ∧ ∃ aggregator',
      (addSignature S attempt.signer attempt.signature).exec aggregator =
        (.ok (scheme.isThresholdMet (accepted.length + 1)), aggregator') ∧
      Represents scheme messageHash aggregator' (accepted ++ [attempt])) ∨
    (¬attempt.Admitted S scheme messageHash accepted ∧ ∃ e,
      (addSignature S attempt.signer attempt.signature).exec aggregator = (.error e, aggregator)) := by
  rw [addSignature, Exec.exec_get_bind, h.schemeEq]
  cases hindex : scheme.participantIndex attempt.signer with
  | none =>
      refine Or.inr ⟨?_, _, rfl⟩
      intro hadm
      exact ThresholdScheme.participantIndex_eq_none.mp hindex hadm.1
  | some participantIndex =>
      have hparticipant : attempt.signer ∈ scheme.participants := by
        by_contra hnot
        rw [ThresholdScheme.participantIndex_eq_none.mpr hnot] at hindex
        cases hindex
      simp only [Exec.exec_get_bind, Exec.exec_lift_bind]
      by_cases hfresh : attempt.signer ∈ accepted.map Attempt.signer
      · rw [decide_eq_false (not_not.mpr (h.mem_iff.mpr hfresh))]
        exact Or.inr ⟨fun hadm => hadm.2.1 hfresh, _, rfl⟩
      · have hnew : attempt.signer ∉ aggregator.signatures := mt h.mem_iff.mp hfresh
        rw [decide_eq_true hnew, h.messageHashEq]
        rcases S.verify_cases messageHash.toList attempt.signature attempt.signer with
          hverify | ⟨e, he⟩
        · refine Or.inl ⟨⟨hparticipant, hfresh, hverify⟩,
            { aggregator with
              signatures := aggregator.signatures.insert attempt.signer
                ⟨attempt.signer, attempt.signature, participantIndex⟩ }, ?_, h.schemeEq,
            h.messageHashEq, ?_⟩
          · simp only [ensure, if_true, hverify, Exec.exec_modify_bind, Exec.exec_get_bind,
              Exec.exec_pure, isComplete, Finmap.entries_insert_of_notMem hnew, Multiset.card_cons,
              h.card, h.schemeEq]
          · rw [Finmap.entries_insert_of_notMem hnew, h.entries, List.map_append,
              List.map_singleton, Attempt.toPartial, hindex]
            exact Multiset.coe_eq_coe.mpr (List.perm_append_singleton _ _).symm
        · refine Or.inr ⟨?_, .err e, ?_⟩
          · intro hadm
            rw [hadm.2.2] at he
            cases he
          · simp only [ensure, if_true, he, fail]

theorem Represents.step {aggregator : ThresholdAggregator} {accepted : List Attempt}
    (h : Represents scheme messageHash aggregator accepted) (attempt : Attempt) :
    answer S aggregator attempt = Attempt.answer S scheme messageHash accepted attempt ∧
      kept S aggregator attempt = Attempt.kept S scheme messageHash accepted attempt ∧
      Represents scheme messageHash (step S aggregator attempt)
        (Attempt.accept S scheme messageHash accepted attempt) := by
  rw [answer, Attempt.answer, kept, Attempt.kept, ThresholdAggregator.step, Attempt.accept]
  rcases h.exec_addSignature (S := S) attempt with ⟨hadm, aggregator', hexec, hrep⟩ | ⟨hadm, e, hexec⟩
  · rw [hexec, Exec.next_of_ok hexec, if_pos hadm, if_pos hadm, if_pos hadm]
    exact ⟨rfl, rfl, hrep⟩
  · rw [hexec, Exec.next_of_error hexec, if_neg hadm, if_neg hadm, if_neg hadm]
    exact ⟨rfl, rfl, h⟩

theorem Represents.values_perm {aggregator : ThresholdAggregator} {accepted : List Attempt}
    (h : Represents scheme messageHash aggregator accepted)
    (order : MapOrder PublicKey PartialSignature) :
    (order.values aggregator.signatures).Perm (accepted.map (Attempt.toPartial scheme)) := by
  refine Multiset.coe_eq_coe.mp ?_
  rw [order.coe_values, h.entries, Multiset.map_coe, List.map_map]
  rfl

end ThresholdAggregator

/-! ## Their runs -/

section
variable {S : Suite} {scheme : ThresholdScheme} {message : Bytes}

variable (S scheme message) in
theorem ThresholdSignature.represents_new :
    ThresholdSignature.Represents scheme (S.blake2b256 message)
      (ThresholdSignature.new scheme (S.blake2b256 message)) [] :=
  rfl

variable (S scheme message) in
theorem ThresholdSignature.represents_run (attempts : List Attempt) :
    Runs.trace (ThresholdSignature.step S) (ThresholdSignature.answer S)
        (ThresholdSignature.new scheme (S.blake2b256 message)) attempts =
      Runs.trace (Attempt.accept S scheme (S.blake2b256 message))
        (Attempt.answer S scheme (S.blake2b256 message)) [] attempts ∧
    ThresholdSignature.Represents scheme (S.blake2b256 message)
      (Runs.run (ThresholdSignature.step S)
        (ThresholdSignature.new scheme (S.blake2b256 message)) attempts)
      (Runs.run (Attempt.accept S scheme (S.blake2b256 message)) [] attempts) :=
  Runs.simulate (fun _ _ attempt h => h.step attempt)
    (ThresholdSignature.represents_new S scheme message)
    attempts

variable (S scheme message) in
theorem ThresholdAggregator.represents_new :
    ThresholdAggregator.Represents scheme (S.blake2b256 message)
      (ThresholdAggregator.new S scheme message) [] :=
  ⟨rfl, rfl, rfl⟩

variable (S scheme message) in
theorem ThresholdAggregator.represents_run (attempts : List Attempt) :
    Runs.trace (ThresholdAggregator.step S) (ThresholdAggregator.answer S)
        (ThresholdAggregator.new S scheme message) attempts =
      Runs.trace (Attempt.accept S scheme (S.blake2b256 message))
        (Attempt.answer S scheme (S.blake2b256 message)) [] attempts ∧
    ThresholdAggregator.Represents scheme (S.blake2b256 message)
      (Runs.run (ThresholdAggregator.step S) (ThresholdAggregator.new S scheme message) attempts)
      (Runs.run (Attempt.accept S scheme (S.blake2b256 message)) [] attempts) :=
  Runs.simulate (fun _ _ attempt h => ⟨(h.step attempt).1, (h.step attempt).2.2⟩)
    (ThresholdAggregator.represents_new S scheme message) attempts

theorem ThresholdAggregator.kept_run (attempts : List Attempt) :
    Runs.trace (ThresholdAggregator.step S) (ThresholdAggregator.kept S)
        (ThresholdAggregator.new S scheme message) attempts =
      Runs.run (Attempt.accept S scheme (S.blake2b256 message)) [] attempts := by
  rw [Attempt.run_accept, List.nil_append]
  exact (Runs.simulate (fun _ _ attempt h => ⟨(h.step attempt).2.1, (h.step attempt).2.2⟩)
    (ThresholdAggregator.represents_new S scheme message) attempts).1

variable (S scheme message) in
theorem Attempt.good_run (attempts : List Attempt) :
    Attempt.Good S scheme (S.blake2b256 message)
      (Runs.run (Attempt.accept S scheme (S.blake2b256 message)) [] attempts) :=
  Runs.run_preserves (fun _ attempt h => h.accept attempt) Attempt.good_nil attempts

theorem ThresholdAggregator.finalize_eq_ok {order : MapOrder PublicKey PartialSignature}
    {aggregator : ThresholdAggregator} {sig : ThresholdSignature} :
    aggregator.finalize order = .ok sig ↔ aggregator.isComplete = true ∧
      sig = ⟨aggregator.scheme, order.values aggregator.signatures, aggregator.messageHash⟩ := by
  simp only [ThresholdAggregator.finalize, bind_eq_ok, ensure_eq_ok, exists_and_left]
  constructor
  · rintro ⟨hcomplete, -, hsig⟩
    cases hsig
    exact ⟨hcomplete, rfl⟩
  · rintro ⟨hcomplete, rfl⟩
    exact ⟨hcomplete, (), rfl⟩

theorem ThresholdSignature.verify_eq_ok {sig : ThresholdSignature} :
    sig.verify S = .ok () ↔ sig.scheme.threshold ≤ sig.partialSignatures.length ∧
      ∀ p ∈ sig.partialSignatures, p.verify S sig.messageHash.toList = .ok () := by
  simp only [ThresholdSignature.verify, bind_eq_ok, ensure_eq_ok, forEach_eq_ok,
    ThresholdSignature.isComplete, ThresholdScheme.isThresholdMet, decide_eq_true_eq,
    exists_and_left, exists_const]

section Finalized
variable {hash : Hash} {aggregator : ThresholdAggregator} {accepted : List Attempt}
  (h : aggregator.Represents scheme hash accepted)
include h

theorem ThresholdAggregator.Represents.isComplete_iff :
    aggregator.isComplete = true ↔ scheme.threshold ≤ accepted.length := by
  rw [isComplete, ThresholdScheme.isThresholdMet, decide_eq_true_iff, h.schemeEq, h.card]

theorem ThresholdAggregator.Represents.exists_finalize_iff
    (order : MapOrder PublicKey PartialSignature) :
    (∃ sig, aggregator.finalize order = .ok sig) ↔ scheme.threshold ≤ accepted.length := by
  rw [← h.isComplete_iff]
  constructor
  · rintro ⟨sig, hfinal⟩
    exact (finalize_eq_ok.mp hfinal).1
  · intro hcomplete
    exact ⟨_, finalize_eq_ok.mpr ⟨hcomplete, rfl⟩⟩

theorem ThresholdAggregator.Represents.finalized (hgood : Attempt.Good S scheme hash accepted)
    {order : MapOrder PublicKey PartialSignature} {sig : ThresholdSignature}
    (hfinal : aggregator.finalize order = .ok sig) :
    sig.partialSignatures.Perm (accepted.map (Attempt.toPartial scheme)) ∧
      sig.verify S = .ok () := by
  obtain ⟨hdone, rfl⟩ := finalize_eq_ok.mp hfinal
  have hperm := h.values_perm order
  refine ⟨hperm, ThresholdSignature.verify_eq_ok.mpr ⟨?_, ?_⟩⟩
  · rw [hperm.length_eq, List.length_map, h.schemeEq]
    exact h.isComplete_iff.mp hdone
  · intro p hp
    obtain ⟨a, ha, rfl⟩ := List.mem_map.mp (hperm.mem_iff.mp hp)
    rw [h.messageHashEq]
    exact hgood.verifies a ha

end Finalized

theorem exists_createThresholdSignature {accepted : List Attempt}
    (hgood : Attempt.Good S scheme (S.blake2b256 message) accepted)
    (henough : scheme.threshold ≤ accepted.length) :
    ∃ created, createThresholdSignature S scheme message
        (accepted.map (Attempt.toPartial scheme)) = .ok created ∧
      created.partialSignatures = accepted.map (Attempt.toPartial scheme) := by
  obtain ⟨created, hadd, hcreated⟩ := ThresholdSignature.addPartialSignatures_of_good accepted
    (ThresholdSignature.represents_new S scheme message) hgood
  rw [List.nil_append] at hcreated
  have hdone : created.isComplete = true := by
    rw [show created = _ from hcreated, ThresholdSignature.isComplete, List.length_map]
    exact decide_eq_true henough
  refine ⟨created, ?_, ?_⟩
  · simp only [createThresholdSignature, bind_eq_ok, ensure_eq_ok]
    exact ⟨created, hadd, (), hdone, rfl⟩
  · rw [show created = _ from hcreated]

/-- **The two collectors agree.**  Given the same attempts, they give the same answers;
what they hold are valid signatures of different participants; and the collector with the
map can be finalized exactly if the threshold has been reached, with the same partial
signatures, in some order, as those that are made from the accepted attempts in a list,
and with a signature that verifies. -/
theorem collectors_agree {threshold : Nat} {participants : List PublicKey}
    (hnew : ThresholdScheme.new threshold participants = .ok scheme)
    (order : MapOrder PublicKey PartialSignature) (attempts : List Attempt) :
    let aggregator := Runs.run (ThresholdAggregator.step S)
      (ThresholdAggregator.new S scheme message) attempts
    let sig := Runs.run (ThresholdSignature.step S)
      (ThresholdSignature.new scheme (S.blake2b256 message)) attempts
    let accepted := Runs.trace (ThresholdAggregator.step S) (ThresholdAggregator.kept S)
      (ThresholdAggregator.new S scheme message) attempts
    Runs.trace (ThresholdAggregator.step S) (ThresholdAggregator.answer S)
        (ThresholdAggregator.new S scheme message) attempts =
      Runs.trace (ThresholdSignature.step S) (ThresholdSignature.answer S)
        (ThresholdSignature.new scheme (S.blake2b256 message)) attempts ∧
    ((sig.partialSignatures.map PartialSignature.signer).Nodup ∧
      ∀ p ∈ sig.partialSignatures, p.signer ∈ participants ∧
        p.verify S (S.blake2b256 message).toList = .ok ()) ∧
    (∀ k p, aggregator.signatures.lookup k = some p →
      p.signer = k ∧ k ∈ participants ∧ p.verify S (S.blake2b256 message).toList = .ok ()) ∧
    ((∃ sig', aggregator.finalize order = .ok sig') ↔ threshold ≤ accepted.length) ∧
    ∀ sig', aggregator.finalize order = .ok sig' →
      (∃ created, createThresholdSignature S scheme message
          (accepted.map (Attempt.toPartial scheme)) = .ok created ∧
        sig'.partialSignatures.Perm created.partialSignatures) ∧
      sig'.verify S = .ok () := by
  intro aggregator sig accepted
  obtain ⟨hthreshold, hparticipants⟩ := ThresholdScheme.new_eq_ok hnew
  obtain ⟨hmapAnswers, hmap⟩ := ThresholdAggregator.represents_run S scheme message attempts
  obtain ⟨hlistAnswers, hlist⟩ := ThresholdSignature.represents_run S scheme message attempts
  have hgood := Attempt.good_run S scheme message attempts
  rw [← ThresholdAggregator.kept_run] at hmap hlist hgood
  have hvalid : ∀ a ∈ accepted, (a.toPartial scheme).signer ∈ participants ∧
      (a.toPartial scheme).verify S (S.blake2b256 message).toList = .ok () := by
    intro a ha
    exact ⟨hparticipants ▸ hgood.participant a ha, hgood.verifies a ha⟩
  refine ⟨hmapAnswers.trans hlistAnswers.symm, ⟨?_, ?_⟩, ?_, ?_, ?_⟩
  · rw [show sig = _ from hlist, List.map_map]
    exact hgood.nodup
  · rw [show sig = _ from hlist]
    intro p hp
    obtain ⟨a, ha, rfl⟩ := List.mem_map.mp hp
    exact hvalid a ha
  · intro k p hlookup
    have hentry := Finmap.mem_lookup_iff.mp (show p ∈ aggregator.signatures.lookup k from hlookup)
    rw [hmap.entries, Multiset.mem_coe] at hentry
    obtain ⟨a, ha, heq⟩ := List.mem_map.mp hentry
    cases heq
    exact ⟨rfl, hvalid a ha⟩
  · rw [← hthreshold]
    exact hmap.exists_finalize_iff order
  · intro sig' hfinal
    obtain ⟨hperm, hverify⟩ := hmap.finalized hgood hfinal
    obtain ⟨created, hcreate, hpartials⟩ :=
      exists_createThresholdSignature hgood ((hmap.exists_finalize_iff order).mp ⟨_, hfinal⟩)
    refine ⟨⟨created, hcreate, ?_⟩, hverify⟩
    rw [hpartials]
    exact hperm

end

namespace Reference

/-- The hash of the message `block 1`. -/
def blockOneHash : Hash :=
  ⟨[47, 231, 23, 42, 59, 145, 187, 138, 94, 238, 226, 200, 168, 159, 13, 66, 51, 175, 5, 190,
    148, 33, 57, 89, 207, 97, 218, 14, 6, 61, 108, 118], rfl⟩

/-- The signature of `keyPair` on it. -/
def blockOneSignature : Signature :=
  ⟨⟨[160, 220, 190, 227, 122, 37, 13, 80, 63, 129, 176, 22, 58, 170, 146, 94, 247, 103, 194,
     246, 5, 235, 238, 255, 46, 77, 98, 1, 229, 248, 245, 104, 141, 31, 96, 193, 96, 10, 88,
     103, 240, 38, 195, 196, 90, 216, 183, 58, 12, 254, 236, 240, 183, 181, 239, 51, 252, 144,
     254, 102, 17, 255, 38, 4],
    rfl⟩⟩

/-- The algorithms of the program, with this signature only. -/
def thresholdSuite : Suite :=
  { votingSuite.toSuite with
    ed25519Sign := fun _ _ => blockOneSignature
    ed25519Verify := fun publicKey message s =>
      decide (publicKey = key ∧ message = blockOneHash.toList ∧ s = blockOneSignature) }

/-- One of two is enough. -/
def oneOfTwo : ThresholdScheme := ⟨2, 1, [key, otherKeyPair.publicKey]⟩

/-- Both are needed. -/
def twoOfTwo : ThresholdScheme := ⟨2, 2, [key, otherKeyPair.publicKey]⟩

theorem blake2b256_blockOne : thresholdSuite.blake2b256 (strBytes "block 1") = blockOneHash := by
  decide +kernel

theorem verify_thresholdSuite {message : Bytes} {s : Signature} {publicKey : PublicKey} :
    thresholdSuite.verify message s publicKey = .ok () ↔
      publicKey = key ∧ message = blockOneHash.toList ∧ s = blockOneSignature := by
  show ensure (decide _) _ = _ ↔ _
  rw [ensure_eq_ok, decide_eq_true_eq]

end Reference

/-- Three attempts with a threshold of one: a signature under the wrong key, one under the right
key, and that one again.  Both collectors keep the second one alone. -/
theorem collectors_agree_blockOne :
    ∃ attempts order sig',
      attempts = [⟨Reference.otherKeyPair.publicKey, Reference.blockOneSignature⟩,
        ⟨Reference.key, Reference.blockOneSignature⟩,
        ⟨Reference.key, Reference.blockOneSignature⟩] ∧
      Runs.trace (ThresholdAggregator.step Reference.thresholdSuite)
          (ThresholdAggregator.answer Reference.thresholdSuite)
          (ThresholdAggregator.new Reference.thresholdSuite Reference.oneOfTwo
            (strBytes "block 1")) attempts =
        Runs.trace (ThresholdSignature.step Reference.thresholdSuite)
          (ThresholdSignature.answer Reference.thresholdSuite)
          (ThresholdSignature.new Reference.oneOfTwo
            (Reference.thresholdSuite.blake2b256 (strBytes "block 1"))) attempts ∧
      (Runs.run (ThresholdAggregator.step Reference.thresholdSuite)
        (ThresholdAggregator.new Reference.thresholdSuite Reference.oneOfTwo (strBytes "block 1"))
        attempts).finalize order = .ok sig' ∧
      sig'.verify Reference.thresholdSuite = .ok () := by
  have hnew : ThresholdScheme.new 1 [Reference.key, Reference.otherKeyPair.publicKey] =
      .ok Reference.oneOfTwo := by decide
  obtain ⟨attempts, hattempts⟩ : ∃ attempts : List Attempt,
      attempts = [⟨Reference.otherKeyPair.publicKey, Reference.blockOneSignature⟩,
        ⟨Reference.key, Reference.blockOneSignature⟩,
        ⟨Reference.key, Reference.blockOneSignature⟩] := ⟨_, rfl⟩
  obtain ⟨hanswers, -, -, hfinal, hverify⟩ := @collectors_agree Reference.thresholdSuite
    Reference.oneOfTwo (strBytes "block 1") _ _ hnew default attempts
  rw [ThresholdAggregator.kept_run] at hfinal
  have hwrong : ¬Attempt.Admitted Reference.thresholdSuite Reference.oneOfTwo
      (Reference.thresholdSuite.blake2b256 (strBytes "block 1")) []
      ⟨Reference.otherKeyPair.publicKey, Reference.blockOneSignature⟩ := by
    rintro ⟨-, -, hverifies⟩
    have hkey := (Reference.verify_thresholdSuite.mp hverifies).1
    revert hkey
    decide
  have hright : Attempt.Admitted Reference.thresholdSuite Reference.oneOfTwo
      (Reference.thresholdSuite.blake2b256 (strBytes "block 1")) []
      ⟨Reference.key, Reference.blockOneSignature⟩ := by
    refine ⟨List.mem_cons_self, List.not_mem_nil, ?_⟩
    exact Reference.verify_thresholdSuite.mpr
      ⟨rfl, congrArg List.Vector.toList Reference.blake2b256_blockOne, rfl⟩
  have hagain : ¬Attempt.Admitted Reference.thresholdSuite Reference.oneOfTwo
      (Reference.thresholdSuite.blake2b256 (strBytes "block 1"))
      [⟨Reference.key, Reference.blockOneSignature⟩]
      ⟨Reference.key, Reference.blockOneSignature⟩ := fun h => h.2.1 List.mem_cons_self
  have hone : 1 ≤ (Runs.run (Attempt.accept Reference.thresholdSuite Reference.oneOfTwo
      (Reference.thresholdSuite.blake2b256 (strBytes "block 1"))) [] attempts).length := by
    rw [hattempts, Runs.run_cons, Attempt.accept_of_not_admitted hwrong, Runs.run_cons,
      Attempt.accept_of_admitted hright, List.nil_append, Runs.run_cons,
      Attempt.accept_of_not_admitted hagain]
    exact le_refl 1
  obtain ⟨sig', hsig'⟩ := hfinal.mpr hone
  exact ⟨attempts, default, sig', hattempts, hanswers, hsig', (hverify sig' hsig').2⟩

/-! ## Who has signed -/

/-- Multi-signature support. -/
structure MultiSignature where
  threshold : Nat
  signatures : List (PublicKey × Signature)
  deriving DecidableEq

namespace MultiSignature

def new (threshold : Nat) : MultiSignature := { threshold, signatures := [] }

def addSignature (multi : MultiSignature) (publicKey : PublicKey) (signature : Signature) :
    MultiSignature :=
  { multi with signatures := multi.signatures ++ [(publicKey, signature)] }

def verify (S : Suite) (multi : MultiSignature) (message : Bytes) : Result Unit := do
  ensure (decide (multi.threshold ≤ multi.signatures.length))
    (.cryptoError ("Need " ++ toString multi.threshold ++ " signatures, got " ++
      toString multi.signatures.length))
  forEach (fun (publicKey, signature) => S.verify message signature publicKey) multi.signatures

/-- The signatures are added one after another. -/
def built (threshold : Nat) (signatures : List (PublicKey × Signature)) : MultiSignature :=
  signatures.foldl (fun multi (publicKey, signature) => multi.addSignature publicKey signature)
    (new threshold)

theorem foldl_addSignature (signatures : List (PublicKey × Signature)) (multi : MultiSignature) :
    signatures.foldl (fun multi (publicKey, signature) => multi.addSignature publicKey signature)
      multi = { multi with signatures := multi.signatures ++ signatures } := by
  induction signatures generalizing multi with
  | nil => rw [List.foldl_nil, List.append_nil]
  | cons pair rest ih =>
      rw [List.foldl_cons, ih]
      simp only [addSignature, List.append_assoc, List.singleton_append]

theorem built_eq (threshold : Nat) (signatures : List (PublicKey × Signature)) :
    built threshold signatures = { threshold, signatures } :=
  foldl_addSignature signatures (new threshold)

theorem verify_eq_ok {S : Suite} {multi : MultiSignature} {message : Bytes} :
    multi.verify S message = .ok () ↔ multi.threshold ≤ multi.signatures.length ∧
      ∀ pair ∈ multi.signatures, S.verify message pair.2 pair.1 = .ok () := by
  simp only [verify, bind_eq_ok, ensure_eq_ok, forEach_eq_ok, decide_eq_true_eq, exists_and_left,
    exists_const]

end MultiSignature

/-- At least `threshold` different keys of which `Eligible` holds have a valid signature of
the message in the list. -/
def EnoughSigners (S : Suite) (threshold : Nat) (Eligible : PublicKey → Prop) (message : Bytes)
    (signatures : List (PublicKey × Signature)) : Prop :=
  ∃ signers : Finset PublicKey, threshold ≤ signers.card ∧ ∀ k ∈ signers, Eligible k ∧
    ∃ signature, (k, signature) ∈ signatures ∧ S.verify message signature k = .ok ()

/-- Where all signatures verify, it is enough to count the eligible keys in the list, each
once. -/
theorem enoughSigners_iff {S : Suite} {threshold : Nat} {Eligible : PublicKey → Prop}
    [DecidablePred Eligible] {message : Bytes} {signatures : List (PublicKey × Signature)}
    (hverify : ∀ pair ∈ signatures, S.verify message pair.2 pair.1 = .ok ()) :
    EnoughSigners S threshold Eligible message signatures ↔
      threshold ≤ ((signatures.map Prod.fst).toFinset.filter Eligible).card := by
  constructor
  · rintro ⟨signers, hcard, hsigners⟩
    refine hcard.trans (Finset.card_le_card ?_)
    intro k hk
    obtain ⟨heligible, signature, hmem, -⟩ := hsigners k hk
    rw [Finset.mem_filter, List.mem_toFinset]
    exact ⟨List.mem_map_of_mem hmem, heligible⟩
  · intro hcard
    refine ⟨_, hcard, ?_⟩
    intro k hk
    rw [Finset.mem_filter, List.mem_toFinset] at hk
    obtain ⟨pair, hpair, rfl⟩ := List.mem_map.mp hk.1
    exact ⟨hk.2, pair.2, hpair, hverify pair hpair⟩

/-- A list of at least `threshold` signatures that all verify, in which fewer than
`threshold` of the keys are eligible and different. -/
structure Padded (S : Suite) (threshold : Nat) (Eligible : PublicKey → Prop)
    [DecidablePred Eligible] (message : Bytes) (signatures : List (PublicKey × Signature)) :
    Prop where
  enough : threshold ≤ signatures.length
  verifies : ∀ pair ∈ signatures, S.verify message pair.2 pair.1 = .ok ()
  fewer : ((signatures.map Prod.fst).toFinset.filter Eligible).card < threshold

theorem enoughSigners_iff_not_padded {S : Suite} {threshold : Nat} {Eligible : PublicKey → Prop}
    [DecidablePred Eligible] {message : Bytes} {signatures : List (PublicKey × Signature)} :
    (threshold ≤ signatures.length ∧
        (∀ pair ∈ signatures, S.verify message pair.2 pair.1 = .ok ()) →
      EnoughSigners S threshold Eligible message signatures) ↔
    ¬Padded S threshold Eligible message signatures := by
  constructor
  · rintro h ⟨henough, hverify, hfewer⟩
    exact absurd ((enoughSigners_iff hverify).mp (h ⟨henough, hverify⟩)) (not_le.mpr hfewer)
  · rintro h ⟨henough, hverify⟩
    rw [enoughSigners_iff hverify]
    by_contra hfewer
    exact h ⟨henough, hverify, not_le.mp hfewer⟩

/-- The signers and signatures in a threshold signature. -/
def ThresholdSignature.pairs (sig : ThresholdSignature) : List (PublicKey × Signature) :=
  sig.partialSignatures.map fun p => (p.signer, p.signature)

theorem ThresholdSignature.verify_eq_ok_pairs {S : Suite} {sig : ThresholdSignature} :
    sig.verify S = .ok () ↔ sig.scheme.threshold ≤ sig.pairs.length ∧
      ∀ pair ∈ sig.pairs, S.verify sig.messageHash.toList pair.2 pair.1 = .ok () := by
  rw [ThresholdSignature.verify_eq_ok, ThresholdSignature.pairs, List.length_map,
    List.forall_mem_map]
  rfl

/-- **When an accepted signature comes from enough different signers**: unless the list is
long enough only because of signers that are in it twice or that have no part in the
scheme.  The two verifiers count the signatures in their lists, and check each on its
own. -/
theorem enough_signers_iff (S : Suite) :
    (∀ sig : ThresholdSignature,
      (verifyThresholdSignature S sig = .ok () →
        EnoughSigners S sig.scheme.threshold (· ∈ sig.scheme.participants)
          sig.messageHash.toList sig.pairs) ↔
      ¬Padded S sig.scheme.threshold (· ∈ sig.scheme.participants) sig.messageHash.toList
        sig.pairs) ∧
    ∀ (threshold : Nat) (signatures : List (PublicKey × Signature)) (message : Bytes),
      ((MultiSignature.built threshold signatures).verify S message = .ok () →
        EnoughSigners S threshold (fun _ => True) message signatures) ↔
      ¬Padded S threshold (fun _ => True) message signatures := by
  constructor
  · intro sig
    rw [verifyThresholdSignature, ThresholdSignature.verify_eq_ok_pairs]
    exact enoughSigners_iff_not_padded
  · intro threshold signatures message
    rw [MultiSignature.built_eq, MultiSignature.verify_eq_ok]
    exact enoughSigners_iff_not_padded

namespace Reference

/-- The one signature, twice, where both participants are needed. -/
def signedTwice : ThresholdSignature where
  scheme := twoOfTwo
  partialSignatures := [⟨key, blockOneSignature, 0⟩, ⟨key, blockOneSignature, 0⟩]
  messageHash := blockOneHash

theorem verifies_signedTwice : ∀ pair ∈ signedTwice.pairs,
    thresholdSuite.verify blockOneHash.toList pair.2 pair.1 = .ok () := by
  intro pair hpair
  have heq : pair = (key, blockOneSignature) := by
    simpa [signedTwice, ThresholdSignature.pairs] using hpair
  rw [heq]
  exact verify_thresholdSuite.mpr ⟨rfl, rfl, rfl⟩

end Reference

/-- One participant alone makes a signature of two. -/
theorem one_signer_counts_twice :
    (verifyThresholdSignature Reference.thresholdSuite Reference.signedTwice = .ok () ∧
      ¬EnoughSigners Reference.thresholdSuite 2 (· ∈ Reference.twoOfTwo.participants)
        Reference.blockOneHash.toList Reference.signedTwice.pairs) ∧
    ((MultiSignature.built 2 Reference.signedTwice.pairs).verify Reference.thresholdSuite
        Reference.blockOneHash.toList = .ok () ∧
      ¬EnoughSigners Reference.thresholdSuite 2 (fun _ => True) Reference.blockOneHash.toList
        Reference.signedTwice.pairs) := by
  have hverify := Reference.verifies_signedTwice
  refine ⟨⟨?_, ?_⟩, ?_, ?_⟩
  · exact ThresholdSignature.verify_eq_ok_pairs.mpr ⟨le_refl 2, hverify⟩
  · rw [enoughSigners_iff hverify]
    decide
  · rw [MultiSignature.built_eq]
    exact MultiSignature.verify_eq_ok.mpr ⟨le_refl 2, hverify⟩
  · rw [enoughSigners_iff hverify]
    decide

end VotingChain
