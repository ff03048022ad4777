/-
# `VotingChain.Engine` — the consensus engine

The model of `ConsensusEngine` in `consensus/mod.rs`.  The engine has the validator
set twice: its own, which `add_validator` and `remove_validator` change, and the copy
that `new_poa` has put into the mechanism, which nothing changes.

    validate_block          both: the turn from the copy, membership from its own
    required_signatures     the copy
    check_finality          its own

So it follows its validators exactly as long as they are the ones it was built with
(`engine_follows_iff`).

The genesis block names the first validator of the configuration as its producer, and the
turn of height zero is that of the first validator in sorted order
(`validateBlock_genesis_iff`).

A block is final for the mechanism once it has enough signature entries, and for the
tracker once it has enough different ones; neither asks whether the keys are
validators' (`finality_quorum_iff`).  Nor do the two agree on what is enough, once there are
more than a hundred validators or so (`one_threshold_iff`).
-/
import VotingChain.Finality

namespace VotingChain

/-- Consensus engine that coordinates validators and finality.  The mechanism is a
`Box<dyn Consensus>`; the only one there is is proof of authority. -/
structure ConsensusEngine (F : Type) where
  mechanism : ProofOfAuthority
  validatorSet : ValidatorSet
  finalityTracker : FinalityTracker F

namespace ConsensusEngine
variable {F : Type}

/-- Create a new consensus engine with Proof of Authority; `now` is what the clock
says. -/
def newPoa (now : Timestamp) (validators : Vec PublicKey) (finalityThreshold : F) :
    Result (ConsensusEngine F) := do
  ensure (!validators.val.isEmpty) (.consensusError "Validator set cannot be empty")
  let validatorSet := ValidatorSet.new now validators.val
  return {
    mechanism := ProofOfAuthority.new validatorSet
    validatorSet
    finalityTracker := FinalityTracker.new finalityThreshold }

/-- Validate a block according to consensus rules. -/
def validateBlock [Hex] (engine : ConsensusEngine F) (block : Block) : Result Unit := do
  engine.mechanism.validateBlock block
  ensure (engine.validatorSet.isValidator block.header.validator)
    (.invalidValidator ("Unknown validator: " ++ block.header.validator.toHex))
  forEach (fun sig => ensure (engine.validatorSet.isValidator sig.validator)
    (.invalidValidator ("Unknown validator signature: " ++ sig.validator.toHex))) block.signatures

/-- Check if block has reached finality; `now` is what the clock says. -/
def checkFinality [Threshold F] (now : Timestamp) (block : Block) :
    Exec (ConsensusEngine F) FinalityStatus := do
  let engine ← get
  let (status, tracker) :=
    engine.finalityTracker.checkFinality now block engine.validatorSet.validatorCount
  modify fun engine => { engine with finalityTracker := tracker }
  return status

/-- Put the validator set back into the engine. -/
def putValidatorSet (validatorSet : ValidatorSet) (engine : ConsensusEngine F) :
    ConsensusEngine F :=
  { engine with validatorSet }

/-- Add a new validator; `now` is what the clock says. -/
def addValidator [Hex] (now : Timestamp) (validator : PublicKey) :
    Exec (ConsensusEngine F) Unit := do
  Exec.on (← get).validatorSet putValidatorSet (ValidatorSet.addValidator now validator)

/-- Remove a validator. -/
def removeValidator [Hex] (validator : PublicKey) : Exec (ConsensusEngine F) Unit := do
  Exec.on (← get).validatorSet putValidatorSet (ValidatorSet.removeValidator validator)

/-- Get current validator for block production; `now` is what the clock says. -/
def getCurrentValidator (now : Timestamp) (engine : ConsensusEngine F) : Result PublicKey :=
  engine.mechanism.getCurrentValidator now

/-- Check if validator can produce block; `now` is what the clock says. -/
def canProduceBlock (now : Timestamp) (engine : ConsensusEngine F) (validator : PublicKey) :
    Result Bool :=
  engine.mechanism.canProduceBlock now validator

/-- Get required number of signatures for finality. -/
def requiredSignatures (engine : ConsensusEngine F) : Nat := engine.mechanism.requiredSignatures

/-! ## What the calls do -/

theorem newPoa_eq_ok {now : Timestamp} {validators : Vec PublicKey} {threshold : F}
    {engine : ConsensusEngine F} :
    newPoa now validators threshold = .ok engine ↔ validators.val ≠ [] ∧
      engine =
        { mechanism := ProofOfAuthority.new (ValidatorSet.new now validators.val)
          validatorSet := ValidatorSet.new now validators.val
          finalityTracker := FinalityTracker.new threshold } := by
  simp only [newPoa, bind_eq_ok, ensure_eq_ok, pure, Except.pure, Except.ok.injEq,
    Bool.not_eq_true', List.isEmpty_eq_false_iff]
  constructor
  · rintro ⟨_, hne, rfl⟩
    exact ⟨hne, rfl⟩
  · rintro ⟨hne, rfl⟩
    exact ⟨(), hne, rfl⟩

theorem validateBlock_eq_ok [Hex] {engine : ConsensusEngine F} {b : Block} :
    engine.validateBlock b = .ok () ↔ engine.mechanism.validateBlock b = .ok () ∧
      engine.validatorSet.isValidator b.header.validator = true ∧
      ∀ sig ∈ b.signatures, engine.validatorSet.isValidator sig.validator = true := by
  simp only [validateBlock, bind_eq_ok, ensure_eq_ok, forEach_eq_ok]
  constructor
  · rintro ⟨_, hmech, _, hprod, hsigs⟩
    exact ⟨hmech, hprod, hsigs⟩
  · rintro ⟨hmech, hprod, hsigs⟩
    exact ⟨(), hmech, (), hprod, hsigs⟩

/-- A call that changes the validators. -/
inductive SetCall where
  | add (now : Timestamp) (validator : PublicKey)
  | remove (validator : PublicKey)
  deriving DecidableEq

/-- The engine after such a call. -/
def apply [Hex] (engine : ConsensusEngine F) : SetCall → ConsensusEngine F
  | .add now validator => (addValidator now validator).next engine
  | .remove validator => (removeValidator validator).next engine

theorem exec_onValidatorSet (m : Exec ValidatorSet Unit) (engine : ConsensusEngine F) :
    Exec.exec (do Exec.on (← get).validatorSet putValidatorSet m) engine =
      ((m.exec engine.validatorSet).1, putValidatorSet (m.exec engine.validatorSet).2 engine) := by
  rw [Exec.exec_get_bind, Exec.exec_on]

/-- **What a call that changes the validators does**: nothing, or it adds or removes
a key in the engine's own set. -/
theorem apply_cases [Hex] (engine : ConsensusEngine F) (call : SetCall) :
    engine.apply call = engine ∨
    (∃ now v, call = .add now v ∧ engine.validatorSet.isValidator v = false ∧
      engine.validatorSet.validators.length < maxVecLength ∧
      engine.apply call = putValidatorSet (engine.validatorSet.insertKey now v) engine) ∨
    ∃ v, call = .remove v ∧ engine.validatorSet.isValidator v = true ∧
      engine.apply call = putValidatorSet (engine.validatorSet.eraseKey v) engine := by
  have hput : putValidatorSet engine.validatorSet engine = engine := rfl
  cases call with
  | add now v =>
      have hexec := exec_onValidatorSet (ValidatorSet.addValidator now v) engine
      rcases ValidatorSet.addValidator_cases now v engine.validatorSet with
        ⟨hnew, hroom, hadd⟩ | ⟨e, hadd⟩
      · rw [hadd] at hexec
        exact Or.inr (Or.inl ⟨now, v, rfl, hnew, hroom, Exec.next_of_ok hexec⟩)
      · rw [hadd, hput] at hexec
        exact Or.inl (Exec.next_of_error hexec)
  | remove v =>
      have hexec := exec_onValidatorSet (ValidatorSet.removeValidator v) engine
      rcases ValidatorSet.removeValidator_cases v engine.validatorSet with ⟨hold, hrem⟩ | ⟨e, hrem⟩
      · rw [hrem] at hexec
        exact Or.inr (Or.inr ⟨v, rfl, hold, Exec.next_of_ok hexec⟩)
      · rw [hrem, hput] at hexec
        exact Or.inl (Exec.next_of_error hexec)

/-! ## Two copies of the validator set -/

/-- What holds after any run of such calls: the mechanism is the one it was, and the
engine's own set is well formed and fits into memory. -/
structure Kept (engine engine' : ConsensusEngine F) : Prop where
  mechanism : engine'.mechanism = engine.mechanism
  wellFormed : engine'.validatorSet.WellFormed
  length : engine'.validatorSet.validators.length ≤ maxVecLength

theorem Kept.apply [Hex] {engine engine' : ConsensusEngine F} (h : Kept engine engine')
    (call : SetCall) : Kept engine (engine'.apply call) := by
  rcases apply_cases engine' call with hsame | ⟨now, v, -, hnew, hroom, hadd⟩ | ⟨v, -, -, hrem⟩
  · rwa [hsame]
  · rw [hadd]
    refine ⟨h.mechanism, h.wellFormed.insertKey now hnew, ?_⟩
    show (engine'.validatorSet.validators ++ [v]).length ≤ maxVecLength
    rw [List.length_append, List.length_singleton]
    exact hroom
  · rw [hrem]
    exact ⟨h.mechanism, h.wellFormed.eraseKey v, (List.length_filter_le _ _).trans h.length⟩

/-- The engine after a run of such calls. -/
def run [Hex] (engine : ConsensusEngine F) (calls : List SetCall) : ConsensusEngine F :=
  Runs.run apply engine calls

theorem kept_run [Hex] {now : Timestamp} {validators : Vec PublicKey}
    (hnodup : validators.val.Nodup) {threshold : F} {engine : ConsensusEngine F}
    (hnew : newPoa now validators threshold = .ok engine) (calls : List SetCall) :
    Kept engine (engine.run calls) := by
  obtain ⟨-, rfl⟩ := newPoa_eq_ok.mp hnew
  refine Runs.run_preserves (I := Kept _) (fun engine' call h => h.apply call) ?_ calls
  exact ⟨rfl, ValidatorSet.wellFormed_new now hnodup, validators.property⟩

/-- What the engine accepts: a block in its turn by the mechanism's copy, of a
validator in its own set, signed by such validators. -/
theorem validateBlock_iff_turns [Hex] {engine engine' : ConsensusEngine F}
    (hkept : Kept engine engine')
    {now : Timestamp} {validators : List PublicKey} (hnodup : validators.Nodup)
    (hmech : engine.mechanism = ProofOfAuthority.new (ValidatorSet.new now validators))
    {b : Block} (htime : b.header.timestamp.toNat ≤ 2 ^ 64 - 6) :
    engine'.validateBlock b = .ok () ↔
      RoundRobin.turn (sortValidators validators) b.header.height.toNat = some b.header.validator ∧
      b.header.validator ∈ engine'.validatorSet.validators ∧
      ∀ sig ∈ b.signatures, sig.validator ∈ engine'.validatorSet.validators := by
  have hslot : b.header.timestamp.toNat + (5 : UInt64).toNat < 2 ^ 64 := by
    have : (5 : UInt64).toNat = 5 := rfl
    omega
  have hfive : (5 : UInt64) ≠ 0 := by decide
  rw [validateBlock_eq_ok, hkept.mechanism, hmech, ProofOfAuthority.validateBlock_iff_turn
    (ValidatorSet.wellFormed_new now hnodup) hfive hslot]
  simp only [hkept.wellFormed.isValidator_iff]
  rfl

theorem turn_ofNat_idxOf {validators : List PublicKey} (hlen : validators.length ≤ maxVecLength)
    {v : PublicKey} (hv : v ∈ validators) :
    RoundRobin.turn (sortValidators validators)
      (UInt64.ofNat ((sortValidators validators).idxOf v)).toNat = some v := by
  have hlt := List.idxOf_lt_length_of_mem (mem_sortValidators.mpr hv)
  rw [length_sortValidators] at hlt
  have hsmall : (UInt64.ofNat ((sortValidators validators).idxOf v)).toNat =
      (sortValidators validators).idxOf v := by
    rw [UInt64.toNat_ofNat']
    exact Nat.mod_eq_of_lt (by rw [maxVecLength] at hlen; omega)
  rw [hsmall]
  exact RoundRobin.turn_idxOf (mem_sortValidators.mpr hv)

theorem perm_of_turns {current former : List PublicKey} (hcurrent : current.Nodup)
    (hformer : former.Nodup) (hne : current ≠ []) (hlen : current.length ≤ maxVecLength)
    (hlen' : former.length ≤ maxVecLength)
    (hagree : ∀ (height : BlockHeight) (v : PublicKey),
      RoundRobin.turn (sortValidators current) height.toNat = some v →
      RoundRobin.turn (sortValidators former) height.toNat = some v) : current.Perm former := by
  refine (List.perm_ext_iff_of_nodup hcurrent hformer).mpr fun v => ⟨?_, ?_⟩
  · -- a current validator has a turn
    intro hv
    exact mem_sortValidators.mp (RoundRobin.mem_of_turn (hagree _ v (turn_ofNat_idxOf hlen hv)))
  · -- in the turn of a former one some current validator has its own
    intro hv
    have hfirst := turn_ofNat_idxOf hlen' hv
    have hsort : sortValidators current ≠ [] := by
      rwa [← List.length_pos_iff_ne_nil, length_sortValidators, List.length_pos_iff_ne_nil]
    obtain ⟨w, hw, hturnw⟩ := RoundRobin.exists_turn hsort
      (UInt64.ofNat ((sortValidators former).idxOf v)).toNat
    have hsame := (hagree _ w hturnw).symm.trans hfirst
    rw [← Option.some.inj hsame]
    exact mem_sortValidators.mp hw

/-- The block of a height by a key, without transactions and signatures. -/
def blockOf (height : BlockHeight) (v : PublicKey) : Block :=
  ⟨⟨height, 0, BlockHash.zero, BlockHash.zero, BlockHash.zero, v, 0⟩, [], []⟩

/-- **The engine and its validators.**  Build an engine from distinct validators and
let calls add and remove validators, at least one being left.  The engine accepts
exactly the blocks of the validator whose turn it is among the current ones, signed
by current ones, and asks for two thirds of the current ones and one more, if and
only if the current validators are those it was built with. -/
theorem engine_follows_iff [Hex] {now : Timestamp} {validators : Vec PublicKey}
    (hnodup : validators.val.Nodup) {threshold : F} {engine : ConsensusEngine F}
    (hnew : newPoa now validators threshold = .ok engine) (calls : List SetCall)
    (hne : (engine.run calls).validatorSet.validators ≠ []) :
    ((∀ b : Block, b.header.timestamp.toNat ≤ 2 ^ 64 - 6 →
        ((engine.run calls).validateBlock b = .ok () ↔
          (sortValidators (engine.run calls).validatorSet.validators)[b.header.height.toNat %
              (engine.run calls).validatorSet.validatorCount]? = some b.header.validator ∧
          ∀ sig ∈ b.signatures, sig.validator ∈ (engine.run calls).validatorSet.validators)) ∧
      (engine.run calls).requiredSignatures =
        2 * (engine.run calls).validatorSet.validatorCount / 3 + 1) ↔
    (engine.run calls).validatorSet.validators.Perm validators.val := by
  have hkept := kept_run hnodup hnew calls
  have hmech : engine.mechanism = ProofOfAuthority.new (ValidatorSet.new now validators.val) := by
    obtain ⟨-, rfl⟩ := newPoa_eq_ok.mp hnew
    rfl
  have haccepts := fun (b : Block) htime =>
    validateBlock_iff_turns (b := b) hkept hnodup hmech htime
  have hrequired : (engine.run calls).requiredSignatures = validators.val.length * 2 / 3 + 1 := by
    rw [requiredSignatures, hkept.mechanism, hmech]
    rfl
  generalize engine.run calls = engine' at *
  have hturn : ∀ height : BlockHeight, (sortValidators engine'.validatorSet.validators)[
      height.toNat % engine'.validatorSet.validatorCount]? =
      RoundRobin.turn (sortValidators engine'.validatorSet.validators) height.toNat := by
    intro height
    rw [RoundRobin.turn, length_sortValidators]
    rfl
  simp only [hturn]
  constructor
  · rintro ⟨hblocks, -⟩
    have htime : (0 : UInt64).toNat ≤ 2 ^ 64 - 6 := by decide
    have hagree : ∀ (height : BlockHeight) (v : PublicKey),
        RoundRobin.turn (sortValidators engine'.validatorSet.validators) height.toNat = some v →
        RoundRobin.turn (sortValidators validators.val) height.toNat = some v := by
      intro height v hv
      have hok := (hblocks (blockOf height v) htime).mpr
        ⟨hv, fun _ hsig => absurd hsig List.not_mem_nil⟩
      exact ((haccepts (blockOf height v) htime).mp hok).1
    exact perm_of_turns hkept.wellFormed.nodup hnodup hne hkept.length validators.property hagree
  · intro hperm
    have hsort := sortValidators_congr hperm
    refine ⟨fun b htime => ?_, ?_⟩
    · rw [haccepts b htime, hsort]
      constructor
      · rintro ⟨hb, -, hsigs⟩
        exact ⟨hb, hsigs⟩
      · rintro ⟨hb, hsigs⟩
        exact ⟨hb, hperm.mem_iff.mpr (mem_sortValidators.mp (RoundRobin.mem_of_turn hb)), hsigs⟩
    · rw [hrequired, ValidatorSet.validatorCount, hperm.length_eq, Nat.mul_comm]

end ConsensusEngine

namespace Reference

/-- The engine of one validator. -/
def engine : ConsensusEngine Rat where
  mechanism := oneValidator
  validatorSet := ValidatorSet.new 0 [testKey 0]
  finalityTracker := FinalityTracker.new (67 / 100)

theorem newPoa_engine :
    ConsensusEngine.newPoa 0 ⟨[testKey 0], by decide⟩ (67 / 100 : Rat) = .ok engine :=
  ConsensusEngine.newPoa_eq_ok.mpr ⟨List.cons_ne_nil _ _, rfl⟩

end Reference

namespace ConsensusEngine
open Reference (engine testKey newPoa_engine)

/-- A validator is added and removed again. -/
theorem engine_follows_iff_sample :
    (engine.run [.add 10 (testKey 1), .remove (testKey 1)]).validateBlock
        (Reference.blockAt 1000 (testKey 0)) = .ok () ∧
      (engine.run [.add 10 (testKey 1), .remove (testKey 1)]).requiredSignatures = 1 := by
  have hcur : (engine.run [.add 10 (testKey 1), .remove (testKey 1)]).validatorSet.validators =
      [testKey 0] := by decide
  have hfollows := (engine_follows_iff (List.nodup_singleton _) newPoa_engine
    [.add 10 (testKey 1), .remove (testKey 1)] (by rw [hcur]; exact List.cons_ne_nil _ _)).mpr
      (by rw [hcur])
  rw [ValidatorSet.validatorCount, hcur] at hfollows
  exact ⟨(hfollows.1 _ (by decide)).mpr
    ⟨rfl, fun _ hsig => absurd hsig List.not_mem_nil⟩, hfollows.2⟩

/-- A validator is added.  The block in its turn is refused, and one signature is
still enough where two are needed. -/
theorem added_validator_refused :
    newPoa 0 ⟨[testKey 0], by decide⟩ (67 / 100 : Rat) = .ok engine ∧
    (engine.run [.add 10 (testKey 1)]).validatorSet.validators = [testKey 0, testKey 1] ∧
    (sortValidators [testKey 0, testKey 1])[1 % 2]? = some (testKey 1) ∧
    (engine.run [.add 10 (testKey 1)]).validateBlock (Reference.blockAt 1000 (testKey 1)) ≠ .ok () ∧
    (engine.run [.add 10 (testKey 1)]).requiredSignatures ≠ 2 * 2 / 3 + 1 := by
  refine ⟨newPoa_engine, by decide, by decide, ?_, by decide⟩
  rw [Ne, validateBlock_eq_ok, ProofOfAuthority.validateBlock_eq_ok]
  rintro ⟨happ, -⟩
  exact absurd happ.authorized (by decide)

end ConsensusEngine

/-! ## Counting signatures -/

namespace ConsensusEngine
variable {F : Type} [Threshold F]

/-- The keys named by the signature entries of a block, in order. -/
def names (b : Block) : List PublicKey := b.signatures.map fun sig => sig.validator

theorem checkFinality_fst (now : Timestamp) (b : Block) (engine : ConsensusEngine F) :
    ((checkFinality now b).exec engine).1 =
      .ok (engine.finalityTracker.checkFinality now b engine.validatorSet.validatorCount).1 := by
  rw [checkFinality, Exec.exec_get_bind, Exec.exec_modify_bind, Exec.exec_pure]

/-- A tracker that has seen nothing calls a block final if it has enough different
signers. -/
theorem checkFinality_new (now : Timestamp) (b : Block) (threshold : F) {n : Nat} (hn : 1 ≤ n) :
    ((FinalityTracker.new threshold).checkFinality now b n).1 = .finalized ↔
      FinalityTracker.required threshold n ≤ (names b).toFinset.card := by
  have hinfo := ((FinalityTracker.records_track hn threshold []).nextInfo_spec hn (now, b)).2
  rw [List.nil_append, FinalityTracker.quorate_singleton hn, and_iff_right rfl] at hinfo
  rw [FinalityTracker.checkFinality_eq, names, ← Block.signers, ← hinfo]
  show (if (FinalityTracker.nextInfo now b n (FinalityTracker.new threshold)).isFinalized = true
    then _ else _) = _ ↔ (FinalityTracker.nextInfo now b n (FinalityTracker.new threshold)).isFinalized
      = true
  split
  · next h => exact iff_of_true rfl h
  · next h =>
      refine iff_of_false ?_ h
      intro heq
      cases heq

/-- **Counting entries.**  A block that the mechanism calls final, or a fresh engine,
has as many signers among the validators as that takes, if and only if

* the block has fewer entries than the mechanism asks for, or its entries that repeat
  a signer or name a key outside the set are at most those beyond that number; and
* fewer keys than the tracker asks for have signed, or those outside the set are at
  most those beyond that number. -/
theorem finality_quorum_iff {now : Timestamp} {validators : Vec PublicKey} {threshold : F}
    {engine : ConsensusEngine F} (hnew : newPoa now validators threshold = .ok engine)
    {poa : ProofOfAuthority} (hpoa : poa.validatorSet.validators = validators.val)
    (now' : Timestamp) (b : Block) :
    ((poa.isFinalized b = true →
        poa.requiredSignatures ≤ (Quorum.members validators.val.toFinset (names b)).card) ∧
      (((checkFinality now' b).exec engine).1 = .ok .finalized →
        FinalityTracker.required threshold validators.val.length ≤
          (Quorum.members validators.val.toFinset (names b)).card)) ↔
    ((b.signatureCount < 2 * validators.val.length / 3 + 1 ∨
        2 * validators.val.length / 3 + 1 + Quorum.wasted validators.val.toFinset (names b) ≤
          b.signatureCount) ∧
      ((names b).toFinset.card < FinalityTracker.required threshold validators.val.length ∨
        FinalityTracker.required threshold validators.val.length +
            ((names b).toFinset \ validators.val.toFinset).card ≤ (names b).toFinset.card)) := by
  obtain ⟨hne, rfl⟩ := newPoa_eq_ok.mp hnew
  have hn : 1 ≤ validators.val.length := List.length_pos_of_ne_nil hne
  have hlen : b.signatureCount = (names b).length := by rw [names, List.length_map]; rfl
  have hentries := Quorum.length_eq_card_add_wasted validators.val.toFinset (names b)
  have hkeys := Quorum.card_toFinset_eq validators.val.toFinset (names b)
  have hrequired : poa.requiredSignatures = 2 * validators.val.length / 3 + 1 := by
    rw [ProofOfAuthority.requiredSignatures, ValidatorSet.validatorCount, hpoa, Nat.mul_comm]
  have htracker : ((FinalityTracker.new threshold).checkFinality now' b
      (ValidatorSet.new now validators.val).validatorCount).1 = .finalized ↔
      FinalityTracker.required threshold validators.val.length ≤ (names b).toFinset.card :=
    checkFinality_new now' b threshold hn
  rw [checkFinality_fst, Except.ok.injEq, htracker, ProofOfAuthority.isFinalized,
    decide_eq_true_eq, hlen, hrequired]
  omega

end ConsensusEngine

namespace ConsensusEngine
open Reference (engine testKey newPoa_engine claimedBlock oneValidator)

/-- The validator itself has signed. -/
theorem finality_quorum_iff_sample :
    oneValidator.isFinalized (claimedBlock 1 5 [testKey 0]) = true ∧
      oneValidator.requiredSignatures ≤
        (Quorum.members [testKey 0].toFinset (names (claimedBlock 1 5 [testKey 0]))).card := by
  have hfinal : oneValidator.isFinalized (claimedBlock 1 5 [testKey 0]) = true := by decide
  refine ⟨hfinal, ((finality_quorum_iff newPoa_engine
    (show oneValidator.validatorSet.validators = [testKey 0] from rfl) 0
    (claimedBlock 1 5 [testKey 0])).mpr ⟨Or.inr (by decide), Or.inr ?_⟩).1 hfinal⟩
  show FinalityTracker.required (67 / 100 : Rat) 1 + _ ≤ _
  rw [Reference.required_one]
  decide

/-- A key that is no validator's has signed, and nobody else. -/
theorem final_without_validators :
    newPoa 0 ⟨[testKey 0], by decide⟩ (67 / 100 : Rat) = .ok engine ∧
    oneValidator.isFinalized (claimedBlock 1 5 [testKey 1]) = true ∧
    ((checkFinality 0 (claimedBlock 1 5 [testKey 1])).exec engine).1 = .ok .finalized ∧
    oneValidator.requiredSignatures = 1 ∧ FinalityTracker.required (67 / 100 : Rat) 1 = 1 ∧
    (Quorum.members [testKey 0].toFinset (names (claimedBlock 1 5 [testKey 1]))).card = 0 := by
  refine ⟨newPoa_engine, by decide, ?_, by decide, Reference.required_one, by decide⟩
  rw [checkFinality_fst]
  refine congrArg _ ((checkFinality_new 0 _ _ le_rfl).mpr ?_)
  rw [Reference.required_one]
  decide

end ConsensusEngine

/-! ## Two thresholds -/

/-- Sixty-seven hundredths of the number, rounded up, are as many as two thirds of it, rounded
down, and one more. -/
def SameThreshold (n : Nat) : Prop :=
  n % 3 = 0 ∧ n ≤ 300 ∨ n % 3 = 1 ∧ n ≤ 100 ∨ n % 3 = 2 ∧ n ≤ 200

instance (n : Nat) : Decidable (SameThreshold n) :=
  inferInstanceAs (Decidable (_ ∨ _))

namespace ConsensusEngine

theorem required_default {n : Nat} (hn : 1 ≤ n) (hmax : n ≤ usizeMax) :
    FinalityTracker.required (67 / 100 : Rat) n = (67 * n + 99) / 100 := by
  have hfraction : (n : Rat) * (67 / 100) = ((67 * n : Nat) : Rat) / ((100 : Nat) : Rat) := by
    push_cast
    ring
  have hceil : ⌈(n : Rat) * (67 / 100)⌉ = -(-((67 * n : Nat) : Int) / ((100 : Nat) : Int)) := by
    rw [hfraction, Rat.ceil_natCast_div_natCast]
  rw [FinalityTracker.required, FinalityTracker.calculateRequiredSignatures, if_neg (by omega)]
  have hunfold : Threshold.ceilMul n (FinalityTracker.new (67 / 100 : Rat)).threshold =
      min ⌈(n : Rat) * (67 / 100)⌉.toNat usizeMax := rfl
  rw [hunfold, hceil]
  omega

theorem required_eq_iff {n : Nat} (hn : 1 ≤ n) (hmax : n ≤ usizeMax) :
    FinalityTracker.required (67 / 100 : Rat) n = n * 2 / 3 + 1 ↔ SameThreshold n := by
  rw [required_default hn hmax, SameThreshold]
  obtain ⟨q, hq⟩ : ∃ q, q = n / 3 := ⟨_, rfl⟩
  have hsplit := Nat.div_add_mod n 3
  rw [← hq] at hsplit
  have hcases : n % 3 = 0 ∨ n % 3 = 1 ∨ n % 3 = 2 := by omega
  -- the fraction is two thirds of the number, and another three hundredth of it
  rcases hcases with hmod | hmod | hmod
  · have hn3 : n = 3 * q := by omega
    subst hn3
    omega
  · have hn3 : n = 3 * q + 1 := by omega
    subst hn3
    omega
  · have hn3 : n = 3 * q + 2 := by omega
    subst hn3
    omega

/-- **One threshold or two.**  The tracker with its default threshold and the mechanism ask for
the same number of signatures if and only if there are no more than 300, 100 or 200
validators, as their number leaves 0, 1 or 2 when it is divided by 3.  Both then call a block
final or neither does, if and only if its entries name so many different keys or are fewer:
the tracker counts keys, the mechanism entries. -/
theorem one_threshold_iff {poa : ProofOfAuthority}
    (hn : 1 ≤ poa.validatorSet.validatorCount)
    (hmax : poa.validatorSet.validatorCount ≤ usizeMax) (now : Timestamp) :
    (FinalityTracker.required (67 / 100 : Rat) poa.validatorSet.validatorCount =
        poa.requiredSignatures ↔
      SameThreshold poa.validatorSet.validatorCount) ∧
    ∀ b : Block,
      (FinalityTracker.required (67 / 100 : Rat) poa.validatorSet.validatorCount =
          poa.requiredSignatures ∧
        (((FinalityTracker.new (67 / 100 : Rat)).checkFinality now b
            poa.validatorSet.validatorCount).1 = .finalized ↔ poa.isFinalized b = true)) ↔
      SameThreshold poa.validatorSet.validatorCount ∧
        (poa.validatorSet.validatorCount * 2 / 3 + 1 ≤ (names b).toFinset.card ∨
          b.signatureCount < poa.validatorSet.validatorCount * 2 / 3 + 1) := by
  have hcount := required_eq_iff hn hmax
  rw [← ProofOfAuthority.requiredSignatures] at hcount
  refine ⟨hcount, fun b => ?_⟩
  rw [hcount]
  refine and_congr_right fun hsame => ?_
  rw [checkFinality_new now b _ hn, hcount.mpr hsame, ProofOfAuthority.isFinalized,
    decide_eq_true_eq, ProofOfAuthority.requiredSignatures]
  have hle : (names b).toFinset.card ≤ b.signatureCount := by
    have hlen : b.signatureCount = (names b).length := by rw [names, List.length_map]; rfl
    rw [hlen]
    exact List.toFinset_card_le _
  omega

end ConsensusEngine

namespace Reference

/-- A hundred and three keys. -/
def manyKeys : List PublicKey := (List.range 103).map fun i => testKey (UInt8.ofNat i)

theorem nodup_manyKeys : manyKeys.Nodup := by
  refine List.Nodup.map_on ?_ List.nodup_range
  intro i hi j hj heq
  have hfirst : UInt8.ofNat i = UInt8.ofNat j :=
    congrArg (fun key : PublicKey => key.bytes.toList.headD 0) heq
  have hi := List.mem_range.mp hi
  have hj := List.mem_range.mp hj
  have hnat := congrArg UInt8.toNat hfirst
  rw [UInt8.toNat_ofNat', UInt8.toNat_ofNat'] at hnat
  omega

def manyValidators : ProofOfAuthority := ProofOfAuthority.new (ValidatorSet.new 0 manyKeys)

theorem validatorCount_manyValidators : manyValidators.validatorSet.validatorCount = 103 :=
  (List.length_map _).trans List.length_range

end Reference

namespace ConsensusEngine
open Reference (oneValidator manyValidators claimedBlock testKey)

/-- One validator, and a block it has signed. -/
theorem one_threshold_iff_sample :
    FinalityTracker.required (67 / 100 : Rat) oneValidator.validatorSet.validatorCount =
      oneValidator.requiredSignatures ∧
    (((FinalityTracker.new (67 / 100 : Rat)).checkFinality 0 (claimedBlock 1 5 [testKey 0])
        oneValidator.validatorSet.validatorCount).1 = .finalized ↔
      oneValidator.isFinalized (claimedBlock 1 5 [testKey 0]) = true) := by
  have hcount : 1 ≤ oneValidator.validatorSet.validatorCount := by decide
  refine ((one_threshold_iff hcount (by decide) 0).2 (claimedBlock 1 5 [testKey 0])).mpr ?_
  exact ⟨by decide, Or.inl (by decide)⟩

/-- For a hundred and three, the tracker asks for one more than the mechanism. -/
theorem thresholds_differ :
    manyValidators.validatorSet.validators.Nodup ∧
    manyValidators.validatorSet.validatorCount = 103 ∧
    FinalityTracker.required (67 / 100 : Rat) manyValidators.validatorSet.validatorCount = 70 ∧
    manyValidators.requiredSignatures = 69 := by
  have hcount := Reference.validatorCount_manyValidators
  refine ⟨Reference.nodup_manyKeys, hcount, ?_, ?_⟩
  · rw [hcount, required_default (by decide) (by decide)]
  · rw [ProofOfAuthority.requiredSignatures, hcount]

end ConsensusEngine

/-! ## The genesis block -/

theorem head?_sortValidators {validators : List PublicKey} {v : PublicKey} :
    (sortValidators validators).head? = some v ↔ v ∈ validators ∧ ∀ w ∈ validators, keyLe v w := by
  have hsorted := pairwise_sortValidators validators
  have hmem : ∀ w, w ∈ sortValidators validators ↔ w ∈ validators := fun _ => mem_sortValidators
  cases hsort : sortValidators validators with
  | nil =>
      rw [hsort] at hmem
      refine iff_of_false ?_ ?_
      · intro h
        cases h
      · rintro ⟨hv, -⟩
        exact List.not_mem_nil ((hmem v).mpr hv)
  | cons u us =>
      rw [hsort] at hmem hsorted
      have hleast : ∀ w ∈ validators, keyLe u w := by
        intro w hw
        rcases List.mem_cons.mp ((hmem w).mpr hw) with rfl | hw
        · exact refl_of keyLe w
        · exact List.rel_of_pairwise_cons hsorted hw
      rw [List.head?_cons, Option.some.injEq]
      constructor
      · rintro rfl
        exact ⟨(hmem u).mp List.mem_cons_self, hleast⟩
      · rintro ⟨hv, hvleast⟩
        exact antisymm_of keyLe (hleast v hv) (hvleast u ((hmem u).mp List.mem_cons_self))

namespace ConsensusEngine
variable {F : Type}

theorem validateBlock_blockOf [Hex] (P : Primitives) {now : Timestamp} (g : GenesisBlock)
    {validators : Vec PublicKey} (hnodup : validators.val.Nodup)
    (htime : g.timestamp.toNat ≤ 2 ^ 64 - 6) {threshold : F} {engine : ConsensusEngine F}
    (hnew : newPoa now validators threshold = .ok engine) {v : PublicKey}
    (hv : v ∈ validators.val) :
    engine.validateBlock (g.blockOf P v) = .ok () ↔
      (sortValidators validators.val).head? = some v := by
  have hmech := (newPoa_eq_ok.mp hnew).2
  refine (validateBlock_iff_turns (b := g.blockOf P v) (kept_run hnodup hnew []) hnodup
    (by rw [hmech]) htime).trans ?_
  rw [RoundRobin.turn, hmech]
  show (sortValidators validators.val)[0 % _]? = some v ∧ v ∈ validators.val ∧
    (∀ sig ∈ [], _) ↔ _
  rw [Nat.zero_mod, ← List.head?_eq_getElem?]
  refine and_iff_left ⟨hv, ?_⟩
  intro sig hsig
  cases hsig

/-- **The genesis block before the engine.**  An engine of the validators of a genesis
configuration accepts the genesis block if and only if the validator that is listed first is
the least by its bytes. -/
theorem validateBlock_genesis_iff [Hex] (P : Primitives) (now now' : Timestamp) (g : GenesisBlock)
    {validators : Vec PublicKey} (hvalidators : g.validators = validators.val)
    (hnodup : g.validators.Nodup) (htime : g.timestamp.toNat ≤ 2 ^ 64 - 6) (threshold : F) :
    (do
      let engine ← newPoa now validators threshold
      let block ← g.createBlock P now'
      engine.validateBlock block) = .ok () ↔
    ∃ v, g.validators.head? = some v ∧ ∀ w ∈ g.validators, keyLe v w := by
  rw [hvalidators] at hnodup ⊢
  have hfirst : g.validators[0]? = validators.val.head? := by
    rw [hvalidators, List.head?_eq_getElem?]
  simp only [bind_eq_ok]
  constructor
  · rintro ⟨engine, hnew, b, hb, hok⟩
    obtain ⟨v, hv, rfl⟩ := GenesisBlock.createBlock_eq_ok.mp hb
    rw [hfirst] at hv
    have hmem : v ∈ validators.val := List.mem_of_mem_head? hv
    have hleast := (validateBlock_blockOf P g hnodup htime hnew hmem).mp hok
    exact ⟨v, hv, (head?_sortValidators.mp hleast).2⟩
  · rintro ⟨v, hv, hleast⟩
    have hmem : v ∈ validators.val := List.mem_of_mem_head? hv
    have hnew : newPoa now validators threshold = .ok _ :=
      newPoa_eq_ok.mpr ⟨List.ne_nil_of_mem hmem, rfl⟩
    refine ⟨_, hnew, g.blockOf P v, ?_, ?_⟩
    · exact GenesisBlock.createBlock_eq_ok.mpr ⟨v, hfirst.trans hv, rfl⟩
    · exact (validateBlock_blockOf P g hnodup htime hnew hmem).mpr
        (head?_sortValidators.mpr ⟨hmem, hleast⟩)

section
open Reference (primitives testKey)

/-- The genesis of the crate's test, whose keys are listed in order. -/
theorem validateBlock_genesis_sorted :
    (do
      let engine ← newPoa 0 ⟨[testKey 0, testKey 1], by decide⟩ (67 / 100 : Rat)
      let block ← (GenesisBlock.new [testKey 0, testKey 1] 1000000000 (by decide)).createBlock
        primitives 0
      engine.validateBlock block) = .ok () := by
  refine (validateBlock_genesis_iff primitives 0 0
    (GenesisBlock.new [testKey 0, testKey 1] 1000000000 (by decide)) rfl
    (by decide) (by decide) (67 / 100 : Rat)).mpr ⟨testKey 0, rfl, ?_⟩
  decide

/-- The same keys the other way round: the genesis block is refused. -/
theorem validateBlock_genesis_unsorted :
    [testKey 1, testKey 0].Nodup ∧ (1000000000 : UInt64).toNat ≤ 2 ^ 64 - 6 ∧
    (do
      let engine ← newPoa 0 ⟨[testKey 1, testKey 0], by decide⟩ (67 / 100 : Rat)
      let block ← (GenesisBlock.new [testKey 1, testKey 0] 1000000000 (by decide)).createBlock
        primitives 0
      engine.validateBlock block) ≠ .ok () := by
  refine ⟨by decide, by decide, ?_⟩
  rw [Ne]
  simp only [bind_eq_ok]
  rintro ⟨engine, hnew, b, hb, hok⟩
  obtain ⟨v, hv, rfl⟩ := GenesisBlock.createBlock_eq_ok.mp hb
  obtain rfl : testKey 1 = v := Option.some.inj hv
  have hleast := (validateBlock_blockOf primitives _ (by decide) (by decide) hnew
    List.mem_cons_self).mp hok
  revert hleast
  decide

end

end ConsensusEngine

end VotingChain
