/-
# `VotingChain.Consensus` — proof of authority

The model of `consensus/validator_set.rs` and `consensus/proof_of_authority.rs`,
as far as blocks are concerned: who may produce the block of a height, and what
`validate_block` asks of a block.

The turn order is the validator list sorted by key bytes, taken round robin by
height.  It depends on the list of validators alone (`getBlockProducer_congr`),
not on the bookkeeping of the set, which holds the time at which each node was
set up.

The time slot of `validate_block_timing` is computed from the block's own
timestamp, so the timestamp lies in it unless the end of the slot wraps around;
and a block time of zero is a division by zero.
-/
import Mathlib.Data.List.Sort
import VotingChain.Chain

namespace VotingChain

/-! ## The validator set -/

/-- Information about a validator. -/
structure ValidatorInfo where
  publicKey : PublicKey
  addedAt : Timestamp
  blocksProduced : UInt64
  blocksValidated : UInt64
  isActive : Bool
  deriving DecidableEq

/-- Set of validators authorized to participate in consensus: a list, a map for
lookup and a set for membership. -/
structure ValidatorSet where
  validators : List PublicKey
  validatorMap : Finmap fun _ : PublicKey => ValidatorInfo
  validatorSet : Finset PublicKey

namespace ValidatorSet

/-- What is recorded of a validator when it is added. -/
def freshInfo (now : Timestamp) (validator : PublicKey) : ValidatorInfo where
  publicKey := validator
  addedAt := now
  blocksProduced := 0
  blocksValidated := 0
  isActive := true

/-- Create a new validator set; `now` is what the clock says. -/
def new (now : Timestamp) (validators : List PublicKey) : ValidatorSet where
  validators := validators
  validatorMap := validators.foldl (fun m v => m.insert v (freshInfo now v)) ∅
  validatorSet := validators.foldl (fun s v => insert v s) ∅

/-- An empty validator set. -/
def empty : ValidatorSet := ⟨[], ∅, ∅⟩

/-- Check if a public key is a validator. -/
def isValidator (s : ValidatorSet) (validator : PublicKey) : Bool :=
  decide (validator ∈ s.validatorSet)

/-- Get validator count. -/
def validatorCount (s : ValidatorSet) : Nat := s.validators.length

/-- Add a new validator; `now` is what the clock says. -/
def addValidator [Hex] (now : Timestamp) (validator : PublicKey) : Exec ValidatorSet Unit := do
  let s ← get
  Exec.lift (ensure (!s.isValidator validator)
    (.consensusError ("Validator " ++ validator.toHex ++ " already exists")))
  Exec.lift (reserveOne s.validators)
  modify fun s => { s with validators := s.validators ++ [validator] }
  modify fun s =>
    { s with validatorMap := s.validatorMap.insert validator (freshInfo now validator) }
  modify fun s => { s with validatorSet := insert validator s.validatorSet }

/-- Remove a validator. -/
def removeValidator [Hex] (validator : PublicKey) : Exec ValidatorSet Unit := do
  let s ← get
  Exec.lift (ensure (s.isValidator validator)
    (.invalidValidator ("Validator " ++ validator.toHex ++ " not found")))
  modify fun s => { s with validators := s.validators.filter fun v => v ≠ validator }
  modify fun s => { s with validatorMap := s.validatorMap.erase validator }
  modify fun s => { s with validatorSet := s.validatorSet.erase validator }

theorem isValidator_new (now : Timestamp) (validators : List PublicKey) (v : PublicKey) :
    (new now validators).isValidator v = true ↔ v ∈ validators := by
  have hfold : ∀ (vs : List PublicKey) (s : Finset PublicKey),
      v ∈ vs.foldl (fun s v => insert v s) s ↔ v ∈ vs ∨ v ∈ s := by
    intro vs
    induction vs with
    | nil => simp
    | cons w vs ih =>
        intro s
        rw [List.foldl_cons, ih, Finset.mem_insert, List.mem_cons]
        tauto
  rw [isValidator, decide_eq_true_eq, new, hfold]
  simp

/-- No key is listed twice, and the set is the set of the listed keys. -/
structure WellFormed (s : ValidatorSet) : Prop where
  nodup : s.validators.Nodup
  isValidator_iff : ∀ v, s.isValidator v = true ↔ v ∈ s.validators

theorem wellFormed_new (now : Timestamp) {validators : List PublicKey} (h : validators.Nodup) :
    (new now validators).WellFormed :=
  ⟨h, isValidator_new now validators⟩

/-- The set with one more validator. -/
def insertKey (s : ValidatorSet) (now : Timestamp) (v : PublicKey) : ValidatorSet where
  validators := s.validators ++ [v]
  validatorMap := s.validatorMap.insert v (freshInfo now v)
  validatorSet := insert v s.validatorSet

/-- The set with one validator less. -/
def eraseKey (s : ValidatorSet) (v : PublicKey) : ValidatorSet where
  validators := s.validators.filter fun w => w ≠ v
  validatorMap := s.validatorMap.erase v
  validatorSet := s.validatorSet.erase v

/-- **What a call of `addValidator` does.** -/
theorem addValidator_cases [Hex] (now : Timestamp) (v : PublicKey) (s : ValidatorSet) :
    (s.isValidator v = false ∧ s.validators.length < maxVecLength ∧
      (addValidator now v).exec s = (.ok (), s.insertKey now v)) ∨
    ∃ e, (addValidator now v).exec s = (.error e, s) := by
  simp only [addValidator, Exec.exec_get_bind, Exec.exec_lift_bind]
  cases hv : s.isValidator v with
  | true => simp [ensure, fail]
  | false =>
      by_cases hroom : s.validators.length < maxVecLength
      · refine Or.inl ⟨rfl, hroom, ?_⟩
        simp [ensure, reserveOne, hroom, insertKey]
      · simp [ensure, reserveOne, hroom]

/-- **What a call of `removeValidator` does.** -/
theorem removeValidator_cases [Hex] (v : PublicKey) (s : ValidatorSet) :
    (s.isValidator v = true ∧ (removeValidator v).exec s = (.ok (), s.eraseKey v)) ∨
    ∃ e, (removeValidator v).exec s = (.error e, s) := by
  simp only [removeValidator, Exec.exec_get_bind, Exec.exec_lift_bind]
  cases hv : s.isValidator v with
  | true => simp [ensure, eraseKey]
  | false => simp [ensure, fail]

namespace WellFormed
variable {s : ValidatorSet}

theorem insertKey (h : s.WellFormed) (now : Timestamp) {v : PublicKey}
    (hv : s.isValidator v = false) : (s.insertKey now v).WellFormed := by
  have hnot : v ∉ s.validators := by
    rw [← h.isValidator_iff v, hv]
    exact Bool.false_ne_true
  constructor
  · refine List.nodup_append.mpr ⟨h.nodup, List.nodup_singleton v, ?_⟩
    rintro w hw _ hw' rfl
    rw [List.mem_singleton] at hw'
    exact hnot (hw' ▸ hw)
  · intro w
    have hw := h.isValidator_iff w
    simp only [isValidator, decide_eq_true_eq] at hw
    simp [isValidator, ValidatorSet.insertKey, hw, or_comm]

theorem eraseKey (h : s.WellFormed) (v : PublicKey) : (s.eraseKey v).WellFormed := by
  constructor
  · exact h.nodup.filter _
  · intro w
    have hw := h.isValidator_iff w
    simp only [isValidator, decide_eq_true_eq] at hw
    simp [isValidator, ValidatorSet.eraseKey, hw, and_comm]

end WellFormed

end ValidatorSet

/-! ## Turns -/

/-- Lexicographic comparison of byte strings (`Ord` on slices). -/
def bytesLe : Bytes → Bytes → Bool
  | [], _ => true
  | _ :: _, [] => false
  | a :: as, b :: bs => decide (a < b) || (a == b && bytesLe as bs)

/-- The validators in turn order: sorted by their bytes. -/
def sortValidators (validators : List PublicKey) : List PublicKey :=
  validators.insertionSort fun a b => bytesLe a.asBytes b.asBytes = true

/-- Proof of Authority consensus mechanism. -/
structure ProofOfAuthority where
  validatorSet : ValidatorSet
  blockTime : UInt64
  currentRound : UInt64

namespace ProofOfAuthority

/-- Create a new Proof of Authority consensus, with the default block time. -/
def new (validatorSet : ValidatorSet) : ProofOfAuthority where
  validatorSet := validatorSet
  blockTime := 5
  currentRound := 0

/-- Create with custom block time. -/
def withBlockTime (validatorSet : ValidatorSet) (blockTime : UInt64) : ProofOfAuthority where
  validatorSet := validatorSet
  blockTime := blockTime
  currentRound := 0

/-- Get the validator that should produce the block at a given height. -/
def getBlockProducer (poa : ProofOfAuthority) (blockHeight : UInt64) : Result PublicKey := do
  ensure (decide (poa.validatorSet.validatorCount ≠ 0)) (.consensusError "No validators available")
  let sortedValidators := sortValidators poa.validatorSet.validators
  indexVec sortedValidators (blockHeight.toNat % sortedValidators.length)

/-- Calculate which validator should produce block at given timestamp. -/
def getValidatorAtTime (poa : ProofOfAuthority) (timestamp : Timestamp) : Result PublicKey := do
  ensure (decide (poa.validatorSet.validatorCount ≠ 0)) (.consensusError "No validators available")
  if poa.blockTime = 0 then .error .panicked
  else
    let round := timestamp / poa.blockTime
    let sortedValidators := sortValidators poa.validatorSet.validators
    indexVec sortedValidators (round.toNat % sortedValidators.length)

/-- Check if it's the correct validator's turn for this block height. -/
def isValidatorTurnByHeight (poa : ProofOfAuthority) (validator : PublicKey)
    (blockHeight : UInt64) : Result Bool := do
  let expectedValidator ← poa.getBlockProducer blockHeight
  return decide (expectedValidator = validator)

/-- Check if it's the correct time slot for a validator. -/
def isValidatorTurn (poa : ProofOfAuthority) (validator : PublicKey) (timestamp : Timestamp) :
    Result Bool := do
  let expectedValidator ← poa.getValidatorAtTime timestamp
  return decide (expectedValidator = validator)

/-- Get the time slot boundaries for a validator. -/
def getValidatorTimeSlot (poa : ProofOfAuthority) (timestamp : Timestamp) :
    Result (Timestamp × Timestamp) :=
  if poa.blockTime = 0 then .error .panicked
  else
    let slotStart := timestamp / poa.blockTime * poa.blockTime
    .ok (slotStart, slotStart + poa.blockTime)

/-- The timestamp must be within the time slot. -/
def validateTimestamp (poa : ProofOfAuthority) (timestamp : Timestamp) : Result Unit := do
  let (slotStart, slotEnd) ← poa.getValidatorTimeSlot timestamp
  ensure (decide (slotStart ≤ timestamp ∧ timestamp < slotEnd))
    (.consensusError ("Block timestamp " ++ toString timestamp ++
      " is outside validator time slot [" ++ toString slotStart ++ ", " ++ toString slotEnd ++ ")"))

/-- Validate block timing. -/
def validateBlockTiming (poa : ProofOfAuthority) (block : Block) : Result Unit :=
  poa.validateTimestamp block.timestamp

/-- Check if a public key is an authorized validator. -/
def isValidator (poa : ProofOfAuthority) (validator : PublicKey) : Bool :=
  poa.validatorSet.isValidator validator

/-- `Consensus::validate_block`. -/
def validateBlock [Hex] (poa : ProofOfAuthority) (block : Block) : Result Unit := do
  ensure (poa.validatorSet.isValidator block.header.validator)
    (.invalidValidator ("Validator " ++ block.header.validator.toHex ++ " is not authorized"))
  let turn ← poa.isValidatorTurnByHeight block.header.validator block.header.height
  if !turn then
    let expected ← poa.getBlockProducer block.header.height
    fail (.consensusError ("Wrong validator turn. Expected " ++ expected.toHex ++ ", got " ++
      block.header.validator.toHex))
  poa.validateBlockTiming block

/-- `Consensus::can_produce_block`; `now` is what the clock says. -/
def canProduceBlock (now : Timestamp) (poa : ProofOfAuthority) (validator : PublicKey) :
    Result Bool :=
  if !poa.validatorSet.isValidator validator then .ok false
  else poa.isValidatorTurn validator now

/-- `Consensus::get_current_validator`; `now` is what the clock says. -/
def getCurrentValidator (now : Timestamp) (poa : ProofOfAuthority) : Result PublicKey :=
  poa.getValidatorAtTime now

/-- `Consensus::required_signatures`.  No vector is long enough for the product to
wrap around. -/
def requiredSignatures (poa : ProofOfAuthority) : Nat :=
  poa.validatorSet.validatorCount * 2 / 3 + 1

/-- `Consensus::is_finalized`. -/
def isFinalized (poa : ProofOfAuthority) (block : Block) : Bool :=
  decide (poa.requiredSignatures ≤ block.signatureCount)

/-! ## What the consensus check says -/

/-- What `validateBlock` accepts. -/
structure Approves (poa : ProofOfAuthority) (b : Block) : Prop where
  authorized : poa.isValidator b.header.validator = true
  turn : poa.getBlockProducer b.header.height = .ok b.header.validator
  timing : poa.validateTimestamp b.timestamp = .ok ()

theorem validateBlock_eq_ok [Hex] {poa : ProofOfAuthority} {b : Block} {u : Unit} :
    poa.validateBlock b = .ok u ↔ Approves poa b := by
  simp only [validateBlock, isValidatorTurnByHeight, bind_eq_ok, ensure_eq_ok]
  constructor
  · rintro ⟨-, hauth, turn, ⟨producer, hproducer, hturn⟩, hrest⟩
    cases hturn
    by_cases heq : producer = b.header.validator
    · subst heq
      refine ⟨hauth, hproducer, ?_⟩
      simpa [validateBlockTiming, pure, Except.pure, bind, Except.bind] using hrest
    · simp [heq, hproducer, fail, bind, Except.bind] at hrest
  · rintro ⟨hauth, hproducer, htiming⟩
    refine ⟨(), hauth, true, ⟨b.header.validator, hproducer, ?_⟩, ?_⟩
    · simp [pure, Except.pure]
    · simpa [validateBlockTiming, pure, Except.pure, bind, Except.bind] using htiming

theorem Approves.addSignature {poa : ProofOfAuthority} {b : Block} (h : poa.Approves b)
    (validator : PublicKey) (signature : Signature) :
    poa.Approves (b.addSignature validator signature) :=
  ⟨h.authorized, h.turn, h.timing⟩

theorem getBlockProducer_congr {poa poa' : ProofOfAuthority}
    (h : poa.validatorSet.validators = poa'.validatorSet.validators) (height : UInt64) :
    poa.getBlockProducer height = poa'.getBlockProducer height := by
  unfold getBlockProducer ValidatorSet.validatorCount
  rw [h]

theorem exists_getBlockProducer (poa : ProofOfAuthority) (h : poa.validatorSet.validators ≠ [])
    (height : UInt64) :
    ∃ v ∈ poa.validatorSet.validators, poa.getBlockProducer height = .ok v := by
  have hpos : 0 < poa.validatorSet.validators.length := List.length_pos_of_ne_nil h
  have hlen : (sortValidators poa.validatorSet.validators).length =
      poa.validatorSet.validators.length := List.length_insertionSort _ _
  have hlt : height.toNat % (sortValidators poa.validatorSet.validators).length <
      (sortValidators poa.validatorSet.validators).length := Nat.mod_lt _ (hlen ▸ hpos)
  refine ⟨(sortValidators poa.validatorSet.validators)[height.toNat %
    (sortValidators poa.validatorSet.validators).length], ?_, ?_⟩
  · exact (List.perm_insertionSort _ _).mem_iff.mp (List.getElem_mem hlt)
  · simp only [getBlockProducer, bind_eq_ok, ensure_eq_ok, indexVec, List.getElem?_eq_getElem hlt,
      and_true]
    exact ⟨(), decide_eq_true (Nat.pos_iff_ne_zero.mp hpos)⟩

end ProofOfAuthority

end VotingChain
