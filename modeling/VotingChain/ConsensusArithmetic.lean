/-
# `VotingChain.ConsensusArithmetic` — the arithmetic of the consensus checks

The functions of `consensus/proof_of_authority.rs` that are called on blocks from the network
divide by the block time, which the configuration may set to anything, and compute the end of
a time slot from a timestamp that whoever made the block has chosen.  A division by zero
panics, and a sum that does not fit into a word panics in the dev profile and wraps in the
release profile, where the timestamp is then outside of its own slot.

`ArithmeticSafe` is what one would like of the three calls for a block; it comes down to a
block time that is not zero, and a slot that ends before `2 ^ 64` (`arithmeticSafe_iff`).
-/
import VotingChain.Turns

namespace VotingChain

/-! ## Arithmetic that is checked -/

/-- `a / b`, which panics for zero in either profile. -/
def checkedDiv (a b : UInt64) : Result UInt64 := if b = 0 then .error .panicked else .ok (a / b)

/-- `a * b` of the dev profile. -/
def checkedMul (a b : UInt64) : Result UInt64 :=
  if a.toNat * b.toNat < 2 ^ 64 then .ok (a * b) else .error .panicked

/-- `a + b` of the dev profile. -/
def checkedAdd (a b : UInt64) : Result UInt64 :=
  if a.toNat + b.toNat < 2 ^ 64 then .ok (a + b) else .error .panicked

namespace ProofOfAuthority

/-- `get_validator_time_slot` in the dev profile. -/
def getValidatorTimeSlotChecked (poa : ProofOfAuthority) (timestamp : Timestamp) :
    Result (Timestamp × Timestamp) := do
  let slotStart ← checkedMul (← checkedDiv timestamp poa.blockTime) poa.blockTime
  let slotEnd ← checkedAdd slotStart poa.blockTime
  return (slotStart, slotEnd)

/-- `validate_block_timing` in the dev profile. -/
def validateBlockTimingChecked (poa : ProofOfAuthority) (block : Block) : Result Unit := do
  let (slotStart, slotEnd) ← poa.getValidatorTimeSlotChecked block.timestamp
  ensure (decide (slotStart ≤ block.timestamp ∧ block.timestamp < slotEnd))
    (.consensusError ("Block timestamp " ++ toString block.timestamp ++
      " is outside validator time slot [" ++ toString slotStart ++ ", " ++ toString slotEnd ++ ")"))

/-- `validate_block` in the dev profile. -/
def validateBlockChecked [Hex] (poa : ProofOfAuthority) (block : Block) : Result Unit := do
  ensure (poa.validatorSet.isValidator block.header.validator)
    (.invalidValidator ("Validator " ++ block.header.validator.toHex ++ " is not authorized"))
  let turn ← poa.isValidatorTurnByHeight block.header.validator block.header.height
  if !turn then
    let expected ← poa.getBlockProducer block.header.height
    fail (.consensusError ("Wrong validator turn. Expected " ++ expected.toHex ++ ", got " ++
      block.header.validator.toHex))
  poa.validateBlockTimingChecked block

/-! ## What is to be shown -/

/-- The block is made by an authorized validator whose turn it is. -/
structure RightProducer (poa : ProofOfAuthority) (b : Block) : Prop where
  authorized : poa.isValidator b.header.validator = true
  turn : poa.getBlockProducer b.header.height = .ok b.header.validator

/-- The end of the slot is a word. -/
def SlotFits (poa : ProofOfAuthority) (timestamp : Timestamp) : Prop :=
  timestamp.toNat / poa.blockTime.toNat * poa.blockTime.toNat + poa.blockTime.toNat < 2 ^ 64

/-- No call divides by zero or overflows, and a block of the right producer is accepted. -/
structure ArithmeticSafe [Hex] (poa : ProofOfAuthority) (b : Block) (now : Timestamp)
    (v : PublicKey) : Prop where
  validate : poa.validateBlockChecked b ≠ .error .panicked
  produce : canProduceBlock now poa v ≠ .error .panicked
  current : getCurrentValidator now poa ≠ .error .panicked
  accepts : poa.RightProducer b → poa.validateBlock b = .ok ()

/-! ## The time slot -/

variable {poa : ProofOfAuthority}

theorem blockTime_pos (hblock : poa.blockTime ≠ 0) : 0 < poa.blockTime.toNat := by
  rcases Nat.eq_zero_or_pos poa.blockTime.toNat with h | h
  · exact absurd (UInt64.toNat_inj.mp h) hblock
  · exact h

theorem toNat_slotStart (timestamp : Timestamp) :
    (timestamp / poa.blockTime * poa.blockTime).toNat =
      timestamp.toNat / poa.blockTime.toNat * poa.blockTime.toNat := by
  have hle : timestamp.toNat / poa.blockTime.toNat * poa.blockTime.toNat ≤ timestamp.toNat :=
    Nat.div_mul_le_self _ _
  have hlt := timestamp.toNat_lt
  rw [UInt64.toNat_mul, UInt64.toNat_div, Nat.mod_eq_of_lt (by omega)]

theorem checkedMul_slotStart (timestamp : Timestamp) :
    checkedMul (timestamp / poa.blockTime) poa.blockTime =
      .ok (timestamp / poa.blockTime * poa.blockTime) := by
  have hle : timestamp.toNat / poa.blockTime.toNat * poa.blockTime.toNat ≤ timestamp.toNat :=
    Nat.div_mul_le_self _ _
  have hlt := timestamp.toNat_lt
  refine if_pos ?_
  rw [UInt64.toNat_div]
  omega

theorem getValidatorTimeSlotChecked_eq (hblock : poa.blockTime ≠ 0) (timestamp : Timestamp) :
    poa.getValidatorTimeSlotChecked timestamp = do
      let slotEnd ← checkedAdd (timestamp / poa.blockTime * poa.blockTime) poa.blockTime
      return (timestamp / poa.blockTime * poa.blockTime, slotEnd) := by
  rw [getValidatorTimeSlotChecked, checkedDiv, if_neg hblock]
  show (do
    let slotStart ← checkedMul (timestamp / poa.blockTime) poa.blockTime
    let slotEnd ← checkedAdd slotStart poa.blockTime
    return (slotStart, slotEnd)) = _
  rw [checkedMul_slotStart]
  rfl

theorem getValidatorTimeSlotChecked_of_fits (hblock : poa.blockTime ≠ 0) {timestamp : Timestamp}
    (hfits : poa.SlotFits timestamp) :
    poa.getValidatorTimeSlotChecked timestamp = poa.getValidatorTimeSlot timestamp := by
  have hadd : checkedAdd (timestamp / poa.blockTime * poa.blockTime) poa.blockTime =
      .ok (timestamp / poa.blockTime * poa.blockTime + poa.blockTime) := by
    refine if_pos ?_
    rw [toNat_slotStart]
    exact hfits
  rw [getValidatorTimeSlotChecked_eq hblock, hadd, getValidatorTimeSlot, if_neg hblock]
  rfl

theorem getValidatorTimeSlotChecked_of_not_fits (hblock : poa.blockTime ≠ 0)
    {timestamp : Timestamp} (hfits : ¬poa.SlotFits timestamp) :
    poa.getValidatorTimeSlotChecked timestamp = .error .panicked := by
  have hadd : checkedAdd (timestamp / poa.blockTime * poa.blockTime) poa.blockTime =
      .error .panicked := by
    refine if_neg ?_
    rw [toNat_slotStart]
    exact hfits
  rw [getValidatorTimeSlotChecked_eq hblock, hadd]
  rfl

/-- In the release profile, a timestamp lies in its own slot if and only if the end of the slot
does not wrap around. -/
theorem validateTimestamp_iff_fits (hblock : poa.blockTime ≠ 0) {timestamp : Timestamp} :
    poa.validateTimestamp timestamp = .ok () ↔ poa.SlotFits timestamp := by
  have hpos := blockTime_pos hblock
  have hle : timestamp.toNat / poa.blockTime.toNat * poa.blockTime.toNat ≤ timestamp.toNat :=
    Nat.div_mul_le_self _ _
  have hlt : timestamp.toNat <
      timestamp.toNat / poa.blockTime.toNat * poa.blockTime.toNat + poa.blockTime.toNat :=
    Nat.lt_div_mul_add hpos
  have htimestamp := timestamp.toNat_lt
  have htime := poa.blockTime.toNat_lt
  simp only [validateTimestamp, getValidatorTimeSlot, if_neg hblock, bind_eq_ok, Except.ok.injEq,
    exists_eq_left', ensure_eq_ok, decide_eq_true_eq, UInt64.le_iff_toNat_le,
    UInt64.lt_iff_toNat_lt, UInt64.toNat_add, toNat_slotStart, SlotFits]
  constructor
  · rintro ⟨-, hend⟩
    by_contra hover
    omega
  · intro hfits
    rw [Nat.mod_eq_of_lt hfits]
    exact ⟨hle, hlt⟩

/-! ## The calls -/

theorem getValidatorAtTime_eq (hblock : poa.blockTime ≠ 0) (timestamp : Timestamp) :
    poa.getValidatorAtTime timestamp = poa.getBlockProducer (timestamp / poa.blockTime) := by
  rw [getValidatorAtTime, if_neg hblock]
  rfl

theorem getValidatorAtTime_of_zero (hne : poa.validatorSet.validators ≠ [])
    (hblock : poa.blockTime = 0) (timestamp : Timestamp) :
    poa.getValidatorAtTime timestamp = .error .panicked := by
  have hcount : decide (poa.validatorSet.validatorCount ≠ 0) = true :=
    decide_eq_true (Nat.pos_iff_ne_zero.mp (List.length_pos_of_ne_nil hne))
  rw [getValidatorAtTime, hcount, if_pos hblock]
  rfl

theorem validateBlockChecked_of_wrong [Hex] (hne : poa.validatorSet.validators ≠ []) {b : Block}
    (hwrong : ¬poa.RightProducer b) : ∃ e, poa.validateBlockChecked b = fail e := by
  obtain ⟨producer, -, hproducer⟩ := poa.exists_getBlockProducer hne b.header.height
  rw [validateBlockChecked]
  cases hauth : poa.validatorSet.isValidator b.header.validator with
  | false => exact ⟨_, rfl⟩
  | true =>
      have hother : decide (producer = b.header.validator) = false := by
        refine decide_eq_false ?_
        rintro rfl
        exact hwrong ⟨hauth, hproducer⟩
      rw [isValidatorTurnByHeight, hproducer]
      simp only [ensure, if_pos, bind, Except.bind, pure, Except.pure, hother, Bool.not_false]
      exact ⟨_, rfl⟩

theorem validateBlockChecked_of_right [Hex] {b : Block} (hright : poa.RightProducer b) :
    poa.validateBlockChecked b = poa.validateBlockTimingChecked b := by
  have hauth : poa.validatorSet.isValidator b.header.validator = true := hright.authorized
  rw [validateBlockChecked, isValidatorTurnByHeight, hright.turn, hauth]
  simp only [ensure, if_pos, bind, Except.bind, pure, Except.pure, decide_true, Bool.not_true,
    Bool.false_eq_true, if_false]

theorem validateBlockTimingChecked_of_fits (hblock : poa.blockTime ≠ 0) {b : Block}
    (hfits : poa.SlotFits b.timestamp) : poa.validateBlockTimingChecked b = .ok () := by
  have hslot := getValidatorTimeSlotChecked_of_fits hblock hfits
  rw [validateBlockTimingChecked, hslot]
  exact (validateTimestamp_iff_fits hblock).mpr hfits

theorem validateBlockTimingChecked_of_not_fits (hblock : poa.blockTime ≠ 0) {b : Block}
    (hfits : ¬poa.SlotFits b.timestamp) : poa.validateBlockTimingChecked b = .error .panicked := by
  rw [validateBlockTimingChecked, getValidatorTimeSlotChecked_of_not_fits hblock hfits]
  rfl

/-- **The arithmetic of the consensus checks.**  With a non-empty set of validators, whatever
the block time and the block: no call divides by zero or overflows, and a block of the right
producer is accepted, if and only if the block time is not zero and, for a block of the right
producer, its time slot ends before `2 ^ 64`. -/
theorem arithmeticSafe_iff [Hex] (poa : ProofOfAuthority) (hne : poa.validatorSet.validators ≠ [])
    (b : Block) (now : Timestamp) (v : PublicKey) :
    ArithmeticSafe poa b now v ↔
      poa.blockTime ≠ 0 ∧ (poa.RightProducer b → poa.SlotFits b.timestamp) := by
  constructor
  · intro hsafe
    have hblock : poa.blockTime ≠ 0 :=
      fun hzero => hsafe.current (getValidatorAtTime_of_zero hne hzero now)
    refine ⟨hblock, ?_⟩
    intro hright
    by_contra hfits
    refine hsafe.validate ?_
    rw [validateBlockChecked_of_right hright]
    exact validateBlockTimingChecked_of_not_fits hblock hfits
  · rintro ⟨hblock, hfits⟩
    obtain ⟨current, -, hcurrent⟩ :=
      poa.exists_getBlockProducer hne (now / poa.blockTime)
    rw [← getValidatorAtTime_eq hblock] at hcurrent
    refine ⟨?_, ?_, ?_, ?_⟩
    · intro hpanic
      by_cases hright : poa.RightProducer b
      · rw [validateBlockChecked_of_right hright,
          validateBlockTimingChecked_of_fits hblock (hfits hright)] at hpanic
        cases hpanic
      · obtain ⟨e, hfail⟩ := validateBlockChecked_of_wrong hne hright
        rw [hfail] at hpanic
        cases hpanic
    · intro hpanic
      rw [canProduceBlock] at hpanic
      split at hpanic
      · cases hpanic
      · rw [isValidatorTurn, hcurrent] at hpanic
        cases hpanic
    · intro hpanic
      rw [getCurrentValidator, hcurrent] at hpanic
      cases hpanic
    · intro hright
      rw [validateBlock_eq_ok]
      exact ⟨hright.authorized, hright.turn, (validateTimestamp_iff_fits hblock).mpr (hfits hright)⟩

/-! ## A set of validators to try things on -/

/-- One validator, with a block time of five seconds or another. -/
def single (blockTime : UInt64) : ProofOfAuthority :=
  withBlockTime (ValidatorSet.new 1000 [Reference.key]) blockTime

/-- A block of that validator with a timestamp of its choice. -/
def blockAtTime (timestamp : Timestamp) : Block :=
  { Reference.voteBlock with header := { Reference.voteBlock.header with timestamp := timestamp } }

theorem arithmeticSafe_single :
    ArithmeticSafe (single 5) (blockAtTime 1000) 1000 Reference.key := by
  refine (arithmeticSafe_iff (single 5) (List.cons_ne_nil _ _) (blockAtTime 1000) 1000
    Reference.key).mpr ⟨by decide, fun _ => ?_⟩
  show (1000 : UInt64).toNat / (5 : UInt64).toNat * (5 : UInt64).toNat + (5 : UInt64).toNat <
    2 ^ 64
  decide

/-- The last timestamp there is. -/
def lastTimestamp : Timestamp := 18446744073709551615

/-- A block time of zero panics when the clock is asked for the validator; and with five
seconds, a block made at the end of time is refused although it is its maker's turn. -/
theorem not_arithmeticSafe_single :
    getCurrentValidator 1000 (single 0) = .error .panicked ∧
    (single 5).RightProducer (blockAtTime lastTimestamp) ∧
    (single 5).validateBlock (blockAtTime lastTimestamp) ≠ .ok () ∧
    (single 5).validateBlockChecked (blockAtTime lastTimestamp) = .error .panicked := by
  have hnotFits : ¬(single 5).SlotFits lastTimestamp := by
    show ¬(lastTimestamp.toNat / (5 : UInt64).toNat * (5 : UInt64).toNat +
      (5 : UInt64).toNat < 2 ^ 64)
    decide
  have hright : (single 5).RightProducer (blockAtTime lastTimestamp) := ⟨rfl, rfl⟩
  refine ⟨rfl, hright, ?_, ?_⟩
  · intro hok
    have htiming := (validateBlock_eq_ok.mp hok).timing
    exact hnotFits ((validateTimestamp_iff_fits (by decide)).mp htiming)
  · rw [validateBlockChecked_of_right hright]
    exact validateBlockTimingChecked_of_not_fits (by decide) hnotFits

end ProofOfAuthority

end VotingChain
