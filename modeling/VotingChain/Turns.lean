/-
# `VotingChain.Turns` — whose turn it is

`proof_of_authority.rs` has two rules for whose turn it is.  Both take the
validators sorted by their bytes, round robin:

    get_block_producer       round = height                  used to accept blocks
    get_validator_at_time    round = time / block_time       used by `can_produce_block`

The first one is fair (`getBlockProducer_fair`): the order of turns depends on the
set of validators alone, every window of heights gives each validator its share, and
so does every chain a validator node takes in.

The two rules have nothing to do with each other.  A validator that is told it can
produce a block is refused it unless the round of the clock happens to be that of
the height (`canProduceBlock_agrees_iff`).  `produce_block` in `validator.rs` asks
`get_block_producer`, not `can_produce_block`.  And the check of the timestamp asks for the
slot of the timestamp itself, in which it lies whoever's slot that is, so a block need not
be of the validator of its slot (`slot_of_producer_iff`).
-/
import VotingChain.Lib.RoundRobin
import VotingChain.Network

namespace VotingChain

/-! ## The order of turns -/

theorem bytesLe_total (as bs : Bytes) : bytesLe as bs = true ∨ bytesLe bs as = true := by
  induction as generalizing bs with
  | nil => exact Or.inl rfl
  | cons a as ih =>
      cases bs with
      | nil => exact Or.inr rfl
      | cons b bs =>
          simp only [bytesLe, Bool.or_eq_true, Bool.and_eq_true, decide_eq_true_eq, beq_iff_eq]
          rcases eq_or_ne a b with rfl | hne
          · rcases ih bs with h | h
            · exact Or.inl (Or.inr ⟨rfl, h⟩)
            · exact Or.inr (Or.inr ⟨rfl, h⟩)
          · rcases UInt8.lt_or_lt_of_ne hne with hlt | hlt
            · exact Or.inl (Or.inl hlt)
            · exact Or.inr (Or.inl hlt)

theorem bytesLe_trans {as bs cs : Bytes} (hab : bytesLe as bs = true) (hbc : bytesLe bs cs = true) :
    bytesLe as cs = true := by
  induction as generalizing bs cs with
  | nil => rfl
  | cons a as ih =>
      cases bs with
      | nil => cases hab
      | cons b bs =>
          cases cs with
          | nil => cases hbc
          | cons c cs =>
              simp only [bytesLe, Bool.or_eq_true, Bool.and_eq_true, decide_eq_true_eq,
                beq_iff_eq] at hab hbc ⊢
              rcases hab with hab | ⟨rfl, hab⟩
              · rcases hbc with hbc | ⟨rfl, -⟩
                · exact Or.inl (UInt8.lt_trans hab hbc)
                · exact Or.inl hab
              · rcases hbc with hbc | ⟨rfl, hbc⟩
                · exact Or.inl hbc
                · exact Or.inr ⟨rfl, ih hab hbc⟩

theorem bytesLe_antisymm {as bs : Bytes} (hab : bytesLe as bs = true) (hba : bytesLe bs as = true) :
    as = bs := by
  induction as generalizing bs with
  | nil =>
      cases bs with
      | nil => rfl
      | cons b bs => cases hba
  | cons a as ih =>
      cases bs with
      | nil => cases hab
      | cons b bs =>
          simp only [bytesLe, Bool.or_eq_true, Bool.and_eq_true, decide_eq_true_eq,
            beq_iff_eq] at hab hba
          rcases hab with hab | ⟨rfl, hab⟩
          · rcases hba with hba | ⟨rfl, -⟩
            · exact absurd hba (UInt8.lt_asymm hab)
            · exact absurd hab (UInt8.lt_irrefl _)
          · rcases hba with hba | ⟨-, hba⟩
            · exact absurd hba (UInt8.lt_irrefl _)
            · rw [ih hab hba]

/-- The order in which keys take turns. -/
def keyLe (a b : PublicKey) : Prop := bytesLe a.asBytes b.asBytes = true

instance : DecidableRel keyLe := fun _ _ => inferInstanceAs (Decidable (bytesLe _ _ = true))

instance : Std.Total keyLe := ⟨fun a b => bytesLe_total a.asBytes b.asBytes⟩

instance : IsTrans PublicKey keyLe := ⟨fun _ _ _ => bytesLe_trans⟩

instance : Std.Antisymm keyLe :=
  ⟨fun _ _ hab hba => PublicKey.ext (Subtype.ext (bytesLe_antisymm hab hba))⟩

theorem perm_sortValidators (validators : List PublicKey) :
    (sortValidators validators).Perm validators :=
  List.perm_insertionSort _ _

theorem mem_sortValidators {validators : List PublicKey} {v : PublicKey} :
    v ∈ sortValidators validators ↔ v ∈ validators :=
  (perm_sortValidators validators).mem_iff

theorem length_sortValidators (validators : List PublicKey) :
    (sortValidators validators).length = validators.length :=
  (perm_sortValidators validators).length_eq

theorem nodup_sortValidators {validators : List PublicKey} (h : validators.Nodup) :
    (sortValidators validators).Nodup :=
  (perm_sortValidators validators).nodup_iff.mpr h

theorem pairwise_sortValidators (validators : List PublicKey) :
    (sortValidators validators).Pairwise keyLe :=
  List.pairwise_insertionSort keyLe validators

/-- Sorting is a canonical form: it forgets the order the validators came in. -/
theorem sortValidators_congr {validators validators' : List PublicKey}
    (h : validators.Perm validators') : sortValidators validators = sortValidators validators' :=
  List.Perm.eq_of_pairwise' (pairwise_sortValidators _) (pairwise_sortValidators _)
    (((perm_sortValidators _).trans h).trans (perm_sortValidators _).symm)

namespace ProofOfAuthority

theorem getBlockProducer_eq_ok {poa : ProofOfAuthority} {height : UInt64} {v : PublicKey} :
    poa.getBlockProducer height = .ok v ↔
      RoundRobin.turn (sortValidators poa.validatorSet.validators) height.toNat = some v := by
  cases hvals : poa.validatorSet.validators with
  | nil => simp [getBlockProducer, ValidatorSet.validatorCount, hvals, RoundRobin.turn,
      sortValidators, ensure, fail]
  | cons x xs =>
      simp only [getBlockProducer, ValidatorSet.validatorCount, hvals, RoundRobin.turn, bind_eq_ok,
        ensure_eq_ok, indexVec, List.length_cons]
      cases (sortValidators (x :: xs))[height.toNat % (sortValidators (x :: xs)).length]? <;> simp

theorem getValidatorAtTime_eq_ok {poa : ProofOfAuthority} (hblock : poa.blockTime ≠ 0)
    {timestamp : Timestamp} {v : PublicKey} :
    poa.getValidatorAtTime timestamp = .ok v ↔
      RoundRobin.turn (sortValidators poa.validatorSet.validators)
        (timestamp / poa.blockTime).toNat = some v := by
  rw [← getBlockProducer_eq_ok, getValidatorAtTime, if_neg hblock]
  rfl

theorem validateTimestamp_of_lt {poa : ProofOfAuthority} (hblock : poa.blockTime ≠ 0)
    {timestamp : Timestamp} (hlt : timestamp.toNat + poa.blockTime.toNat < 2 ^ 64) :
    poa.validateTimestamp timestamp = .ok () := by
  have hpos : 0 < poa.blockTime.toNat := by
    rcases Nat.eq_zero_or_pos poa.blockTime.toNat with h | h
    · exact absurd (UInt64.toNat_inj.mp h) hblock
    · exact h
  have hstart : timestamp.toNat / poa.blockTime.toNat * poa.blockTime.toNat ≤ timestamp.toNat :=
    Nat.div_mul_le_self _ _
  have hend : timestamp.toNat <
      timestamp.toNat / poa.blockTime.toNat * poa.blockTime.toNat + poa.blockTime.toNat :=
    Nat.lt_div_mul_add hpos
  simp only [validateTimestamp, getValidatorTimeSlot, if_neg hblock, bind_eq_ok, Except.ok.injEq,
    exists_eq_left', ensure_eq_ok, decide_eq_true_eq, UInt64.le_iff_toNat_le, UInt64.lt_iff_toNat_lt,
    UInt64.toNat_add, UInt64.toNat_mul, UInt64.toNat_div]
  rw [Nat.mod_eq_of_lt (a := timestamp.toNat / poa.blockTime.toNat * poa.blockTime.toNat) (by omega),
    Nat.mod_eq_of_lt (by omega)]
  exact ⟨hstart, hend⟩

/-! ## The clock and the height -/

theorem canProduceBlock_eq_true {poa : ProofOfAuthority} (hset : poa.validatorSet.WellFormed)
    (hblock : poa.blockTime ≠ 0) {t : Timestamp} {v : PublicKey} :
    canProduceBlock t poa v = .ok true ↔
      RoundRobin.turn (sortValidators poa.validatorSet.validators)
        (t / poa.blockTime).toNat = some v := by
  rw [← getValidatorAtTime_eq_ok hblock, canProduceBlock]
  cases hv : poa.validatorSet.isValidator v with
  | false =>
      -- the clock's validator is one of the set
      refine iff_of_false (by simp) ?_
      intro hturn
      have hmem := RoundRobin.mem_of_turn ((getValidatorAtTime_eq_ok hblock).mp hturn)
      rw [(hset.isValidator_iff v).mpr (mem_sortValidators.mp hmem)] at hv
      cases hv
  | true =>
      cases hat : poa.getValidatorAtTime t with
      | error e => simp [isValidatorTurn, hat, bind, Except.bind]
      | ok w => simp [isValidatorTurn, hat, bind, Except.bind, pure, Except.pure]

/-- With a well-formed set and a slot that does not wrap around, a block is approved
if its producer has the turn. -/
theorem validateBlock_iff_turn [Hex] {poa : ProofOfAuthority} (hset : poa.validatorSet.WellFormed)
    (hblock : poa.blockTime ≠ 0) {b : Block}
    (hlt : b.header.timestamp.toNat + poa.blockTime.toNat < 2 ^ 64) :
    poa.validateBlock b = .ok () ↔
      RoundRobin.turn (sortValidators poa.validatorSet.validators)
        b.header.height.toNat = some b.header.validator := by
  rw [validateBlock_eq_ok, ← getBlockProducer_eq_ok]
  constructor
  · exact Approves.turn
  · intro hturn
    refine ⟨?_, hturn, validateTimestamp_of_lt hblock hlt⟩
    have hmem := RoundRobin.mem_of_turn (getBlockProducer_eq_ok.mp hturn)
    exact (hset.isValidator_iff _).mpr (mem_sortValidators.mp hmem)

/-- **The two rules.**  Every validator that `can_produce_block` sends off at time
`t` has its block of height `k + 1` accepted exactly if there is no validator at all
or the round of the clock and the height give the same position. -/
theorem canProduceBlock_agrees_iff [Hex] {poa : ProofOfAuthority}
    (hset : poa.validatorSet.WellFormed) (hblock : 1 ≤ poa.blockTime) {t : Timestamp}
    (ht : t.toNat + poa.blockTime.toNat < 2 ^ 64) (k : BlockHeight) :
    (∀ v b, canProduceBlock t poa v = .ok true → b.header.height = k + 1 →
        b.header.timestamp = t → b.header.validator = v → poa.validateBlock b = .ok ()) ↔
      poa.validatorSet.validatorCount = 0 ∨
        (t / poa.blockTime).toNat % poa.validatorSet.validatorCount =
          (k + 1).toNat % poa.validatorSet.validatorCount := by
  have hne : poa.blockTime ≠ 0 := by
    intro h
    rw [h] at hblock
    exact absurd hblock (by decide)
  have hlen := length_sortValidators poa.validatorSet.validators
  constructor
  · intro hagree
    rcases eq_or_ne poa.validatorSet.validators [] with hnil | hcons
    · exact Or.inl (by rw [ValidatorSet.validatorCount, hnil]; rfl)
    · -- the validator of the clock must have the turn of the height
      have hsort : sortValidators poa.validatorSet.validators ≠ [] := by
        rwa [← List.length_pos_iff_ne_nil, hlen, List.length_pos_iff_ne_nil]
      obtain ⟨v, hmem, hv⟩ := RoundRobin.exists_turn hsort (t / poa.blockTime).toNat
      have hval := hagree v ⟨⟨k + 1, t, BlockHash.zero, BlockHash.zero, BlockHash.zero, v, 0⟩, [], []⟩
        ((canProduceBlock_eq_true hset hne).mpr hv) rfl rfl rfl
      rw [validateBlock_iff_turn hset hne ht] at hval
      have hnodup := nodup_sortValidators hset.nodup
      have hclock := (RoundRobin.turn_eq_some_iff hnodup hmem _).mp hv
      have hheight := (RoundRobin.turn_eq_some_iff hnodup hmem _).mp hval
      rw [hlen] at hclock hheight
      exact Or.inr (hclock.trans hheight.symm)
  · rintro hcount v b hcan hheight htime hval
    have hturn := (canProduceBlock_eq_true hset hne).mp hcan
    subst htime
    rw [validateBlock_iff_turn hset hne ht, hheight, hval]
    rcases hcount with hzero | hmod
    · have hnil : poa.validatorSet.validators = [] := List.length_eq_zero_iff.mp hzero
      rw [hnil] at hturn
      cases hturn
    · rw [← hturn, RoundRobin.turn, RoundRobin.turn, hlen]
      exact congrArg _ hmod.symm

/-- **The slot of a block.**  The timestamp of an accepted block is in a slot of its producer
if and only if, where the height is the producer's turn, the slot and the height give the
same position. -/
theorem slot_of_producer_iff [Hex] {poa : ProofOfAuthority} (hset : poa.validatorSet.WellFormed)
    (hblock : 1 ≤ poa.blockTime) (b : Block)
    (hlt : b.timestamp.toNat + poa.blockTime.toNat < 2 ^ 64) :
    (poa.validateBlock b = .ok () →
        poa.getValidatorAtTime b.timestamp = .ok b.header.validator) ↔
      poa.getBlockProducer b.header.height ≠ .ok b.header.validator ∨
        (b.timestamp / poa.blockTime).toNat % poa.validatorSet.validatorCount =
          b.header.height.toNat % poa.validatorSet.validatorCount := by
  have hne : poa.blockTime ≠ 0 := by
    intro h
    rw [h] at hblock
    exact absurd hblock (by decide)
  have hlen := length_sortValidators poa.validatorSet.validators
  rw [validateBlock_iff_turn hset hne hlt, getValidatorAtTime_eq_ok hne, Ne,
    getBlockProducer_eq_ok]
  constructor
  · intro hslot
    by_cases hheight : RoundRobin.turn (sortValidators poa.validatorSet.validators)
        b.header.height.toNat = some b.header.validator
    · -- both rounds are those of the producer
      have hmem := RoundRobin.mem_of_turn hheight
      have hnodup := nodup_sortValidators hset.nodup
      have hround := (RoundRobin.turn_eq_some_iff hnodup hmem _).mp (hslot hheight)
      have hturn := (RoundRobin.turn_eq_some_iff hnodup hmem _).mp hheight
      rw [hlen] at hround hturn
      exact Or.inr (hround.trans hturn.symm)
    · exact Or.inl hheight
  · rintro (hother | hmod) hheight
    · exact absurd hheight hother
    · rw [← hheight, RoundRobin.turn, RoundRobin.turn, hlen]
      exact congrArg _ hmod

end ProofOfAuthority

namespace Reference

/-- The keys of the crate's tests: they differ in their first byte. -/
def testKey (i : UInt8) : PublicKey := ⟨⟨i :: List.replicate 31 0, rfl⟩⟩

/-- Two validators, with the default block time. -/
def twoValidators : ProofOfAuthority :=
  ProofOfAuthority.withBlockTime (ValidatorSet.new 0 [testKey 0, testKey 1]) 5

theorem wellFormed_twoValidators : twoValidators.validatorSet.WellFormed :=
  ValidatorSet.wellFormed_new 0 (by decide)

/-- The block of height 1 of a validator, at time `t`. -/
def blockAt (t : Timestamp) (v : PublicKey) : Block :=
  Block.new primitives t 1 BlockHash.zero [] v

end Reference

namespace ProofOfAuthority
open Reference (twoValidators testKey blockAt)

/-- At 1005 the clock and the height 1 agree. -/
theorem canProduceBlock_agrees_iff_sample :
    canProduceBlock 1005 twoValidators (testKey 1) = .ok true ∧
      twoValidators.validateBlock (blockAt 1005 (testKey 1)) = .ok () := by
  have hcan : canProduceBlock 1005 twoValidators (testKey 1) = .ok true := by decide
  exact ⟨hcan, (canProduceBlock_agrees_iff Reference.wellFormed_twoValidators (by decide)
    (by decide) 0).mpr (Or.inr (by decide)) (testKey 1) _ hcan rfl rfl rfl⟩

/-- At 1005 the slot is that of the validator whose turn the height 1 is. -/
theorem slot_of_producer_iff_sample :
    twoValidators.validateBlock (blockAt 1005 (testKey 1)) = .ok () ∧
      twoValidators.getValidatorAtTime 1005 = .ok (testKey 1) := by
  have hvalid : twoValidators.validateBlock (blockAt 1005 (testKey 1)) = .ok () :=
    (validateBlock_iff_turn Reference.wellFormed_twoValidators (by decide) (by decide)).mpr
      (by decide)
  exact ⟨hvalid, (slot_of_producer_iff Reference.wellFormed_twoValidators (by decide)
    (blockAt 1005 (testKey 1)) (by decide)).mpr (Or.inr (by decide)) hvalid⟩

/-- At 1000 the slot is that of the other one, and the block is accepted as well. -/
theorem accepted_in_other_slot :
    twoValidators.validatorSet.WellFormed ∧ 1 ≤ twoValidators.blockTime ∧
    (blockAt 1000 (testKey 1)).timestamp.toNat + twoValidators.blockTime.toNat < 2 ^ 64 ∧
    twoValidators.validateBlock (blockAt 1000 (testKey 1)) = .ok () ∧
    twoValidators.getValidatorAtTime (blockAt 1000 (testKey 1)).timestamp = .ok (testKey 0) ∧
    (blockAt 1000 (testKey 1)).header.validator = testKey 1 ∧ testKey 0 ≠ testKey 1 := by
  refine ⟨Reference.wellFormed_twoValidators, by decide, by decide, ?_, by decide, rfl, by decide⟩
  exact (validateBlock_iff_turn Reference.wellFormed_twoValidators (by decide) (by decide)).mpr
    (by decide)

/-- At 1000 the first of the two is told to produce a block and has it refused. -/
theorem canProduceBlock_refused :
    twoValidators.validatorSet.validators.Nodup ∧ 1 ≤ twoValidators.blockTime ∧
    canProduceBlock 1000 twoValidators (testKey 0) = .ok true ∧
    (blockAt 1000 (testKey 0)).header.height = 0 + 1 ∧
    (blockAt 1000 (testKey 0)).header.timestamp = 1000 ∧
    (blockAt 1000 (testKey 0)).header.validator = testKey 0 ∧
    twoValidators.validateBlock (blockAt 1000 (testKey 0)) ≠ .ok () := by
  refine ⟨by decide, by decide, by decide, rfl, rfl, rfl, ?_⟩
  rw [Ne, validateBlock_eq_ok]
  intro happ
  exact absurd happ.turn (by decide)

end ProofOfAuthority

/-! ## Fairness -/

section
variable {P : Primitives}

/-- The producers of the blocks of a chain, the genesis block left out. -/
def Blockchain.producers (c : Blockchain) : List PublicKey :=
  c.blocks.tail.map fun b => b.header.validator

/-- How many blocks of a chain a validator has produced. -/
def Blockchain.producedBy (c : Blockchain) (v : PublicKey) : Nat := c.producers.count v

theorem producers_extend (c : Blockchain) (b : Block) :
    (c.extend b).producers = c.producers ++ [b.header.validator] := by
  simp [Blockchain.producers, Blockchain.extend, List.tail_append_of_ne_nil c.blocks_ne]

theorem length_producers (c : Blockchain) : c.producers.length = c.blocks.length - 1 := by
  simp [Blockchain.producers]

theorem isLog_approvedStep [Hex] (consensus : ProofOfAuthority) {c : Blockchain}
    (hshape : Blockchain.Shape P c)
    (hlog : RoundRobin.IsLog (sortValidators consensus.validatorSet.validators) 1 c.producers)
    (b : Block) :
    Blockchain.Shape P (approvedStep P consensus c b) ∧
      RoundRobin.IsLog (sortValidators consensus.validatorSet.validators) 1
        (approvedStep P consensus c b).producers := by
  by_cases happ : consensus.Approves b
  · rw [approvedStep_of_approves happ, Blockchain.addStep]
    by_cases hadm : Blockchain.Admits P c b
    · rw [Blockchain.next_addBlock_of_admits hadm, producers_extend, RoundRobin.isLog_concat]
      refine ⟨hshape.extend hadm, hlog, ?_⟩
      have hpos : 0 < c.blocks.length := List.length_pos_of_ne_nil c.blocks_ne
      have hround : 1 + c.producers.length = b.header.height.toNat := by
        rw [length_producers, hadm.follows.height, hshape.height_latestBlock,
          hshape.toNat_succ_height]
        omega
      rw [hround]
      exact ProofOfAuthority.getBlockProducer_eq_ok.mp happ.turn
    · rw [Blockchain.next_addBlock_of_not_admits hadm]
      exact ⟨hshape, hlog⟩
  · rw [approvedStep_of_not_approves happ]
    exact ⟨hshape, hlog⟩

theorem isLog_feed [Hex] {now : Timestamp} {g : GenesisBlock} {node node' : ValidatorNode}
    (hinit : (ValidatorNode.initializeNode P now g).exec node = (.ok (), node')) (bs : List Block)
    {components : NodeComponents} (hcomp : (node'.feed P bs).components = some components) :
    RoundRobin.IsLog (sortValidators g.validators) 1 components.blockchain.producers := by
  obtain ⟨-, c, hnew, -, rfl⟩ := ValidatorNode.initializeNode_eq_ok.mp hinit
  rw [ValidatorNode.feed_blockchain rfl rfl, Option.some.injEq] at hcomp
  subst hcomp
  refine (Runs.run_preserves (I := fun c => Blockchain.Shape P c ∧
    RoundRobin.IsLog (sortValidators g.validators) 1 c.producers) ?_ ⟨?_, ?_⟩ bs).2
  · rintro c b ⟨hshape, hlog⟩
    exact isLog_approvedStep (ProofOfAuthority.new (ValidatorSet.new now g.validators)) hshape
      hlog b
  · exact Blockchain.shape_of_new hnew
  · obtain ⟨genesis, -, rfl⟩ := Blockchain.new_eq_ok.mp hnew
    intro i hi
    exact absurd hi (Nat.not_lt_zero i)

theorem feed_singleton [Hex] {node : ValidatorNode} {components : NodeComponents}
    {consensus : ProofOfAuthority} (hcomp : node.components = some components)
    (hcons : node.consensus = some consensus) {b : Block} (happ : consensus.Approves b)
    (hadm : Blockchain.Admits P components.blockchain b) :
    (node.feed P [b]).components =
      some { components with blockchain := components.blockchain.extend b } := by
  rw [ValidatorNode.feed_blockchain hcomp hcons, Runs.run_cons, Runs.run_nil,
    approvedStep_of_approves happ, Blockchain.addStep, Blockchain.next_addBlock_of_admits hadm]

end

/-- **Round robin is fair.**  Take distinct validators.  Whatever order they are
listed in, a height has the same producer; among as many consecutive heights as
there are validators each of them has one; and in every chain that a validator node
set up with them has taken in, the numbers of blocks of any two of them differ by
at most one. -/
theorem getBlockProducer_fair [Hex] {validators : List PublicKey} (hne : validators ≠ [])
    (hnodup : validators.Nodup) :
    (∀ (poa poa' : ProofOfAuthority) (height : BlockHeight),
      poa.validatorSet.validators = validators →
      poa'.validatorSet.validators.Perm validators →
      ∃ v ∈ validators, poa.getBlockProducer height = .ok v ∧
        poa'.getBlockProducer height = .ok v) ∧
    (∀ (poa : ProofOfAuthority) (start : BlockHeight),
      poa.validatorSet.validators = validators →
      start.toNat + validators.length ≤ 2 ^ 64 →
      ∀ v ∈ validators, ∃! height : BlockHeight, start.toNat ≤ height.toNat ∧
        height.toNat < start.toNat + validators.length ∧ poa.getBlockProducer height = .ok v) ∧
    ∀ (P : Primitives) (now : Timestamp) (g : GenesisBlock) (node node' : ValidatorNode),
      g.validators = validators →
      (ValidatorNode.initializeNode P now g).exec node = (.ok (), node') →
      ∀ (bs : List Block) (components : NodeComponents),
        (node'.feed P bs).components = some components →
        ∀ v ∈ validators, ∀ w ∈ validators,
          components.blockchain.producedBy v ≤ components.blockchain.producedBy w + 1 := by
  have hsorted := nodup_sortValidators hnodup
  have hlen := length_sortValidators validators
  refine ⟨?_, ?_, ?_⟩
  · intro poa poa' height hpoa hpoa'
    obtain ⟨v, hmem, hv⟩ := ProofOfAuthority.exists_getBlockProducer poa (hpoa ▸ hne) height
    refine ⟨v, hpoa ▸ hmem, hv, ?_⟩
    rw [ProofOfAuthority.getBlockProducer_eq_ok] at hv ⊢
    rwa [sortValidators_congr (hpoa ▸ hpoa')]
  · intro poa start hpoa hroom v hv
    obtain ⟨i, ⟨hi, hturn⟩, hunique⟩ :=
      RoundRobin.existsUnique_turn hsorted (mem_sortValidators.mpr hv) start.toNat
    rw [hlen] at hi hunique
    have hheight : (UInt64.ofNat (start.toNat + i)).toNat = start.toNat + i := by
      rw [UInt64.toNat_ofNat']
      exact Nat.mod_eq_of_lt (by omega)
    refine ⟨UInt64.ofNat (start.toNat + i), ⟨?_, ?_, ?_⟩, ?_⟩
    · rw [hheight]
      omega
    · rw [hheight]
      omega
    · rw [ProofOfAuthority.getBlockProducer_eq_ok, hheight, hpoa]
      exact hturn
    · rintro height ⟨hge, hlt, hproducer⟩
      rw [ProofOfAuthority.getBlockProducer_eq_ok, hpoa] at hproducer
      have hat : height.toNat - start.toNat = i := by
        refine hunique _ ⟨by omega, ?_⟩
        rwa [Nat.add_sub_cancel' hge]
      refine UInt64.toNat_inj.mp ?_
      rw [hheight]
      omega
  · rintro P now g node node' rfl hinit bs components hcomp v hv w hw
    exact RoundRobin.count_le_count_add_one hsorted (isLog_feed hinit bs hcomp)
      (mem_sortValidators.mpr hv) (mem_sortValidators.mpr hw)

/-- The two validators of `Network.Two`, in either order, and the chain of the first
one once it has taken in the block of the second. -/
theorem getBlockProducer_fair_two :
    (∃ v ∈ Network.Two.genesis.validators,
      (ProofOfAuthority.new (ValidatorSet.new 0 Network.Two.genesis.validators)).getBlockProducer 7 =
        .ok v ∧
      (ProofOfAuthority.new (ValidatorSet.new 3
        Network.Two.genesis.validators.reverse)).getBlockProducer 7 = .ok v) ∧
    ∃ components,
      ((Network.Two.start.node false).feed Reference.primitives [Network.Two.block]).components =
        some components ∧
      components.blockchain.blocks = Network.Two.chain.blocks ++ [Network.Two.block] ∧
      components.blockchain.producedBy (Network.Two.keyPair true).publicKey ≤
        components.blockchain.producedBy (Network.Two.keyPair false).publicKey + 1 := by
  have hfair := getBlockProducer_fair
    (show Network.Two.genesis.validators ≠ [] from List.cons_ne_nil _ _) (by decide)
  obtain ⟨⟨now, hinit⟩, -⟩ := Network.Two.init_start false
  have hcomp := feed_singleton (P := Reference.primitives)
    (show (Network.Two.start.node false).components = some _ from rfl) rfl
    Network.Two.approves_block Network.Two.admits_block
  refine ⟨hfair.1 _ _ 7 rfl (List.reverse_perm _), _, hcomp, ?_, ?_⟩
  · simp only [Blockchain.extend]
  · exact hfair.2.2 _ _ _ _ _ rfl hinit [Network.Two.block] _ hcomp _
      (List.mem_cons_of_mem _ List.mem_cons_self) _ List.mem_cons_self

end VotingChain
