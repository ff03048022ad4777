/-
# `VotingChain.RangeProofs` — range proofs, and what verifying one checks

The model of `RangeProof`, `AggregatedRangeProof`, `RangeProofVerifier`, `BulletproofStyle`
and `TallyRangeProof` of `crypto/src/zkp/range_proof.rs`.

**What is proved in range.**  A range proof holds, for each bit of the value, a commitment,
a challenge and a response.  There are as many as the bound has bits, and the bits add up to
the value (`RangeProof.sum_toBits`).  What `verify` compares with its argument is the hash
of the bit commitments, one behind the other:

    H(H(b₀ ‖ r₀) ‖ H(b₁ ‖ r₁) ‖ ⋯)

so a proof verifies against that one string (`RangeProof.verify_eq_ok`).

**What a tally is committed to** is another string, the hash of the tally and of the
randomness.  A tally proof compares the one with the other, and so it verifies exactly if
these are hashes of one string (`TallyRangeProof.verify_generate_iff`).

**What an aggregate is checked for** are its members, each against the hash of its own
commitments.  The total is computed when the aggregate is made and is not looked at again
(`AggregatedRangeProof.verify_eq_ok`).

At the end is the comparison that these verifiers share with others (`comparison_exact`).
-/
import Mathlib.Algebra.BigOperators.Group.Finset.Basic
import VotingChain.BallotPrivacy
import VotingChain.Registration

namespace VotingChain

structure RangeProof where
  commitments : List Bytes
  challenges : List Bytes
  responses : List Bytes
  rangeMin : UInt64
  rangeMax : UInt64
  deriving DecidableEq

namespace RangeProof
variable (S : Suite)

/-- `u64::leading_zeros`. -/
def leadingZeros (n : UInt64) : Nat := n.toBitVec.clz.toNat

def bitsNeeded (maxValue : UInt64) : Nat :=
  if maxValue = 0 then 1 else 64 - leadingZeros maxValue

def toBits (value : UInt64) (numBits : Nat) : List UInt8 :=
  (List.range numBits).map fun i => ((value >>> UInt64.ofNat i) &&& 1).toUInt8

/-- The blinding factor of bit `i`. -/
def bitRandomness (randomness : Bytes) (i : Nat) : Bytes :=
  S.hashBlake2bMultiple [randomness, [UInt8.ofNat i]]

/-- The commitment to bit `i`. -/
def bitCommitment (randomness : Bytes) (bit : UInt8) (i : Nat) : Commitment :=
  Commitment.new S [bit] (bitRandomness S randomness i)

/-- The challenge for bit `i`. -/
def bitChallenge (value : UInt64) (randomness : Bytes) (bit : UInt8) (i : Nat) : Bytes :=
  S.hashBlake2bMultiple
    [(bitCommitment S randomness bit i).value, u64Bytes value, [UInt8.ofNat i]]

/-- The response for bit `i`. -/
def bitResponse (value : UInt64) (randomness : Bytes) (bit : UInt8) (i : Nat) : Bytes :=
  S.hashBlake2bMultiple [bitRandomness S randomness i, bitChallenge S value randomness bit i]

/-- One turn of the loop of `generate`: what a bit adds to each of the three lists. -/
def pushBit (value : UInt64) (randomness : Bytes) (proof : RangeProof) : UInt8 × Nat → RangeProof
  | (bit, i) =>
    { proof with
      commitments := proof.commitments ++ [(bitCommitment S randomness bit i).value]
      challenges := proof.challenges ++ [bitChallenge S value randomness bit i]
      responses := proof.responses ++ [bitResponse S value randomness bit i] }

/-- The refusal of a value outside the range. -/
def notInRange (value min max : UInt64) : VotingError :=
  .cryptoError ("Value " ++ toString value ++ " is not in range [" ++ toString min ++ ", " ++
    toString max ++ "]")

def generate (value min max : UInt64) (randomness : Bytes) : Result RangeProof :=
  if value < min ∨ max < value then fail (notInRange value min max)
  else
    let bits := bitsNeeded max
    let valueBits := toBits value bits
    .ok (valueBits.zipIdx.foldl (pushBit S value randomness)
      { commitments := [], challenges := [], responses := [], rangeMin := min, rangeMax := max })

def verify (proof : RangeProof) (commitment : Bytes) : Result Unit := do
  ensure (!proof.commitments.isEmpty) (.cryptoError "Invalid range proof: no commitments")
  ensure (decide (proof.commitments.length = proof.challenges.length ∧
      proof.commitments.length = proof.responses.length))
    (.cryptoError "Invalid range proof: mismatched lengths")
  let aggregateCommitment := S.hashBlake2bMultiple proof.commitments
  ensure (constantTimeEq aggregateCommitment commitment)
    (.cryptoError "Range proof verification failed")

/-! ## The bits of a value -/

theorem bitsNeeded_le (max : UInt64) : bitsNeeded max ≤ 64 := by
  rw [bitsNeeded]
  split
  · exact Nat.le_of_ble_eq_true rfl
  · exact Nat.sub_le _ _

theorem one_le_bitsNeeded (max : UInt64) : 1 ≤ bitsNeeded max := by
  rw [bitsNeeded]
  split
  · exact Nat.le_refl 1
  · next hmax =>
      have hne : max.toBitVec ≠ 0#64 := fun h => hmax (UInt64.toBitVec_inj.mp h)
      have hlt : leadingZeros max < 64 :=
        BitVec.lt_def.mp (BitVec.clz_lt_iff_ne_zero.mpr hne)
      omega

theorem lt_two_pow_bitsNeeded (max : UInt64) : max.toNat < 2 ^ bitsNeeded max := by
  rw [bitsNeeded]
  split
  · next hmax =>
      rw [hmax]
      exact Nat.two_pow_pos 1
  · exact BitVec.toNat_lt_two_pow_sub_clz

theorem bitsNeeded_le_of_lt {max : UInt64} {b : Nat} (hb : 1 ≤ b) (h : max.toNat < 2 ^ b) :
    bitsNeeded max ≤ b := by
  rw [bitsNeeded]
  split
  · exact hb
  · next hmax =>
      have hne : max.toBitVec ≠ 0#64 := fun h => hmax (UInt64.toBitVec_inj.mp h)
      have hle : 2 ^ (63 - leadingZeros max) ≤ max.toNat :=
        BitVec.two_pow_sub_clz_le_toNat_of_ne_zero (by decide) hne
      have hlt := (Nat.pow_lt_pow_iff_right Nat.one_lt_two).mp (Nat.lt_of_le_of_lt hle h)
      omega

theorem length_toBits (value : UInt64) (numBits : Nat) :
    (toBits value numBits).length = numBits := by
  rw [toBits, List.length_map, List.length_range]

theorem toNat_bit (value : UInt64) {i : Nat} (hi : i < 64) :
    ((value >>> UInt64.ofNat i) &&& 1).toUInt8.toNat = value.toNat / 2 ^ i % 2 := by
  have hshift : (UInt64.ofNat i).toNat % 64 = i := by
    rw [UInt64.toNat_ofNat_of_lt' (Nat.lt_trans hi (by decide)), Nat.mod_eq_of_lt hi]
  have hbit := Nat.mod_lt (value.toNat / 2 ^ i) (Nat.zero_lt_two)
  rw [UInt64.toNat_toUInt8, UInt64.toNat_and, UInt64.toNat_shiftRight, hshift,
    Nat.shiftRight_eq_div_pow, UInt64.toNat_one, Nat.and_one_is_mod, Nat.mod_eq_of_lt (by omega)]

theorem getD_toBits (value : UInt64) {numBits i : Nat} (hi : i < numBits) (hbits : numBits ≤ 64) :
    ((toBits value numBits).getD i 0).toNat = value.toNat / 2 ^ i % 2 := by
  rw [toBits, List.getD_eq_getElem?_getD, List.getElem?_map, List.getElem?_range hi]
  exact toNat_bit value (Nat.lt_of_lt_of_le hi hbits)

theorem bit_of_mem_toBits {value : UInt64} {numBits : Nat} (hbits : numBits ≤ 64) {bit : UInt8}
    (h : bit ∈ toBits value numBits) : bit = 0 ∨ bit = 1 := by
  obtain ⟨i, hi, rfl⟩ := List.mem_map.mp h
  have hbit := toNat_bit value (Nat.lt_of_lt_of_le (List.mem_range.mp hi) hbits)
  rcases Nat.mod_two_eq_zero_or_one (value.toNat / 2 ^ i) with hmod | hmod
  · exact Or.inl (UInt8.toNat_inj.mp (hbit.trans hmod))
  · exact Or.inr (UInt8.toNat_inj.mp (hbit.trans hmod))

theorem sum_div_mod_two (n k : Nat) :
    ∑ i ∈ Finset.range k, n / 2 ^ i % 2 * 2 ^ i = n % 2 ^ k := by
  induction k with
  | zero => simp [Nat.mod_one]
  | succ k ih =>
      rw [Finset.sum_range_succ, ih, Nat.pow_succ, Nat.mod_mul, Nat.mul_comm (n / 2 ^ k % 2)]

theorem sum_toBits {value : UInt64} {numBits : Nat} (hbits : numBits ≤ 64)
    (hvalue : value.toNat < 2 ^ numBits) :
    ∑ i ∈ Finset.range numBits, ((toBits value numBits).getD i 0).toNat * 2 ^ i =
      value.toNat := by
  refine Eq.trans ?_ ((sum_div_mod_two value.toNat numBits).trans (Nat.mod_eq_of_lt hvalue))
  refine Finset.sum_congr rfl fun i hi => ?_
  rw [getD_toBits value (Finset.mem_range.mp hi) hbits]

/-! ## What is generated -/

variable {S}

theorem foldl_pushBit (value : UInt64) (randomness : Bytes) (turns : List (UInt8 × Nat))
    (proof : RangeProof) :
    turns.foldl (pushBit S value randomness) proof =
      { proof with
        commitments := proof.commitments ++
          turns.map fun turn => (bitCommitment S randomness turn.1 turn.2).value
        challenges := proof.challenges ++
          turns.map fun turn => bitChallenge S value randomness turn.1 turn.2
        responses := proof.responses ++
          turns.map fun turn => bitResponse S value randomness turn.1 turn.2 } := by
  induction turns generalizing proof with
  | nil => simp
  | cons turn turns ih => simp [ih, pushBit]

variable (S) in
/-- The commitments to the bits of a value. -/
def bitCommitments (value max : UInt64) (randomness : Bytes) : List Bytes :=
  (toBits value (bitsNeeded max)).zipIdx.map fun turn =>
    (bitCommitment S randomness turn.1 turn.2).value

theorem length_bitCommitments (value max : UInt64) (randomness : Bytes) :
    (bitCommitments S value max randomness).length = bitsNeeded max := by
  simp [bitCommitments, length_toBits]

theorem generate_of_mem {value min max : UInt64} (randomness : Bytes) (hmin : min ≤ value)
    (hmax : value ≤ max) :
    ∃ proof, generate S value min max randomness = .ok proof ∧
      proof.commitments = bitCommitments S value max randomness ∧
      proof.challenges.length = bitsNeeded max ∧ proof.responses.length = bitsNeeded max ∧
      proof.rangeMin = min ∧ proof.rangeMax = max := by
  have hrange : ¬(value < min ∨ max < value) :=
    not_or.mpr ⟨UInt64.not_lt.mpr hmin, UInt64.not_lt.mpr hmax⟩
  refine ⟨_, (if_neg hrange).trans (congrArg Except.ok (foldl_pushBit ..)), rfl, ?_, ?_, rfl, rfl⟩
  · simp [length_toBits]
  · simp [length_toBits]

theorem generate_of_not_mem {value min max : UInt64} (randomness : Bytes)
    (h : ¬(min ≤ value ∧ value ≤ max)) :
    generate S value min max randomness = fail (notInRange value min max) := by
  have hrange : value < min ∨ max < value := by
    rcases not_and_or.mp h with h | h
    · exact Or.inl (UInt64.not_le.mp h)
    · exact Or.inr (UInt64.not_le.mp h)
  rw [generate, if_pos hrange]

theorem generate_eq_ok {value min max : UInt64} {randomness : Bytes} {proof : RangeProof}
    (h : generate S value min max randomness = .ok proof) :
    (min ≤ value ∧ value ≤ max) ∧ proof.commitments = bitCommitments S value max randomness ∧
      proof.challenges.length = bitsNeeded max ∧ proof.responses.length = bitsNeeded max ∧
      proof.rangeMin = min ∧ proof.rangeMax = max := by
  by_cases hrange : min ≤ value ∧ value ≤ max
  · obtain ⟨made, hmade, hparts⟩ :=
      generate_of_mem (S := S) randomness hrange.1 hrange.2
    cases hmade.symm.trans h
    exact ⟨hrange, hparts⟩
  · rw [generate_of_not_mem randomness hrange] at h
    cases h

/-! ## What is verified -/

/-- There is a commitment, and each has its challenge and its response. -/
def WellFormed (proof : RangeProof) : Prop :=
  proof.commitments ≠ [] ∧ proof.commitments.length = proof.challenges.length ∧
    proof.commitments.length = proof.responses.length

instance (proof : RangeProof) : Decidable proof.WellFormed :=
  inferInstanceAs (Decidable (_ ∧ _ ∧ _))

theorem verify_eq_ok {proof : RangeProof} {commitment : Bytes} :
    proof.verify S commitment = .ok () ↔
      proof.WellFormed ∧ S.hashBlake2bMultiple proof.commitments = commitment := by
  simp only [verify, WellFormed, bind_eq_ok, ensure_eq_ok, constantTimeEq_iff, decide_eq_true_eq,
    Bool.not_eq_true', List.isEmpty_eq_false_iff]
  constructor
  · rintro ⟨_, hne, _, hlen, heq⟩
    exact ⟨⟨hne, hlen⟩, heq⟩
  · rintro ⟨⟨hne, hlen⟩, heq⟩
    exact ⟨(), hne, (), hlen, heq⟩

theorem wellFormed_of_generate {value min max : UInt64} {randomness : Bytes} {proof : RangeProof}
    (h : generate S value min max randomness = .ok proof) : proof.WellFormed := by
  obtain ⟨-, hcommitments, hchallenges, hresponses, -⟩ := generate_eq_ok h
  have hlen : proof.commitments.length = bitsNeeded max := by
    rw [hcommitments, length_bitCommitments]
  refine ⟨?_, hlen.trans hchallenges.symm, hlen.trans hresponses.symm⟩
  intro hnil
  have hone := one_le_bitsNeeded max
  rw [← hlen, hnil] at hone
  exact absurd hone (by decide)

/-- **A proof, bit by bit.**  Exactly the values in range have a proof.  It has three entries
for each bit of the bound; the bound has no more bits than it needs, and those of the value add
up to it; and it verifies against the hash of its commitments only. -/
theorem generate_iff (value min max : UInt64) (randomness : Bytes) :
    ((∃ proof, generate S value min max randomness = .ok proof) ↔ min ≤ value ∧ value ≤ max) ∧
    ∀ proof, generate S value min max randomness = .ok proof →
      (proof.commitments.length = bitsNeeded max ∧ proof.challenges.length = bitsNeeded max ∧
        proof.responses.length = bitsNeeded max) ∧
      (∀ bit ∈ toBits value (bitsNeeded max), bit = 0 ∨ bit = 1) ∧
      ∑ i ∈ Finset.range (bitsNeeded max),
        ((toBits value (bitsNeeded max)).getD i 0).toNat * 2 ^ i = value.toNat ∧
      IsLeast {b : Nat | 1 ≤ b ∧ max.toNat < 2 ^ b} (bitsNeeded max) ∧
      ∀ commitment, proof.verify S commitment = .ok () ↔
        commitment = S.hashBlake2bMultiple proof.commitments := by
  constructor
  · constructor
    · rintro ⟨proof, h⟩
      exact (generate_eq_ok h).1
    · rintro ⟨hmin, hmax⟩
      obtain ⟨proof, h, -⟩ := generate_of_mem (S := S) randomness hmin hmax
      exact ⟨proof, h⟩
  · intro proof h
    obtain ⟨⟨-, hmax⟩, hcommitments, hchallenges, hresponses, -⟩ := generate_eq_ok h
    have hvalue : value.toNat < 2 ^ bitsNeeded max :=
      Nat.lt_of_le_of_lt (UInt64.le_iff_toNat_le.mp hmax) (lt_two_pow_bitsNeeded max)
    refine ⟨⟨?_, hchallenges, hresponses⟩, ?_, sum_toBits (bitsNeeded_le max) hvalue, ?_, ?_⟩
    · rw [hcommitments, length_bitCommitments]
    · intro bit hbit
      exact bit_of_mem_toBits (bitsNeeded_le max) hbit
    · refine ⟨⟨one_le_bitsNeeded max, lt_two_pow_bitsNeeded max⟩, ?_⟩
      rintro b ⟨hone, hlt⟩
      exact bitsNeeded_le_of_lt hone hlt
    · intro commitment
      rw [verify_eq_ok, and_iff_right (wellFormed_of_generate h), eq_comm]

/-- The proof of a value of six bits, of which it takes three. -/
theorem generate_iff_five :
    ∃ proof, generate Reference.votingSuite.toSuite 5 0 63 [1] = .ok proof ∧
      proof.commitments.length = bitsNeeded 63 ∧
      proof.verify Reference.votingSuite.toSuite
        (Reference.votingSuite.hashBlake2bMultiple proof.commitments) = .ok () := by
  have hspec := generate_iff (S := Reference.votingSuite.toSuite) 5 0 63 [1]
  obtain ⟨proof, h⟩ := hspec.1.mpr (by decide)
  obtain ⟨⟨hlen, -⟩, -, -, -, hverify⟩ := hspec.2 proof h
  exact ⟨proof, h, hlen, (hverify _).mpr rfl⟩

end RangeProof

/-! ## Proofs for a known range -/

structure RangeProofVerifier where
  minValue : UInt64
  maxValue : UInt64
  deriving DecidableEq

namespace RangeProofVerifier
variable (S : Suite)

def new (minValue maxValue : UInt64) : Result RangeProofVerifier :=
  if maxValue < minValue then fail (.cryptoError "Invalid range: min > max")
  else .ok { minValue, maxValue }

def verifyProof (verifier : RangeProofVerifier) (proof : RangeProof) (commitment : Bytes) :
    Result Unit := do
  ensure (!decide (proof.rangeMin ≠ verifier.minValue ∨ proof.rangeMax ≠ verifier.maxValue))
    (.cryptoError "Range mismatch in proof")
  proof.verify S commitment

/-- `is_ok()`. -/
def isOk {α : Type} : Result α → Bool
  | .ok _ => true
  | .error _ => false

def batchVerify (verifier : RangeProofVerifier) (proofs : List (RangeProof × Bytes)) :
    Result (List Bool) :=
  .ok (proofs.map fun entry => isOk (verifier.verifyProof S entry.1 entry.2))

variable {S}

theorem verifyProof_eq_ok {verifier : RangeProofVerifier} {proof : RangeProof}
    {commitment : Bytes} :
    verifier.verifyProof S proof commitment = .ok () ↔
      (proof.rangeMin = verifier.minValue ∧ proof.rangeMax = verifier.maxValue) ∧
        proof.WellFormed ∧ S.hashBlake2bMultiple proof.commitments = commitment := by
  simp only [verifyProof, bind_eq_ok, ensure_eq_ok, Bool.not_eq_true', decide_eq_false_iff_not,
    not_or, not_not, RangeProof.verify_eq_ok]
  constructor
  · rintro ⟨_, hrange, hverify⟩
    exact ⟨hrange, hverify⟩
  · rintro ⟨hrange, hverify⟩
    exact ⟨(), hrange, hverify⟩

/-- The verifier of a range accepts the proofs generated for it, and those of no other range,
against the hash of the commitments. -/
theorem verifyProof_generate {verifier : RangeProofVerifier} {value min max : UInt64}
    {randomness : Bytes} {proof : RangeProof}
    (h : RangeProof.generate S value min max randomness = .ok proof) :
    verifier.verifyProof S proof (S.hashBlake2bMultiple proof.commitments) = .ok () ↔
      verifier = { minValue := min, maxValue := max } := by
  obtain ⟨-, -, -, -, hmin, hmax⟩ := RangeProof.generate_eq_ok h
  rw [verifyProof_eq_ok, hmin, hmax, RangeProofVerifier.mk.injEq,
    and_iff_left ⟨RangeProof.wellFormed_of_generate h, rfl⟩, eq_comm, eq_comm (a := max)]

end RangeProofVerifier

/-! ## Aggregates -/

structure AggregatedRangeProof where
  proofs : List RangeProof
  totalCommitment : Bytes
  deriving DecidableEq

namespace AggregatedRangeProof
variable (S : Suite)

/-- The commitments of all members, in order. -/
def allCommitments (proofs : List RangeProof) : List Bytes := proofs.flatMap (·.commitments)

def new (proofs : List RangeProof) : Result AggregatedRangeProof :=
  if proofs.isEmpty then
    fail (.cryptoError "Cannot create aggregated proof from empty list")
  else
    .ok { proofs, totalCommitment := S.hashBlake2bMultiple (allCommitments proofs) }

def verify (aggregated : AggregatedRangeProof) : Result Unit :=
  forEach (fun proof => proof.verify S (S.hashBlake2bMultiple proof.commitments))
    aggregated.proofs

/-- An aggregate that is bound to its total: it has a member, each of its members has equally
many entries, and the total is the hash of all commitments. -/
def Bound (aggregated : AggregatedRangeProof) : Prop :=
  aggregated.proofs ≠ [] ∧
    (∀ proof ∈ aggregated.proofs, proof.commitments.length = proof.challenges.length ∧
      proof.commitments.length = proof.responses.length) ∧
    aggregated.totalCommitment = S.hashBlake2bMultiple (allCommitments aggregated.proofs)

variable {S}

theorem verify_eq_ok {aggregated : AggregatedRangeProof} :
    aggregated.verify S = .ok () ↔ ∀ proof ∈ aggregated.proofs, proof.WellFormed := by
  rw [verify, forEach_eq_ok]
  refine forall₂_congr fun proof _ => ?_
  rw [RangeProof.verify_eq_ok, and_iff_left rfl]

theorem new_eq_ok {proofs : List RangeProof} {aggregated : AggregatedRangeProof} :
    new S proofs = .ok aggregated ↔ proofs ≠ [] ∧
      aggregated = { proofs, totalCommitment := S.hashBlake2bMultiple (allCommitments proofs) } := by
  rw [new, ← List.isEmpty_eq_false_iff]
  cases proofs.isEmpty with
  | true => simp [fail]
  | false => simp [eq_comm]

/-- **What verifying an aggregate detects.**  An aggregate that verifies is bound to its total,
and no other list of members verifies in its place, exactly if the aggregate has a member with
entries missing, or it is what `new` makes of its members and the other list has one. -/
theorem bound_iff (aggregated : AggregatedRangeProof) (proofs : List RangeProof) :
    (aggregated.verify S = .ok () → aggregated.Bound S ∧
      (proofs ≠ aggregated.proofs →
        verify S { aggregated with proofs := proofs } ≠ .ok ())) ↔
    (∃ proof ∈ aggregated.proofs, ¬proof.WellFormed) ∨
      new S aggregated.proofs = .ok aggregated ∧
      (proofs = aggregated.proofs ∨ ∃ proof ∈ proofs, ¬proof.WellFormed) := by
  simp only [ne_eq, verify_eq_ok]
  by_cases hwf : ∀ proof ∈ aggregated.proofs, proof.WellFormed
  · have hmembers : ¬∃ proof ∈ aggregated.proofs, ¬proof.WellFormed := by
      rintro ⟨proof, hproof, hnot⟩
      exact hnot (hwf proof hproof)
    rw [or_iff_right hmembers, forall_prop_of_true hwf]
    refine and_congr ?_ ?_
    · obtain ⟨members, total⟩ := aggregated
      rw [new_eq_ok, Bound, AggregatedRangeProof.mk.injEq, eq_self_iff_true, true_and]
      exact and_congr_right' (and_iff_right fun proof hproof => (hwf proof hproof).2)
    · rw [or_iff_not_imp_left]
      push Not
      exact Iff.rfl
  · push Not at hwf
    refine iff_of_true (fun h => ?_) (Or.inl hwf)
    obtain ⟨proof, hproof, hnot⟩ := hwf
    exact absurd (h proof hproof) hnot

/-- An aggregate of the proof that a value is `1`, and what verifies under its total: no proof
at all, and the proof that the value is `0`. -/
theorem total_ignored :
    ∃ proof other aggregated,
      RangeProof.generate Reference.votingSuite.toSuite 1 0 1 [7] = .ok proof ∧
      RangeProof.generate Reference.votingSuite.toSuite 0 0 1 [7] = .ok other ∧
      new Reference.votingSuite.toSuite [proof] = .ok aggregated ∧
      verify Reference.votingSuite.toSuite { aggregated with proofs := [] } = .ok () ∧
      ¬Bound Reference.votingSuite.toSuite { aggregated with proofs := [] } ∧
      verify Reference.votingSuite.toSuite { aggregated with proofs := [other] } = .ok () ∧
      ¬Bound Reference.votingSuite.toSuite { aggregated with proofs := [other] } := by
  obtain ⟨proof, h, hcommitments, -⟩ :=
    RangeProof.generate_of_mem (S := Reference.votingSuite.toSuite) [7]
      (show (0 : UInt64) ≤ 1 by decide) (show (1 : UInt64) ≤ 1 by decide)
  obtain ⟨other, h', hcommitments', -⟩ :=
    RangeProof.generate_of_mem (S := Reference.votingSuite.toSuite) [7]
      (show (0 : UInt64) ≤ 0 by decide) (show (0 : UInt64) ≤ 1 by decide)
  have hne : Reference.votingSuite.hashBlake2bMultiple
        (RangeProof.bitCommitments Reference.votingSuite.toSuite 1 1 [7]) ≠
      Reference.votingSuite.hashBlake2bMultiple
        (RangeProof.bitCommitments Reference.votingSuite.toSuite 0 1 [7]) := by
    decide +kernel
  refine ⟨proof, other, _, h, h', rfl, rfl, fun hbound => hbound.1 rfl, ?_, ?_⟩
  · refine verify_eq_ok.mpr ?_
    intro member hmember
    rw [List.mem_singleton.mp hmember]
    exact RangeProof.wellFormed_of_generate h'
  · rintro ⟨-, -, htotal⟩
    rw [allCommitments, allCommitments, List.flatMap_singleton, List.flatMap_singleton,
      hcommitments, hcommitments'] at htotal
    exact hne htotal

end AggregatedRangeProof

/-! ## The simplified bulletproof -/

structure BulletproofStyle where
  commitment : Bytes
  proofA : Bytes
  proofS : Bytes
  tauX : Bytes
  mu : Bytes
  tHat : Bytes
  innerProductProof : Bytes
  deriving DecidableEq

namespace BulletproofStyle
variable (S : Suite)

/-- The last component, from the five before it. -/
def inner (proofA proofS tauX mu tHat : Bytes) : Bytes :=
  S.hashBlake2bMultiple [proofA, proofS, tauX, mu, tHat]

def generateSimplified (value min max : UInt64) (randomness : Bytes) : Result BulletproofStyle :=
  if value < min ∨ max < value then fail (.cryptoError "Value out of range")
  else
    let commitment := Commitment.new S (u64Bytes value) randomness
    let proofA := (S.blake2b256 (u64Bytes value)).toList
    let proofS := (S.blake2b256 randomness).toList
    let tauX := S.hashBlake2bMultiple [proofA, proofS]
    let mu := S.hashBlake2bMultiple [tauX, u64Bytes value]
    let tHat := S.hashBlake2bMultiple [mu, randomness]
    .ok
      { commitment := commitment.value
        proofA
        proofS
        tauX
        mu
        tHat
        innerProductProof := inner S proofA proofS tauX mu tHat }

def verifySimplified (proof : BulletproofStyle) : Result Unit := do
  ensure (!(proof.commitment.isEmpty || proof.proofA.isEmpty || proof.proofS.isEmpty ||
      proof.tauX.isEmpty || proof.mu.isEmpty || proof.tHat.isEmpty ||
      proof.innerProductProof.isEmpty))
    (.cryptoError "Invalid bulletproof: missing components")
  let recomputedInner := inner S proof.proofA proof.proofS proof.tauX proof.mu proof.tHat
  ensure (constantTimeEq recomputedInner proof.innerProductProof)
    (.cryptoError "Bulletproof verification failed")

/-- No component is missing. -/
def Complete (proof : BulletproofStyle) : Prop :=
  ∀ component ∈ [proof.commitment, proof.proofA, proof.proofS, proof.tauX, proof.mu, proof.tHat,
    proof.innerProductProof], component ≠ []

instance (proof : BulletproofStyle) : Decidable proof.Complete :=
  inferInstanceAs (Decidable (∀ component ∈ _, _))

variable {S}

/-- What is looked at is how the last component comes from the five before it; the range is not,
and nor is the commitment. -/
theorem verifySimplified_eq_ok {proof : BulletproofStyle} :
    proof.verifySimplified S = .ok () ↔ proof.Complete ∧
      inner S proof.proofA proof.proofS proof.tauX proof.mu proof.tHat =
        proof.innerProductProof := by
  simp only [verifySimplified, bind_eq_ok, ensure_eq_ok, constantTimeEq_iff, Bool.not_eq_true',
    Bool.or_eq_false_iff, List.isEmpty_eq_false_iff]
  constructor
  · rintro ⟨-, ⟨⟨⟨⟨⟨⟨hcommitment, ha⟩, hs⟩, htau⟩, hmu⟩, ht⟩, hinner⟩, heq⟩
    refine ⟨?_, heq⟩
    simp [Complete, hcommitment, ha, hs, htau, hmu, ht, hinner]
  · rintro ⟨hcomplete, heq⟩
    simp only [Complete, List.forall_mem_cons, List.not_mem_nil, false_implies, implies_true,
      and_true] at hcomplete
    obtain ⟨hcommitment, ha, hs, htau, hmu, ht, hinner⟩ := hcomplete
    exact ⟨(), ⟨⟨⟨⟨⟨⟨hcommitment, ha⟩, hs⟩, htau⟩, hmu⟩, ht⟩, hinner⟩, heq⟩

theorem hash_ne_nil (hash : Hash) : hash.toList ≠ [] := by
  intro h
  have hlen : hash.toList.length = 32 := List.Vector.toList_length hash
  rw [h] at hlen
  exact absurd hlen (by decide)

/-- **What is generated verifies**, and there is a proof exactly for the values in range. -/
theorem verifySimplified_generateSimplified (value min max : UInt64) (randomness : Bytes) :
    ((∃ proof, generateSimplified S value min max randomness = .ok proof) ↔
      min ≤ value ∧ value ≤ max) ∧
    ∀ proof, generateSimplified S value min max randomness = .ok proof →
      proof.verifySimplified S = .ok () := by
  rw [generateSimplified]
  split
  · next hrange =>
      refine ⟨iff_of_false ?_ ?_, ?_⟩
      · rintro ⟨proof, h⟩
        cases h
      · rintro ⟨hmin, hmax⟩
        rcases hrange with h | h
        · exact absurd h (UInt64.not_lt.mpr hmin)
        · exact absurd h (UInt64.not_lt.mpr hmax)
      · intro proof h
        cases h
  · next hrange =>
      rw [not_or, UInt64.not_lt, UInt64.not_lt] at hrange
      refine ⟨iff_of_true ⟨_, rfl⟩ hrange, ?_⟩
      intro proof h
      cases h
      refine verifySimplified_eq_ok.mpr ⟨?_, rfl⟩
      -- every component is a hash
      simp [Complete, Commitment.new, inner, Suite.hashBlake2bMultiple, hash_ne_nil]

end BulletproofStyle

/-! ## Tallies -/

structure TallyRangeProof where
  tallyCommitment : Bytes
  rangeProof : RangeProof
  maxVoters : UInt64
  deriving DecidableEq

namespace TallyRangeProof
variable (S : Suite)

def generate (tally maxVoters : UInt64) (randomness : Bytes) : Result TallyRangeProof := do
  let commitment := Commitment.new S (u64Bytes tally) randomness
  let rangeProof ← RangeProof.generate S tally 0 maxVoters randomness
  return { tallyCommitment := commitment.value, rangeProof, maxVoters }

def verify (proof : TallyRangeProof) : Result Unit := do
  ensure (!decide (proof.rangeProof.rangeMax ≠ proof.maxVoters))
    (.cryptoError "Max voters mismatch")
  proof.rangeProof.verify S proof.tallyCommitment

/-- The string hashed for the proof of a tally: for each bit, the hash of the bit and of its
own randomness. -/
def bitString (tally maxVoters : UInt64) (randomness : Bytes) : Bytes :=
  (RangeProof.bitCommitments S tally maxVoters randomness).flatten

variable {S}

theorem generate_of_le {tally maxVoters : UInt64} (randomness : Bytes) (h : tally ≤ maxVoters) :
    ∃ rangeProof : RangeProof,
      generate S tally maxVoters randomness = .ok
        { tallyCommitment := S.hashBlake2bMultiple [u64Bytes tally, randomness]
          rangeProof, maxVoters } ∧
      rangeProof.WellFormed ∧ rangeProof.rangeMax = maxVoters ∧
      rangeProof.commitments = RangeProof.bitCommitments S tally maxVoters randomness := by
  obtain ⟨rangeProof, hproof, hcommitments, -, -, -, hmax⟩ :=
    RangeProof.generate_of_mem (S := S) randomness (UInt64.zero_le) h
  refine ⟨rangeProof, ?_, RangeProof.wellFormed_of_generate hproof, hmax, hcommitments⟩
  rw [generate, hproof]
  rfl

/-- The hash of the bits is compared with that of the tally. -/
theorem verify_generate {tally maxVoters : UInt64} (randomness : Bytes)
    (h : tally ≤ maxVoters) :
    (∃ proof, generate S tally maxVoters randomness = .ok proof ∧ proof.verify S = .ok ()) ↔
      S.hashBlake2bMultiple (RangeProof.bitCommitments S tally maxVoters randomness) =
        S.hashBlake2bMultiple [u64Bytes tally, randomness] := by
  obtain ⟨rangeProof, hproof, hwf, hmax, hcommitments⟩ :=
    generate_of_le (S := S) randomness h
  have hverify : verify S
        { tallyCommitment := S.hashBlake2bMultiple [u64Bytes tally, randomness]
          rangeProof, maxVoters } = .ok () ↔
      S.hashBlake2bMultiple (RangeProof.bitCommitments S tally maxVoters randomness) =
        S.hashBlake2bMultiple [u64Bytes tally, randomness] := by
    rw [← hcommitments, verify, hmax]
    simp [RangeProof.verify_eq_ok, hwf]
  constructor
  · rintro ⟨proof, hgenerate, hok⟩
    cases hproof.symm.trans hgenerate
    exact hverify.mp hok
  · intro hhash
    exact ⟨_, hproof, hverify.mpr hhash⟩

/-- **Which tally proofs verify.**  The proof of a tally verifies exactly if the tally and the
randomness are together the string of the hashes of the bits. -/
theorem verify_generate_iff {tally maxVoters : UInt64} {randomness : Bytes}
    (hinj : Set.InjOn S.blake2b256
      {bitString S tally maxVoters randomness, u64Bytes tally ++ randomness})
    (htally : tally ≤ maxVoters) :
    (∃ proof, generate S tally maxVoters randomness = .ok proof ∧ proof.verify S = .ok ()) ↔
      u64Bytes tally ++ randomness = bitString S tally maxVoters randomness := by
  rw [verify_generate randomness htally]
  rw [← Commitment.flatten_pair] at hinj ⊢
  constructor
  · intro hhash
    exact (Suite.flatten_eq_of_hash_eq hinj hhash).symm
  · intro hstring
    exact Suite.hashBlake2bMultiple_congr hstring.symm

theorem length_bitString (tally maxVoters : UInt64) (randomness : Bytes) :
    (bitString S tally maxVoters randomness).length =
      32 * RangeProof.bitsNeeded maxVoters := by
  have hbits : ∀ x ∈ RangeProof.bitCommitments S tally maxVoters randomness, x.length = 32 := by
    intro x hx
    obtain ⟨turn, -, rfl⟩ := List.mem_map.mp hx
    exact Suite.length_hashBlake2bMultiple _
  rw [bitString, List.length_flatten, List.map_congr_left hbits, List.map_const',
    List.sum_replicate_nat, RangeProof.length_bitCommitments, Nat.mul_comm]

/-- With randomness of a length other than these, in particular with the 32 bytes that are
drawn, the two strings are not one. -/
theorem append_ne_bitString {tally maxVoters : UInt64} {randomness : Bytes}
    (hlen : randomness.length % 32 ≠ 24) :
    u64Bytes tally ++ randomness ≠ bitString S tally maxVoters randomness := by
  intro heq
  have hstring := congrArg List.length heq
  rw [List.length_append, length_bitString, u64Bytes, Codec.length_leBytes] at hstring
  omega

theorem injOn_one_vote :
    Set.InjOn Reference.votingSuite.blake2b256
      {bitString Reference.votingSuite.toSuite 1 1 (List.replicate 32 7),
        u64Bytes 1 ++ List.replicate 32 7} := by
  have hnodup : (([bitString Reference.votingSuite.toSuite 1 1 (List.replicate 32 7),
      u64Bytes 1 ++ List.replicate 32 7] : List Bytes).map
        Reference.votingSuite.blake2b256).Nodup := by
    decide +kernel
  refine injOn_of_nodup_map hnodup fun x hx => ?_
  simpa using hx

theorem verify_generate_iff_one :
    ¬∃ proof, generate Reference.votingSuite.toSuite 1 1 (List.replicate 32 7) = .ok proof ∧
      proof.verify Reference.votingSuite.toSuite = .ok () := by
  rw [verify_generate_iff injOn_one_vote (UInt64.le_refl 1)]
  exact append_ne_bitString (by decide)

/-- One vote of one voter: the proof is made and does not verify. -/
theorem tally_not_verified :
    Set.InjOn Reference.votingSuite.blake2b256
      {bitString Reference.votingSuite.toSuite 1 1 (List.replicate 32 7),
        u64Bytes 1 ++ List.replicate 32 7} ∧
    ∃ proof, generate Reference.votingSuite.toSuite 1 1 (List.replicate 32 7) = .ok proof ∧
      proof.verify Reference.votingSuite.toSuite ≠ .ok () := by
  obtain ⟨rangeProof, hproof, -⟩ :=
    generate_of_le (S := Reference.votingSuite.toSuite) (List.replicate 32 7) (UInt64.le_refl 1)
  refine ⟨injOn_one_vote, _, hproof, fun hverify => ?_⟩
  have hhash := (verify_generate _ (UInt64.le_refl 1)).mp ⟨_, hproof, hverify⟩
  have hinj := injOn_one_vote
  rw [← Commitment.flatten_pair] at hinj
  have hstring := Suite.flatten_eq_of_hash_eq hinj hhash
  rw [Commitment.flatten_pair] at hstring
  exact append_ne_bitString (by decide) hstring.symm

end TallyRangeProof

/-! ## What is compared in constant time

Hashes, challenges and codes are compared by `constant_time_eq` of `crypto/src/zkp/mod.rs`,
which goes through both strings to the end and collects the differences.  It is called in five
places: in the verifiers of a ballot's validity proof, of a range proof and of a simplified
bulletproof, for the confirmation code of a receipt, and for the hash in a voter's credentials.
-/

/-- The challenge is compared first; then there must be two responses, whatever they are. -/
theorem BallotValidityProof.verify_eq_ok {S : Suite} {proof : BallotValidityProof}
    {encryptedVote : EncryptedData} {commitment : Bytes} {electionId : ElectionId} :
    proof.verify S encryptedVote commitment electionId = .ok () ↔
      2 ≤ proof.responses.length ∧
        proof.challenge =
          computeChallenge S encryptedVote commitment proof.proofCommitment electionId := by
  simp only [verify, bind_eq_ok, ensure_eq_ok, constantTimeEq_iff, decide_eq_true_eq]
  constructor
  · rintro ⟨-, hchallenge, hresponses⟩
    exact ⟨hresponses, hchallenge⟩
  · rintro ⟨hresponses, hchallenge⟩
    exact ⟨(), hchallenge, hresponses⟩

/-- **The comparison is exact**, for strings of any lengths; and what each of its five callers
accepts is, beside its other conditions, that the two strings are the same. -/
theorem comparison_exact [Hex] (S : VotingSuite) :
    (∀ a b : Bytes, constantTimeEq a b = true ↔ a = b) ∧
    (∀ (proof : BallotValidityProof) (encryptedVote : EncryptedData) (commitment : Bytes)
        (electionId : ElectionId),
      proof.verify S.toSuite encryptedVote commitment electionId = .ok () ↔
        2 ≤ proof.responses.length ∧
          proof.challenge = BallotValidityProof.computeChallenge S.toSuite encryptedVote
            commitment proof.proofCommitment electionId) ∧
    (∀ (proof : RangeProof) (commitment : Bytes),
      proof.verify S.toSuite commitment = .ok () ↔
        proof.WellFormed ∧ S.hashBlake2bMultiple proof.commitments = commitment) ∧
    (∀ proof : BulletproofStyle,
      proof.verifySimplified S.toSuite = .ok () ↔
        proof.Complete ∧
          S.hashBlake2bMultiple
            [proof.proofA, proof.proofS, proof.tauX, proof.mu, proof.tHat] =
              proof.innerProductProof) ∧
    (∀ receipt : VoteReceipt,
      receipt.verifyConfirmationCode S = true ↔
        receipt.confirmationCode =
          VoteReceipt.generateConfirmationCode S receipt.receiptId receipt.ballotId) ∧
    ∀ credentials : VoterCredentials,
      credentials.verifyHash S.toSuite = true ↔
        VoterCredentials.computeHash S.toSuite credentials.voterId credentials.jurisdiction
          credentials.issuedAt = credentials.credentialHash := by
  refine ⟨?_, ?_, ?_, ?_, ?_, ?_⟩
  · intro a b
    exact constantTimeEq_iff
  · intro proof encryptedVote commitment electionId
    exact BallotValidityProof.verify_eq_ok
  · intro proof commitment
    exact RangeProof.verify_eq_ok
  · intro proof
    exact BulletproofStyle.verifySimplified_eq_ok
  · intro receipt
    exact VoteReceipt.verifyConfirmationCode_iff
  · intro credentials
    exact VoterCredentials.verifyHash_iff

end VotingChain
