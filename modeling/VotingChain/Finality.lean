/-
# `VotingChain.Finality` — the finality tracker

The model of `consensus/finality.rs`.  The tracker keeps, for every block hash it
is shown, the set of keys that have signed a block with that hash, and calls the hash
finalized once there are enough.

**The threshold** is an `f64`, used in one place: `(n as f64 * threshold).ceil() as
usize`.  What is proved about the tracker as such holds whatever that computes, so
the number type is a parameter with this one operation (`Threshold`).  `Float` is the
program's instance; the rationals are the exact reading of it, for the results that
depend on how many signatures a threshold asks for.

A run of `check_finality` calls is described by who has signed what (`signersOf`):

    recorded signers      = signersOf
    finalized             ↔ signersOf has the required size
    highest height        = greatest height of a finalized block

The hash that goes with the highest height is not described by that: the comparison
is with a height that starts at 0, so a finalized block of height 0 is never recorded
(`tracker_characterised_iff`).
-/
import Mathlib.Data.Rat.Floor
import Mathlib.Order.Bounds.Basic
import VotingChain.Lib.Quorum
import VotingChain.Lib.Runs
import VotingChain.Turns

namespace VotingChain

/-- `usize::MAX` on a 64-bit target. -/
def usizeMax : Nat := 2 ^ 64 - 1

/-- A reading of `f64`, as far as the tracker uses it. -/
class Threshold (F : Type) where
  /-- `(n as f64 * threshold).ceil() as usize`. -/
  ceilMul : Nat → F → Nat

instance : Threshold Float where
  ceilMul n threshold := (n.toUInt64.toFloat * threshold).ceil.toUInt64.toNat

/-- Exact arithmetic.  The cast saturates at both ends. -/
instance : Threshold Rat where
  ceilMul n threshold := min ⌈(n : Rat) * threshold⌉.toNat usizeMax

/-- Information about a block's finality status. -/
structure FinalityInfo where
  blockHash : BlockHash
  height : BlockHeight
  signatures : Finset PublicKey
  totalValidators : Nat
  isFinalized : Bool
  finalizedAt : Option Timestamp
  deriving DecidableEq

/-- Result of checking block finality. -/
inductive FinalityStatus where
  | finalized
  | pending (signatures required : Nat)
  deriving DecidableEq

/-- Tracks block finality based on validator signatures. -/
structure FinalityTracker (F : Type) where
  threshold : F
  finalityMap : Finmap fun _ : BlockHash => FinalityInfo
  highestFinalizedHeight : BlockHeight
  highestFinalizedHash : BlockHash

/-- The keys that have signed a block. -/
def Block.signers (b : Block) : Finset PublicKey := (b.signatures.map fun s => s.validator).toFinset

namespace FinalityTracker
variable {F : Type} [Threshold F]

omit [Threshold F] in
/-- Create a new finality tracker. -/
def new (threshold : F) : FinalityTracker F where
  threshold := threshold
  finalityMap := ∅
  highestFinalizedHeight := 0
  highestFinalizedHash := BlockHash.zero

/-- Calculate required number of signatures for finality. -/
def calculateRequiredSignatures (tracker : FinalityTracker F) (totalValidators : Nat) : Nat :=
  if totalValidators = 0 then 0
  else max (Threshold.ceilMul totalValidators tracker.threshold) 1

/-- The entry of a block that has not been seen before. -/
def freshInfo (block : Block) (totalValidators : Nat) : FinalityInfo where
  blockHash := block.hash
  height := block.height
  signatures := ∅
  totalValidators := totalValidators
  isFinalized := false
  finalizedAt := none

/-- Check and update finality for a block; `now` is what the clock says. -/
def checkFinality (now : Timestamp) (block : Block) (totalValidators : Nat)
    (tracker : FinalityTracker F) : FinalityStatus × FinalityTracker F :=
  let requiredSignatures := tracker.calculateRequiredSignatures totalValidators
  let info := (tracker.finalityMap.lookup block.hash).getD (freshInfo block totalValidators)
  let info := { info with
    signatures := block.signatures.foldl (fun s sig => insert sig.validator s) info.signatures }
  if requiredSignatures ≤ info.signatures.card ∧ info.isFinalized = false then
    let info := { info with isFinalized := true, finalizedAt := some now }
    let tracker := { tracker with finalityMap := tracker.finalityMap.insert block.hash info }
    if tracker.highestFinalizedHeight < block.height then
      (.finalized, { tracker with
        highestFinalizedHeight := block.height
        highestFinalizedHash := block.hash })
    else (.finalized, tracker)
  else
    let tracker := { tracker with finalityMap := tracker.finalityMap.insert block.hash info }
    if info.isFinalized then (.finalized, tracker)
    else (.pending info.signatures.card requiredSignatures, tracker)

omit [Threshold F] in
/-- Check if a block is finalized. -/
def isFinalized (tracker : FinalityTracker F) (blockHash : BlockHash) : Bool :=
  ((tracker.finalityMap.lookup blockHash).map FinalityInfo.isFinalized).getD false

omit [Threshold F] in
/-- Get finality info for a block. -/
def getFinalityInfo (tracker : FinalityTracker F) (blockHash : BlockHash) : Option FinalityInfo :=
  tracker.finalityMap.lookup blockHash

/-! ## One call -/

/-- The entry of a hash after a call for a block with that hash. -/
def nextInfo (now : Timestamp) (block : Block) (n : Nat) (tracker : FinalityTracker F) :
    FinalityInfo :=
  let info := (tracker.finalityMap.lookup block.hash).getD (freshInfo block n)
  let signatures := info.signatures ∪ block.signers
  if tracker.calculateRequiredSignatures n ≤ signatures.card ∧ info.isFinalized = false then
    { info with signatures, isFinalized := true, finalizedAt := some now }
  else { info with signatures }

theorem foldl_insert_signers (sigs : List ValidatorSignature) (s : Finset PublicKey) :
    sigs.foldl (fun s sig => insert sig.validator s) s =
      s ∪ (sigs.map fun sig => sig.validator).toFinset := by
  induction sigs generalizing s with
  | nil => simp
  | cons sig sigs ih =>
      rw [List.foldl_cons, ih, List.map_cons, List.toFinset_cons, Finset.insert_union,
        Finset.union_insert]

/-- **What a call does**: the entry of the block's hash is renewed; the highest
finalized block becomes this one if the call has finalized its hash and no higher one
was finalized before; the answer is what the entry says. -/
theorem checkFinality_eq (now : Timestamp) (block : Block) (n : Nat)
    (tracker : FinalityTracker F) :
    checkFinality now block n tracker =
      (if (tracker.nextInfo now block n).isFinalized then .finalized
        else .pending (tracker.nextInfo now block n).signatures.card
          (tracker.calculateRequiredSignatures n),
       if ((tracker.nextInfo now block n).isFinalized ∧ tracker.isFinalized block.hash = false) ∧
          tracker.highestFinalizedHeight < block.height then
        { tracker with
          finalityMap := tracker.finalityMap.insert block.hash (tracker.nextInfo now block n)
          highestFinalizedHeight := block.height
          highestFinalizedHash := block.hash }
       else { tracker with
          finalityMap := tracker.finalityMap.insert block.hash (tracker.nextInfo now block n) }) := by
  have hold : tracker.isFinalized block.hash =
      ((tracker.finalityMap.lookup block.hash).getD (freshInfo block n)).isFinalized := by
    rw [isFinalized]
    cases tracker.finalityMap.lookup block.hash <;> rfl
  rw [hold, checkFinality, nextInfo, Block.signers]
  simp only [foldl_insert_signers]
  split
  · next h =>
      simp only [h, and_self, if_true, true_and]
      split <;> rfl
  · next h =>
      cases hinfo : ((tracker.finalityMap.lookup block.hash).getD (freshInfo block n)).isFinalized
      · simp
      · simp

/-! ## Runs of calls -/

/-- A call: what the clock says, and the block. -/
abbrev Call := Timestamp × Block

/-- The tracker after a call. -/
def check (n : Nat) (tracker : FinalityTracker F) (call : Call) : FinalityTracker F :=
  (checkFinality call.1 call.2 n tracker).2

theorem check_eq (n : Nat) (tracker : FinalityTracker F) (call : Call) :
    check n tracker call =
      if ((tracker.nextInfo call.1 call.2 n).isFinalized ∧
            tracker.isFinalized call.2.hash = false) ∧
          tracker.highestFinalizedHeight < call.2.height then
        { tracker with
          finalityMap := tracker.finalityMap.insert call.2.hash (tracker.nextInfo call.1 call.2 n)
          highestFinalizedHeight := call.2.height
          highestFinalizedHash := call.2.hash }
      else { tracker with
        finalityMap :=
          tracker.finalityMap.insert call.2.hash (tracker.nextInfo call.1 call.2 n) } := by
  rw [check, checkFinality_eq]

/-- A new tracker after a sequence of calls. -/
def track (threshold : F) (n : Nat) (calls : List Call) : FinalityTracker F :=
  Runs.run (check n) (new threshold) calls

/-- Who has signed a block with hash `h` in a sequence of calls. -/
def signersOf (calls : List Call) (h : BlockHash) : Finset PublicKey :=
  Quorum.voters (fun call => call.2.hash) (fun call => call.2.signers) calls h

/-- The number of signatures a threshold asks for. -/
def required (threshold : F) (n : Nat) : Nat := (new threshold).calculateRequiredSignatures n

/-- Enough validators have signed a block with hash `h`. -/
def Quorate (threshold : F) (n : Nat) (calls : List Call) (h : BlockHash) : Prop :=
  required threshold n ≤ (signersOf calls h).card

/-- Blocks with the same hash have the same height. -/
def HashDeterminesHeight (calls : List Call) : Prop :=
  ∀ call ∈ calls, ∀ call' ∈ calls, call.2.hash = call'.2.hash → call.2.height = call'.2.height

theorem hashDeterminesHeight_singleton (call : Call) : HashDeterminesHeight [call] := by
  intro c hc c' hc' _
  rw [List.mem_singleton.mp hc, List.mem_singleton.mp hc']

variable {threshold : F} {n : Nat} {calls : List Call} {tracker : FinalityTracker F}

theorem required_pos (hn : 1 ≤ n) : 1 ≤ required threshold n := by
  rw [required, calculateRequiredSignatures, if_neg (by omega)]
  exact le_max_right _ _

omit [Threshold F] in
theorem signersOf_concat (calls : List Call) (call : Call) (h : BlockHash) :
    signersOf (calls ++ [call]) h =
      if call.2.hash = h then signersOf calls h ∪ call.2.signers else signersOf calls h :=
  Quorum.voters_concat calls call h

theorem Quorate.mono {calls' : List Call} {h : BlockHash} (hq : Quorate threshold n calls h)
    (hsub : ∀ call ∈ calls, call ∈ calls') : Quorate threshold n calls' h :=
  hq.trans (Finset.card_le_card (Quorum.voters_mono hsub h))

theorem Quorate.exists_call {h : BlockHash} (hn : 1 ≤ n) (hq : Quorate threshold n calls h) :
    ∃ call ∈ calls, call.2.hash = h := by
  have hpos : 0 < (signersOf calls h).card := Nat.lt_of_lt_of_le (required_pos hn) hq
  obtain ⟨v, hv⟩ := Finset.card_pos.mp hpos
  obtain ⟨call, hcall, hhash, -⟩ := Quorum.mem_voters.mp hv
  exact ⟨call, hcall, hhash⟩

omit [Threshold F] in
theorem signersOf_singleton (call : Call) (h : BlockHash) :
    signersOf [call] h = if call.2.hash = h then call.2.signers else ∅ := by
  have := signersOf_concat [] call h
  simpa [signersOf] using this

theorem quorate_singleton (hn : 1 ≤ n) {call : Call} {h : BlockHash} :
    Quorate threshold n [call] h ↔
      call.2.hash = h ∧ required threshold n ≤ call.2.signers.card := by
  have hpos : 1 ≤ required threshold n := required_pos hn
  rw [Quorate, signersOf_singleton]
  split
  · next h => simp [h]
  · next h =>
      simp only [h, false_and, iff_false, Finset.card_empty]
      omega

variable (threshold n calls tracker) in
/-- The entries of a tracker say what has been signed. -/
structure Records : Prop where
  threshold_eq : tracker.threshold = threshold
  unseen : ∀ h, tracker.finalityMap.lookup h = none → ∀ call ∈ calls, call.2.hash ≠ h
  seen : ∀ h info, tracker.finalityMap.lookup h = some info →
    info.signatures = signersOf calls h ∧
      (info.isFinalized = true ↔ Quorate threshold n calls h)

namespace Records

theorem signersOf_of_unseen (hr : Records threshold n calls tracker) {h : BlockHash}
    (hnone : tracker.finalityMap.lookup h = none) : signersOf calls h = ∅ := by
  refine Finset.eq_empty_of_forall_notMem fun v hv => ?_
  obtain ⟨call, hcall, hhash, -⟩ := Quorum.mem_voters.mp hv
  exact hr.unseen h hnone call hcall hhash

theorem signatures_eq (hr : Records threshold n calls tracker) (h : BlockHash) :
    (tracker.getFinalityInfo h).elim ∅ FinalityInfo.signatures = signersOf calls h := by
  rw [getFinalityInfo]
  cases hlook : tracker.finalityMap.lookup h with
  | none => exact (hr.signersOf_of_unseen hlook).symm
  | some info => exact (hr.seen h info hlook).1

theorem isFinalized_iff (hr : Records threshold n calls tracker) (hn : 1 ≤ n) (h : BlockHash) :
    tracker.isFinalized h = true ↔ Quorate threshold n calls h := by
  rw [isFinalized]
  cases hlook : tracker.finalityMap.lookup h with
  | none =>
      refine iff_of_false Bool.false_ne_true fun hq => ?_
      obtain ⟨call, hcall, hhash⟩ := hq.exists_call hn
      exact hr.unseen h hlook call hcall hhash
  | some info => exact (hr.seen h info hlook).2

theorem calculateRequiredSignatures_eq (hr : Records threshold n calls tracker) :
    tracker.calculateRequiredSignatures n = required threshold n := by
  rw [required, calculateRequiredSignatures, hr.threshold_eq]
  rfl

theorem nextInfo_spec (hr : Records threshold n calls tracker) (hn : 1 ≤ n) (call : Call) :
    (tracker.nextInfo call.1 call.2 n).signatures = signersOf (calls ++ [call]) call.2.hash ∧
      ((tracker.nextInfo call.1 call.2 n).isFinalized = true ↔
        Quorate threshold n (calls ++ [call]) call.2.hash) := by
  have hsig : ((tracker.finalityMap.lookup call.2.hash).getD (freshInfo call.2 n)).signatures ∪
      call.2.signers = signersOf (calls ++ [call]) call.2.hash := by
    rw [signersOf_concat, if_pos rfl, ← hr.signatures_eq, getFinalityInfo]
    cases tracker.finalityMap.lookup call.2.hash <;> rfl
  have hfin : ((tracker.finalityMap.lookup call.2.hash).getD (freshInfo call.2 n)).isFinalized =
      tracker.isFinalized call.2.hash := by
    rw [isFinalized]
    cases tracker.finalityMap.lookup call.2.hash <;> rfl
  rw [nextInfo, hr.calculateRequiredSignatures_eq, hsig, hfin]
  split
  · next h => exact ⟨rfl, iff_of_true rfl h.1⟩
  · next h =>
      refine ⟨rfl, ?_⟩
      show tracker.isFinalized call.2.hash = true ↔ _
      cases hold : tracker.isFinalized call.2.hash with
      | false =>
          refine iff_of_false Bool.false_ne_true fun hq => ?_
          exact h ⟨hq, hold⟩
      | true =>
          have hq := (hr.isFinalized_iff hn _).mp hold
          exact iff_of_true rfl (hq.mono fun c hc => List.mem_append_left _ hc)

theorem finalityMap_check (call : Call) :
    (check n tracker call).finalityMap =
      tracker.finalityMap.insert call.2.hash (tracker.nextInfo call.1 call.2 n) := by
  rw [check_eq]
  split <;> rfl

theorem step (hr : Records threshold n calls tracker) (hn : 1 ≤ n) (call : Call) :
    Records threshold n (calls ++ [call]) (check n tracker call) where
  threshold_eq := by
    rw [check_eq, ← hr.threshold_eq]
    split <;> rfl
  unseen := by
    intro h hnone c hc hhash
    rw [finalityMap_check] at hnone
    by_cases hsame : h = call.2.hash
    · subst hsame
      rw [Finmap.lookup_insert] at hnone
      cases hnone
    · rw [Finmap.lookup_insert_of_ne _ hsame] at hnone
      rcases List.mem_append.mp hc with hc | hc
      · exact hr.unseen h hnone c hc hhash
      · rw [List.mem_singleton.mp hc] at hhash
        exact hsame hhash.symm
  seen := by
    intro h info hsome
    rw [finalityMap_check] at hsome
    by_cases hsame : h = call.2.hash
    · subst hsame
      rw [Finmap.lookup_insert, Option.some.injEq] at hsome
      subst hsome
      exact hr.nextInfo_spec hn call
    · rw [Finmap.lookup_insert_of_ne _ hsame] at hsome
      have hsigners : signersOf (calls ++ [call]) h = signersOf calls h := by
        rw [signersOf_concat, if_neg (Ne.symm hsame)]
      rw [Quorate, hsigners]
      exact hr.seen h info hsome

end Records

omit [Threshold F] in
theorem new_unseen (threshold : F) (h : BlockHash) :
    (new threshold).finalityMap.lookup h = none :=
  Finmap.lookup_empty h

theorem records_track (hn : 1 ≤ n) (threshold : F) (calls : List Call) :
    Records threshold n calls (track threshold n calls) := by
  induction calls using List.reverseRecOn with
  | nil =>
      refine ⟨rfl, nofun, fun h info hsome => ?_⟩
      rw [track, Runs.run_nil, new_unseen] at hsome
      cases hsome
  | append_singleton calls call ih =>
      rw [track, Runs.run_concat]
      exact ih.step hn call

/-! ## The highest finalized block -/

variable (threshold n calls tracker) in
/-- What the tracker says about the highest finalized block. -/
structure Highest : Prop where
  le : ∀ call ∈ calls, Quorate threshold n calls call.2.hash →
    call.2.height ≤ tracker.highestFinalizedHeight
  attained :
    (tracker.highestFinalizedHeight = 0 ∧ tracker.highestFinalizedHash = BlockHash.zero) ∨
    ∃ call ∈ calls, Quorate threshold n calls call.2.hash ∧ 0 < call.2.height ∧
      call.2.height = tracker.highestFinalizedHeight ∧
      call.2.hash = tracker.highestFinalizedHash

namespace Highest

theorem check_cases (hr : Records threshold n calls tracker) (hn : 1 ≤ n) (call : Call) :
    (Quorate threshold n (calls ++ [call]) call.2.hash ∧
      tracker.highestFinalizedHeight < call.2.height ∧
      (check n tracker call).highestFinalizedHeight = call.2.height ∧
      (check n tracker call).highestFinalizedHash = call.2.hash) ∨
    ((Quorate threshold n (calls ++ [call]) call.2.hash →
        Quorate threshold n calls call.2.hash ∨
          call.2.height ≤ tracker.highestFinalizedHeight) ∧
      (check n tracker call).highestFinalizedHeight = tracker.highestFinalizedHeight ∧
      (check n tracker call).highestFinalizedHash = tracker.highestFinalizedHash) := by
  have hnew := (hr.nextInfo_spec hn call).2
  have hold := hr.isFinalized_iff hn call.2.hash
  rw [check_eq]
  split
  · next h => exact Or.inl ⟨hnew.mp h.1.1, h.2, rfl, rfl⟩
  · next h =>
      refine Or.inr ⟨fun hq => ?_, rfl, rfl⟩
      by_cases hbefore : tracker.isFinalized call.2.hash = true
      · exact Or.inl (hold.mp hbefore)
      · refine Or.inr (UInt64.not_lt.mp fun hlt => h ⟨⟨hnew.mpr hq, ?_⟩, hlt⟩)
        exact Bool.eq_false_iff.mpr hbefore

theorem step (hh : Highest threshold n calls tracker) (hr : Records threshold n calls tracker)
    (hn : 1 ≤ n) (call : Call) (hdet : HashDeterminesHeight (calls ++ [call])) :
    Highest threshold n (calls ++ [call]) (check n tracker call) := by
  have hcall : call ∈ calls ++ [call] := List.mem_append_right _ (List.mem_singleton_self _)
  have hmono : ∀ h, Quorate threshold n calls h → Quorate threshold n (calls ++ [call]) h :=
    fun h hq => hq.mono fun c hc => List.mem_append_left _ hc
  -- whatever was finalized before is below the old height
  have hbefore : ∀ c ∈ calls ++ [call], Quorate threshold n calls c.2.hash →
      c.2.height ≤ tracker.highestFinalizedHeight := by
    intro c hc hq
    obtain ⟨c', hc', hhash⟩ := hq.exists_call hn
    rw [← hdet c' (List.mem_append_left _ hc') c hc hhash]
    exact hh.le c' hc' (hhash ▸ hq)
  -- and only the hash of this call can have been finalized now
  have hother : ∀ c ∈ calls ++ [call], c.2.hash ≠ call.2.hash →
      Quorate threshold n (calls ++ [call]) c.2.hash → Quorate threshold n calls c.2.hash := by
    intro c _ hne hq
    rwa [Quorate, signersOf_concat, if_neg hne.symm] at hq
  rcases check_cases hr hn call with ⟨hq, hlt, hheight, hhash⟩ | ⟨hstay, hheight, hhash⟩
  · constructor
    · intro c hc hqc
      rw [hheight]
      by_cases hsame : c.2.hash = call.2.hash
      · rw [hdet c hc call hcall hsame]
        exact UInt64.le_refl _
      · exact UInt64.le_of_lt (UInt64.lt_of_le_of_lt (hbefore c hc (hother c hc hsame hqc)) hlt)
    · refine Or.inr ⟨call, hcall, hq, ?_, hheight.symm, hhash.symm⟩
      exact UInt64.lt_of_le_of_lt UInt64.zero_le hlt
  · constructor
    · intro c hc hqc
      rw [hheight]
      by_cases hsame : c.2.hash = call.2.hash
      · rcases hstay (hsame ▸ hqc) with hold | hle
        · exact hbefore c hc (hsame ▸ hold)
        · rwa [hdet c hc call hcall hsame]
      · exact hbefore c hc (hother c hc hsame hqc)
    · rw [hheight, hhash]
      rcases hh.attained with hzero | ⟨c, hc, hqc, hrest⟩
      · exact Or.inl hzero
      · exact Or.inr ⟨c, List.mem_append_left _ hc, hmono _ hqc, hrest⟩

end Highest

theorem highest_track (hn : 1 ≤ n) (threshold : F) {calls : List Call}
    (hdet : HashDeterminesHeight calls) :
    Highest threshold n calls (track threshold n calls) := by
  induction calls using List.reverseRecOn with
  | nil => exact ⟨nofun, Or.inl ⟨rfl, rfl⟩⟩
  | append_singleton calls call ih =>
      rw [track, Runs.run_concat]
      refine (ih ?_).step (records_track hn threshold calls) hn call hdet
      intro c hc c' hc'
      exact hdet c (List.mem_append_left _ hc) c' (List.mem_append_left _ hc')

/-! ## The tracker, from the whole history -/

variable (threshold n calls) in
/-- What the tracker is for, in terms of the calls it has had: `tracker` records who
has signed what, a hash is finalized once enough have signed it and stays finalized,
the highest finalized block is that, and neither order nor repetition of the calls
matters for what is finalized. -/
structure Characterised (tracker : FinalityTracker F) : Prop where
  signers : ∀ h, (tracker.getFinalityInfo h).elim ∅ FinalityInfo.signatures = signersOf calls h
  finalized : ∀ h, tracker.isFinalized h = true ↔ required threshold n ≤ (signersOf calls h).card
  stays : ∀ earlier, earlier <+: calls → ∀ h,
    (track threshold n earlier).isFinalized h = true → tracker.isFinalized h = true
  none_finalized : (∀ call ∈ calls, tracker.isFinalized call.2.hash = false) →
    tracker.highestFinalizedHeight = 0
  highest : (∃ call ∈ calls, tracker.isFinalized call.2.hash = true) →
    IsGreatest {height | ∃ call ∈ calls, tracker.isFinalized call.2.hash = true ∧
      call.2.height = height} tracker.highestFinalizedHeight
  highest_hash : (∃ call ∈ calls, tracker.isFinalized call.2.hash = true) →
    ∃ call ∈ calls, tracker.isFinalized call.2.hash = true ∧
      call.2.height = tracker.highestFinalizedHeight ∧
      call.2.hash = tracker.highestFinalizedHash
  order : ∀ calls' : List Call, (∀ b, b ∈ calls'.map Prod.snd ↔ b ∈ calls.map Prod.snd) →
    ∀ h, (track threshold n calls').isFinalized h = tracker.isFinalized h

omit [Threshold F] in
theorem signersOf_congr {calls calls' : List Call}
    (h : ∀ b, b ∈ calls'.map Prod.snd ↔ b ∈ calls.map Prod.snd) (hash : BlockHash) :
    signersOf calls' hash = signersOf calls hash := by
  have hblocks : ∀ cs : List Call,
      signersOf cs hash = Quorum.voters Block.hash Block.signers (cs.map Prod.snd) hash := by
    intro cs
    rw [Quorum.voters_map]
    rfl
  rw [hblocks, hblocks]
  exact Quorum.voters_congr h hash

/-- The recorded hash is right exactly if the recorded height is not the initial 0
for want of a higher finalized block. -/
theorem highest_hash_iff (hn : 1 ≤ n) (hdet : HashDeterminesHeight calls) :
    (∃ call ∈ calls, Quorate threshold n calls call.2.hash ∧
        call.2.height = (track threshold n calls).highestFinalizedHeight ∧
        call.2.hash = (track threshold n calls).highestFinalizedHash) ↔
      (∃ call ∈ calls, Quorate threshold n calls call.2.hash ∧ 0 < call.2.height) ∨
        Quorate threshold n calls BlockHash.zero := by
  have hh := highest_track hn threshold hdet
  constructor
  · rintro ⟨call, hcall, hq, hheight, hhash⟩
    rcases hh.attained with ⟨-, hzero⟩ | ⟨c, hc, hqc, hpos, -⟩
    · rw [hhash, hzero] at hq
      exact Or.inr hq
    · exact Or.inl ⟨c, hc, hqc, hpos⟩
  · intro hcond
    rcases hh.attained with ⟨hheight, hzero⟩ | ⟨c, hc, hqc, -, hheight, hhash⟩
    · -- everything finalized has height 0
      have hlow : ∀ call ∈ calls, Quorate threshold n calls call.2.hash → call.2.height = 0 := by
        intro call hcall hq
        have := hh.le call hcall hq
        rw [hheight] at this
        exact UInt64.le_antisymm this UInt64.zero_le
      rcases hcond with ⟨call, hcall, hq, hpos⟩ | hq
      · rw [hlow call hcall hq] at hpos
        exact absurd hpos (UInt64.lt_irrefl 0)
      · obtain ⟨call, hcall, hhash⟩ := hq.exists_call hn
        rw [← hhash] at hq
        exact ⟨call, hcall, hq, by rw [hheight, hlow call hcall hq], by rw [hzero, hhash]⟩
    · exact ⟨c, hc, hqc, hheight, hhash⟩

theorem isGreatest_highest (hn : 1 ≤ n) (hdet : HashDeterminesHeight calls)
    (hquorate : ∃ call ∈ calls, Quorate threshold n calls call.2.hash) :
    IsGreatest {height | ∃ call ∈ calls, Quorate threshold n calls call.2.hash ∧
      call.2.height = height} (track threshold n calls).highestFinalizedHeight := by
  have hh := highest_track hn threshold hdet
  constructor
  · rcases hh.attained with ⟨hheight, -⟩ | ⟨c, hc, hqc, -, hheight, -⟩
    · obtain ⟨call, hcall, hq⟩ := hquorate
      have hle := hh.le call hcall hq
      rw [hheight] at hle ⊢
      exact ⟨call, hcall, hq, UInt64.le_antisymm hle UInt64.zero_le⟩
    · exact ⟨c, hc, hqc, hheight⟩
  · rintro height ⟨call, hcall, hq, rfl⟩
    exact hh.le call hcall hq

/-- A tracker that is what it is for has a finalized block above height 0, or none at
all, or has finalized the zero hash. -/
theorem Characterised.condition (hn : 1 ≤ n) (hdet : HashDeterminesHeight calls)
    (hchar : Characterised threshold n calls (track threshold n calls)) :
    (∀ call ∈ calls, ¬ Quorate threshold n calls call.2.hash) ∨
      (∃ call ∈ calls, Quorate threshold n calls call.2.hash ∧ 0 < call.2.height) ∨
      Quorate threshold n calls BlockHash.zero := by
  by_cases hquorate : ∃ call ∈ calls, Quorate threshold n calls call.2.hash
  · have hhash := hchar.highest_hash
    simp only [(records_track hn threshold calls).isFinalized_iff hn] at hhash
    exact Or.inr ((highest_hash_iff hn hdet).mp (hhash hquorate))
  · exact Or.inl fun call hcall hq => hquorate ⟨call, hcall, hq⟩

/-- **The tracker and its history.**  For every sequence of calls with a fixed number
of validators, on blocks whose hash determines their height: the tracker is what it
is for exactly if no hash has enough signers, or a hash of a block above height 0
has, or the zero hash has. -/
theorem tracker_characterised_iff (hn : 1 ≤ n) (threshold : F) (hdet : HashDeterminesHeight calls) :
    Characterised threshold n calls (track threshold n calls) ↔
      (∀ call ∈ calls, ¬ Quorate threshold n calls call.2.hash) ∨
      (∃ call ∈ calls, Quorate threshold n calls call.2.hash ∧ 0 < call.2.height) ∨
      Quorate threshold n calls BlockHash.zero := by
  have hfin : ∀ (cs : List Call) (h : BlockHash),
      (track threshold n cs).isFinalized h = true ↔ Quorate threshold n cs h :=
    fun cs => (records_track hn threshold cs).isFinalized_iff hn
  constructor
  · exact Characterised.condition hn hdet
  · intro hcond
    constructor
    · exact (records_track hn threshold calls).signatures_eq
    · exact hfin calls
    · intro earlier hprefix h hearlier
      rw [hfin] at hearlier ⊢
      exact hearlier.mono fun call hcall => hprefix.subset hcall
    · intro hnone
      rcases (highest_track hn threshold hdet).attained with ⟨hheight, -⟩ | ⟨c, hc, hqc, -⟩
      · exact hheight
      · rw [← hfin, hnone c hc] at hqc
        cases hqc
    · simp only [hfin]
      exact isGreatest_highest hn hdet
    · simp only [hfin]
      intro hquorate
      refine (highest_hash_iff hn hdet).mpr (hcond.resolve_left fun hnone => ?_)
      obtain ⟨call, hcall, hq⟩ := hquorate
      exact hnone call hcall hq
    · intro calls' hsame h
      rw [Bool.eq_iff_iff, hfin, hfin, Quorate, Quorate, signersOf_congr hsame]

end FinalityTracker

namespace Reference
open FinalityTracker (Call)

/-- A signature entry of a key; the tracker does not look at the bytes. -/
def entryOf (v : PublicKey) : ValidatorSignature := ⟨v, ⟨List.Vector.replicate 64 0⟩⟩

/-- A block of height 0, signed by its producer. -/
def signedGenesis : Block :=
  { Block.new primitives 1000 0 BlockHash.zero [] (testKey 0) with
    signatures := [entryOf (testKey 0)] }

/-- The block after it, signed by the same key. -/
def signedNext : Block :=
  { Block.new primitives 1005 1 signedGenesis.hash [] (testKey 0) with
    signatures := [entryOf (testKey 0)] }

/-- The same block, signed by another key. -/
def coSignedNext : Block := { signedNext with signatures := [entryOf (testKey 1)] }

/-- Both blocks are shown, and the second one once more. -/
def threeCalls : List Call := [(2000, signedGenesis), (2001, signedNext), (2002, coSignedNext)]

theorem signedGenesis_hash_ne : signedGenesis.hash ≠ BlockHash.zero := by decide +kernel

theorem required_one : FinalityTracker.required (67 / 100 : Rat) 1 = 1 := by decide +kernel

theorem required_two : FinalityTracker.required (67 / 100 : Rat) 2 = 2 := by decide +kernel

end Reference

namespace FinalityTracker
open Reference (signedGenesis signedNext coSignedNext threeCalls)

/-- Three calls with two validators; the block of height 1 is signed by one in the second and
by the other in the third. -/
theorem tracker_characterised_iff_sample :
    Characterised (67 / 100 : Rat) 2 threeCalls (track (67 / 100 : Rat) 2 threeCalls) := by
  have hne : signedGenesis.hash ≠ signedNext.hash := by decide +kernel
  have hsame : coSignedNext.hash = signedNext.hash := rfl
  have hcalls : ∀ call ∈ threeCalls, call.2.hash = signedGenesis.hash ∧ call.2.height = 0 ∨
      call.2.hash = signedNext.hash ∧ call.2.height = 1 := by
    intro call hcall
    simp only [threeCalls, List.mem_cons, List.not_mem_nil, or_false] at hcall
    rcases hcall with rfl | rfl | rfl
    · exact Or.inl ⟨rfl, rfl⟩
    · exact Or.inr ⟨rfl, rfl⟩
    · exact Or.inr ⟨hsame, rfl⟩
  have hdet : HashDeterminesHeight threeCalls := by
    intro call hcall call' hcall' hhash
    rcases hcalls call hcall with ⟨h, hheight⟩ | ⟨h, hheight⟩
    · rcases hcalls call' hcall' with ⟨-, hheight'⟩ | ⟨h', -⟩
      · rw [hheight, hheight']
      · exact absurd (h.symm.trans (hhash.trans h')) hne
    · rcases hcalls call' hcall' with ⟨h', -⟩ | ⟨-, hheight'⟩
      · exact absurd (h'.symm.trans (hhash.symm.trans h)) hne
      · rw [hheight, hheight']
  have hsigners : signersOf threeCalls signedNext.hash =
      signedNext.signers ∪ coSignedNext.signers := by
    have hcalls : threeCalls =
        ([(2000, signedGenesis)] ++ [(2001, signedNext)]) ++ [(2002, coSignedNext)] := rfl
    rw [hcalls, signersOf_concat, signersOf_concat, signersOf_singleton, if_neg hne, if_pos rfl,
      if_pos hsame, Finset.empty_union]
  have hq : Quorate (67 / 100 : Rat) 2 threeCalls signedNext.hash := by
    rw [Quorate, Reference.required_two, hsigners]
    decide
  refine (tracker_characterised_iff one_le_two _ hdet).mpr (Or.inr (Or.inl ?_))
  exact ⟨(2001, signedNext), List.mem_cons_of_mem _ List.mem_cons_self, hq, by decide⟩

/-- One call, for a block of height 0: it is finalized, and the hash of the highest
finalized block is the hash of none. -/
theorem genesis_not_recorded :
    HashDeterminesHeight [(2000, signedGenesis)] ∧
    (track (67 / 100 : Rat) 1 [(2000, signedGenesis)]).isFinalized signedGenesis.hash = true ∧
    ¬ Characterised (67 / 100 : Rat) 1 [(2000, signedGenesis)]
      (track (67 / 100 : Rat) 1 [(2000, signedGenesis)]) := by
  have hq : Quorate (67 / 100 : Rat) 1 [(2000, signedGenesis)] signedGenesis.hash := by
    rw [quorate_singleton le_rfl, Reference.required_one]
    exact ⟨rfl, by decide⟩
  have hdet := hashDeterminesHeight_singleton (2000, signedGenesis)
  refine ⟨hdet, ((records_track le_rfl _ _).isFinalized_iff le_rfl _).mpr hq, fun hchar => ?_⟩
  rcases hchar.condition le_rfl hdet with hnone | ⟨call, hcall, -, hpos⟩ | hzero
  · exact hnone _ (List.mem_singleton_self _) hq
  · rw [List.mem_singleton.mp hcall] at hpos
    exact absurd hpos (by decide)
  · exact Reference.signedGenesis_hash_ne ((quorate_singleton le_rfl).mp hzero).1

/-! ## Agreement -/

/-- Every entry names one of the validators. -/
def SignedBy (validators : List PublicKey) (calls : List Call) : Prop :=
  ∀ call ∈ calls, ∀ v ∈ call.2.signers, v ∈ validators

/-- Nobody signs two blocks of a height that have different hashes. -/
def NoDoubleSigning (calls : List Call) : Prop :=
  ∀ call ∈ calls, ∀ call' ∈ calls, call.2.hash ≠ call'.2.hash → call.2.height = call'.2.height →
    ∀ v ∈ call.2.signers, v ∉ call'.2.signers

/-- A quorum of more than half of distinct validators is not reached by two hashes of
a height. -/
theorem not_both_signed {validators : List PublicKey} (hnodup : validators.Nodup) {q : Nat}
    (hq : validators.length < 2 * q) {calls : List Call} (hmem : SignedBy validators calls)
    (honce : NoDoubleSigning calls) (hdet : HashDeterminesHeight calls) {call call' : Call}
    (hcall : call ∈ calls) (hcall' : call' ∈ calls) (hhash : call.2.hash ≠ call'.2.hash)
    (hheight : call.2.height = call'.2.height)
    (h : q ≤ (signersOf calls call.2.hash).card) :
    ¬ q ≤ (signersOf calls call'.2.hash).card := by
  have hV : validators.toFinset.card < 2 * q := by
    rwa [List.toFinset_card_of_nodup hnodup]
  refine Quorum.not_both_quorate (fun call : Call => call.2.height) hV ?_ hdet honce hcall
    hcall' hhash hheight h
  intro c hc v hv
  exact List.mem_toFinset.mpr (hmem c hc v hv)

theorem lt_two_mul_required {t : Rat} (ht : 1 / 2 < t) (ht1 : t < 1) {n : Nat} (hn : 1 ≤ n)
    (hmax : n ≤ usizeMax) : n < 2 * required t n := by
  have hnpos : (0 : Rat) < n := by exact_mod_cast hn
  have hceil : (n : Rat) * t ≤ ⌈(n : Rat) * t⌉ := Int.le_ceil _
  have hupper : ⌈(n : Rat) * t⌉ ≤ n := by
    refine Int.ceil_le.mpr ?_
    have := mul_le_mul_of_nonneg_left ht1.le hnpos.le
    simpa using this
  have hlower : (n : Rat) < 2 * ⌈(n : Rat) * t⌉ := by
    have := mul_lt_mul_of_pos_left ht hnpos
    linarith
  have hlower' : (n : Int) < 2 * ⌈(n : Rat) * t⌉ := by exact_mod_cast hlower
  rw [required, calculateRequiredSignatures, if_neg (by omega)]
  have hunfold : Threshold.ceilMul n (new t).threshold = min ⌈(n : Rat) * t⌉.toNat usizeMax := rfl
  rw [hunfold]
  omega

/-- **Quorums agree.**  Take the distinct validators of a consensus and a run of
calls on blocks whose hash determines their height, in which only validators sign
and none signs two blocks of a height with different hashes.  At no point of the run
are two blocks of a height with different hashes both finalized, for any threshold
between one half and one; nor have both been signed by the quorum of the consensus.
That quorum is no larger than the set, and any two of them share more than a third
of it. -/
theorem finality_agreement {poa : ProofOfAuthority} (hnodup : poa.validatorSet.validators.Nodup)
    (hn : 1 ≤ poa.validatorSet.validatorCount) (hmax : poa.validatorSet.validatorCount ≤ usizeMax)
    {t : Rat} (ht : 1 / 2 < t) (ht1 : t < 1) {calls : List Call}
    (hmem : SignedBy poa.validatorSet.validators calls) (honce : NoDoubleSigning calls)
    (hdet : HashDeterminesHeight calls) :
    (∀ earlier, earlier <+: calls → ∀ call ∈ calls, ∀ call' ∈ calls,
      call.2.hash ≠ call'.2.hash → call.2.height = call'.2.height →
      ¬ ((track t poa.validatorSet.validatorCount earlier).isFinalized call.2.hash = true ∧
        (track t poa.validatorSet.validatorCount earlier).isFinalized call'.2.hash = true)) ∧
    (∀ earlier, earlier <+: calls → ∀ call ∈ calls, ∀ call' ∈ calls,
      call.2.hash ≠ call'.2.hash → call.2.height = call'.2.height →
      ¬ (poa.requiredSignatures ≤ (signersOf earlier call.2.hash).card ∧
        poa.requiredSignatures ≤ (signersOf earlier call'.2.hash).card)) ∧
    poa.requiredSignatures ≤ poa.validatorSet.validatorCount ∧
    ∀ s t : Finset PublicKey, s ⊆ poa.validatorSet.validators.toFinset →
      t ⊆ poa.validatorSet.validators.toFinset → poa.requiredSignatures ≤ s.card →
      poa.requiredSignatures ≤ t.card → poa.validatorSet.validatorCount < 3 * (s ∩ t).card := by
  -- what has been signed at an earlier point has been signed in the whole run
  have hlater : ∀ {q : Nat} {earlier : List Call} {h : BlockHash}, earlier <+: calls →
      q ≤ (signersOf earlier h).card → q ≤ (signersOf calls h).card := by
    intro q earlier h hprefix hq
    exact hq.trans (Finset.card_le_card (Quorum.voters_mono (fun c hc => hprefix.subset hc) h))
  refine ⟨?_, ?_, ?_, ?_⟩
  · rintro earlier hprefix call hcall call' hcall' hhash hheight ⟨hfin, hfin'⟩
    rw [(records_track hn t earlier).isFinalized_iff hn] at hfin hfin'
    exact not_both_signed hnodup (lt_two_mul_required ht ht1 hn hmax) hmem honce hdet hcall hcall'
      hhash hheight (hlater hprefix hfin) (hlater hprefix hfin')
  · rintro earlier hprefix call hcall call' hcall' hhash hheight ⟨hq, hq'⟩
    have hhalf : poa.validatorSet.validators.length < 2 * poa.requiredSignatures := by
      rw [ProofOfAuthority.requiredSignatures, ValidatorSet.validatorCount]
      omega
    exact not_both_signed hnodup hhalf hmem honce hdet hcall hcall' hhash hheight
      (hlater hprefix hq) (hlater hprefix hq')
  · rw [ProofOfAuthority.requiredSignatures]
    omega
  · intro s t hs ht hqs hqt
    have hmeet := Quorum.card_add_card_le hs ht
    rw [List.toFinset_card_of_nodup hnodup] at hmeet
    rw [ProofOfAuthority.requiredSignatures] at hqs hqt
    rw [ValidatorSet.validatorCount] at hqs hqt ⊢
    omega

end FinalityTracker

namespace Reference

/-- A block with the given hash and height, signed by the given keys. -/
def claimedBlock (hash : UInt8) (height : BlockHeight) (signers : List PublicKey) : Block where
  header :=
    { height
      timestamp := 1000
      previousHash := BlockHash.zero
      transactionsRoot := BlockHash.zero
      hash := ⟨List.Vector.replicate 32 hash⟩
      validator := testKey 0
      transactionCount := 0 }
  transactions := []
  signatures := signers.map entryOf

/-- One validator. -/
def oneValidator : ProofOfAuthority := ProofOfAuthority.new (ValidatorSet.new 0 [testKey 0])

end Reference

namespace FinalityTracker
open Reference (oneValidator testKey claimedBlock)

/-- One validator, which signs one of two blocks of a height. -/
theorem finality_agreement_sample :
    ¬ ((track (67 / 100 : Rat) 1
          [(0, claimedBlock 1 5 [testKey 0]), (0, claimedBlock 2 5 [])]).isFinalized
            (claimedBlock 1 5 []).hash = true ∧
        (track (67 / 100 : Rat) 1
          [(0, claimedBlock 1 5 [testKey 0]), (0, claimedBlock 2 5 [])]).isFinalized
            (claimedBlock 2 5 []).hash = true) := by
  have hnodup : oneValidator.validatorSet.validators.Nodup := by decide
  have hmem : SignedBy oneValidator.validatorSet.validators
      [(0, claimedBlock 1 5 [testKey 0]), (0, claimedBlock 2 5 [])] := by
    unfold SignedBy
    decide
  have honce : NoDoubleSigning [(0, claimedBlock 1 5 [testKey 0]), (0, claimedBlock 2 5 [])] := by
    unfold NoDoubleSigning
    decide
  have hdet : HashDeterminesHeight
      [(0, claimedBlock 1 5 [testKey 0]), (0, claimedBlock 2 5 [])] := by
    unfold HashDeterminesHeight
    decide
  exact (finality_agreement hnodup (by decide) (by decide) (by norm_num) (by norm_num) hmem honce
    hdet).1 _ List.prefix_rfl _ List.mem_cons_self _ (List.mem_cons_of_mem _ List.mem_cons_self)
    (by decide) rfl

/-- Three blocks, two of which claim the same hash at different heights.  The
validator has signed one block of height 7 and one of height 5, and two blocks of
height 5 are finalized. -/
theorem two_finalized_at_a_height :
    oneValidator.validatorSet.validators.Nodup ∧
    SignedBy oneValidator.validatorSet.validators [(0, claimedBlock 1 5 []),
      (0, claimedBlock 1 7 [testKey 0]), (0, claimedBlock 2 5 [testKey 0])] ∧
    NoDoubleSigning [(0, claimedBlock 1 5 []), (0, claimedBlock 1 7 [testKey 0]),
      (0, claimedBlock 2 5 [testKey 0])] ∧
    (claimedBlock 1 5 []).hash ≠ (claimedBlock 2 5 [testKey 0]).hash ∧
    (claimedBlock 1 5 []).height = (claimedBlock 2 5 [testKey 0]).height ∧
    (track (67 / 100 : Rat) 1 [(0, claimedBlock 1 5 []), (0, claimedBlock 1 7 [testKey 0]),
      (0, claimedBlock 2 5 [testKey 0])]).isFinalized (claimedBlock 1 5 []).hash = true ∧
    (track (67 / 100 : Rat) 1 [(0, claimedBlock 1 5 []), (0, claimedBlock 1 7 [testKey 0]),
      (0, claimedBlock 2 5 [testKey 0])]).isFinalized
        (claimedBlock 2 5 [testKey 0]).hash = true := by
  refine ⟨by decide, by unfold SignedBy; decide, by unfold NoDoubleSigning; decide, by decide, rfl,
    ?_, ?_⟩
  · rw [(records_track le_rfl _ _).isFinalized_iff le_rfl, Quorate, Reference.required_one]
    decide
  · rw [(records_track le_rfl _ _).isFinalized_iff le_rfl, Quorate, Reference.required_one]
    decide

end FinalityTracker

end VotingChain
