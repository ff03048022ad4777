/-
# `VotingChain.Reputation` — what a node thinks of its peers

The model of `Reputation` and of the part of `PeerManager` in `network/src/peer.rs` that keeps
one for every peer.

    update_reputation(peer, change)    change > 0    score := clamp(score + change)
                                       otherwise     score := clamp(score - |change|)

The score stays between -100 and 100, whatever it is changed by.  But the sum is formed on
`i32` before it is cut off, and there it wraps around: a peer that is praised too much is
banned for it.  What counts is whether the sum as a number is one of `i32`
(`exact_iff`).  The other branch makes no difference: the absolute value of the least `i32` is
itself, and to take it away is to add it.
-/
import VotingChain.Lib.Runs
import VotingChain.Gossip

namespace VotingChain

/-- `Ord::clamp`. -/
def clamp {α : Type} [LT α] [DecidableLT α] (x lo hi : α) : α :=
  if x < lo then lo else if hi < x then hi else x

theorem toInt_clamp (x lo hi : Int32) :
    (clamp x lo hi).toInt = clamp x.toInt lo.toInt hi.toInt := by
  rw [clamp, clamp, apply_ite Int32.toInt, apply_ite Int32.toInt]
  simp only [Int32.lt_iff_toInt_lt]

theorem clamp_bounds {x lo hi : Int} (h : lo ≤ hi) : lo ≤ clamp x lo hi ∧ clamp x lo hi ≤ hi := by
  rw [clamp]
  split
  · exact ⟨Int.le_refl lo, h⟩
  · split
    · exact ⟨h, Int.le_refl hi⟩
    · omega

/-- Peer reputation score, between the bounds. -/
structure Reputation where
  score : Int32
  min_le : -100 ≤ score
  le_max : score ≤ 100
  deriving DecidableEq

namespace Reputation

def max : Int32 := 100

def min : Int32 := -100

theorem clamp_mem (score : Int32) : min ≤ clamp score min max ∧ clamp score min max ≤ max := by
  rw [Int32.le_iff_toInt_le, Int32.le_iff_toInt_le, toInt_clamp]
  exact clamp_bounds (by decide)

def new (score : Int32) : Reputation where
  score := clamp score min max
  min_le := (clamp_mem score).1
  le_max := (clamp_mem score).2

def initial : Reputation := ⟨0, by decide, by decide⟩

def increase (reputation : Reputation) (amount : Int32) : Reputation :=
  new (reputation.score + amount)

def decrease (reputation : Reputation) (amount : Int32) : Reputation :=
  new (reputation.score - amount)

def shouldBan (reputation : Reputation) : Bool := decide (reputation.score ≤ min)

theorem score_mem (reputation : Reputation) :
    -100 ≤ reputation.score.toInt ∧ reputation.score.toInt ≤ 100 :=
  ⟨Int32.le_iff_toInt_le.mp reputation.min_le, Int32.le_iff_toInt_le.mp reputation.le_max⟩

theorem toInt_new (score : Int32) : (new score).score.toInt = clamp score.toInt (-100) 100 :=
  toInt_clamp score min max

end Reputation

/-- The part of the peer manager that keeps the reputations. -/
structure PeerManager where
  reputations : Finmap fun _ : PeerId => Reputation

namespace PeerManager

def new : PeerManager := ⟨∅⟩

def getReputation (manager : PeerManager) (peerId : PeerId) : Reputation :=
  (manager.reputations.lookup peerId).getD .initial

def updateReputation (manager : PeerManager) (peerId : PeerId) (change : Int32) : PeerManager :=
  let reputation := (manager.reputations.lookup peerId).getD .initial
  let reputation' :=
    if 0 < change then reputation.increase change else reputation.decrease change.abs
  { manager with reputations := manager.reputations.insert peerId reputation' }

def shouldBan (manager : PeerManager) (peerId : PeerId) : Bool :=
  (manager.getReputation peerId).shouldBan

/-- A call of `update_reputation`. -/
structure Update where
  peerId : PeerId
  change : Int32

def step (manager : PeerManager) (update : Update) : PeerManager :=
  manager.updateReputation update.peerId update.change

/-- The score of a peer, as a number. -/
def score (manager : PeerManager) (peerId : PeerId) : Int :=
  (manager.getReputation peerId).score.toInt

/-- All scores are within the bounds. -/
def Bounded (manager : PeerManager) : Prop :=
  ∀ peerId, -100 ≤ manager.score peerId ∧ manager.score peerId ≤ 100

/-- The call does what it should, reckoned on numbers. -/
structure Exact (manager : PeerManager) (update : Update) : Prop where
  sum : (manager.step update).score update.peerId =
    clamp (manager.score update.peerId + update.change.toInt) (-100) 100
  others : ∀ peerId, peerId ≠ update.peerId →
    (manager.step update).getReputation peerId = manager.getReputation peerId
  praise : 0 < update.change →
    manager.score update.peerId ≤ (manager.step update).score update.peerId
  blame : update.change < 0 →
    (manager.step update).score update.peerId ≤ manager.score update.peerId

/-- The sum is a number of `i32`. -/
def Fits (manager : PeerManager) (update : Update) : Prop :=
  -2 ^ 31 ≤ manager.score update.peerId + update.change.toInt ∧
    manager.score update.peerId + update.change.toInt < 2 ^ 31

/-! ## One call -/

/-- To take away the absolute value is to add the number, also where there is no such value. -/
theorem sub_abs {change : Int32} (h : ¬0 < change) (score : Int32) :
    score - change.abs = score + change := by
  have habs : change.abs = -change := by
    rw [← Int32.toBitVec_inj]
    show change.toBitVec.abs = -change.toBitVec
    rw [BitVec.abs]
    split
    · rfl
    · next hmsb =>
        have hnonneg : ¬change.toBitVec.toInt < 0 := by
          rw [BitVec.msb_eq_toInt, decide_eq_true_eq] at hmsb
          exact hmsb
        have hzero : change = 0 := by
          rw [Int32.lt_iff_toInt_lt] at h
          rw [← Int32.toInt_inj]
          exact le_antisymm (not_lt.mp h) (not_lt.mp hnonneg)
        rw [hzero]
        rfl
  rw [habs, Int32.sub_neg]

theorem getReputation_step (manager : PeerManager) (update : Update) :
    (manager.step update).getReputation update.peerId =
      .new ((manager.getReputation update.peerId).score + update.change) := by
  rw [getReputation, step, updateReputation, Finmap.lookup_insert, Option.getD_some]
  split
  · rfl
  · next hle =>
      rw [Reputation.decrease, sub_abs hle]
      rfl

theorem getReputation_step_of_ne (manager : PeerManager) (update : Update) {peerId : PeerId}
    (h : peerId ≠ update.peerId) :
    (manager.step update).getReputation peerId = manager.getReputation peerId := by
  rw [getReputation, step, updateReputation, Finmap.lookup_insert_of_ne _ h]
  rfl

theorem bounded (manager : PeerManager) : manager.Bounded :=
  fun peerId => (manager.getReputation peerId).score_mem

theorem score_step (manager : PeerManager) (update : Update) :
    (manager.step update).score update.peerId =
      clamp ((manager.score update.peerId + update.change.toInt).bmod (2 ^ 32)) (-100) 100 := by
  rw [score, getReputation_step, Reputation.toInt_new, Int32.toInt_add]
  rfl

theorem clamp_bmod_eq_iff {score change : Int} (hscore : -100 ≤ score ∧ score ≤ 100)
    (hchange : -2 ^ 31 ≤ change ∧ change < 2 ^ 31) :
    clamp ((score + change).bmod (2 ^ 32)) (-100) 100 = clamp (score + change) (-100) 100 ↔
      -2 ^ 31 ≤ score + change ∧ score + change < 2 ^ 31 := by
  rw [Int.bmod_def, clamp, clamp]
  omega

/-- **When a call is right.** -/
theorem exact_step_iff (manager : PeerManager) (update : Update) :
    manager.Exact update ↔ manager.Fits update := by
  have hbounds := manager.bounded update.peerId
  have hsum := clamp_bmod_eq_iff hbounds ⟨update.change.le_toInt, update.change.toInt_lt⟩
  rw [← score_step] at hsum
  constructor
  · intro h
    exact hsum.mp h.sum
  · intro h
    have hscore := hsum.mpr h
    refine ⟨hscore, fun peerId hne => getReputation_step_of_ne manager update hne, ?_, ?_⟩
    · intro hpos
      have hnumber : 0 < update.change.toInt := Int32.lt_iff_toInt_lt.mp hpos
      rw [hscore, clamp]
      omega
    · intro hneg
      have hnumber : update.change.toInt < 0 := Int32.lt_iff_toInt_lt.mp hneg
      rw [hscore, clamp]
      omega

/-! ## Runs -/

/-- **Scores stay within the bounds**, in every run; **and every call is right** in exactly the
runs in which no sum wraps around. -/
theorem exact_iff (manager : PeerManager) (updates : List Update) :
    Runs.Visits step Bounded manager updates ∧
      (Runs.Along step Exact manager updates ↔ Runs.Along step Fits manager updates) := by
  constructor
  · exact Runs.visits_of_invariant (I := fun _ => True) (fun manager _ => bounded manager)
      (fun _ _ _ => trivial) trivial updates
  · exact Runs.along_congr (I := fun _ => True) (fun _ _ _ => trivial)
      (fun manager update _ => exact_step_iff manager update) trivial updates

/-- A peer that is praised twice as much as can be is to be banned. -/
theorem banned_for_praise :
    let peerId : PeerId := ⟨List.Vector.replicate 32 1⟩
    ¬Runs.Along step Exact new [⟨peerId, 2147483647⟩, ⟨peerId, 2147483647⟩] ∧
      (Runs.run step new [⟨peerId, 2147483647⟩, ⟨peerId, 2147483647⟩]).shouldBan peerId = true := by
  intro peerId
  have hfirst : (new.step ⟨peerId, 2147483647⟩).getReputation peerId =
      .new (Reputation.initial.score + 2147483647) :=
    getReputation_step new ⟨peerId, 2147483647⟩
  constructor
  · rintro ⟨-, hsecond, -⟩
    have hfits := (exact_step_iff _ _).mp hsecond
    rw [Fits, score, hfirst] at hfits
    revert hfits
    decide
  · rw [Runs.run_cons, Runs.run_cons, Runs.run_nil, shouldBan, getReputation_step, hfirst]
    decide

end PeerManager

end VotingChain
