/-
# `VotingChain.Provisional` — provisional ballots, and what becomes of them

The model of `ProvisionalBallotTracker` of `voting/src/eligibility.rs`: one ballot a voter, which
is approved or rejected, and may be decided again.

    add_provisional_vote   refused if the voter has one, or put in with the status it comes with
    approve, reject        refused if the voter has none, or the status is written over

So after a run a voter has the first ballot that was handed in for them, with the last of the
decisions after it; a decision before there is a ballot is refused and leaves nothing behind.  The
three counts are of voters, and every voter with a ballot is in one of them (`provisional_run`).
-/
import VotingChain.Ballot
import VotingChain.Lib.Maps
import VotingChain.Lib.Runs
import Mathlib.Algebra.BigOperators.Group.Finset.Piecewise

namespace VotingChain

inductive ProvisionalStatus where
  | pending
  | approved
  | rejected (reason : String)
  deriving DecidableEq

namespace ProvisionalStatus

def isPending : ProvisionalStatus → Bool
  | pending => true
  | _ => false

def isApproved : ProvisionalStatus → Bool
  | approved => true
  | _ => false

def isRejected : ProvisionalStatus → Bool
  | rejected _ => true
  | _ => false

end ProvisionalStatus

structure ProvisionalVote where
  voterId : VoterId
  ballotId : BallotId
  electionId : ElectionId
  castAt : Timestamp
  status : ProvisionalStatus
  reason : String
  deriving DecidableEq

structure ProvisionalBallotTracker where
  provisionalVotes : Finmap fun _ : VoterId => ProvisionalVote

namespace ProvisionalBallotTracker

def new : ProvisionalBallotTracker := ⟨∅⟩

/-- Put a vote in, in the place of the one that is there. -/
def put (vote : ProvisionalVote) (voterId : VoterId) (tracker : ProvisionalBallotTracker) :
    ProvisionalBallotTracker :=
  ⟨tracker.provisionalVotes.insert voterId vote⟩

def addProvisionalVote (vote : ProvisionalVote) : Exec ProvisionalBallotTracker Unit := do
  Exec.lift (ensure (decide (vote.voterId ∉ (← get).provisionalVotes)) .alreadyVoted)
  modify (put vote vote.voterId)

/-- The body of `approve_provisional` and `reject_provisional`. -/
def setStatus (status : ProvisionalStatus) (voterId : VoterId) :
    Exec ProvisionalBallotTracker Unit := do
  match (← get).provisionalVotes.lookup voterId with
  | some vote => modify (put { vote with status } voterId)
  | none => Exec.lift (fail (.voterNotEligible "Provisional vote not found"))

def approveProvisional (voterId : VoterId) : Exec ProvisionalBallotTracker Unit :=
  setStatus .approved voterId

def rejectProvisional (voterId : VoterId) (reason : String) : Exec ProvisionalBallotTracker Unit :=
  setStatus (.rejected reason) voterId

def getProvisionalVote (tracker : ProvisionalBallotTracker) (voterId : VoterId) :
    Option ProvisionalVote :=
  tracker.provisionalVotes.lookup voterId

/-- How many votes have a status of this kind. -/
def countOf (p : ProvisionalStatus → Bool) (tracker : ProvisionalBallotTracker) : Nat :=
  tracker.provisionalVotes.entries.countP fun entry => p entry.2.status = true

def pendingCount (tracker : ProvisionalBallotTracker) : Nat :=
  tracker.countOf ProvisionalStatus.isPending

def approvedCount (tracker : ProvisionalBallotTracker) : Nat :=
  tracker.countOf ProvisionalStatus.isApproved

def rejectedCount (tracker : ProvisionalBallotTracker) : Nat :=
  tracker.countOf ProvisionalStatus.isRejected

end ProvisionalBallotTracker

/-- A call of a tracker. -/
inductive ProvisionalCall
  | add (vote : ProvisionalVote)
  | approve (voterId : VoterId)
  | reject (voterId : VoterId) (reason : String)

namespace ProvisionalCall

/-- The ballot that is handed in. -/
def ballot : ProvisionalCall → Option ProvisionalVote
  | .add vote => some vote
  | _ => none

/-- What is decided about a voter. -/
def decision (voterId : VoterId) : ProvisionalCall → Option ProvisionalStatus
  | .add _ => none
  | .approve v => if v = voterId then some .approved else none
  | .reject v reason => if v = voterId then some (.rejected reason) else none

end ProvisionalCall

namespace ProvisionalBallotTracker

/-- What a call does to a tracker, and what it returns. -/
def call (tracker : ProvisionalBallotTracker) :
    ProvisionalCall → Result Unit × ProvisionalBallotTracker
  | .add vote => (addProvisionalVote vote).exec tracker
  | .approve voterId => (approveProvisional voterId).exec tracker
  | .reject voterId reason => (rejectProvisional voterId reason).exec tracker

def step (tracker : ProvisionalBallotTracker) (c : ProvisionalCall) : ProvisionalBallotTracker :=
  (tracker.call c).2

/-! ## One call -/

/-- The vote, with what was decided. -/
def decided (status : Option ProvisionalStatus) (vote : ProvisionalVote) : ProvisionalVote :=
  { vote with status := status.getD vote.status }

theorem getProvisionalVote_put (vote : ProvisionalVote) (v w : VoterId)
    (tracker : ProvisionalBallotTracker) :
    (tracker.put vote v).getProvisionalVote w =
      if w = v then some vote else tracker.getProvisionalVote w := by
  rw [getProvisionalVote, put]
  split
  · next h => rw [h, Finmap.lookup_insert]
  · next h => rw [Finmap.lookup_insert_of_ne _ h, getProvisionalVote]

theorem call_add_of_none {vote : ProvisionalVote} {tracker : ProvisionalBallotTracker}
    (h : tracker.getProvisionalVote vote.voterId = none) :
    tracker.call (.add vote) = (.ok (), tracker.put vote vote.voterId) := by
  have hfresh : vote.voterId ∉ tracker.provisionalVotes := Finmap.lookup_eq_none.mp h
  rw [call, addProvisionalVote, Exec.exec_get_bind, Exec.exec_lift_bind, decide_eq_true hfresh]
  rfl

theorem call_add_of_some {vote found : ProvisionalVote} {tracker : ProvisionalBallotTracker}
    (h : tracker.getProvisionalVote vote.voterId = some found) :
    tracker.call (.add vote) = (.error (.err .alreadyVoted), tracker) := by
  have hmem : ¬vote.voterId ∉ tracker.provisionalVotes :=
    not_not.mpr (Finmap.mem_of_lookup_eq_some h)
  rw [call, addProvisionalVote, Exec.exec_get_bind, Exec.exec_lift_bind, decide_eq_false hmem]
  rfl

theorem exec_setStatus_of_none {v : VoterId} {tracker : ProvisionalBallotTracker}
    (h : tracker.getProvisionalVote v = none) (status : ProvisionalStatus) :
    (setStatus status v).exec tracker =
      (.error (.err (.voterNotEligible "Provisional vote not found")), tracker) := by
  rw [getProvisionalVote] at h
  rw [setStatus, Exec.exec_get_bind, h]
  rfl

theorem exec_setStatus_of_some {v : VoterId} {vote : ProvisionalVote}
    {tracker : ProvisionalBallotTracker} (h : tracker.getProvisionalVote v = some vote)
    (status : ProvisionalStatus) :
    (setStatus status v).exec tracker = (.ok (), tracker.put { vote with status } v) := by
  rw [getProvisionalVote] at h
  rw [setStatus, Exec.exec_get_bind, h]
  rfl

theorem get_setStatus (status : ProvisionalStatus) (v w : VoterId)
    (tracker : ProvisionalBallotTracker) :
    ((setStatus status v).exec tracker).2.getProvisionalVote w =
      (tracker.getProvisionalVote w).map (decided (if v = w then some status else none)) := by
  cases hv : tracker.getProvisionalVote v with
  | none =>
      rw [exec_setStatus_of_none hv]
      by_cases hvw : v = w
      · rw [← hvw, hv]
        rfl
      · rw [if_neg hvw]
        exact (Option.map_id' ..).symm
  | some vote =>
      rw [exec_setStatus_of_some hv, getProvisionalVote_put]
      by_cases hvw : v = w
      · rw [if_pos hvw.symm, if_pos hvw, ← hvw, hv]
        rfl
      · rw [if_neg fun h => hvw h.symm, if_neg hvw]
        exact (Option.map_id' ..).symm

/-- **What a call does to the ballot of a voter.**  If there is none, a ballot for the voter is
put in; if there is one, it stays, with what was decided about the voter. -/
theorem get_step (tracker : ProvisionalBallotTracker) (c : ProvisionalCall) (w : VoterId) :
    (∃ vote, c = .add vote ∧ vote.voterId = w ∧ tracker.getProvisionalVote w = none ∧
      (tracker.step c).getProvisionalVote w = some vote) ∨
    ((∀ vote, c = .add vote → vote.voterId = w → tracker.getProvisionalVote w ≠ none) ∧
      (tracker.step c).getProvisionalVote w =
        (tracker.getProvisionalVote w).map (decided (c.decision w))) := by
  cases c with
  | add vote =>
      rw [step]
      cases hfound : tracker.getProvisionalVote vote.voterId with
      | none =>
          rw [call_add_of_none hfound, getProvisionalVote_put]
          by_cases hw : vote.voterId = w
          · rw [if_pos hw.symm]
            exact Or.inl ⟨vote, rfl, hw, hw ▸ hfound, rfl⟩
          · rw [if_neg fun h => hw h.symm]
            refine Or.inr ⟨?_, (Option.map_id' ..).symm⟩
            rintro vote' heq hw'
            cases heq
            exact absurd hw' hw
      | some found =>
          rw [call_add_of_some hfound]
          refine Or.inr ⟨?_, (Option.map_id' ..).symm⟩
          rintro vote' heq rfl
          cases heq
          rw [hfound]
          exact Option.some_ne_none found
  | approve v =>
      refine Or.inr ⟨?_, get_setStatus .approved v w tracker⟩
      intro vote heq
      cases heq
  | reject v reason =>
      refine Or.inr ⟨?_, get_setStatus (.rejected reason) v w tracker⟩
      intro vote heq
      cases heq

/-! ## A run -/

/-- The decisions about a voter, in order. -/
def decisions (v : VoterId) (calls : List ProvisionalCall) : List ProvisionalStatus :=
  calls.filterMap (ProvisionalCall.decision v)

/-- What the calls leave of a voter: the first ballot, with the last decision after it. -/
def recordOf (v : VoterId) : List ProvisionalCall → Option ProvisionalVote
  | [] => none
  | .add vote :: calls =>
      if vote.voterId = v then some (decided (decisions v calls).getLast? vote)
      else recordOf v calls
  | .approve _ :: calls => recordOf v calls
  | .reject _ _ :: calls => recordOf v calls

/-- The voters that a ballot was handed in for. -/
def voters (calls : List ProvisionalCall) : Finset VoterId :=
  ((calls.filterMap ProvisionalCall.ballot).map ProvisionalVote.voterId).toFinset

theorem get_run_of_some {tracker : ProvisionalBallotTracker} {v : VoterId}
    {vote : ProvisionalVote} (h : tracker.getProvisionalVote v = some vote)
    (calls : List ProvisionalCall) :
    (Runs.run step tracker calls).getProvisionalVote v =
      some (decided (decisions v calls).getLast? vote) := by
  induction calls using List.reverseRecOn with
  | nil => exact h
  | append_singleton calls c ih =>
      rw [Runs.run_concat, decisions, List.filterMap_append]
      rcases get_step (Runs.run step tracker calls) c v with ⟨vote', -, -, hnone, -⟩ | ⟨-, hstep⟩
      · rw [ih] at hnone
        cases hnone
      · rw [hstep, ih]
        cases hdecision : c.decision v with
        | none =>
            rw [List.filterMap_cons_none hdecision, List.filterMap_nil, List.append_nil]
            rfl
        | some status =>
            rw [List.filterMap_cons_some hdecision, List.filterMap_nil, List.getLast?_concat]
            rfl

/-- **What a run leaves of a voter.** -/
theorem get_run {tracker : ProvisionalBallotTracker} {v : VoterId}
    (h : tracker.getProvisionalVote v = none) (calls : List ProvisionalCall) :
    (Runs.run step tracker calls).getProvisionalVote v = recordOf v calls := by
  induction calls generalizing tracker with
  | nil => exact h
  | cons c calls ih =>
      rw [Runs.run_cons]
      rcases get_step tracker c v with ⟨vote, rfl, hv, -, hput⟩ | ⟨hnot, hstep⟩
      · rw [recordOf, if_pos hv, get_run_of_some hput]
      · rw [h, Option.map_none] at hstep
        rw [ih hstep]
        cases c with
        | add vote => rw [recordOf, if_neg fun hv => hnot vote rfl hv h]
        | approve w => rw [recordOf]
        | reject w reason => rw [recordOf]

theorem mem_voters {v : VoterId} {calls : List ProvisionalCall} :
    v ∈ voters calls ↔ recordOf v calls ≠ none := by
  rw [voters, List.mem_toFinset]
  induction calls with
  | nil => simp [recordOf]
  | cons c calls ih =>
      cases c with
      | approve w => exact ih
      | reject w reason => exact ih
      | add vote =>
          have hballot : ProvisionalCall.ballot (.add vote) = some vote := rfl
          rw [recordOf, List.filterMap_cons_some hballot, List.map_cons, List.mem_cons, ih]
          by_cases hv : vote.voterId = v
          · rw [if_pos hv]
            exact iff_of_true (Or.inl hv.symm) (Option.some_ne_none _)
          · rw [if_neg hv]
            exact or_iff_right fun h => hv h.symm

/-- The voters whose ballot the calls leave with a status of this kind. -/
def votersWith (p : ProvisionalStatus → Bool) (calls : List ProvisionalCall) : Finset VoterId :=
  (voters calls).filter fun v => (recordOf v calls).any (fun vote => p vote.status) = true

theorem countOf_run (p : ProvisionalStatus → Bool) (calls : List ProvisionalCall) :
    (Runs.run step new calls).countOf p = (votersWith p calls).card := by
  have hcount := Finmap.card_filter_keys (fun vote : ProvisionalVote => p vote.status)
    (Runs.run step new calls).provisionalVotes
  have hget : ∀ v, (Runs.run step new calls).provisionalVotes.lookup v = recordOf v calls :=
    fun v => get_run rfl calls
  have hkeys : (Runs.run step new calls).provisionalVotes.keys = voters calls := by
    ext v
    rw [Finmap.mem_keys, mem_voters, ← hget v, ne_eq, Finmap.lookup_eq_none, not_not]
  rw [countOf, ← hcount, votersWith, hkeys]
  simp only [hget]

theorem card_votersWith (calls : List ProvisionalCall) :
    (votersWith ProvisionalStatus.isPending calls).card +
      (votersWith ProvisionalStatus.isApproved calls).card +
      (votersWith ProvisionalStatus.isRejected calls).card = (voters calls).card := by
  rw [Finset.card_eq_sum_ones (voters calls)]
  simp only [votersWith, Finset.card_filter, ← Finset.sum_add_distrib]
  refine Finset.sum_congr rfl ?_
  intro v hv
  obtain ⟨vote, hvote⟩ := Option.ne_none_iff_exists'.mp (mem_voters.mp hv)
  rw [hvote]
  cases hstatus : vote.status <;>
    simp [hstatus, ProvisionalStatus.isPending, ProvisionalStatus.isApproved,
      ProvisionalStatus.isRejected]

/-- What a call answers after the calls before it. -/
def answerAfter (calls : List ProvisionalCall) : ProvisionalCall → Result Unit
  | .add vote => if vote.voterId ∈ voters calls then .error (.err .alreadyVoted) else .ok ()
  | .approve v | .reject v _ =>
      if v ∈ voters calls then .ok ()
      else .error (.err (.voterNotEligible "Provisional vote not found"))

theorem exec_setStatus_run (status : ProvisionalStatus) (v : VoterId)
    (calls : List ProvisionalCall) :
    ((setStatus status v).exec (Runs.run step new calls)).1 =
      if v ∈ voters calls then .ok ()
      else .error (.err (.voterNotEligible "Provisional vote not found")) := by
  have hget : (Runs.run step new calls).getProvisionalVote v = recordOf v calls :=
    get_run rfl calls
  simp only [mem_voters]
  cases hrecord : recordOf v calls with
  | none => rw [exec_setStatus_of_none (hget.trans hrecord), if_neg (not_not.mpr rfl)]
  | some vote =>
      rw [exec_setStatus_of_some (hget.trans hrecord), if_pos (Option.some_ne_none vote)]

theorem call_run (calls : List ProvisionalCall) (c : ProvisionalCall) :
    ((Runs.run step new calls).call c).1 = answerAfter calls c := by
  cases c with
  | approve v => exact exec_setStatus_run .approved v calls
  | reject v reason => exact exec_setStatus_run (.rejected reason) v calls
  | add vote =>
      have hget : (Runs.run step new calls).getProvisionalVote vote.voterId =
          recordOf vote.voterId calls := get_run rfl calls
      simp only [answerAfter, mem_voters]
      cases hrecord : recordOf vote.voterId calls with
      | none => rw [call_add_of_none (hget.trans hrecord), if_neg (not_not.mpr rfl)]
      | some found =>
          rw [call_add_of_some (hget.trans hrecord), if_pos (Option.some_ne_none found)]

/-- **Any run.**  A voter has the first ballot that was handed in for them, with the last decision
after it, and nothing else is remembered: a second ballot is refused, and so is a decision about a
voter with no ballot yet.  The three counts count the voters by what they are left with, and add
up to the voters there is a ballot of. -/
theorem provisional_run (calls : List ProvisionalCall) :
    (∀ v, (Runs.run step new calls).getProvisionalVote v = recordOf v calls) ∧
    (∀ c, ((Runs.run step new calls).call c).1 = answerAfter calls c) ∧
    (Runs.run step new calls).pendingCount =
      (votersWith ProvisionalStatus.isPending calls).card ∧
    (Runs.run step new calls).approvedCount =
      (votersWith ProvisionalStatus.isApproved calls).card ∧
    (Runs.run step new calls).rejectedCount =
      (votersWith ProvisionalStatus.isRejected calls).card ∧
    (Runs.run step new calls).pendingCount + (Runs.run step new calls).approvedCount +
      (Runs.run step new calls).rejectedCount = (voters calls).card := by
  have hpending := countOf_run ProvisionalStatus.isPending calls
  have happroved := countOf_run ProvisionalStatus.isApproved calls
  have hrejected := countOf_run ProvisionalStatus.isRejected calls
  refine ⟨fun v => get_run rfl calls, call_run calls, hpending, happroved, hrejected, ?_⟩
  rw [pendingCount, approvedCount, rejectedCount, hpending, happroved, hrejected,
    card_votersWith]

end ProvisionalBallotTracker

end VotingChain
