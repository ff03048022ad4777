/-
# `VotingChain.Turnout` — how many of the voters have voted

The model of the counts of `EligibilityRegistry` in `voting/src/eligibility.rs`.  A voter
has one status, so whoever votes is not eligible any more: the voter leaves the one count
for the other.  `turnout_percentage` divides the one by the other,

    voted / eligible × 100        and 0 if nobody is eligible

where the voters who have voted belong into the denominator, too.  The two agree as long as
nobody has voted, and never after that (`EligibilityRegistry.ratio_eq_iff`): with half of
the voters the result is 100, with more than half it is above, and with all of them 0.

The fraction is computed in floating point; here it is a rational number.
-/
import Mathlib.Data.Rat.Cast.Order
import Mathlib.Tactic.FieldSimp
import Mathlib.Tactic.Positivity
import VotingChain.Eligibility
import VotingChain.Lib.Maps

namespace VotingChain

namespace EligibilityRegistry

/-- How many records have a status. -/
def countStatus (status : EligibilityStatus) (registry : EligibilityRegistry) : Nat :=
  registry.eligibleVoters.entries.countP fun entry => entry.2.status = status

def totalEligible (registry : EligibilityRegistry) : Nat := registry.countStatus .eligible

def totalVoted (registry : EligibilityRegistry) : Nat := registry.countStatus .alreadyVoted

def turnoutPercentage (registry : EligibilityRegistry) : Rat :=
  let eligible := registry.totalEligible
  let voted := registry.totalVoted
  if eligible = 0 then 0 else (voted : Rat) / (eligible : Rat) * 100

/-! ## Counting voters -/

/-- The voters with a status. -/
def withStatus (status : EligibilityStatus) (registry : EligibilityRegistry) : Finset VoterId :=
  registry.eligibleVoters.keys.filter fun v => registry.status v = some status

theorem mem_withStatus {status : EligibilityStatus} {registry : EligibilityRegistry}
    {v : VoterId} : v ∈ registry.withStatus status ↔ registry.status v = some status := by
  rw [withStatus, Finset.mem_filter, Finmap.mem_keys, mem_iff_status_ne_none]
  refine and_iff_right_of_imp ?_
  intro h
  rw [h]
  exact Option.some_ne_none status

theorem card_withStatus (status : EligibilityStatus) (registry : EligibilityRegistry) :
    (registry.withStatus status).card = registry.countStatus status := by
  have hcard := Finmap.card_filter_keys
    (fun record : EligibilityRecord => decide (record.status = status)) registry.eligibleVoters
  simp only [decide_eq_true_eq] at hcard
  rw [countStatus, ← hcard, withStatus]
  congr 1
  refine Finset.filter_congr ?_
  intro v _
  rw [EligibilityRegistry.status, getRecord]
  cases registry.eligibleVoters.lookup v with
  | none => exact iff_of_false (Option.some_ne_none status).symm Bool.false_ne_true
  | some record =>
      rw [Option.map_some, Option.some.injEq, Option.any_some, decide_eq_true_eq]

theorem card_union_withStatus (registry : EligibilityRegistry) :
    (registry.withStatus .alreadyVoted ∪ registry.withStatus .eligible).card =
      registry.totalVoted + registry.totalEligible := by
  rw [Finset.card_union_of_disjoint, card_withStatus, card_withStatus]
  · rfl
  · rw [Finset.disjoint_left]
    intro v hvoted heligible
    rw [mem_withStatus] at hvoted heligible
    rw [hvoted] at heligible
    cases heligible

/-! ## The percentage -/

/-- Two fractions of numbers of voters: of those who may vote still, and of all. -/
theorem ratio_eq_iff (voted eligible : Nat) :
    (if eligible = 0 then 0 else (voted : Rat) / (eligible : Rat) * 100) =
      100 * (voted : Rat) / ((voted + eligible : Nat) : Rat) ↔ voted = 0 := by
  constructor
  · intro h
    by_contra hvoted
    have hpos : (0 : Rat) < voted := Nat.cast_pos.mpr (Nat.pos_of_ne_zero hvoted)
    by_cases heligible : eligible = 0
    · subst heligible
      rw [if_pos rfl, Nat.add_zero, mul_div_cancel_right₀ _ hpos.ne'] at h
      exact absurd h (by decide)
    · have hpos' : (0 : Rat) < eligible := Nat.cast_pos.mpr (Nat.pos_of_ne_zero heligible)
      rw [if_neg heligible, Nat.cast_add] at h
      have hsum : (0 : Rat) < voted + eligible := add_pos hpos hpos'
      field_simp at h
      exact hpos.ne' (add_eq_right.mp h)
  · rintro rfl
    simp

theorem turnoutPercentage_nonneg (registry : EligibilityRegistry) :
    0 ≤ registry.turnoutPercentage := by
  rw [turnoutPercentage]
  split
  · exact le_refl 0
  · positivity

theorem turnoutPercentage_of_unvoted {registry : EligibilityRegistry}
    (h : registry.totalVoted = 0) : registry.turnoutPercentage = 0 := by
  rw [turnoutPercentage, h]
  simp

/-! ## Runs -/

/-- The call does not revoke a voter who has voted. -/
def RevokesBeforeVote (registry : EligibilityRegistry) (call : Call) : Prop :=
  ∀ v, call = .revoke v → registry.hasVoted v = false

/-- The call marks nobody who is in the registry. -/
def MarksNobody (registry : EligibilityRegistry) (call : Call) : Prop :=
  ∀ v, call = .markVoted v → registry.status v = none

theorem mem_marked_step {registry : EligibilityRegistry} {voted : List VoterId}
    (h : ∀ v, v ∈ voted ↔ registry.status v = some .alreadyVoted) {call : Call}
    (hcall : RevokesBeforeVote registry call) (v : VoterId) :
    v ∈ voted ++ marked registry call ↔ (step registry call).status v = some .alreadyVoted := by
  cases call with
  | register now w jurisdiction =>
      rw [marked, List.append_nil, h]
      rcases exec_registerEligibleVoter now w jurisdiction registry with
        ⟨hw, registry', hexec, hstatus⟩ | ⟨-, e, hexec⟩
      · rw [step, Exec.next_of_ok hexec, hstatus]
        rcases eq_or_ne v w with rfl | hne
        · rw [Function.update_self, hw]
          exact iff_of_false (Option.some_ne_none _).symm (by decide)
        · rw [Function.update_of_ne hne]
      · rw [step, Exec.next_of_error hexec]
  | revoke w =>
      rw [marked, List.append_nil, h]
      rcases exec_revokeEligibility w registry with ⟨-, registry', hexec, hstatus⟩ | ⟨-, e, hexec⟩
      · rw [step, Exec.next_of_ok hexec, hstatus]
        rcases eq_or_ne v w with rfl | hne
        · rw [Function.update_self]
          exact iff_of_false (of_decide_eq_false (hcall v rfl)) (by decide)
        · rw [Function.update_of_ne hne]
      · rw [step, Exec.next_of_error hexec]
  | markVoted w =>
      rw [List.mem_append, h, marked]
      rcases exec_markVoted w registry with ⟨-, registry', hexec, hstatus⟩ | ⟨-, e, hexec⟩
      · rw [step, Exec.next_of_ok hexec, hstatus, hexec]
        rcases eq_or_ne v w with rfl | hne
        · rw [Function.update_self]
          exact iff_of_true (Or.inr (List.mem_singleton_self v)) rfl
        · rw [Function.update_of_ne hne]
          exact or_iff_left fun hw => hne (List.mem_singleton.mp hw)
      · rw [step, Exec.next_of_error hexec, hexec]
        exact or_iff_left List.not_mem_nil

theorem mem_marked_run {electionId : ElectionId} {calls : List Call}
    (h : Runs.Along step RevokesBeforeVote (new electionId) calls) (v : VoterId) :
    v ∈ Runs.trace step marked (new electionId) calls ↔
      (Runs.run step (new electionId) calls).status v = some .alreadyVoted := by
  induction calls using List.reverseRecOn generalizing v with
  | nil => exact iff_of_false List.not_mem_nil nofun
  | append_singleton calls call ih =>
      obtain ⟨hcalls, hcall⟩ := Runs.along_concat.mp h
      rw [Runs.trace_concat, Runs.run_concat]
      exact mem_marked_step (ih hcalls) hcall v

/-- Nobody was marked: every call that was to mark a voter named one not in the registry. -/
theorem marked_run_eq_nil_iff {electionId : ElectionId} {calls : List Call}
    (h : Runs.Along step RevokesBeforeVote (new electionId) calls) :
    Runs.trace step marked (new electionId) calls = [] ↔
      Runs.Along step MarksNobody (new electionId) calls := by
  induction calls using List.reverseRecOn with
  | nil => exact iff_of_true rfl trivial
  | append_singleton calls call ih =>
      obtain ⟨hcalls, -⟩ := Runs.along_concat.mp h
      rw [Runs.trace_concat, List.append_eq_nil_iff, Runs.along_concat, ih hcalls]
      refine and_congr_right fun hnobody => ?_
      have hunvoted := mem_marked_run hcalls
      rw [(ih hcalls).mpr hnobody] at hunvoted
      constructor
      · rintro hmarked v rfl
        rcases exec_markVoted v (Runs.run step (new electionId) calls) with
          ⟨-, registry', hexec, -⟩ | ⟨hv | hv, -⟩
        · rw [marked, hexec] at hmarked
          cases hmarked
        · exact hv
        · exact absurd ((hunvoted v).mpr hv) List.not_mem_nil
      · intro hnone
        cases call with
        | register now v jurisdiction => rfl
        | revoke v => rfl
        | markVoted v =>
            rcases exec_markVoted v (Runs.run step (new electionId) calls) with
              ⟨⟨status, hv, -⟩, -⟩ | ⟨-, e, hexec⟩
            · rw [hnone v rfl] at hv
              cases hv
            · rw [marked, hexec]

/-! ## When the percentage is right -/

/-- The percentage is that of those who voted among those who voted or may still vote; it is
no more than 100, does not sink when an eligible voter votes, and is 100 when all have
voted. -/
structure TurnoutRight (registry : EligibilityRegistry) (voted : Finset VoterId) : Prop where
  ratio : registry.turnoutPercentage =
    100 * (voted.card : Rat) / ((voted ∪ registry.withStatus .eligible).card : Rat)
  le : registry.turnoutPercentage ≤ 100
  monotone : ∀ v, registry.isEligible v = true →
    registry.turnoutPercentage ≤ (step registry (.markVoted v)).turnoutPercentage
  full : voted.Nonempty → registry.withStatus .eligible = ∅ → registry.turnoutPercentage = 100

theorem turnoutRight_iff (registry : EligibilityRegistry) :
    TurnoutRight registry (registry.withStatus .alreadyVoted) ↔
      registry.withStatus .alreadyVoted = ∅ := by
  have hcard : registry.totalVoted = 0 ↔ registry.withStatus .alreadyVoted = ∅ := by
    rw [← Finset.card_eq_zero, card_withStatus]
    rfl
  rw [← hcard]
  constructor
  · intro h
    have hratio := h.ratio
    rw [card_union_withStatus, card_withStatus] at hratio
    exact (ratio_eq_iff registry.totalVoted registry.totalEligible).mp hratio
  · intro hnone
    have hzero := turnoutPercentage_of_unvoted hnone
    refine ⟨?_, ?_, ?_, ?_⟩
    · rw [card_union_withStatus, card_withStatus]
      exact (ratio_eq_iff registry.totalVoted registry.totalEligible).mpr hnone
    · rw [hzero]
      decide
    · intro v _
      rw [hzero]
      exact turnoutPercentage_nonneg _
    · intro hsome _
      rw [hcard.mp hnone] at hsome
      exact absurd hsome Finset.not_nonempty_empty

/-- **When the turnout is right.**  In a run in which voters are revoked only before they
vote, the percentage is right all the time exactly if nobody in the registry is marked. -/
theorem turnout_right_iff (electionId : ElectionId) (calls : List Call)
    (h : Runs.Along step RevokesBeforeVote (new electionId) calls) :
    (∀ before after, calls = before ++ after →
      TurnoutRight (Runs.run step (new electionId) before)
        (Runs.trace step marked (new electionId) before).toFinset) ↔
    Runs.Along step MarksNobody (new electionId) calls := by
  have hstate : ∀ before after, calls = before ++ after →
      (TurnoutRight (Runs.run step (new electionId) before)
          (Runs.trace step marked (new electionId) before).toFinset ↔
        Runs.Along step MarksNobody (new electionId) before) := by
    rintro before after rfl
    have hbefore := (Runs.along_append.mp h).1
    have hvoted : (Runs.trace step marked (new electionId) before).toFinset =
        (Runs.run step (new electionId) before).withStatus .alreadyVoted := by
      ext v
      rw [List.mem_toFinset, mem_marked_run hbefore, mem_withStatus]
    rw [hvoted, turnoutRight_iff, ← hvoted, List.toFinset_eq_empty_iff,
      marked_run_eq_nil_iff hbefore]
  constructor
  · intro hright
    exact (hstate calls [] (List.append_nil calls).symm).mp
      (hright calls [] (List.append_nil calls).symm)
  · rintro hnobody before after rfl
    exact (hstate before after rfl).mpr (Runs.along_append.mp hnobody).1

/-- Two voters are registered, and one is revoked; nobody votes. -/
theorem turnout_right_iff_unvoted :
    TurnoutRight
      (Runs.run step (new ⟨List.Vector.replicate 16 1⟩)
        [.register 1000 Reference.voter.id "Test", .register 1000 Reference.otherVoterId "Test",
          .revoke Reference.otherVoterId])
      (Runs.trace step marked (new ⟨List.Vector.replicate 16 1⟩)
        [.register 1000 Reference.voter.id "Test", .register 1000 Reference.otherVoterId "Test",
          .revoke Reference.otherVoterId]).toFinset := by
  refine (turnout_right_iff ⟨List.Vector.replicate 16 1⟩ _ ?_).mpr ?_ _ [] (List.append_nil _).symm
  · refine ⟨nofun, nofun, ?_, trivial⟩
    rintro v hv
    obtain rfl := Call.revoke.inj hv
    decide +kernel
  · exact ⟨nofun, nofun, nofun, trivial⟩

/-- One of two voters votes, and the turnout is 100; the other votes, too, and it is 0. -/
theorem turnout_of_two :
    let calls : List Call := [.register 1000 Reference.voter.id "Test",
      .register 1000 Reference.otherVoterId "Test", .markVoted Reference.voter.id,
      .markVoted Reference.otherVoterId]
    Runs.Along step RevokesBeforeVote (new ⟨List.Vector.replicate 16 1⟩) calls ∧
    (Runs.run step (new ⟨List.Vector.replicate 16 1⟩) (calls.take 3)).turnoutPercentage = 100 ∧
    (Runs.run step (new ⟨List.Vector.replicate 16 1⟩) calls).turnoutPercentage = 0 ∧
    ¬TurnoutRight (Runs.run step (new ⟨List.Vector.replicate 16 1⟩) calls)
      (Runs.trace step marked (new ⟨List.Vector.replicate 16 1⟩) calls).toFinset := by
  intro calls
  have hzero : (Runs.run step (new ⟨List.Vector.replicate 16 1⟩) calls).turnoutPercentage = 0 := by
    decide +kernel
  refine ⟨⟨nofun, nofun, nofun, nofun, trivial⟩, by decide +kernel, hzero, ?_⟩
  intro h
  -- all have voted
  have hsome :
      (Runs.trace step marked (new ⟨List.Vector.replicate 16 1⟩) calls).toFinset.Nonempty :=
    ⟨Reference.voter.id, by decide +kernel⟩
  have hall :
      (Runs.run step (new ⟨List.Vector.replicate 16 1⟩) calls).withStatus .eligible = ∅ := by
    decide +kernel
  have hfull := h.full hsome hall
  rw [hzero] at hfull
  exact absurd hfull (by decide)

end EligibilityRegistry

end VotingChain
