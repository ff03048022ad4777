/-
# `VotingChain.Integrity` — auditing a list of cast ballots

The model of `IntegrityChecker` in `voting/src/verification.rs`.  A check goes over the
cast ballots and collects issues in a report, which is valid if there are none.

**`check_vote_chain`** keeps the ballot ids and the voter ids that it has seen in two
sets.  How many issues of a kind it finds depends on which ballots there are and not on
their order (`IntegrityChecker.checkVoteChain_counts`).

**`verify_timestamps`** is to find out whether the ballots were cast in the order in which
they are listed.  It sorts them by the time first and looks for neighbours in the wrong
order then, and after sorting there are none.  So a list in the wrong order passes
(`IntegrityChecker.verifyTimestamps_audits_iff`).
-/
import VotingChain.VoteCasting
import VotingChain.Lib.Passes

namespace VotingChain

open Repeats (repeats)

inductive IntegrityIssue where
  | electionMismatch
  | emptyBallot
  | missingCommitment
  | missingTransactionId
  | duplicateBallot
  | duplicateVoter
  | invalidTimestamp
  | timestampOrderViolation
  deriving DecidableEq

structure IntegrityReport where
  electionId : ElectionId
  issues : List IntegrityIssue
  checkedAt : Timestamp
  deriving DecidableEq

namespace IntegrityReport

/-- An empty report at the time `now`. -/
def new (now : Timestamp) (electionId : ElectionId) : IntegrityReport := ⟨electionId, [], now⟩

def addIssue (issue : IntegrityIssue) (report : IntegrityReport) : IntegrityReport :=
  { report with issues := report.issues ++ [issue] }

/-- `if bad { report.add_issue(issue) }`. -/
def addIssueIf (bad : Bool) (issue : IntegrityIssue) (report : IntegrityReport) :
    IntegrityReport :=
  if bad then report.addIssue issue else report

def isValid (report : IntegrityReport) : Bool := report.issues.isEmpty

def hasCriticalIssues (report : IntegrityReport) : Bool :=
  report.issues.any fun issue => decide (issue = .duplicateVoter)

/-- How many issues of a kind are in the report. -/
def count (report : IntegrityReport) (issue : IntegrityIssue) : Nat := report.issues.count issue

@[simp] theorem count_new (now : Timestamp) (electionId : ElectionId) (issue : IntegrityIssue) :
    (new now electionId).count issue = 0 := rfl

@[simp] theorem count_addIssueIf (bad : Bool) (issue other : IntegrityIssue)
    (report : IntegrityReport) :
    (report.addIssueIf bad issue).count other =
      report.count other + if bad = true ∧ issue = other then 1 else 0 := by
  rw [addIssueIf]
  cases bad with
  | false => simp
  | true => simp [count, addIssue, List.count_singleton]

theorem isValid_iff {report : IntegrityReport} :
    report.isValid = true ↔ ∀ issue, report.count issue = 0 := by
  rw [isValid, List.isEmpty_iff, List.eq_nil_iff_forall_not_mem]
  exact forall_congr' fun issue => List.count_eq_zero.symm

theorem hasCriticalIssues_iff {report : IntegrityReport} :
    report.hasCriticalIssues = true ↔ report.count .duplicateVoter ≠ 0 := by
  rw [hasCriticalIssues, List.any_eq_true, count, Ne, List.count_eq_zero, not_not]
  constructor
  · rintro ⟨issue, hmem, hissue⟩
    rwa [← of_decide_eq_true hissue]
  · intro hmem
    exact ⟨_, hmem, decide_eq_true rfl⟩

end IntegrityReport

structure IntegrityChecker where
  electionId : ElectionId

namespace IntegrityChecker

/-! ## One ballot -/

def checkBallotIntegrity (now : Timestamp) (checker : IntegrityChecker) (castBallot : CastBallot) :
    Result IntegrityReport :=
  let report := IntegrityReport.new now checker.electionId
  let report := report.addIssueIf (decide (castBallot.electionId ≠ checker.electionId))
    .electionMismatch
  let report := report.addIssueIf castBallot.encryptedBallot.ciphertext.isEmpty .emptyBallot
  let report := report.addIssueIf castBallot.ballotCommitment.isEmpty .missingCommitment
  let report := report.addIssueIf castBallot.transactionId.isNone .missingTransactionId
  .ok report

theorem checkBallotIntegrity_isValid_iff (now : Timestamp) (checker : IntegrityChecker)
    (castBallot : CastBallot) :
    (∃ report, checker.checkBallotIntegrity now castBallot = .ok report ∧
      report.isValid = true) ↔
    castBallot.electionId = checker.electionId ∧ castBallot.encryptedBallot.ciphertext ≠ [] ∧
      castBallot.ballotCommitment ≠ [] ∧ castBallot.transactionId ≠ none := by
  rw [checkBallotIntegrity]
  simp only [Except.ok.injEq, exists_eq_left', IntegrityReport.isValid_iff]
  constructor
  · intro h
    have helection := h .electionMismatch
    have hballot := h .emptyBallot
    have hcommitment := h .missingCommitment
    have hid := h .missingTransactionId
    simp at helection hballot hcommitment hid
    exact ⟨helection, hballot, hcommitment, hid⟩
  · rintro ⟨helection, hballot, hcommitment, hid⟩ issue
    simp [helection, hballot, hcommitment, hid]

/-! ## All of them -/

/-- What the loop of `check_vote_chain` keeps. -/
structure ChainScan where
  report : IntegrityReport
  ballotIds : Finset BallotId
  voterIds : Finset VoterId

/-- One round of the loop. -/
def scanBallot (checker : IntegrityChecker) (scan : ChainScan) (ballot : CastBallot) :
    ChainScan where
  report := ((scan.report.addIssueIf (decide (ballot.electionId ≠ checker.electionId))
      .electionMismatch).addIssueIf (decide (ballot.ballotId ∈ scan.ballotIds))
      .duplicateBallot).addIssueIf (decide (ballot.voterId ∈ scan.voterIds)) .duplicateVoter
  ballotIds := insert ballot.ballotId scan.ballotIds
  voterIds := insert ballot.voterId scan.voterIds

def checkVoteChain (now : Timestamp) (checker : IntegrityChecker)
    (castBallots : List CastBallot) : Result IntegrityReport :=
  .ok (castBallots.foldl checker.scanBallot
    ⟨IntegrityReport.new now checker.electionId, ∅, ∅⟩).report

/-- How many issues of a kind are to be found, if the ids in the two sets have been seen. -/
def expected (checker : IntegrityChecker) (ballotIds : Finset BallotId) (voterIds : Finset VoterId)
    (castBallots : List CastBallot) : IntegrityIssue → Nat
  | .electionMismatch =>
      castBallots.countP fun ballot => decide (ballot.electionId ≠ checker.electionId)
  | .duplicateBallot => repeats ballotIds (castBallots.map CastBallot.ballotId)
  | .duplicateVoter => repeats voterIds (castBallots.map CastBallot.voterId)
  | _ => 0

theorem count_scanBallot (checker : IntegrityChecker) (scan : ChainScan) (ballot : CastBallot)
    (castBallots : List CastBallot) (issue : IntegrityIssue) :
    (checker.scanBallot scan ballot).report.count issue +
      checker.expected (insert ballot.ballotId scan.ballotIds)
        (insert ballot.voterId scan.voterIds) castBallots issue =
    scan.report.count issue +
      checker.expected scan.ballotIds scan.voterIds (ballot :: castBallots) issue := by
  cases issue with
  | electionMismatch => simp [scanBallot, expected, List.countP_cons]; omega
  | duplicateBallot => simp [scanBallot, expected, repeats]; omega
  | duplicateVoter => simp [scanBallot, expected, repeats]; omega
  | _ => simp [scanBallot, expected]

theorem count_foldl_scanBallot (checker : IntegrityChecker) (castBallots : List CastBallot)
    (scan : ChainScan) (issue : IntegrityIssue) :
    (castBallots.foldl checker.scanBallot scan).report.count issue =
      scan.report.count issue +
        checker.expected scan.ballotIds scan.voterIds castBallots issue := by
  induction castBallots generalizing scan with
  | nil => cases issue <;> rfl
  | cons ballot castBallots ih =>
      rw [List.foldl_cons, ih, ← count_scanBallot]
      rfl

theorem expected_perm (checker : IntegrityChecker) {castBallots castBallots' : List CastBallot}
    (h : castBallots.Perm castBallots') (issue : IntegrityIssue) :
    checker.expected ∅ ∅ castBallots issue = checker.expected ∅ ∅ castBallots' issue := by
  cases issue with
  | electionMismatch => exact h.countP_eq _
  | duplicateBallot => exact Repeats.repeats_perm (h.map _)
  | duplicateVoter => exact Repeats.repeats_perm (h.map _)
  | _ => rfl

/-- Nothing is to be found: all ballots are for the election, and no id is there twice. -/
theorem expected_eq_zero_iff {checker : IntegrityChecker} {castBallots : List CastBallot} :
    (∀ issue, checker.expected ∅ ∅ castBallots issue = 0) ↔
      (∀ ballot ∈ castBallots, ballot.electionId = checker.electionId) ∧
        (castBallots.map CastBallot.ballotId).Nodup ∧
        (castBallots.map CastBallot.voterId).Nodup := by
  have helection : checker.expected ∅ ∅ castBallots .electionMismatch = 0 ↔
      ∀ ballot ∈ castBallots, ballot.electionId = checker.electionId := by
    simp [expected, List.countP_eq_zero]
  rw [← helection, ← Repeats.repeats_eq_zero_iff, ← Repeats.repeats_eq_zero_iff]
  constructor
  · intro h
    exact ⟨h _, h .duplicateBallot, h .duplicateVoter⟩
  · rintro ⟨hmismatch, hballot, hvoter⟩ issue
    cases issue with
    | electionMismatch => exact hmismatch
    | duplicateBallot => exact hballot
    | duplicateVoter => exact hvoter
    | _ => rfl

theorem count_checkVoteChain (now : Timestamp) (checker : IntegrityChecker)
    (castBallots : List CastBallot) :
    ∃ report, checker.checkVoteChain now castBallots = .ok report ∧
      ∀ issue, report.count issue = checker.expected ∅ ∅ castBallots issue := by
  refine ⟨_, rfl, ?_⟩
  intro issue
  rw [count_foldl_scanBallot, IntegrityReport.count_new, Nat.zero_add]

/-- **What `check_vote_chain` reports.**  One mismatch for each ballot of another election,
and as many duplicates as there are ballots over and above the different ids; nothing
exactly if all ballots are for the election, and no ballot id or voter id is there twice.
The same ballots in another order have as many issues of each kind. -/
theorem checkVoteChain_counts (now : Timestamp) (checker : IntegrityChecker)
    (castBallots : List CastBallot) :
    ∃ report, checker.checkVoteChain now castBallots = .ok report ∧
      report.count .electionMismatch =
        castBallots.countP (fun ballot => decide (ballot.electionId ≠ checker.electionId)) ∧
      report.count .duplicateBallot =
        castBallots.length - (castBallots.map CastBallot.ballotId).toFinset.card ∧
      report.count .duplicateVoter =
        castBallots.length - (castBallots.map CastBallot.voterId).toFinset.card ∧
      (report.isValid = true ↔
        (∀ ballot ∈ castBallots, ballot.electionId = checker.electionId) ∧
          (castBallots.map CastBallot.ballotId).Nodup ∧
          (castBallots.map CastBallot.voterId).Nodup) ∧
      ∀ now' castBallots', castBallots.Perm castBallots' →
        ∃ report', checker.checkVoteChain now' castBallots' = .ok report' ∧
          ∀ issue, report'.count issue = report.count issue := by
  obtain ⟨report, hreport, hcount⟩ := count_checkVoteChain now checker castBallots
  refine ⟨report, hreport, hcount _, ?_, ?_, ?_, ?_⟩
  · rw [hcount, expected, Repeats.repeats_empty, List.length_map]
  · rw [hcount, expected, Repeats.repeats_empty, List.length_map]
  · rw [IntegrityReport.isValid_iff, ← expected_eq_zero_iff]
    exact forall_congr' fun issue => by rw [hcount]
  · intro now' castBallots' hperm
    obtain ⟨report', hreport', hcount'⟩ := count_checkVoteChain now' checker castBallots'
    refine ⟨report', hreport', ?_⟩
    intro issue
    rw [hcount, hcount', expected_perm checker hperm]

/-! ## In the order of time -/

/-- One round of the first loop. -/
def checkCastAt (report : IntegrityReport) (ballot : CastBallot) : IntegrityReport :=
  report.addIssueIf (decide (ballot.castAt = 0)) .invalidTimestamp

/-- The second loop, over neighbours, up to the first two in the wrong order. -/
def checkWindows (report : IntegrityReport) : List CastBallot → IntegrityReport
  | ballot :: ballot' :: rest =>
      if ballot'.castAt < ballot.castAt then report.addIssue .timestampOrderViolation
      else checkWindows report (ballot' :: rest)
  | _ => report

/-- `sort_by_key(|b| b.cast_at)`, which is stable. -/
def sortByCastAt (castBallots : List CastBallot) : List CastBallot :=
  castBallots.mergeSort fun ballot ballot' => decide (ballot.castAt ≤ ballot'.castAt)

def verifyTimestamps (now : Timestamp) (checker : IntegrityChecker)
    (castBallots : List CastBallot) : Result IntegrityReport :=
  let report := castBallots.foldl checkCastAt (IntegrityReport.new now checker.electionId)
  .ok (checkWindows report (sortByCastAt castBallots))

/-- The list is in the order of the times. -/
def InOrder (castBallots : List CastBallot) : Prop :=
  castBallots.Pairwise fun ballot ballot' => ballot.castAt ≤ ballot'.castAt

theorem inOrder_sortByCastAt (castBallots : List CastBallot) :
    InOrder (sortByCastAt castBallots) :=
  pairwise_mergeSort_key CastBallot.castAt castBallots

theorem checkWindows_of_inOrder (report : IntegrityReport) :
    ∀ {castBallots : List CastBallot}, InOrder castBallots →
      checkWindows report castBallots = report
  | [], _ => rfl
  | [_], _ => rfl
  | ballot :: ballot' :: rest, h => by
      obtain ⟨hle, hrest⟩ := List.pairwise_cons.mp h
      have hnot : ¬ballot'.castAt < ballot.castAt :=
        UInt64.not_lt.mpr (hle ballot' List.mem_cons_self)
      rw [checkWindows, if_neg hnot]
      exact checkWindows_of_inOrder report hrest

theorem count_foldl_checkCastAt (castBallots : List CastBallot) (report : IntegrityReport)
    (issue : IntegrityIssue) :
    (castBallots.foldl checkCastAt report).count issue =
      report.count issue + if issue = .invalidTimestamp then
        castBallots.countP fun ballot => decide (ballot.castAt = 0) else 0 := by
  induction castBallots generalizing report with
  | nil => simp
  | cons ballot castBallots ih =>
      rw [List.foldl_cons, ih, checkCastAt, IntegrityReport.count_addIssueIf, List.countP_cons]
      by_cases hissue : issue = .invalidTimestamp
      · simp [hissue]
        omega
      · simp [hissue, Ne.symm hissue]

theorem count_verifyTimestamps (now : Timestamp) (checker : IntegrityChecker)
    (castBallots : List CastBallot) :
    ∃ report, checker.verifyTimestamps now castBallots = .ok report ∧
      report.count .invalidTimestamp =
        castBallots.countP (fun ballot => decide (ballot.castAt = 0)) ∧
      report.count .timestampOrderViolation = 0 := by
  refine ⟨_, rfl, ?_, ?_⟩
  · rw [checkWindows_of_inOrder _ (inOrder_sortByCastAt _), count_foldl_checkCastAt, if_pos rfl,
      IntegrityReport.count_new, Nat.zero_add]
  · rw [checkWindows_of_inOrder _ (inOrder_sortByCastAt _), count_foldl_checkCastAt]
    rfl

/-- **When the times are audited.**  That a violation of the order is reported exactly if
the list is not in order, and one invalid time for each ballot without a time, holds of a
list exactly if it is in order. -/
theorem verifyTimestamps_audits_iff (now : Timestamp) (checker : IntegrityChecker)
    (castBallots : List CastBallot) :
    (∃ report, checker.verifyTimestamps now castBallots = .ok report ∧
      (.timestampOrderViolation ∈ report.issues ↔ ¬InOrder castBallots) ∧
      report.count .invalidTimestamp =
        castBallots.countP (fun ballot => decide (ballot.castAt = 0))) ↔
    InOrder castBallots := by
  obtain ⟨report, hreport, hinvalid, horder⟩ := count_verifyTimestamps now checker castBallots
  have hnone : .timestampOrderViolation ∉ report.issues := List.count_eq_zero.mp horder
  constructor
  · rintro ⟨report', hreport', hviolation, -⟩
    obtain rfl := Except.ok.inj (hreport.symm.trans hreport')
    by_contra hnot
    exact hnone (hviolation.mpr hnot)
  · intro hinOrder
    exact ⟨report, hreport, iff_of_false hnone (not_not.mpr hinOrder), hinvalid⟩

/-- The second ballot was cast before the first, and nothing is reported. -/
theorem reordered_unreported :
    ¬InOrder
      [{ Reference.castBallot with castAt := 2 }, { Reference.castBallot with castAt := 1 }] ∧
    ∃ report, verifyTimestamps 3 ⟨Reference.election.id⟩
        [{ Reference.castBallot with castAt := 2 }, { Reference.castBallot with castAt := 1 }] =
          .ok report ∧
      .timestampOrderViolation ∉ report.issues := by
  constructor
  · intro h
    exact absurd ((List.pairwise_cons.mp h).1 _ List.mem_cons_self) (by decide)
  · obtain ⟨report, hreport, -, horder⟩ := count_verifyTimestamps 3 ⟨Reference.election.id⟩
      [{ Reference.castBallot with castAt := 2 }, { Reference.castBallot with castAt := 1 }]
    exact ⟨report, hreport, List.count_eq_zero.mp horder⟩

end IntegrityChecker

end VotingChain
