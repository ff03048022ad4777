/-
# `VotingChain.TemporalClusters` — votes close together in time

`detect_temporal_clusters` of `analytics/src/patterns.rs` goes once over the votes in the order
of their timestamps.  It keeps the size and the start of the run it is in, and reports a run of
five votes or more when a vote comes that does not belong to it.

So it is a scan for runs (`Lib.RunScan`, `scanVote_simulates`), and the run that is open at the
end of the loop is not reported.  What is reported are the large runs if the last run is none of
them (`detectTemporalClusters_exact_iff`).  The order in which the votes are given makes no
difference.
-/
import VotingChain.Lib.RunScan
import VotingChain.Patterns

namespace VotingChain.PatternDetector

open Loops (ok_bind)
open RunScan (Scan)

/-- The timestamps of the votes, in order. -/
def sortedTimes (votes : List VotePattern) : List UInt64 :=
  (sortByTime VotePattern.timestamp votes).map (·.timestamp)

/-- The next timestamp is at most 5000 later. -/
def within5000 (time next : UInt64) : Bool := decide (next.toNat ≤ time.toNat + 5000)

/-- The maximal runs of votes each of which comes at most 5000 after the one before it. -/
def maximalRuns (votes : List VotePattern) : List (List UInt64) :=
  (sortedTimes votes).splitBy within5000

theorem isMaximalRuns_maximalRuns (votes : List VotePattern) :
    RunScan.IsMaximalRuns within5000 (sortedTimes votes) (maximalRuns votes) :=
  RunScan.isMaximalRuns_iff.mpr rfl

/-- The report of a run: its size and its first timestamp. -/
def clusterOf (run : List UInt64) : DetectedPattern := temporalCluster run.length (run.headD 0)

/-- The reports of those runs that have five votes or more. -/
def reportsOf (runs : List (List UInt64)) : List DetectedPattern :=
  (runs.filter fun run => decide (5 ≤ run.length)).map clusterOf

theorem reportsOf_concat (runs : List (List UInt64)) (run : List UInt64) :
    reportsOf (runs ++ [run]) =
      reportsOf runs ++ if 5 ≤ run.length then [clusterOf run] else [] := by
  rw [reportsOf, List.filter_append, List.map_append]
  congr 1
  by_cases h : 5 ≤ run.length
  · simp [h]
  · simp [h]

theorem gap_le_iff {time next : UInt64} (h : time ≤ next) :
    next - time ≤ clusterThreshold ↔ within5000 time next = true := by
  have hle := UInt64.le_iff_toNat_le.mp h
  rw [within5000, decide_eq_true_iff, UInt64.le_iff_toNat_le, UInt64.toNat_sub_of_le _ _ h]
  show next.toNat - time.toNat ≤ 5000 ↔ _
  omega

/-! ## The loop is a scan -/

/-- The state of the loop, and the runs: those that are over have been reported, and of the open
one the size and the start are known. -/
structure Simulates (scan : ClusterScan) (s : Scan UInt64) : Prop where
  patterns : scan.patterns = reportsOf s.done
  size : scan.currentClusterSize = s.current.length
  start : s.current.head? = some scan.currentClusterStart

theorem scanVote_simulates {sortedVotes before rest : List VotePattern}
    {previous vote : VotePattern} {scan : ClusterScan} {s : Scan UInt64}
    (hvotes : sortedVotes = before ++ previous :: vote :: rest)
    (hle : previous.timestamp ≤ vote.timestamp) (h : Simulates scan s)
    (hlast : s.current.getLast? = some previous.timestamp) :
    ∃ scan', scanVote sortedVotes scan (before.length + 1) = .ok scan' ∧
      Simulates scan' (RunScan.step within5000 s vote.timestamp) := by
  have hvote : indexVec sortedVotes (before.length + 1) = .ok vote := by
    rw [hvotes, indexVec, List.getElem?_append_right (Nat.le_add_right _ 1)]
    simp
  have hprevious : indexVec sortedVotes before.length = .ok previous := by
    rw [hvotes, indexVec, List.getElem?_append_right (Nat.le_refl _)]
    simp
  simp only [scanVote, hvote, subUsize_of_le (Nat.le_add_left 1 before.length),
    Nat.add_sub_cancel, hprevious, checkedSub_of_le hle, ok_bind]
  by_cases hgap : vote.timestamp - previous.timestamp ≤ clusterThreshold
  · have hclose := (gap_le_iff hle).mp hgap
    rw [if_pos hgap, RunScan.step_of_related hlast hclose]
    refine ⟨_, rfl, h.patterns, ?_, ?_⟩
    · simp [h.size]
    · simp [h.start]
  · have hapart : within5000 previous.timestamp vote.timestamp = false :=
      Bool.eq_false_iff.mpr fun hclose => hgap ((gap_le_iff hle).mpr hclose)
    have hreport : clusterOf s.current =
        temporalCluster scan.currentClusterSize scan.currentClusterStart := by
      rw [clusterOf, h.size, List.headD_eq_head?_getD, h.start]
      rfl
    rw [if_neg hgap, RunScan.step_of_not_related hlast hapart]
    refine ⟨_, rfl, ?_, rfl, rfl⟩
    rw [reportsOf_concat, h.patterns, hreport, h.size]

theorem foldlM_scanVote {sortedVotes : List VotePattern}
    (hsorted : InTimeOrder VotePattern.timestamp sortedVotes) :
    ∀ {before rest : List VotePattern} {previous : VotePattern} {scan : ClusterScan}
      {s : Scan UInt64}, sortedVotes = before ++ previous :: rest → Simulates scan s →
      s.current.getLast? = some previous.timestamp →
      ∃ scan', (List.range' (before.length + 1) rest.length).foldlM (scanVote sortedVotes) scan =
          .ok scan' ∧
        Simulates scan' ((rest.map (·.timestamp)).foldl (RunScan.step within5000) s) := by
  intro before rest
  induction rest generalizing before with
  | nil =>
      intro previous scan s _ h _
      exact ⟨scan, rfl, h⟩
  | cons vote rest ih =>
      intro previous scan s hvotes h hlast
      have hle : previous.timestamp ≤ vote.timestamp := by
        have hpair : InTimeOrder VotePattern.timestamp [previous, vote] :=
          hsorted.part ⟨before, rest, by rw [hvotes, List.append_assoc]; rfl⟩
        exact (List.pairwise_cons.mp hpair).1 vote List.mem_cons_self
      obtain ⟨scan', hstep, h'⟩ := scanVote_simulates hvotes hle h hlast
      have hvotes' : sortedVotes = (before ++ [previous]) ++ vote :: rest := by
        rw [hvotes, List.append_assoc]
        rfl
      obtain ⟨scan'', hrest, h''⟩ := ih hvotes' h' (RunScan.getLast?_step s vote.timestamp)
      rw [List.length_append, List.length_singleton] at hrest
      refine ⟨scan'', ?_, h''⟩
      rw [List.length_cons, List.range'_succ, List.foldlM_cons, hstep, ok_bind]
      exact hrest

/-! ## What is reported -/

/-- **All but the last.**  The runs that are over at the end of the loop are reported. -/
theorem detectTemporalClusters_eq {votes : List VotePattern} (hlong : 10 ≤ votes.length) :
    detectTemporalClusters votes = .ok (reportsOf (maximalRuns votes).dropLast) := by
  have hsorted := inTimeOrder_sortByTime VotePattern.timestamp votes
  have hlen := length_sortByTime VotePattern.timestamp votes
  rw [detectTemporalClusters, if_neg (Nat.not_lt.mpr hlong), maximalRuns, sortedTimes]
  generalize sortByTime VotePattern.timestamp votes = sortedVotes at hsorted hlen
  cases sortedVotes with
  | nil =>
      rw [List.length_nil] at hlen
      omega
  | cons first rest =>
      have hstart : Simulates ⟨[], 1, first.timestamp⟩ ⟨[], [first.timestamp]⟩ := ⟨rfl, rfl, rfl⟩
      obtain ⟨scan, hscan, hend⟩ :=
        foldlM_scanVote hsorted (List.nil_append (first :: rest)).symm hstart rfl
      have hdone := RunScan.done_scan (r := within5000) first.timestamp (rest.map (·.timestamp))
      have hfirst : indexVec (first :: rest) 0 = .ok first := rfl
      rw [List.length_nil, Nat.zero_add] at hscan
      simp only [hfirst, ok_bind, List.length_cons, Nat.add_sub_cancel, hscan, hend.patterns,
        hdone, List.map_cons]

theorem sortedTimes_perm {votes votes' : List VotePattern} (h : votes'.Perm votes) :
    sortedTimes votes' = sortedTimes votes := by
  have hperm : (sortedTimes votes').Perm (sortedTimes votes) :=
    ((List.mergeSort_perm votes' _).trans (h.trans (List.mergeSort_perm votes _).symm)).map _
  have hsorted : ∀ votes : List VotePattern, (sortedTimes votes).Pairwise (· ≤ ·) := by
    intro votes
    exact List.pairwise_map.mpr (inTimeOrder_sortByTime VotePattern.timestamp votes)
  exact hperm.eq_of_pairwise (fun a b _ _ hab hba => UInt64.le_antisymm hab hba)
    (hsorted votes') (hsorted votes)

theorem detectTemporalClusters_perm {votes votes' : List VotePattern} (h : votes'.Perm votes) :
    detectTemporalClusters votes' = detectTemporalClusters votes := by
  by_cases hlong : 10 ≤ votes.length
  · have hlong' : 10 ≤ votes'.length := h.length_eq ▸ hlong
    rw [detectTemporalClusters_eq hlong, detectTemporalClusters_eq hlong', maximalRuns,
      maximalRuns, sortedTimes_perm h]
  · have hshort : votes.length < 10 := Nat.not_le.mp hlong
    rw [detectTemporalClusters, detectTemporalClusters, if_pos hshort, if_pos]
    rwa [h.length_eq]

theorem maximalRuns_ne_nil {votes : List VotePattern} (hlong : 10 ≤ votes.length) :
    maximalRuns votes ≠ [] := by
  rw [maximalRuns, List.splitBy_ne_nil]
  intro hnil
  have hlen := congrArg List.length hnil
  rw [sortedTimes, List.length_map, length_sortByTime, List.length_nil] at hlen
  omega

/-- **When the report is exact.**  The maximal runs of five votes or more are reported, in the
same way for every order of the votes, exactly if the last of all the runs has fewer. -/
theorem detectTemporalClusters_exact_iff {votes : List VotePattern} (hlong : 10 ≤ votes.length) :
    (detectTemporalClusters votes =
        .ok (((maximalRuns votes).filter fun run => decide (5 ≤ run.length)).map clusterOf) ∧
      ∀ votes' : List VotePattern, votes'.Perm votes →
        detectTemporalClusters votes' = detectTemporalClusters votes) ↔
    ∀ last ∈ (maximalRuns votes).getLast?, last.length < 5 := by
  have hne := maximalRuns_ne_nil hlong
  have hlarge : reportsOf (maximalRuns votes) = reportsOf (maximalRuns votes).dropLast ++
      if 5 ≤ ((maximalRuns votes).getLast hne).length then
        [clusterOf ((maximalRuns votes).getLast hne)] else [] := by
    rw [← reportsOf_concat, List.dropLast_append_getLast hne]
  rw [and_iff_left fun votes' h => detectTemporalClusters_perm h, detectTemporalClusters_eq hlong,
    ← reportsOf, Except.ok.injEq, hlarge, List.getLast?_eq_some_getLast hne]
  simp

/-- Nine votes at one time, and one after a pause. -/
def pausedVotes : List VotePattern := List.replicate 9 (voteAt 0) ++ [voteAt 9000]

theorem maximalRuns_pausedVotes :
    maximalRuns pausedVotes = [[0, 0, 0, 0, 0, 0, 0, 0, 0], [9000]] := by
  rw [maximalRuns, sortedTimes, sortByTime_of_inTimeOrder (by decide)]
  rfl

/-- The nine are reported. -/
theorem detectTemporalClusters_exact_iff_pause :
    detectTemporalClusters pausedVotes = .ok [clusterOf [0, 0, 0, 0, 0, 0, 0, 0, 0]] := by
  have hlong : 10 ≤ pausedVotes.length := by decide
  refine ((detectTemporalClusters_exact_iff hlong).mpr ?_).1.trans ?_
  · rw [maximalRuns_pausedVotes]
    decide
  · rw [maximalRuns_pausedVotes]
    rfl

/-- Ten votes, each half a second after the one before it. -/
def steadyVotes : List VotePattern :=
  [voteAt 1000, voteAt 1500, voteAt 2000, voteAt 2500, voteAt 3000, voteAt 3500, voteAt 4000,
    voteAt 4500, voteAt 5000, voteAt 5500]

theorem maximalRuns_steadyVotes :
    maximalRuns steadyVotes =
      [[1000, 1500, 2000, 2500, 3000, 3500, 4000, 4500, 5000, 5500]] := by
  rw [maximalRuns, sortedTimes, sortByTime_of_inTimeOrder (by decide)]
  rfl

/-- They are one run, and nothing is reported. -/
theorem detectTemporalClusters_not_exact :
    ¬∀ votes : List VotePattern, 10 ≤ votes.length →
      detectTemporalClusters votes =
          .ok (((maximalRuns votes).filter fun run => decide (5 ≤ run.length)).map clusterOf) ∧
        ∀ votes' : List VotePattern, votes'.Perm votes →
          detectTemporalClusters votes' = detectTemporalClusters votes := by
  intro h
  have hlong : 10 ≤ steadyVotes.length := by decide
  have hexact := (h steadyVotes hlong).1
  rw [detectTemporalClusters_eq hlong, maximalRuns_steadyVotes] at hexact
  simp [reportsOf] at hexact

end VotingChain.PatternDetector
