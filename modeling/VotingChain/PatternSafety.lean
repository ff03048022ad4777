/-
# `VotingChain.PatternSafety` — which votes patterns can be looked for in

Of the detectors of `analytics/src/patterns.rs` that take differences, some sort a copy of the
votes first, and they complete whatever they are given.  Three take the votes as they come:
`detect_automaton_behavior`, `detect_identical_intervals` and `detect_rapid_voting`.  The second
of them does so from five votes on, and on neighbours; it is the one that decides.

So `detect_patterns` goes through without an underflow exactly if there are fewer than five
votes or they come in the order of their timestamps (`detectPatterns_safe_iff`).
-/
import VotingChain.Patterns

namespace VotingChain.PatternDetector

open Windows (windows)
open Loops (countM Completes ok_bind completes_ok completes_unless completes_countM
  completes_foldlM)

/-! ## The detectors that sort -/

section
variable {timestamps : List UInt64} {votes : List VotePattern}

theorem countInWindow_ok {minTime numWindows timestamp : UInt64} {counts : List Nat}
    (hmin : minTime ≤ timestamp) (hwindows : 1 ≤ numWindows)
    (hlen : counts.length = numWindows.toNat) :
    ∃ counts', countInWindow minTime numWindows counts timestamp = .ok counts' ∧
      counts'.length = numWindows.toNat := by
  have hidx : (if (timestamp - minTime) / windowSize ≤ numWindows - 1 then
      (timestamp - minTime) / windowSize else numWindows - 1).toNat < counts.length := by
    have hlast : (numWindows - 1).toNat < numWindows.toNat := by
      rw [UInt64.toNat_sub_of_le _ _ hwindows]
      have hone := UInt64.le_iff_toNat_le.mp hwindows
      simp at hone ⊢
      omega
    rw [hlen]
    split
    · next hle => exact Nat.lt_of_le_of_lt (UInt64.le_iff_toNat_le.mp hle) hlast
    · exact hlast
  simp only [countInWindow, checkedSub_of_le hmin, checkedSub_of_le hwindows, ok_bind,
    indexVec_of_lt hidx]
  exact ⟨_, rfl, by rw [List.length_set, hlen]⟩

theorem completes_windowCounts (h : InTimeOrder id timestamps) (hne : timestamps ≠ []) :
    Completes (windowCounts timestamps) := by
  have hlen : 0 < timestamps.length := List.length_pos_iff.mpr hne
  have hfirst : ∀ timestamp ∈ timestamps, timestamps[0] ≤ timestamp := by
    intro timestamp hmem
    obtain ⟨i, hi, rfl⟩ := List.getElem_of_mem hmem
    exact h.getElem_le (Nat.zero_le i) hi
  have hlast : timestamps[0] ≤ timestamps[timestamps.length - 1] :=
    h.getElem_le (Nat.zero_le _) (by omega)
  simp only [windowCounts, indexVec_of_lt hlen, subUsize_of_le hlen, ok_bind,
    indexVec_of_lt (Nat.sub_lt hlen Nat.one_pos), checkedSub_of_le hlast]
  refine completes_unless fun _ => ?_
  have hwindows : ∀ n : UInt64, 1 ≤ if n < 1 then 1 else n := by
    intro n
    split
    · exact UInt64.le_refl 1
    · next hone => exact UInt64.not_lt.mp hone
  obtain ⟨counts, hcounts, -⟩ := Loops.foldlM_ok
    (fun counts timestamp hmem hinv =>
      countInWindow_ok (hfirst timestamp hmem) (hwindows _) hinv)
    (List.length_replicate)
  exact ⟨counts, hcounts⟩

theorem completes_detectBurstPatterns (h : InTimeOrder id timestamps) :
    Completes (detectBurstPatterns timestamps) := by
  rw [detectBurstPatterns]
  refine completes_unless fun hempty => ?_
  have hne : timestamps ≠ [] := fun hnil => hempty (List.isEmpty_iff.mpr hnil)
  exact (completes_windowCounts h hne).andThen fun _ => completes_ok _

theorem completes_detectCyclicPatterns (detector : PatternDetector)
    (h : InTimeOrder id timestamps) : Completes (detector.detectCyclicPatterns timestamps) := by
  rw [detectCyclicPatterns]
  refine completes_unless fun _ => ?_
  exact (completes_timeSpans.mpr h).andThen fun _ => completes_ok _

theorem completes_detectTemporalPatterns (detector : PatternDetector) (votes : List VotePattern) :
    Completes (detector.detectTemporalPatterns votes) := by
  have hsorted := inTimeOrder_sortByTime id (votes.map (·.timestamp))
  rw [detectTemporalPatterns]
  refine (completes_timeSpans.mpr hsorted).andThen fun _ => ?_
  refine (completes_detectBurstPatterns hsorted).andThen fun _ => ?_
  exact (completes_detectCyclicPatterns detector hsorted).andThen fun _ => completes_ok _

theorem completes_scanVote {sortedVotes : List VotePattern}
    (h : InTimeOrder VotePattern.timestamp sortedVotes) (scan : ClusterScan) {i : Nat}
    (hone : 1 ≤ i) (hi : i < sortedVotes.length) : Completes (scanVote sortedVotes scan i) := by
  have hle := h.getElem_le (Nat.sub_le i 1) hi
  simp only [scanVote, indexVec_of_lt hi, subUsize_of_le hone,
    indexVec_of_lt (Nat.lt_of_le_of_lt (Nat.sub_le i 1) hi), checkedSub_of_le hle, ok_bind]
  split
  · exact completes_ok _
  · exact completes_ok _

theorem completes_detectTemporalClusters (votes : List VotePattern) :
    Completes (detectTemporalClusters votes) := by
  rw [detectTemporalClusters]
  refine completes_unless fun hlong => ?_
  have hsorted := inTimeOrder_sortByTime VotePattern.timestamp votes
  have hlen := length_sortByTime VotePattern.timestamp votes
  have hpos : 0 < (sortByTime VotePattern.timestamp votes).length := by omega
  simp only [indexVec_of_lt hpos, ok_bind]
  refine (completes_foldlM ?_ _).andThen fun _ => completes_ok _
  intro scan i hi
  obtain ⟨hone, hlt⟩ := List.mem_range'_1.mp hi
  exact completes_scanVote hsorted scan hone (by omega)

theorem completes_coordinatedPairs (timestamps : List UInt64) :
    Completes (coordinatedPairs timestamps) := by
  rw [coordinatedPairs]
  split
  · refine completes_countM fun w hw => ?_
    have hspan := timeSpan_of_mem_windows (inTimeOrder_sortByTime id timestamps)
      (Nat.zero_le 1) Nat.one_lt_two hw
    exact hspan.andThen fun _ => completes_ok _
  · exact completes_ok _

theorem completes_detectVoterClusters (orders : HashOrders) (votes : List VotePattern) :
    Completes (detectVoterClusters orders votes) := by
  rw [detectVoterClusters]
  split
  · exact completes_ok _
  · refine (completes_foldlM ?_ _).andThen fun _ => completes_ok _
    intro count timestamps _
    exact (completes_coordinatedPairs timestamps).andThen fun _ => completes_ok _

theorem completes_detectClusteringPatterns (orders : HashOrders) (votes : List VotePattern) :
    Completes (detectClusteringPatterns orders votes) := by
  rw [detectClusteringPatterns]
  refine (completes_detectTemporalClusters votes).andThen fun _ => ?_
  exact (completes_detectVoterClusters orders votes).andThen fun _ => completes_ok _

theorem sliceVec_of_le {α : Type} {xs : List α} {first last : Nat} (hle : first ≤ last)
    (hlast : last ≤ xs.length) : sliceVec xs first last = .ok ((xs.take last).drop first) :=
  if_pos ⟨hle, hlast⟩

theorem completes_coordinatedGroup {sortedVotes : List VotePattern}
    (h : InTimeOrder VotePattern.timestamp sortedVotes) {i : Nat}
    (hi : i + 5 ≤ sortedVotes.length) : Completes (coordinatedGroup sortedVotes i) := by
  have hin : (sortedVotes.take (i + 5)).drop i <:+: sortedVotes :=
    (List.drop_suffix _ _).isInfix.trans (List.take_prefix _ _).isInfix
  have hlen : ((sortedVotes.take (i + 5)).drop i).length = 5 := by
    rw [List.length_drop, List.length_take]
    omega
  rw [coordinatedGroup, sliceVec_of_le (Nat.le_add_right i 5) hi, ok_bind]
  have hspan := timeSpan_of_inTimeOrder (h.part hin) (Nat.zero_le 4) (by omega)
  exact hspan.andThen fun _ => completes_ok _

theorem completes_detectCoordinatedVoting (votes : List VotePattern) :
    Completes (detectCoordinatedVoting votes) := by
  rw [detectCoordinatedVoting]
  refine completes_unless fun hlong => ?_
  have hsorted := inTimeOrder_sortByTime VotePattern.timestamp votes
  have hlen := length_sortByTime VotePattern.timestamp votes
  have hfour : 4 ≤ (sortByTime VotePattern.timestamp votes).length := by omega
  simp only [subUsize_of_le hfour, ok_bind]
  refine (completes_countM fun i hi => ?_).andThen fun _ => completes_ok _
  have hlt := List.mem_range.mp hi
  exact completes_coordinatedGroup hsorted (by omega)

/-! ## The detectors that do not -/

theorem completes_detectRepetitiveSequences (detector : PatternDetector) (orders : HashOrders)
    (votes : List VotePattern) :
    Completes (detector.detectRepetitiveSequences orders votes) := by
  rw [detectRepetitiveSequences]
  split
  · exact completes_ok _
  · refine (Loops.completes_mapM.mpr ?_).andThen fun _ => completes_ok _
    intro patternLength hmem
    obtain ⟨hfirst, hlt⟩ := List.mem_range'_1.mp hmem
    have hfits : patternLength ≤ votes.length := by omega
    have hcounts : Completes (sequenceCounts votes patternLength) := by
      rw [sequenceCounts, subUsize_of_le hfits, ok_bind]
      refine completes_foldlM ?_ _
      intro counts i hi
      have hlast := List.mem_range.mp hi
      rw [sequenceAt, sliceVec_of_le (Nat.le_add_right i patternLength) (by omega)]
      exact completes_ok _
    exact hcounts.andThen fun _ => completes_ok _

theorem completes_detectAutomatonBehavior (h : InTimeOrder VotePattern.timestamp votes) :
    Completes (detectAutomatonBehavior votes) := by
  rw [detectAutomatonBehavior]
  refine completes_unless fun _ => ?_
  refine (completes_timeSpans.mpr h).andThen fun intervals => ?_
  refine (completes_countM fun w hw => ?_).andThen fun _ => completes_ok _
  obtain ⟨a, b, rfl⟩ := Windows.exists_pair hw
  exact completes_ok _

theorem completes_detectIdenticalIntervals (detector : PatternDetector) (orders : HashOrders)
    (h : InTimeOrder VotePattern.timestamp votes) :
    Completes (detector.detectIdenticalIntervals orders votes) := by
  rw [detectIdenticalIntervals]
  refine completes_unless fun _ => ?_
  exact (completes_timeSpans.mpr h).andThen fun _ => completes_ok _

theorem completes_detectRapidVoting (h : InTimeOrder VotePattern.timestamp votes) :
    Completes (detectRapidVoting votes) := by
  rw [detectRapidVoting]
  split
  · exact completes_ok _
  · refine (completes_countM fun w hw => ?_).andThen fun _ => completes_ok _
    have hspan := timeSpan_of_mem_windows h (Nat.zero_le 4) (Nat.lt_succ_self 4) hw
    exact hspan.andThen fun _ => completes_ok _

theorem completes_of_short (detector : PatternDetector) (orders : HashOrders)
    (h : votes.length < 5) : Completes (detectAutomatonBehavior votes) ∧
      Completes (detector.detectIdenticalIntervals orders votes) ∧
      Completes (detectRapidVoting votes) := by
  rw [detectAutomatonBehavior, detectIdenticalIntervals, detectRapidVoting, if_pos (by omega),
    if_pos h, if_pos h]
  exact ⟨completes_ok _, completes_ok _, completes_ok _⟩

/-- With five votes or more, one of the intervals is below zero. -/
theorem detectIdenticalIntervals_eq_panicked (detector : PatternDetector) (orders : HashOrders)
    (hlong : 5 ≤ votes.length) (h : ¬InTimeOrder VotePattern.timestamp votes) :
    detector.detectIdenticalIntervals orders votes = .error .panicked := by
  rw [detectIdenticalIntervals, if_neg (Nat.not_lt.mpr hlong), timeSpans_eq_panicked h]
  rfl

theorem detectSequentialPatterns_eq_panicked (detector : PatternDetector) (orders : HashOrders)
    (hlong : 5 ≤ votes.length) (h : ¬InTimeOrder VotePattern.timestamp votes) :
    detector.detectSequentialPatterns orders votes = .error .panicked := by
  obtain ⟨repetitive, hrepetitive⟩ :=
    completes_detectRepetitiveSequences detector orders votes
  rw [detectSequentialPatterns, hrepetitive, ok_bind, detectAutomatonBehavior]
  split
  · rw [ok_bind, detectIdenticalIntervals_eq_panicked detector orders hlong h]
    rfl
  · rw [timeSpans_eq_panicked h]
    rfl

theorem completes_detectPatterns (detector : PatternDetector) (orders : HashOrders) (now : UInt64)
    (hne : votes ≠ []) (h : votes.length < 5 ∨ InTimeOrder VotePattern.timestamp votes) :
    Completes (detector.detectPatterns orders now votes) := by
  have hdirect : Completes (detectAutomatonBehavior votes) ∧
      Completes (detector.detectIdenticalIntervals orders votes) ∧
      Completes (detectRapidVoting votes) := by
    rcases h with hshort | horder
    · exact completes_of_short detector orders hshort
    · exact ⟨completes_detectAutomatonBehavior horder,
        completes_detectIdenticalIntervals detector orders horder,
        completes_detectRapidVoting horder⟩
  obtain ⟨hautomaton, hidentical, hrapid⟩ := hdirect
  have hsequential : Completes (detector.detectSequentialPatterns orders votes) :=
    (completes_detectRepetitiveSequences detector orders votes).andThen fun _ =>
      hautomaton.andThen fun _ => hidentical.andThen fun _ => completes_ok _
  have hbehavioral : Completes (detectBehavioralPatterns votes) :=
    hrapid.andThen fun _ => (completes_detectCoordinatedVoting votes).andThen fun _ =>
      completes_ok _
  rw [detectPatterns, if_neg (by rwa [List.isEmpty_iff])]
  refine (completes_detectTemporalPatterns detector votes).andThen fun _ => ?_
  refine hsequential.andThen fun _ => ?_
  refine (completes_detectClusteringPatterns orders votes).andThen fun _ => ?_
  exact hbehavioral.andThen fun _ => completes_ok _

theorem detectPatterns_eq_panicked (detector : PatternDetector) (orders : HashOrders)
    (now : UInt64) (hlong : 5 ≤ votes.length) (h : ¬InTimeOrder VotePattern.timestamp votes) :
    detector.detectPatterns orders now votes = .error .panicked := by
  have hne : ¬votes.isEmpty = true := by
    rw [List.isEmpty_iff]
    rintro rfl
    exact absurd hlong (by decide)
  obtain ⟨temporal, htemporal⟩ := completes_detectTemporalPatterns detector votes
  rw [detectPatterns, if_neg hne, htemporal, ok_bind,
    detectSequentialPatterns_eq_panicked detector orders hlong h]
  rfl

/-- **When detection is safe.**  No subtraction goes below zero and no index out of range
exactly if there are fewer than five votes or they come in the order of their timestamps. -/
theorem detectPatterns_safe_iff (detector : PatternDetector) (orders : HashOrders) (now : UInt64)
    {votes : List VotePattern} (hne : votes ≠ []) :
    detector.detectPatterns orders now votes ≠ .error .panicked ↔
      votes.length < 5 ∨ InTimeOrder VotePattern.timestamp votes := by
  constructor
  · intro hsafe
    by_contra h
    rw [not_or, Nat.not_lt] at h
    exact hsafe (detectPatterns_eq_panicked detector orders now h.1 h.2)
  · intro h hpanic
    obtain ⟨result, hresult⟩ := completes_detectPatterns detector orders now hne h
    rw [hpanic] at hresult
    cases hresult

/-- Three votes are too few for intervals, in whatever order they are. -/
theorem detectPatterns_safe_iff_three :
    PatternDetector.new.detectPatterns default 0 [voteAt 2000, voteAt 1000, voteAt 3000] ≠
      .error .panicked :=
  (detectPatterns_safe_iff PatternDetector.new default 0 (List.cons_ne_nil _ _)).mpr
    (Or.inl (by decide))

/-- Five votes, of which the third is later than the fourth. -/
theorem detectPatterns_not_safe :
    ¬∀ (detector : PatternDetector) (orders : HashOrders) (now : UInt64)
      (votes : List VotePattern), votes ≠ [] →
        detector.detectPatterns orders now votes ≠ .error .panicked := by
  intro h
  refine h PatternDetector.new default 0
    [voteAt 0, voteAt 1000, voteAt 3000, voteAt 2000, voteAt 4000] (List.cons_ne_nil _ _) ?_
  exact detectPatterns_eq_panicked _ _ _ (by decide) (by decide)

end

end VotingChain.PatternDetector
