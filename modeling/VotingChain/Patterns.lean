/-
# `VotingChain.Patterns` — patterns in the times of votes

The model of `PatternDetector` of `analytics/src/patterns.rs`.  There are eleven detectors, in
four groups, and all of them look at differences of timestamps or at parts of the list.

Timestamps are unsigned, so a difference is safe where the later one is known to be no smaller.
Between neighbours all differences are safe exactly if the list is in the order of its times
(`completes_timeSpans`).

A subtraction below zero and an index out of range are panics here.  So they are in a build
with overflow checks; in one without them the subtraction wraps, and the numbers that come after
it are of no use.  All other arithmetic wraps.
-/
import Mathlib.Data.Finmap
import Mathlib.Data.List.Sort
import VotingChain.Common
import VotingChain.Lib.Loops
import VotingChain.Lib.Maps
import VotingChain.Lib.Windows

namespace VotingChain

open Windows (windows)
open Loops (countM Completes completes_ok)

/-- Vote pattern data for analysis. -/
structure VotePattern where
  txId : String
  timestamp : UInt64
  location : Option String
  voterHash : Option String
  deriving DecidableEq

/-- Type of pattern. -/
inductive PatternType where
  | periodic
  | burst
  | cyclic
  | repetitive
  | automaton
  | identicalIntervals
  | geographicCluster
  | temporalCluster
  | voterCluster
  | rapidVoting
  | coordinated
  deriving DecidableEq

/-- Pattern severity. -/
inductive PatternSeverity where
  | low
  | medium
  | high
  deriving DecidableEq

/-- Evidence supporting detected pattern. -/
inductive PatternEvidence where
  | periodicTiming (meanInterval stdDev coefficientOfVariation : Float)
  | burstActivity (windowIndex voteCount : Nat) (zScore : Float)
  | cyclicTiming (cycleLength : UInt64) (matched : Nat)
  | repetitiveSequence (sequenceLength repetitions : Nat)
  | automatonBehavior (identicalIntervals totalIntervals : Nat) (identicalRatio : Float)
  | identicalIntervals (interval : UInt64) (occurrences : Nat)
  | geographicCluster (location : String) (voteCount : Nat) (percentage : Float)
  | temporalCluster (startTimestamp : UInt64) (voteCount : Nat)
  | voterCluster (coordinatedPairs : Nat)
  | rapidVoting (rapidSequences : Nat) (thresholdMs : UInt64)
  | coordinatedVoting (coordinatedGroups : Nat) (windowMs : UInt64)

/-- Detected pattern. -/
structure DetectedPattern where
  patternType : PatternType
  description : String
  confidence : Float
  severity : PatternSeverity
  occurrences : Nat
  evidence : PatternEvidence

/-- Pattern analysis result. -/
structure PatternAnalysisResult where
  temporalPatterns : List DetectedPattern
  sequentialPatterns : List DetectedPattern
  clusteringPatterns : List DetectedPattern
  behavioralPatterns : List DetectedPattern
  totalPatterns : Nat
  riskScore : Float
  timestamp : UInt64

/-- Pattern detection engine. -/
structure PatternDetector where
  /-- Minimum pattern size to detect. -/
  minPatternSize : UInt64
  /-- Similarity threshold for pattern matching (0.0 to 1.0). -/
  similarityThreshold : Float
  /-- Minimum occurrences to consider a pattern. -/
  minOccurrences : UInt64

/-- The orders in which the hash maps of one call happen to list their entries. -/
structure HashOrders where
  sequences : Nat → MapOrder (List String) Nat
  intervals : MapOrder UInt64 Nat
  locations : MapOrder String Nat
  voters : MapOrder String (List UInt64)

noncomputable instance : Inhabited HashOrders := ⟨⟨fun _ => default, default, default, default⟩⟩

/-! ## Arithmetic -/

/-- `a - b` of two `u64`, which panics below zero. -/
def checkedSub (a b : UInt64) : Result UInt64 := if b ≤ a then .ok (a - b) else .error .panicked

/-- `a - b` of two `usize`. -/
def subUsize (a b : Nat) : Result Nat := if b ≤ a then .ok (a - b) else .error .panicked

/-- `n as f64`. -/
def asF64 (n : Nat) : Float := (UInt64.ofNat n).toFloat

/-- `iter().sum::<f64>()`. -/
def sumF64 (xs : List Float) : Float := xs.foldl (· + ·) 0

/-- The sum of the squared differences from the mean, over the number of values. -/
def variance (mean : Float) (xs : List Float) : Float :=
  sumF64 (xs.map fun x => (x - mean) * (x - mean)) / asF64 xs.length

/-- `f64::min`, for a bound that is a number. -/
def minF64 (x bound : Float) : Float := if x ≤ bound then x else bound

/-- `{:.digits}` of an `f64`: its exact value, rounded to the nearest, half to even. -/
def formatFixed (digits : Nat) (x : Float) : String :=
  let bits := x.toBits.toNat
  let sign := if bits / Nat.pow 2 63 = 1 then "-" else ""
  let exponent := bits / Nat.pow 2 52 % 2048
  let fraction := bits % Nat.pow 2 52
  if exponent = 2047 then
    if fraction = 0 then sign ++ "inf" else "NaN"
  else
    -- the value is `significand * 2 ^ shift / 2 ^ 1075`
    let significand := if exponent = 0 then fraction else Nat.pow 2 52 + fraction
    let shift := if exponent = 0 then 1 else exponent
    let unit := Nat.pow 2 1075
    let scaled := significand * Nat.pow 2 shift * Nat.pow 10 digits
    let down := scaled / unit
    let rounded :=
      if unit < 2 * (scaled % unit) ∨ 2 * (scaled % unit) = unit ∧ down % 2 = 1 then down + 1
      else down
    let whole := toString (rounded / Nat.pow 10 digits)
    let decimals := toString (rounded % Nat.pow 10 digits)
    if digits = 0 then sign ++ whole
    else sign ++ whole ++ "." ++
      String.ofList (List.replicate (digits - decimals.length) '0') ++ decimals

/-- How far the time of `w[later]` is from that of `w[earlier]`. -/
def timeSpan {α : Type} (time : α → UInt64) (w : List α) (later earlier : Nat) : Result UInt64 := do
  let last ← indexVec w later
  let first ← indexVec w earlier
  checkedSub (time last) (time first)

/-- The time from each element to the next. -/
def timeSpans {α : Type} (time : α → UInt64) (xs : List α) : Result (List UInt64) :=
  (windows 2 xs).mapM fun w => timeSpan time w 1 0

/-- `sort_by_key`, which is stable. -/
def sortByTime {α : Type} (time : α → UInt64) (xs : List α) : List α :=
  xs.mergeSort fun x y => decide (time x ≤ time y)

/-- `*counts.entry(key).or_insert(0) += 1`. -/
def countEntry {κ : Type} [DecidableEq κ] (key : κ) (counts : Finmap fun _ : κ => Nat) :
    Finmap fun _ : κ => Nat :=
  counts.insert key ((counts.lookup key).getD 0 + 1)

/-! ### When differences are safe -/

theorem checkedSub_of_le {a b : UInt64} (h : b ≤ a) : checkedSub a b = .ok (a - b) := if_pos h

theorem checkedSub_of_lt {a b : UInt64} (h : a < b) : checkedSub a b = .error .panicked :=
  if_neg (UInt64.not_le.mpr h)

theorem subUsize_of_le {a b : Nat} (h : b ≤ a) : subUsize a b = .ok (a - b) := if_pos h

theorem indexVec_of_lt {α : Type} {xs : List α} {i : Nat} (h : i < xs.length) :
    indexVec xs i = .ok xs[i] := by
  rw [indexVec, List.getElem?_eq_getElem h]

section
variable {α : Type} {time : α → UInt64} {xs w : List α}

/-- The elements come in the order of their times. -/
def InTimeOrder (time : α → UInt64) (xs : List α) : Prop :=
  xs.Pairwise fun x y => time x ≤ time y

instance (time : α → UInt64) (xs : List α) : Decidable (InTimeOrder time xs) :=
  inferInstanceAs (Decidable (xs.Pairwise _))

theorem InTimeOrder.getElem_le (h : InTimeOrder time xs) {i j : Nat} (hij : i ≤ j)
    (hj : j < xs.length) : time xs[i] ≤ time xs[j] := by
  rcases Nat.lt_or_eq_of_le hij with hlt | rfl
  · exact List.pairwise_iff_getElem.mp h i j _ hj hlt
  · exact UInt64.le_refl _

theorem InTimeOrder.part (h : InTimeOrder time xs) (hw : w <:+: xs) : InTimeOrder time w :=
  List.Pairwise.sublist hw.sublist h

theorem inTimeOrder_iff_isChain :
    InTimeOrder time xs ↔ xs.IsChain fun x y => time x ≤ time y := by
  have htrans : IsTrans α fun x y => time x ≤ time y := ⟨fun _ _ _ => UInt64.le_trans⟩
  exact List.isChain_iff_pairwise.symm

theorem timeSpan_of_inTimeOrder (h : InTimeOrder time w) {later earlier : Nat}
    (hle : earlier ≤ later) (hlater : later < w.length) :
    Completes (timeSpan time w later earlier) := by
  rw [timeSpan, indexVec_of_lt hlater, indexVec_of_lt (Nat.lt_of_le_of_lt hle hlater)]
  exact ⟨_, checkedSub_of_le (h.getElem_le hle hlater)⟩

theorem timeSpan_of_mem_windows (h : InTimeOrder time xs) {n later earlier : Nat}
    (hle : earlier ≤ later) (hlater : later < n) (hw : w ∈ windows n xs) :
    Completes (timeSpan time w later earlier) := by
  obtain ⟨hlen, hin⟩ := (Windows.mem_windows (Nat.lt_of_le_of_lt (Nat.zero_le later) hlater)).mp hw
  exact timeSpan_of_inTimeOrder (h.part hin) hle (hlen ▸ hlater)

theorem timeSpan_pair (a b : α) : timeSpan time [a, b] 1 0 = checkedSub (time b) (time a) := rfl

/-- **The differences of neighbours.**  They are taken to the end exactly if the elements come
in the order of their times. -/
theorem completes_timeSpans : Completes (timeSpans time xs) ↔ InTimeOrder time xs := by
  rw [timeSpans, Loops.completes_mapM, inTimeOrder_iff_isChain,
    Windows.isChain_iff_forall_windows]
  constructor
  · intro h a b hab
    have hpair := h [a, b] hab
    rw [timeSpan_pair] at hpair
    by_contra hlt
    rw [checkedSub_of_lt (UInt64.not_le.mp hlt)] at hpair
    exact Loops.not_completes_error _ hpair
  · intro h w hw
    obtain ⟨a, b, rfl⟩ := Windows.exists_pair hw
    rw [timeSpan_pair, checkedSub_of_le (h a b hw)]
    exact completes_ok _

theorem timeSpans_eq_panicked (h : ¬InTimeOrder time xs) :
    timeSpans time xs = .error .panicked := by
  cases hspans : timeSpans time xs with
  | ok spans => exact absurd (completes_timeSpans.mp ⟨spans, hspans⟩) h
  | error e =>
      obtain ⟨w, hw, hpanic⟩ := Loops.exists_of_mapM_eq_error hspans
      obtain ⟨a, b, rfl⟩ := Windows.exists_pair hw
      rw [timeSpan_pair, checkedSub] at hpanic
      split at hpanic
      · cases hpanic
      · cases hpanic
        rfl

/-! ### Sorting -/

theorem inTimeOrder_sortByTime (time : α → UInt64) (xs : List α) :
    InTimeOrder time (sortByTime time xs) :=
  pairwise_mergeSort_key time xs

theorem length_sortByTime (time : α → UInt64) (xs : List α) :
    (sortByTime time xs).length = xs.length :=
  List.length_mergeSort xs

theorem sortByTime_of_inTimeOrder (h : InTimeOrder time xs) : sortByTime time xs = xs :=
  List.mergeSort_of_pairwise (h.imp fun hle => decide_eq_true hle)

end

namespace PatternDetector

/-- Create new pattern detector with default settings. -/
def new : PatternDetector where
  minPatternSize := 3
  similarityThreshold := 0.8
  minOccurrences := 3

/-- Create detector with custom settings. -/
def withSettings (minPatternSize : UInt64) (similarityThreshold : Float)
    (minOccurrences : UInt64) : PatternDetector :=
  { minPatternSize, similarityThreshold, minOccurrences }

/-! ## Temporal patterns -/

/-- Extract time intervals between consecutive votes. -/
def extractTimeIntervals (timestamps : List UInt64) : Result (List UInt64) :=
  timeSpans id timestamps

/-- Detect periodic intervals (regular timing). -/
def detectPeriodicIntervals (detector : PatternDetector) (intervals : List UInt64) :
    Option DetectedPattern :=
  if intervals.length < detector.minPatternSize.toNat then none
  else
    let meanInterval := (intervals.foldl (· + ·) 0).toFloat / asF64 intervals.length
    let stdDev := (variance meanInterval (intervals.map UInt64.toFloat)).sqrt
    let coefficientOfVariation := stdDev / meanInterval
    if coefficientOfVariation < 0.2 then
      some
        { patternType := .periodic
          description := "Regular interval pattern detected: ~" ++ formatFixed 0 meanInterval ++
            "ms between votes (CV: " ++ formatFixed 3 coefficientOfVariation ++ ")"
          confidence := 1.0 - coefficientOfVariation
          severity := if coefficientOfVariation < 0.1 then .high else .medium
          occurrences := intervals.length
          evidence := .periodicTiming meanInterval stdDev coefficientOfVariation }
    else none

/-- 1 minute windows. -/
def windowSize : UInt64 := 60000

/-- A vote is counted in its window. -/
def countInWindow (minTime numWindows : UInt64) (windowCounts : List Nat) (timestamp : UInt64) :
    Result (List Nat) := do
  let elapsed ← checkedSub timestamp minTime
  let last ← checkedSub numWindows 1
  let windowIdx := if elapsed / windowSize ≤ last then elapsed / windowSize else last
  let count ← indexVec windowCounts windowIdx.toNat
  .ok (windowCounts.set windowIdx.toNat (count + 1))

/-- The votes in each window, or nothing where all votes are at one time. -/
def windowCounts (timestamps : List UInt64) : Result (List Nat) := do
  let minTime ← indexVec timestamps 0
  let lastIdx ← subUsize timestamps.length 1
  let maxTime ← indexVec timestamps lastIdx
  let timeRange ← checkedSub maxTime minTime
  if timeRange = 0 then .ok []
  else
    let numWindows := if timeRange / windowSize < 1 then 1 else timeRange / windowSize
    timestamps.foldlM (countInWindow minTime numWindows) (List.replicate numWindows.toNat 0)

/-- What is reported of the window `idx`. -/
def burstPattern (meanCount stdDev : Float) (idx count : Nat) : Option DetectedPattern :=
  if meanCount + 3.0 * stdDev < asF64 count then
    let zScore := (asF64 count - meanCount) / stdDev
    some
      { patternType := .burst
        description := "Vote burst detected: " ++ toString count ++
          " votes in 1-minute window (z-score: " ++ formatFixed 2 zScore ++ ")"
        confidence := minF64 (zScore / 10.0) 1.0
        severity := if 5.0 < zScore then .high else .medium
        occurrences := count
        evidence := .burstActivity idx count zScore }
  else none

/-- Detect burst patterns (sudden spikes in activity). -/
def detectBurstPatterns (timestamps : List UInt64) : Result (List DetectedPattern) :=
  if timestamps.isEmpty then .ok []
  else do
    let counts ← windowCounts timestamps
    let meanCount := asF64 (counts.foldl (· + ·) 0) / asF64 counts.length
    let stdDev := (variance meanCount (counts.map asF64)).sqrt
    .ok (counts.zipIdx.filterMap fun entry => burstPattern meanCount stdDev entry.2 entry.1)

/-- `(i as i64 - cycle_length as i64).abs() < (cycle_length as i64 / 10)`. -/
def nearCycle (cycleLength interval : UInt64) : Bool :=
  decide ((interval.toInt64 - cycleLength.toInt64).abs < cycleLength.toInt64 / 10)

/-- What is reported of a cycle length. -/
def cyclicPattern (detector : PatternDetector) (intervals : List UInt64) (cycleLength : UInt64) :
    Option DetectedPattern :=
  let matched := intervals.countP (nearCycle cycleLength)
  if detector.minOccurrences.toNat ≤ matched then
    some
      { patternType := .cyclic
        description := "Cyclic pattern detected: " ++ toString matched ++ " votes with ~" ++
          toString cycleLength ++ "ms intervals"
        confidence := asF64 matched / asF64 intervals.length
        severity := .medium
        occurrences := matched
        evidence := .cyclicTiming cycleLength matched }
  else none

/-- Detect cyclic patterns (repeating over time): 1min, 5min, 1hour. -/
def detectCyclicPatterns (detector : PatternDetector) (timestamps : List UInt64) :
    Result (List DetectedPattern) :=
  if timestamps.length < 10 then .ok []
  else do
    let intervals ← extractTimeIntervals timestamps
    .ok ([60000, 300000, 3600000].filterMap (cyclicPattern detector intervals))

/-- Detect temporal patterns in vote timing. -/
def detectTemporalPatterns (detector : PatternDetector) (votes : List VotePattern) :
    Result (List DetectedPattern) := do
  let timestamps := sortByTime id (votes.map (·.timestamp))
  let intervals ← extractTimeIntervals timestamps
  let periodicPattern := detector.detectPeriodicIntervals intervals
  let burstPatterns ← detectBurstPatterns timestamps
  let cyclicPatterns ← detector.detectCyclicPatterns timestamps
  .ok (periodicPattern.toList ++ burstPatterns ++ cyclicPatterns)

/-! ## Sequential patterns -/

/-- The places and the last three digits of the times of `patternLength` votes from `i` on. -/
def sequenceAt (votes : List VotePattern) (patternLength i : Nat) : Result (List String) := do
  let slice ← sliceVec votes i (i + patternLength)
  .ok (slice.map fun v => v.location.getD "" ++ "-" ++ toString (v.timestamp % 1000))

/-- How often each sequence of a length occurs. -/
def sequenceCounts (votes : List VotePattern) (patternLength : Nat) :
    Result (Finmap fun _ : List String => Nat) := do
  let last ← subUsize votes.length patternLength
  (List.range (last + 1)).foldlM
    (fun counts i => do
      let sequence ← sequenceAt votes patternLength i
      .ok (countEntry sequence counts)) ∅

/-- What is reported of a sequence that occurs `count` times. -/
def repetitivePattern (votes : List VotePattern) (patternLength count : Nat) :
    DetectedPattern where
  patternType := .repetitive
  description := "Repetitive sequence detected: length " ++ toString patternLength ++
    " repeated " ++ toString count ++ " times"
  confidence := minF64 (asF64 count / asF64 votes.length) 1.0
  severity := if 10 < count then .high else .medium
  occurrences := count
  evidence := .repetitiveSequence patternLength count

/-- For each length, the first sequence the map lists that occurs often enough. -/
def repetitiveOf (detector : PatternDetector) (orders : HashOrders) (votes : List VotePattern)
    (patternLength : Nat) : Result (Option DetectedPattern) := do
  let counts ← sequenceCounts votes patternLength
  let found := ((orders.sequences patternLength).values counts).find? fun count =>
    decide (detector.minOccurrences.toNat ≤ count)
  .ok (found.map (repetitivePattern votes patternLength))

/-- Detect repetitive sequences. -/
def detectRepetitiveSequences (detector : PatternDetector) (orders : HashOrders)
    (votes : List VotePattern) : Result (List DetectedPattern) :=
  if votes.length < (detector.minPatternSize * 2).toNat then .ok []
  else do
    let first := detector.minPatternSize.toNat
    let found ← (List.range' first (votes.length / 2 + 1 - first)).mapM
      (detector.repetitiveOf orders votes)
    .ok (found.filterMap id)

/-- Detect automaton-like behavior (machine voting). -/
def detectAutomatonBehavior (votes : List VotePattern) : Result (List DetectedPattern) :=
  if votes.length < 10 then .ok []
  else do
    let intervals ← timeSpans VotePattern.timestamp votes
    let identicalIntervals ← countM (fun w => do
      let a ← indexVec w 0
      let b ← indexVec w 1
      .ok (decide (a = b))) (windows 2 intervals)
    let identicalRatio := asF64 identicalIntervals / asF64 intervals.length
    .ok (if 0.3 < identicalRatio then
      [{ patternType := .automaton
         description := "Automaton behavior detected: " ++
           formatFixed 1 (identicalRatio * 100.0) ++ "% of intervals are identical"
         confidence := identicalRatio
         severity := .high
         occurrences := identicalIntervals
         evidence := .automatonBehavior identicalIntervals intervals.length identicalRatio }]
      else [])

/-- What is reported of an interval between so many votes. -/
def identicalPattern (detector : PatternDetector) (total : Nat) (interval : UInt64)
    (count : Nat) : Option DetectedPattern :=
  if detector.minOccurrences.toNat ≤ count ∧ 0 < interval then
    some
      { patternType := .identicalIntervals
        description := "Identical interval pattern: " ++ toString interval ++ "ms repeated " ++
          toString count ++ " times"
        confidence := asF64 count / asF64 total
        severity := if 5 < count then .high else .medium
        occurrences := count
        evidence := .identicalIntervals interval count }
  else none

/-- Detect identical time intervals. -/
def detectIdenticalIntervals (detector : PatternDetector) (orders : HashOrders)
    (votes : List VotePattern) : Result (List DetectedPattern) :=
  if votes.length < 5 then .ok []
  else do
    let intervals ← timeSpans VotePattern.timestamp votes
    let intervalCounts := intervals.foldl (fun counts interval => countEntry interval counts) ∅
    .ok ((orders.intervals.list intervalCounts).filterMap fun entry =>
      detector.identicalPattern intervals.length entry.1 entry.2)

/-- Detect sequential patterns in vote ordering. -/
def detectSequentialPatterns (detector : PatternDetector) (orders : HashOrders)
    (votes : List VotePattern) : Result (List DetectedPattern) := do
  let repetitiveSequences ← detector.detectRepetitiveSequences orders votes
  let automatonPatterns ← detectAutomatonBehavior votes
  let identicalIntervals ← detector.detectIdenticalIntervals orders votes
  .ok (repetitiveSequences ++ automatonPatterns ++ identicalIntervals)

/-! ## Clustering patterns -/

/-- What is reported of a place. -/
def geographicPattern (totalVotes : Nat) (location : String) (count : Nat) :
    Option DetectedPattern :=
  let ratio := asF64 count / asF64 totalVotes
  if 0.5 < ratio ∧ 10 ≤ count then
    some
      { patternType := .geographicCluster
        description := "Geographic clustering: " ++ formatFixed 1 (ratio * 100.0) ++
          "% of votes from " ++ location
        confidence := ratio
        severity := if 0.8 < ratio then .high else .medium
        occurrences := count
        evidence := .geographicCluster location count (ratio * 100.0) }
  else none

/-- Detect geographic clusters. -/
def detectGeographicClusters (orders : HashOrders) (votes : List VotePattern) :
    List DetectedPattern :=
  let locationCounts := (votes.filterMap (·.location)).foldl
    (fun counts location => countEntry location counts) ∅
  (orders.locations.list locationCounts).filterMap fun entry =>
    geographicPattern votes.length entry.1 entry.2

/-- 5 seconds. -/
def clusterThreshold : UInt64 := 5000

/-- The run that is being read, and what has been reported of those before it. -/
structure ClusterScan where
  patterns : List DetectedPattern
  currentClusterSize : Nat
  currentClusterStart : UInt64

/-- What is reported of a run. -/
def temporalCluster (size : Nat) (start : UInt64) : DetectedPattern where
  patternType := .temporalCluster
  description := "Temporal cluster: " ++ toString size ++ " votes within 5 seconds"
  confidence := 0.8
  severity := if 20 < size then .high else .medium
  occurrences := size
  evidence := .temporalCluster start size

/-- One turn of the loop, at `sorted_votes[i]`. -/
def scanVote (sortedVotes : List VotePattern) (scan : ClusterScan) (i : Nat) :
    Result ClusterScan := do
  let vote ← indexVec sortedVotes i
  let before ← subUsize i 1
  let previous ← indexVec sortedVotes before
  let gap ← checkedSub vote.timestamp previous.timestamp
  if gap ≤ clusterThreshold then
    .ok { scan with currentClusterSize := scan.currentClusterSize + 1 }
  else
    .ok
      { patterns := scan.patterns ++
          if 5 ≤ scan.currentClusterSize then
            [temporalCluster scan.currentClusterSize scan.currentClusterStart] else []
        currentClusterSize := 1
        currentClusterStart := vote.timestamp }

/-- Detect temporal clusters. -/
def detectTemporalClusters (votes : List VotePattern) : Result (List DetectedPattern) :=
  if votes.length < 10 then .ok []
  else do
    let sortedVotes := sortByTime VotePattern.timestamp votes
    let first ← indexVec sortedVotes 0
    let scan ← (List.range' 1 (sortedVotes.length - 1)).foldlM (scanVote sortedVotes)
      { patterns := [], currentClusterSize := 1, currentClusterStart := first.timestamp }
    .ok scan.patterns

/-- The timestamps of each voter, in the order of the list. -/
def voterTimes (votes : List VotePattern) : Finmap fun _ : String => List UInt64 :=
  votes.foldl
    (fun times vote =>
      match vote.voterHash with
      | some voter => times.insert voter ((times.lookup voter).getD [] ++ [vote.timestamp])
      | none => times) ∅

/-- How many votes of one voter follow another within 1 second. -/
def coordinatedPairs (timestamps : List UInt64) : Result Nat :=
  if 1 < timestamps.length then
    countM (fun w => do
      let gap ← timeSpan id w 1 0
      .ok (decide (gap ≤ 1000))) (windows 2 (sortByTime id timestamps))
  else .ok 0

/-- Detect voter clusters (coordinated voting). -/
def detectVoterClusters (orders : HashOrders) (votes : List VotePattern) :
    Result (List DetectedPattern) :=
  if votes.length < 10 then .ok []
  else do
    let coordinatedCount ← (orders.voters.values (voterTimes votes)).foldlM
      (fun count timestamps => do
        let pairs ← coordinatedPairs timestamps
        .ok (count + pairs)) 0
    .ok (if 3 ≤ coordinatedCount then
      [{ patternType := .voterCluster
         description := "Coordinated voting pattern: " ++ toString coordinatedCount ++
           " voter pairs within 1 second"
         confidence := 0.7
         severity := .medium
         occurrences := coordinatedCount
         evidence := .voterCluster coordinatedCount }]
      else [])

/-- Detect clustering patterns. -/
def detectClusteringPatterns (orders : HashOrders) (votes : List VotePattern) :
    Result (List DetectedPattern) := do
  let geographicClusters := detectGeographicClusters orders votes
  let temporalClusters ← detectTemporalClusters votes
  let voterClusters ← detectVoterClusters orders votes
  .ok (geographicClusters ++ temporalClusters ++ voterClusters)

/-! ## Behavioral patterns -/

/-- Detect rapid voting behavior. -/
def detectRapidVoting (votes : List VotePattern) : Result (List DetectedPattern) :=
  if votes.length < 5 then .ok []
  else do
    let rapidThreshold : UInt64 := 100
    let rapidSequences ← countM (fun w => do
      let gap ← timeSpan VotePattern.timestamp w 4 0
      .ok (decide (gap < rapidThreshold * 4))) (windows 5 votes)
    .ok (if 3 ≤ rapidSequences then
      [{ patternType := .rapidVoting
         description := "Rapid voting detected: " ++ toString rapidSequences ++
           " sequences of 5 votes in <400ms"
         confidence := 0.9
         severity := .high
         occurrences := rapidSequences
         evidence := .rapidVoting rapidSequences rapidThreshold }]
      else [])

/-- 5 seconds. -/
def coordinationWindow : UInt64 := 5000

/-- Are the five votes from `i` on together in time, and from three places? -/
def coordinatedGroup (sortedVotes : List VotePattern) (i : Nat) : Result Bool := do
  let windowVotes ← sliceVec sortedVotes i (i + 5)
  let gap ← timeSpan VotePattern.timestamp windowVotes 4 0
  .ok (decide (gap ≤ coordinationWindow ∧
    3 ≤ (windowVotes.filterMap (·.location)).dedup.length))

/-- Detect coordinated voting patterns. -/
def detectCoordinatedVoting (votes : List VotePattern) : Result (List DetectedPattern) :=
  if votes.length < 10 then .ok []
  else do
    let sortedVotes := sortByTime VotePattern.timestamp votes
    let last ← subUsize sortedVotes.length 4
    let coordinatedGroups ← countM (coordinatedGroup sortedVotes) (List.range last)
    .ok (if 3 ≤ coordinatedGroups then
      [{ patternType := .coordinated
         description := "Coordinated voting pattern: " ++ toString coordinatedGroups ++
           " groups with multi-location synchronization"
         confidence := 0.8
         severity := .high
         occurrences := coordinatedGroups
         evidence := .coordinatedVoting coordinatedGroups coordinationWindow }]
      else [])

/-- Detect behavioral patterns. -/
def detectBehavioralPatterns (votes : List VotePattern) : Result (List DetectedPattern) := do
  let rapidVoting ← detectRapidVoting votes
  let coordinatedPatterns ← detectCoordinatedVoting votes
  .ok (rapidVoting ++ coordinatedPatterns)

/-! ## All patterns -/

/-- What a pattern adds to the score, by its severity. -/
def weigh (high medium low score : Float) (pattern : DetectedPattern) : Float :=
  score + (match pattern.severity with
    | .high => high
    | .medium => medium
    | .low => low) * pattern.confidence

/-- Calculate overall risk score based on detected patterns. -/
def calculatePatternRiskScore (temporal sequential clustering behavioral : List DetectedPattern) :
    Float :=
  let score := temporal.foldl (weigh 3.0 2.0 1.0) 0.0
  let score := sequential.foldl (weigh 4.0 2.5 1.0) score
  let score := clustering.foldl (weigh 2.0 1.5 0.5) score
  let score := behavioral.foldl (weigh 5.0 3.0 1.0) score
  minF64 (score / 10.0) 10.0

/-- Detect all patterns in voting data, at the time `now`. -/
def detectPatterns (detector : PatternDetector) (orders : HashOrders) (now : UInt64)
    (votes : List VotePattern) : Result PatternAnalysisResult :=
  if votes.isEmpty then fail (.insufficientData "No votes provided")
  else do
    let temporalPatterns ← detector.detectTemporalPatterns votes
    let sequentialPatterns ← detector.detectSequentialPatterns orders votes
    let clusteringPatterns ← detectClusteringPatterns orders votes
    let behavioralPatterns ← detectBehavioralPatterns votes
    .ok
      { temporalPatterns
        sequentialPatterns
        clusteringPatterns
        behavioralPatterns
        totalPatterns := temporalPatterns.length + sequentialPatterns.length +
          clusteringPatterns.length + behavioralPatterns.length
        riskScore := calculatePatternRiskScore temporalPatterns sequentialPatterns
          clusteringPatterns behavioralPatterns
        timestamp := now }

/-- A vote at a time, with nothing else known of it. -/
def voteAt (timestamp : UInt64) : VotePattern := ⟨"tx", timestamp, none, none⟩

end PatternDetector

end VotingChain
