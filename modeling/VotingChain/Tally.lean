/-
# `VotingChain.Tally` — counting the votes

The model of `ElectionResults` in `voting/src/lib.rs`.  A vote raises the total and the
count of its candidate, who is found in the list of tallies or put at its end; the tallies
may be sorted at any time.

The invariant of a run (`ElectionResults.Counts`) relates the list to the votes that were
added, in whatever order it is.  Everything about counts follows from it
(`ElectionResults.tally_correct`).  The winner is the last tally with the greatest count,
and the order of the list is that in which candidates received their first votes; so of two
candidates with the greatest count the winner is the one whose votes were counted later
(`ElectionResults.winner_independent_iff`).
-/
import Mathlib.Algebra.BigOperators.Group.List.Lemmas
import Mathlib.Algebra.Ring.Nat
import VotingChain.Common
import VotingChain.Lib.Passes
import VotingChain.Lib.Runs

namespace VotingChain

/-- Vote tally for a specific candidate. -/
structure CandidateTally where
  candidateId : String
  voteCount : UInt64
  deriving DecidableEq

/-- Vote tally and results. -/
structure ElectionResults where
  electionId : ElectionId
  totalVotes : UInt64
  candidateTallies : List CandidateTally
  talliedAt : Timestamp
  isFinal : Bool
  deriving DecidableEq

namespace ElectionResults

/-- Create new election results at the time `now`. -/
def new (now : Timestamp) (electionId : ElectionId) : ElectionResults where
  electionId := electionId
  totalVotes := 0
  candidateTallies := []
  talliedAt := now
  isFinal := false

/-- One more vote for a candidate: in the first tally that is the candidate's, or in a new
one at the end. -/
def addToTallies (candidateId : String) : List CandidateTally → List CandidateTally
  | [] => [⟨candidateId, 1⟩]
  | tally :: rest =>
      if tally.candidateId = candidateId then
        { tally with voteCount := tally.voteCount + 1 } :: rest
      else tally :: addToTallies candidateId rest

/-- Add vote to tally. -/
def addVote (candidateId : String) (results : ElectionResults) : ElectionResults :=
  { results with
    totalVotes := results.totalVotes + 1
    candidateTallies := addToTallies candidateId results.candidateTallies }

/-- Get winner (candidate with most votes). -/
def getWinner (results : ElectionResults) : Option CandidateTally :=
  results.candidateTallies.maxByKey fun tally => tally.voteCount.toNat

/-- Sort tallies by vote count (descending); the sort is stable. -/
def sortByVotes (results : ElectionResults) : ElectionResults :=
  { results with
    candidateTallies :=
      results.candidateTallies.mergeSort fun a b => decide (b.voteCount ≤ a.voteCount) }

/-! ## Runs -/

/-- A call of a run. -/
inductive Call where
  | addVote (candidateId : String)
  | sortByVotes

/-- The results after a call. -/
def step (results : ElectionResults) : Call → ElectionResults
  | .addVote candidateId => results.addVote candidateId
  | .sortByVotes => results.sortByVotes

/-- The results after a run of calls on new ones. -/
def run (now : Timestamp) (electionId : ElectionId) (calls : List Call) : ElectionResults :=
  Runs.run step (new now electionId) calls

/-- The votes that are added by the calls, in order. -/
def votes : List Call → List String
  | [] => []
  | .addVote candidateId :: calls => candidateId :: votes calls
  | .sortByVotes :: calls => votes calls

/-- The calls that add the votes and do nothing else. -/
def adding (vs : List String) : List Call := vs.map .addVote

theorem votes_adding (vs : List String) : votes (adding vs) = vs := by
  induction vs with
  | nil => rfl
  | cons v vs ih => exact congrArg (v :: ·) ih

theorem votes_append (calls calls' : List Call) :
    votes (calls ++ calls') = votes calls ++ votes calls' := by
  induction calls with
  | nil => rfl
  | cons call calls ih =>
      cases call with
      | addVote v => exact congrArg (v :: ·) ih
      | sortByVotes => exact ih

/-! ## The invariant -/

/-- What the tallies say about the votes `vs`: one for each candidate with a vote, with as
many votes as there are, up to overflow. -/
structure Counts (tallies : List CandidateTally) (vs : List String) : Prop where
  nodup : (tallies.map CandidateTally.candidateId).Nodup
  mem_iff : ∀ v, v ∈ tallies.map CandidateTally.candidateId ↔ v ∈ vs
  count : ∀ tally ∈ tallies, tally.voteCount = UInt64.ofNat (vs.count tally.candidateId)

theorem candidates_addToTallies (v : String) (tallies : List CandidateTally) :
    (addToTallies v tallies).map CandidateTally.candidateId =
      if v ∈ tallies.map CandidateTally.candidateId then
        tallies.map CandidateTally.candidateId
      else tallies.map CandidateTally.candidateId ++ [v] := by
  induction tallies with
  | nil => rfl
  | cons tally rest ih =>
      rw [addToTallies]
      by_cases hv : tally.candidateId = v
      · rw [if_pos hv, List.map_cons, List.map_cons, if_pos]
        rw [← hv]
        exact List.mem_cons_self
      · rw [if_neg hv, List.map_cons, List.map_cons, ih]
        by_cases hmem : v ∈ rest.map CandidateTally.candidateId
        · rw [if_pos hmem, if_pos (List.mem_cons_of_mem _ hmem)]
        · have hnot : v ∉ tally.candidateId :: rest.map CandidateTally.candidateId := by
            intro h
            rcases List.mem_cons.mp h with h | h
            · exact hv h.symm
            · exact hmem h
          rw [if_neg hmem, if_neg hnot]
          rfl

/-- A tally after one more vote was there before, with one vote less if it is the
candidate's; or it is the first of the candidate. -/
theorem mem_addToTallies {v : String} {tallies : List CandidateTally} {tally : CandidateTally}
    (hnodup : (tallies.map CandidateTally.candidateId).Nodup)
    (h : tally ∈ addToTallies v tallies) :
    (tally ∈ tallies ∧ tally.candidateId ≠ v) ∨
    (∃ old ∈ tallies, old.candidateId = v ∧ tally = { old with voteCount := old.voteCount + 1 }) ∨
    (v ∉ tallies.map CandidateTally.candidateId ∧ tally = ⟨v, 1⟩) := by
  induction tallies with
  | nil => exact Or.inr (Or.inr ⟨List.not_mem_nil, List.mem_singleton.mp h⟩)
  | cons first rest ih =>
      rw [List.map_cons, List.nodup_cons] at hnodup
      rw [addToTallies] at h
      by_cases hv : first.candidateId = v
      · rw [if_pos hv, List.mem_cons] at h
        rcases h with h | h
        · exact Or.inr (Or.inl ⟨first, List.mem_cons_self, hv, h⟩)
        · refine Or.inl ⟨List.mem_cons_of_mem _ h, ?_⟩
          intro heq
          rw [hv, ← heq] at hnodup
          exact hnodup.1 (List.mem_map_of_mem h)
      · rw [if_neg hv, List.mem_cons] at h
        rcases h with h | h
        · rw [h]
          exact Or.inl ⟨List.mem_cons_self, hv⟩
        · rcases ih hnodup.2 h with ⟨hmem, hne⟩ | ⟨old, hmem, hold, htally⟩ | ⟨hnew, htally⟩
          · exact Or.inl ⟨List.mem_cons_of_mem _ hmem, hne⟩
          · exact Or.inr (Or.inl ⟨old, List.mem_cons_of_mem _ hmem, hold, htally⟩)
          · refine Or.inr (Or.inr ⟨?_, htally⟩)
            intro hmem
            rcases List.mem_cons.mp hmem with hmem | hmem
            · exact hv hmem.symm
            · exact hnew hmem

theorem Counts.addVote {tallies : List CandidateTally} {vs : List String} (h : Counts tallies vs)
    (v : String) : Counts (addToTallies v tallies) (vs ++ [v]) := by
  constructor
  · rw [candidates_addToTallies]
    split
    · exact h.nodup
    · next hv =>
        refine List.nodup_append.mpr ⟨h.nodup, List.nodup_singleton v, ?_⟩
        rintro w hw _ hw' rfl
        exact hv (List.mem_singleton.mp hw' ▸ hw)
  · intro w
    rw [candidates_addToTallies, List.mem_append, List.mem_singleton]
    split
    · next hv =>
        rw [h.mem_iff]
        refine ⟨Or.inl, fun hw => hw.elim id fun hwv => ?_⟩
        rw [hwv]
        exact (h.mem_iff v).mp hv
    · rw [List.mem_append, List.mem_singleton, h.mem_iff]
  · intro tally htally
    rcases mem_addToTallies h.nodup htally with ⟨hmem, hne⟩ | ⟨old, hmem, hold, rfl⟩ | ⟨hnew, rfl⟩
    · rw [h.count tally hmem, List.count_append, List.count_singleton, if_neg, Nat.add_zero]
      intro heq
      exact hne (beq_iff_eq.mp heq).symm
    · show old.voteCount + 1 = UInt64.ofNat ((vs ++ [v]).count old.candidateId)
      rw [h.count old hmem, hold, List.count_append, List.count_singleton_self, UInt64.ofNat_add]
      rfl
    · have hzero : vs.count v = 0 := List.count_eq_zero.mpr fun hv => hnew ((h.mem_iff v).mpr hv)
      show (1 : UInt64) = UInt64.ofNat ((vs ++ [v]).count v)
      rw [List.count_append, hzero, List.count_singleton_self]
      rfl

theorem Counts.perm {tallies tallies' : List CandidateTally} {vs : List String}
    (h : Counts tallies vs) (hperm : tallies'.Perm tallies) : Counts tallies' vs := by
  have hmap := hperm.map CandidateTally.candidateId
  refine ⟨hmap.nodup_iff.mpr h.nodup, ?_, ?_⟩
  · intro v
    rw [hmap.mem_iff, h.mem_iff]
  · intro tally htally
    exact h.count tally (hperm.mem_iff.mp htally)

theorem sortByVotes_perm (results : ElectionResults) :
    results.sortByVotes.candidateTallies.Perm results.candidateTallies :=
  List.mergeSort_perm _ _

theorem sortByVotes_pairwise (results : ElectionResults) :
    results.sortByVotes.candidateTallies.Pairwise fun a b => b.voteCount ≤ a.voteCount := by
  have hsorted : results.sortByVotes.candidateTallies.Pairwise fun a b =>
      decide (b.voteCount ≤ a.voteCount) = true := by
    refine List.pairwise_mergeSort ?_ ?_ results.candidateTallies
    · intro a b c hab hbc
      rw [decide_eq_true_eq] at hab hbc ⊢
      exact UInt64.le_trans hbc hab
    · intro a b
      rw [Bool.or_eq_true, decide_eq_true_eq, decide_eq_true_eq]
      exact UInt64.le_total _ _
  exact hsorted.imp fun h => of_decide_eq_true h

/-- What every call keeps: the total and the tallies are those of the votes so far. -/
theorem counts_run (now : Timestamp) (electionId : ElectionId) (calls : List Call) :
    (run now electionId calls).totalVotes = UInt64.ofNat (votes calls).length ∧
      Counts (run now electionId calls).candidateTallies (votes calls) := by
  induction calls using List.reverseRecOn with
  | nil =>
      refine ⟨rfl, List.nodup_nil, fun v => Iff.rfl, ?_⟩
      intro tally htally
      exact absurd htally List.not_mem_nil
  | append_singleton calls call ih =>
      obtain ⟨htotal, hcounts⟩ := ih
      rw [run, Runs.run_concat, votes_append]
      cases call with
      | addVote v =>
          refine ⟨?_, hcounts.addVote v⟩
          show (run now electionId calls).totalVotes + 1 = _
          rw [htotal, List.length_append, UInt64.ofNat_add]
          rfl
      | sortByVotes =>
          rw [votes, votes, List.append_nil]
          exact ⟨htotal, hcounts.perm (sortByVotes_perm _)⟩

/-! ## The counts -/

theorem Counts.perm_dedup {tallies : List CandidateTally} {vs : List String}
    (h : Counts tallies vs) : (tallies.map CandidateTally.candidateId).Perm vs.dedup := by
  refine (List.perm_ext_iff_of_nodup h.nodup (List.nodup_dedup vs)).mpr ?_
  intro v
  rw [h.mem_iff, List.mem_dedup]

theorem Counts.toNat_voteCount {tallies : List CandidateTally} {vs : List String}
    (h : Counts tallies vs) (hlen : vs.length < 2 ^ 64) :
    ∀ tally ∈ tallies, tally.voteCount.toNat = vs.count tally.candidateId := by
  intro tally htally
  have hcount : vs.count tally.candidateId ≤ vs.length := List.count_le_length
  rw [h.count tally htally, UInt64.toNat_ofNat_of_lt' (hcount.trans_lt hlen)]

theorem Counts.sum_voteCount {tallies : List CandidateTally} {vs : List String}
    (h : Counts tallies vs) (hlen : vs.length < 2 ^ 64) :
    (tallies.map fun tally => tally.voteCount.toNat).sum = vs.length := by
  calc (tallies.map fun tally => tally.voteCount.toNat).sum
      = (tallies.map fun tally => vs.count tally.candidateId).sum := by
        rw [List.map_congr_left (h.toNat_voteCount hlen)]
    _ = ((tallies.map CandidateTally.candidateId).map fun v => vs.count v).sum := by
        rw [List.map_map]
        rfl
    _ = (vs.dedup.map fun v => vs.count v).sum := (h.perm_dedup.map _).sum_eq
    _ = vs.length := List.sum_map_count_dedup_eq_length vs

theorem Counts.eq_nil_iff {tallies : List CandidateTally} {vs : List String}
    (h : Counts tallies vs) : tallies = [] ↔ vs = [] := by
  rw [List.eq_nil_iff_forall_not_mem, List.eq_nil_iff_forall_not_mem]
  constructor
  · intro hnil v hv
    obtain ⟨tally, htally, -⟩ := List.mem_map.mp ((h.mem_iff v).mpr hv)
    exact hnil tally htally
  · intro hnil tally htally
    exact hnil _ ((h.mem_iff _).mp (List.mem_map_of_mem htally))

theorem getWinner_eq_some {results : ElectionResults} {tally : CandidateTally}
    (h : results.getWinner = some tally) :
    tally ∈ results.candidateTallies ∧
      ∀ other ∈ results.candidateTallies, other.voteCount ≤ tally.voteCount := by
  obtain ⟨hmem, hle⟩ := List.maxByKey_eq_some h
  exact ⟨hmem, fun other hother => UInt64.le_iff_toNat_le.mpr (hle other hother)⟩

/-- **The tallies count the votes.**  After any run of fewer than `2 ^ 64` votes, sorted or
not on the way: the total is the number of votes; there is one tally for each candidate
with a vote, and its count is the number of those votes; the counts add up to the total;
sorting rearranges the tallies by count; and there is a winner, with the greatest count, as
soon as there is a vote. -/
theorem tally_correct (now : Timestamp) (electionId : ElectionId) (calls : List Call)
    (hlen : (votes calls).length < 2 ^ 64) :
    (run now electionId calls).totalVotes.toNat = (votes calls).length ∧
    ((run now electionId calls).candidateTallies.map CandidateTally.candidateId).Nodup ∧
    (∀ tally ∈ (run now electionId calls).candidateTallies,
      tally.voteCount.toNat = (votes calls).count tally.candidateId) ∧
    (∀ v ∈ votes calls, ∃ tally ∈ (run now electionId calls).candidateTallies,
      tally.candidateId = v) ∧
    ((run now electionId calls).candidateTallies.map fun tally => tally.voteCount.toNat).sum =
      (run now electionId calls).totalVotes.toNat ∧
    (run now electionId calls).sortByVotes.candidateTallies.Perm
      (run now electionId calls).candidateTallies ∧
    ((run now electionId calls).sortByVotes.candidateTallies.Pairwise fun a b =>
      b.voteCount ≤ a.voteCount) ∧
    (votes calls ≠ [] ↔ ∃ tally, (run now electionId calls).getWinner = some tally) ∧
    ∀ tally, (run now electionId calls).getWinner = some tally →
      tally ∈ (run now electionId calls).candidateTallies ∧
      ∀ other ∈ (run now electionId calls).candidateTallies,
        other.voteCount ≤ tally.voteCount := by
  obtain ⟨htotal, hcounts⟩ := counts_run now electionId calls
  have htotal' : (run now electionId calls).totalVotes.toNat = (votes calls).length := by
    rw [htotal, UInt64.toNat_ofNat_of_lt' hlen]
  refine ⟨htotal', hcounts.nodup, hcounts.toNat_voteCount hlen, ?_, ?_, sortByVotes_perm _,
    sortByVotes_pairwise _, ?_, fun tally => getWinner_eq_some⟩
  · intro v hv
    exact List.mem_map.mp ((hcounts.mem_iff v).mpr hv)
  · rw [hcounts.sum_voteCount hlen, htotal']
  · rw [← Option.ne_none_iff_exists', ne_eq, ne_eq, getWinner, List.maxByKey_eq_none,
      hcounts.eq_nil_iff]

/-- Three votes, sorted between the second and the third. -/
theorem tally_correct_three :
    (run 1000 ⟨List.Vector.replicate 16 1⟩
      [.addVote "candidate_1", .addVote "candidate_2", .sortByVotes,
        .addVote "candidate_2"]).totalVotes.toNat = 3 :=
  (tally_correct 1000 ⟨List.Vector.replicate 16 1⟩
    [.addVote "candidate_1", .addVote "candidate_2", .sortByVotes, .addVote "candidate_2"]
    (show 3 < 2 ^ 64 by decide)).1

/-! ## The winner and the order of counting -/

/-- There is a vote for `v`, and nobody has a greater count. -/
def Top (vs : List String) (v : String) : Prop :=
  v ∈ vs ∧ ∀ w ∈ vs, UInt64.ofNat (vs.count w) ≤ UInt64.ofNat (vs.count v)

theorem Counts.perm_votes {tallies : List CandidateTally} {vs vs' : List String}
    (h : Counts tallies vs) (hperm : vs.Perm vs') : Counts tallies vs' := by
  refine ⟨h.nodup, ?_, ?_⟩
  · intro v
    rw [h.mem_iff, hperm.mem_iff]
  · intro tally htally
    rw [h.count tally htally, hperm.count_eq]

theorem top_of_getWinner {results : ElectionResults} {vs : List String} {tally : CandidateTally}
    (hcounts : Counts results.candidateTallies vs) (h : results.getWinner = some tally) :
    Top vs tally.candidateId := by
  obtain ⟨hmem, hle⟩ := getWinner_eq_some h
  refine ⟨(hcounts.mem_iff _).mp (List.mem_map_of_mem hmem), ?_⟩
  intro w hw
  obtain ⟨other, hother, rfl⟩ := List.mem_map.mp ((hcounts.mem_iff w).mpr hw)
  rw [← hcounts.count other hother, ← hcounts.count tally hmem]
  exact hle other hother

theorem addToTallies_append {v : String} {tallies : List CandidateTally}
    (h : v ∉ tallies.map CandidateTally.candidateId) (rest : List CandidateTally) :
    addToTallies v (tallies ++ rest) = tallies ++ addToTallies v rest := by
  induction tallies with
  | nil => rfl
  | cons tally tallies ih =>
      rw [List.map_cons, List.mem_cons, not_or] at h
      rw [List.cons_append, addToTallies, if_neg fun heq => h.1 heq.symm, ih h.2, List.cons_append]

theorem run_adding_replicate {v : String} {tallies : List CandidateTally}
    (h : v ∉ tallies.map CandidateTally.candidateId) (n : Nat) :
    ∀ {results : ElectionResults} {c : UInt64}, results.candidateTallies = tallies ++ [⟨v, c⟩] →
      ∃ c', (Runs.run step results (adding (List.replicate n v))).candidateTallies =
        tallies ++ [⟨v, c'⟩] := by
  induction n with
  | zero =>
      intro results c hresults
      exact ⟨c, hresults⟩
  | succ n ih =>
      intro results c hresults
      refine ih (c := c + 1) ?_
      show addToTallies v results.candidateTallies = _
      rw [hresults, addToTallies_append h, addToTallies, if_pos rfl]

theorem run_adding_new {v : String} {results : ElectionResults}
    (h : v ∉ results.candidateTallies.map CandidateTally.candidateId) (n : Nat) :
    ∃ c, (Runs.run step results (adding (List.replicate (n + 1) v))).candidateTallies =
      results.candidateTallies ++ [⟨v, c⟩] := by
  have hfirst : (results.addVote v).candidateTallies = results.candidateTallies ++ [⟨v, 1⟩] := by
    have happend := addToTallies_append h []
    rwa [List.append_nil] at happend
  exact run_adding_replicate h n hfirst

/-- The same votes, those for `v` after all others. -/
def countedLast (vs : List String) (v : String) : List String :=
  vs.filter (fun w => decide (w ≠ v)) ++ List.replicate (vs.count v) v

theorem countedLast_perm (vs : List String) (v : String) : (countedLast vs v).Perm vs := by
  have hfilter : List.replicate (vs.count v) v = vs.filter fun w => !decide (w ≠ v) := by
    rw [← List.filter_eq]
    refine List.filter_congr fun w _ => ?_
    simp
  rw [countedLast, hfilter]
  exact List.filter_append_perm _ vs

theorem getWinner_countedLast (now : Timestamp) (electionId : ElectionId) {vs : List String}
    {v : String} (htop : Top vs v) :
    (run now electionId (adding (countedLast vs v))).getWinner.map CandidateTally.candidateId =
      some v := by
  obtain ⟨n, hn⟩ : ∃ n, vs.count v = n + 1 :=
    Nat.exists_eq_succ_of_ne_zero (List.count_pos_iff.mpr htop.1).ne'
  -- the tallies after the other votes, in which the candidate is not found
  obtain ⟨-, hothers⟩ := counts_run now electionId (adding (vs.filter fun w => decide (w ≠ v)))
  rw [votes_adding] at hothers
  have hnew : v ∉ (run now electionId
      (adding (vs.filter fun w => decide (w ≠ v)))).candidateTallies.map
        CandidateTally.candidateId := by
    rw [hothers.mem_iff]
    intro hmem
    exact of_decide_eq_true (List.mem_filter.mp hmem).2 rfl
  obtain ⟨c, hc⟩ : ∃ c, (run now electionId (adding (countedLast vs v))).candidateTallies =
      (run now electionId (adding (vs.filter fun w => decide (w ≠ v)))).candidateTallies ++
        [⟨v, c⟩] := by
    rw [countedLast, adding, List.map_append, hn, run, Runs.run_append]
    exact run_adding_new hnew n
  obtain ⟨-, hcounts⟩ := counts_run now electionId (adding (countedLast vs v))
  rw [votes_adding] at hcounts
  have hall := hcounts.perm_votes (countedLast_perm vs v)
  rw [getWinner, hc, List.maxByKey_concat]
  · rfl
  · intro other hother
    have hmem : other ∈ (run now electionId (adding (countedLast vs v))).candidateTallies := by
      rw [hc]
      exact List.mem_append_left _ hother
    have hlast : (⟨v, c⟩ : CandidateTally) ∈
        (run now electionId (adding (countedLast vs v))).candidateTallies := by
      rw [hc]
      exact List.mem_append_right _ (List.mem_singleton_self _)
    have hle := htop.2 other.candidateId ((hall.mem_iff _).mp (List.mem_map_of_mem hmem))
    rw [← hall.count other hmem, ← hall.count _ hlast] at hle
    exact UInt64.le_iff_toNat_le.mp hle

/-- **When the order of counting does not matter.**  All runs that add the votes `vs`, in
any order and sorted at any time, have the same winner exactly if no two candidates share
the greatest count. -/
theorem winner_independent_iff (now : Timestamp) (electionId : ElectionId) (vs : List String) :
    (∀ calls calls', (votes calls).Perm vs → (votes calls').Perm vs →
      (run now electionId calls).getWinner.map CandidateTally.candidateId =
        (run now electionId calls').getWinner.map CandidateTally.candidateId) ↔
    ∀ v w, Top vs v → Top vs w → v = w := by
  have hvotes : ∀ v, (votes (adding (countedLast vs v))).Perm vs := by
    intro v
    rw [votes_adding]
    exact countedLast_perm vs v
  constructor
  · intro h v w hv hw
    have hsame := h _ _ (hvotes v) (hvotes w)
    rw [getWinner_countedLast now electionId hv, getWinner_countedLast now electionId hw] at hsame
    exact Option.some.inj hsame
  · intro h calls calls' hperm hperm'
    have hcounts := (counts_run now electionId calls).2.perm_votes hperm
    have hcounts' := (counts_run now electionId calls').2.perm_votes hperm'
    -- there is a winner in both runs or in neither
    have hnone : (run now electionId calls).getWinner = none ↔
        (run now electionId calls').getWinner = none := by
      rw [getWinner, getWinner, List.maxByKey_eq_none, List.maxByKey_eq_none, hcounts.eq_nil_iff,
        hcounts'.eq_nil_iff]
    cases hwin : (run now electionId calls).getWinner with
    | none => rw [hnone.mp hwin]
    | some tally =>
        cases hwin' : (run now electionId calls').getWinner with
        | none =>
            rw [hnone.mpr hwin'] at hwin
            cases hwin
        | some tally' =>
            exact congrArg some (h _ _ (top_of_getWinner hcounts hwin)
              (top_of_getWinner hcounts' hwin'))

/-- Of two candidates with one vote each, the one counted last wins. -/
theorem winner_of_tie :
    (votes [.addVote "candidate_1", .addVote "candidate_2"]).Perm
      (votes [.addVote "candidate_2", .addVote "candidate_1"]) ∧
    (run 1000 ⟨List.Vector.replicate 16 1⟩
      [.addVote "candidate_1", .addVote "candidate_2"]).getWinner = some ⟨"candidate_2", 1⟩ ∧
    (run 1000 ⟨List.Vector.replicate 16 1⟩
      [.addVote "candidate_2", .addVote "candidate_1"]).getWinner = some ⟨"candidate_1", 1⟩ :=
  ⟨List.Perm.swap _ _ _, by decide, by decide⟩

end ElectionResults

end VotingChain
