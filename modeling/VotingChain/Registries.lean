/-
# `VotingChain.Registries` — the voter registry and the ballot box

The model of `VoterRegistry` in `voting/src/voter.rs` and of `BallotBox` in `ballot.rs`.
Both keep their entries in a vector, in the order in which they came, and the position of
each in a map.  In the box nothing changes after that; in the registry a voter is marked
in place, at the position that the map gives.

What is in the vector is known from the history: it has the voters that were added, and
each has voted in the elections that were marked for that voter, in addition to those that
the voter came with (`VoterRegistry.Holds`).
-/
import VotingChain.Voters
import VotingChain.Lib.Indexed

namespace VotingChain

open Indexed (Indexes)

/-- What is put down of a call, if it returned `Ok`. -/
def onOk {α : Type} (result : Result Unit) (entries : List α) : List α :=
  match result with
  | .ok _ => entries
  | .error _ => []

structure VoterRegistry where
  voters : List VoterState
  voterIndex : Finmap fun _ : VoterId => Nat

namespace VoterRegistry

def new : VoterRegistry := ⟨[], ∅⟩

def registerVoter (voter : VoterState) : Exec VoterRegistry Unit := do
  Exec.lift (ensure (decide (voter.id ∉ (← get).voterIndex))
    (.invalidInput "Voter already exists in registry"))
  modify fun registry =>
    { voters := registry.voters ++ [voter]
      voterIndex := registry.voterIndex.insert voter.id registry.voters.length }

def getVoter (registry : VoterRegistry) (voterId : VoterId) : Option VoterState :=
  (registry.voterIndex.lookup voterId).bind fun index => registry.voters[index]?

/-- The voter, with the place where a change is to be written. -/
def getVoterMut (registry : VoterRegistry) (voterId : VoterId) : Option (Nat × VoterState) :=
  (registry.voterIndex.lookup voterId).bind fun index =>
    (registry.voters[index]?).map fun voter => (index, voter)

def isRegistered (registry : VoterRegistry) (voterId : VoterId) : Bool :=
  ((registry.getVoter voterId).map VoterState.isRegistered).getD false

def isEligible (registry : VoterRegistry) (voterId : VoterId) (electionId : ElectionId) : Bool :=
  ((registry.getVoter voterId).map fun voter => voter.isEligible electionId).getD false

def markVoted (voterId : VoterId) (electionId : ElectionId) : Exec VoterRegistry Unit := do
  match (← get).getVoterMut voterId with
  | none => Exec.lift (fail (.voterNotEligible "Voter not found"))
  | some (index, voter) =>
      Exec.on voter
        (fun voter registry => { registry with voters := registry.voters.set index voter })
        (VoterState.markVoted electionId)

/-! ### What the calls do -/

theorem exec_registerVoter (voter : VoterState) (registry : VoterRegistry) :
    (voter.id ∉ registry.voterIndex ∧ (registerVoter voter).exec registry =
      (.ok (), ⟨registry.voters ++ [voter],
        registry.voterIndex.insert voter.id registry.voters.length⟩)) ∨
    ∃ e, (registerVoter voter).exec registry = (.error e, registry) := by
  rw [registerVoter, Exec.exec_get_bind, Exec.exec_lift_bind]
  by_cases h : voter.id ∈ registry.voterIndex
  · rw [decide_eq_false (not_not.mpr h)]
    exact Or.inr ⟨_, rfl⟩
  · rw [decide_eq_true h]
    exact Or.inl ⟨h, rfl⟩

theorem exec_markVoted (voterId : VoterId) (electionId : ElectionId) (registry : VoterRegistry) :
    (∃ index voter, registry.voterIndex.lookup voterId = some index ∧
      registry.voters[index]? = some voter ∧ electionId ∉ voter.electionsVoted ∧
      (markVoted voterId electionId).exec registry =
        (.ok (), { registry with
          voters := registry.voters.set index
            { voter with electionsVoted := insert electionId voter.electionsVoted } })) ∨
    ∃ e, (markVoted voterId electionId).exec registry = (.error e, registry) := by
  rw [markVoted, Exec.exec_get_bind, getVoterMut]
  cases hindex : registry.voterIndex.lookup voterId with
  | none => exact Or.inr ⟨_, rfl⟩
  | some index =>
      cases hvoter : registry.voters[index]? with
      | none =>
          simp only [Option.bind_some, hvoter, Option.map_none]
          exact Or.inr ⟨_, rfl⟩
      | some voter =>
          simp only [Option.bind_some, hvoter, Option.map_some, Exec.exec_on]
          rcases VoterState.exec_markVoted electionId voter with ⟨hfresh, hexec⟩ | ⟨-, hexec⟩
          · rw [hexec]
            exact Or.inl ⟨index, voter, rfl, hvoter, hfresh, rfl⟩
          · -- the voter is written back unchanged
            obtain ⟨hlt, rfl⟩ := List.getElem?_eq_some_iff.mp hvoter
            have hsame : registry.voters.set index registry.voters[index] = registry.voters :=
              List.set_getElem_self hlt
            rw [hexec, hsame]
            exact Or.inr ⟨_, rfl⟩

/-! ### Runs -/

/-- A call on the registry. -/
inductive Call where
  | registerVoter (voter : VoterState)
  | markVoted (voterId : VoterId) (electionId : ElectionId)

def Call.method : Call → Exec VoterRegistry Unit
  | .registerVoter voter => VoterRegistry.registerVoter voter
  | .markVoted voterId electionId => VoterRegistry.markVoted voterId electionId

/-- The registry after a call. -/
def step (registry : VoterRegistry) (call : Call) : VoterRegistry := call.method.next registry

/-- Whom a call has added, if it returned `Ok`. -/
def added (registry : VoterRegistry) : Call → List VoterState
  | .registerVoter voter => onOk ((VoterRegistry.registerVoter voter).exec registry).1 [voter]
  | .markVoted _ _ => []

/-- Whom a call has marked for which election, if it returned `Ok`. -/
def marked (registry : VoterRegistry) : Call → List (VoterId × ElectionId)
  | .registerVoter _ => []
  | .markVoted voterId electionId =>
      onOk ((VoterRegistry.markVoted voterId electionId).exec registry).1 [(voterId, electionId)]

/-- **What a call does**: it adds a voter at the end, or marks the voter at a position, or
returns an error and changes nothing. -/
theorem step_cases (registry : VoterRegistry) (call : Call) :
    (∃ voter, call = .registerVoter voter ∧ voter.id ∉ registry.voterIndex ∧
      call.method.exec registry = (.ok (), step registry call) ∧
      added registry call = [voter] ∧ marked registry call = [] ∧
      step registry call = ⟨registry.voters ++ [voter],
        registry.voterIndex.insert voter.id registry.voters.length⟩) ∨
    (∃ voterId electionId index voter, call = .markVoted voterId electionId ∧
      registry.voterIndex.lookup voterId = some index ∧
      registry.voters[index]? = some voter ∧ electionId ∉ voter.electionsVoted ∧
      call.method.exec registry = (.ok (), step registry call) ∧
      added registry call = [] ∧ marked registry call = [(voterId, electionId)] ∧
      step registry call = { registry with
        voters := registry.voters.set index
          { voter with electionsVoted := insert electionId voter.electionsVoted } }) ∨
    (∃ e, call.method.exec registry = (.error e, registry) ∧ added registry call = [] ∧
      marked registry call = [] ∧ step registry call = registry) := by
  cases call with
  | registerVoter voter =>
      rcases exec_registerVoter voter registry with ⟨hnew, hexec⟩ | ⟨e, hexec⟩
      · have hstep := Exec.next_of_ok hexec
        refine Or.inl ⟨voter, rfl, hnew, ?_, ?_, rfl, hstep⟩
        · rw [step, Call.method, hstep, hexec]
        · rw [added, hexec, onOk]
      · refine Or.inr (Or.inr ⟨e, hexec, ?_, rfl, Exec.next_of_error hexec⟩)
        rw [added, hexec, onOk]
  | markVoted voterId electionId =>
      rcases exec_markVoted voterId electionId registry with
        ⟨index, voter, hindex, hvoter, hfresh, hexec⟩ | ⟨e, hexec⟩
      · have hstep := Exec.next_of_ok hexec
        refine Or.inr (Or.inl
          ⟨voterId, electionId, index, voter, rfl, hindex, hvoter, hfresh, ?_, rfl, ?_, hstep⟩)
        · rw [step, Call.method, hstep, hexec]
        · rw [marked, hexec, onOk]
      · refine Or.inr (Or.inr ⟨e, hexec, rfl, ?_, Exec.next_of_error hexec⟩)
        rw [marked, hexec, onOk]

/-! ### What is in the registry -/

end VoterRegistry

/-- The elections that were marked for a voter. -/
def electionsOf (marks : List (VoterId × ElectionId)) (voterId : VoterId) : Finset ElectionId :=
  ((marks.filter fun mark => decide (mark.1 = voterId)).map Prod.snd).toFinset

theorem mem_electionsOf {marks : List (VoterId × ElectionId)} {voterId : VoterId}
    {electionId : ElectionId} :
    electionId ∈ electionsOf marks voterId ↔ (voterId, electionId) ∈ marks := by
  simp [electionsOf]

theorem electionsOf_concat (marks : List (VoterId × ElectionId)) (mark : VoterId × ElectionId)
    (voterId : VoterId) :
    electionsOf (marks ++ [mark]) voterId =
      if mark.1 = voterId then insert mark.2 (electionsOf marks voterId)
      else electionsOf marks voterId := by
  ext electionId
  rw [mem_electionsOf, List.mem_append, List.mem_singleton, ← mem_electionsOf]
  obtain ⟨markedId, markedElection⟩ := mark
  by_cases h : markedId = voterId
  · subst h
    rw [if_pos rfl, Finset.mem_insert, Prod.mk.injEq, or_comm, and_iff_right rfl]
  · rw [if_neg h, Prod.mk.injEq]
    exact or_iff_left fun hsame => h hsame.1.symm

namespace VoterState

/-- The voter has voted in one more election. -/
def mark (electionId : ElectionId) (voter : VoterState) : VoterState :=
  { voter with electionsVoted := insert electionId voter.electionsVoted }

/-- The voter has voted in the elections that were marked, as well. -/
def votedIn (marks : List (VoterId × ElectionId)) (voter : VoterState) : VoterState :=
  { voter with electionsVoted := voter.electionsVoted ∪ electionsOf marks voter.id }

theorem votedIn_concat_self (marks : List (VoterId × ElectionId)) (voter : VoterState)
    (electionId : ElectionId) :
    voter.votedIn (marks ++ [(voter.id, electionId)]) = (voter.votedIn marks).mark electionId := by
  rw [votedIn, electionsOf_concat, if_pos rfl, Finset.union_insert]
  rfl

theorem votedIn_concat_of_ne {marks : List (VoterId × ElectionId)} {voter : VoterState}
    {voterId : VoterId} (h : voterId ≠ voter.id) (electionId : ElectionId) :
    voter.votedIn (marks ++ [(voterId, electionId)]) = voter.votedIn marks := by
  rw [votedIn, electionsOf_concat, if_neg h]
  rfl

theorem votedIn_of_not_mem {marks : List (VoterId × ElectionId)} {voter : VoterState}
    (h : ∀ mark ∈ marks, mark.1 ≠ voter.id) : voter.votedIn marks = voter := by
  have hnone : electionsOf marks voter.id = ∅ := by
    refine Finset.eq_empty_of_forall_notMem ?_
    intro electionId hmem
    exact h _ (mem_electionsOf.mp hmem) rfl
  rw [votedIn, hnone, Finset.union_empty]

end VoterState

namespace VoterRegistry

/-- The registry has the voters who were added, and they have voted where they were marked.
The index is right, whoever was marked had been added, and nothing was marked twice. -/
structure Holds (registry : VoterRegistry) (voters : List VoterState)
    (marks : List (VoterId × ElectionId)) : Prop where
  indexes : Indexes (fun voter : VoterState => voter.id) registry.voters registry.voterIndex
  voters : registry.voters = voters.map (VoterState.votedIn marks)
  known : ∀ mark ∈ marks, mark.1 ∈ registry.voterIndex
  once : marks.Nodup

theorem holds_new : Holds new [] [] :=
  ⟨Indexed.indexes_nil, rfl, List.forall_mem_nil _, List.nodup_nil⟩

theorem Holds.push {registry : VoterRegistry} {voters : List VoterState}
    {marks : List (VoterId × ElectionId)} (h : Holds registry voters marks) {voter : VoterState}
    (hnew : voter.id ∉ registry.voterIndex) :
    Holds ⟨registry.voters ++ [voter],
      registry.voterIndex.insert voter.id registry.voters.length⟩ (voters ++ [voter]) marks := by
  have hunmarked : voter.votedIn marks = voter := by
    refine VoterState.votedIn_of_not_mem ?_
    intro mark hmem heq
    exact hnew (heq ▸ h.known mark hmem)
  refine ⟨h.indexes.push hnew, ?_, ?_, h.once⟩
  · rw [List.map_append, List.map_singleton, hunmarked, ← h.voters]
  · intro mark hmem
    exact Finmap.mem_insert.mpr (Or.inr (h.known mark hmem))

theorem Holds.mark {registry : VoterRegistry} {voters : List VoterState}
    {marks : List (VoterId × ElectionId)} (h : Holds registry voters marks) {voterId : VoterId}
    {electionId : ElectionId} {index : Nat} {voter : VoterState}
    (hindex : registry.voterIndex.lookup voterId = some index)
    (hvoter : registry.voters[index]? = some voter) (hfresh : electionId ∉ voter.electionsVoted) :
    Holds { registry with voters := registry.voters.set index (voter.mark electionId) } voters
      (marks ++ [(voterId, electionId)]) := by
  have hid : voter.id = voterId := by
    obtain ⟨voter', hvoter', hid⟩ := (h.indexes voterId index).mp hindex
    obtain rfl := Option.some.inj (hvoter.symm.trans hvoter')
    exact hid
  refine ⟨h.indexes.set hvoter rfl, ?_, ?_, ?_⟩
  · rw [h.indexes.set_eq_map hindex hvoter (VoterState.mark electionId), h.voters, List.map_map]
    refine List.map_congr_left ?_
    rintro given -
    rw [Function.comp_apply]
    by_cases hgiven : given.id = voterId
    · subst hgiven
      rw [VoterState.votedIn_concat_self]
      exact if_pos rfl
    · rw [VoterState.votedIn_concat_of_ne (Ne.symm hgiven)]
      exact if_neg hgiven
  · intro mark hmem
    rcases List.mem_append.mp hmem with hmem | hmem
    · exact h.known mark hmem
    · rw [List.mem_singleton.mp hmem, ← Finmap.lookup_isSome, hindex]
      rfl
  · refine List.nodup_append.mpr ⟨h.once, List.nodup_singleton _, ?_⟩
    rintro mark hmem _ hlast rfl
    rw [List.mem_singleton.mp hlast] at hmem
    -- the voter there has voted where that was marked
    obtain ⟨given, -, hgiven⟩ : ∃ given ∈ voters, given.votedIn marks = voter := by
      rw [← List.mem_map, ← h.voters]
      exact List.mem_of_getElem? hvoter
    have hvoted : electionId ∈ electionsOf marks given.id := by
      rw [mem_electionsOf, show given.id = voterId from (congrArg (fun v => v.id) hgiven).trans hid]
      exact hmem
    rw [← hgiven] at hfresh
    exact hfresh (Finset.mem_union_right _ hvoted)

theorem Holds.step {registry : VoterRegistry} {voters : List VoterState}
    {marks : List (VoterId × ElectionId)} (h : Holds registry voters marks) (call : Call) :
    Holds (step registry call) (voters ++ added registry call)
      (marks ++ marked registry call) := by
  rcases step_cases registry call with ⟨voter, -, hnew, -, hadded, hmarked, hstep⟩ |
    ⟨voterId, electionId, index, voter, -, hindex, hvoter, hfresh, -, hadded, hmarked, hstep⟩ |
    ⟨e, -, hadded, hmarked, hstep⟩
  · rw [hadded, hmarked, hstep, List.append_nil]
    exact h.push hnew
  · rw [hadded, hmarked, hstep, List.append_nil]
    exact h.mark hindex hvoter hfresh
  · rw [hadded, hmarked, hstep, List.append_nil, List.append_nil]
    exact h

theorem holds_run (calls : List Call) :
    Holds (Runs.run step new calls) (Runs.trace step added new calls)
      (Runs.trace step marked new calls) := by
  induction calls using List.reverseRecOn with
  | nil => exact holds_new
  | append_singleton calls call ih =>
      rw [Runs.run_concat, Runs.trace_concat, Runs.trace_concat]
      exact ih.step call

/-! ### What can be said from outside -/

/-- The ids are different, the index maps them to their positions, a voter is found exactly
if added, with the elections that were marked since, and nothing was marked twice. -/
structure Exact (registry : VoterRegistry) (voters : List VoterState)
    (marks : List (VoterId × ElectionId)) : Prop where
  distinct : (registry.voters.map fun voter => voter.id).Nodup
  index : ∀ voterId i, registry.voterIndex.lookup voterId = some i ↔
    ∃ voter, registry.voters[i]? = some voter ∧ voter.id = voterId
  getVoter : ∀ voterId voter, registry.getVoter voterId = some voter ↔
    ∃ given ∈ voters, given.id = voterId ∧ voter = given.votedIn marks
  once : marks.Nodup

/-- What a call may change: a voter who is marked has voted in one more election, and
everybody else and the index are as before; a call that returns an error changes nothing. -/
structure CallExact (registry : VoterRegistry) (call : Call) : Prop where
  marks : ∀ voterId electionId, call = .markVoted voterId electionId →
    (call.method.exec registry).1 = .ok () →
      (call.method.exec registry).2.voterIndex = registry.voterIndex ∧
      (call.method.exec registry).2.voters = registry.voters.map fun voter =>
        if voter.id = voterId then voter.mark electionId else voter
  error : ∀ e, (call.method.exec registry).1 = .error e →
    (call.method.exec registry).2 = registry

theorem Holds.exact {registry : VoterRegistry} {voters : List VoterState}
    {marks : List (VoterId × ElectionId)} (h : Holds registry voters marks) :
    Exact registry voters marks := by
  refine ⟨h.indexes.nodup_keys, h.indexes, ?_, h.once⟩
  intro voterId voter
  have hfind : registry.getVoter voterId = some voter ↔
      voter ∈ registry.voters ∧ voter.id = voterId := h.indexes.find_eq_some_iff
  rw [hfind, h.voters, List.mem_map]
  constructor
  · rintro ⟨⟨given, hmem, rfl⟩, hid⟩
    exact ⟨given, hmem, hid, rfl⟩
  · rintro ⟨given, hmem, hid, rfl⟩
    exact ⟨⟨given, hmem, rfl⟩, hid⟩

theorem Holds.callExact {registry : VoterRegistry} {voters : List VoterState}
    {marks : List (VoterId × ElectionId)} (h : Holds registry voters marks) (call : Call) :
    CallExact registry call := by
  rcases step_cases registry call with ⟨voter, hcall, -, hexec, -⟩ |
    ⟨voterId, electionId, index, voter, hcall, hindex, hvoter, -, hexec, -, -, hstep⟩ |
    ⟨e, hexec, -⟩
  · rw [hcall] at hexec
    refine ⟨?_, ?_⟩
    · rintro voterId electionId rfl
      cases hcall
    · intro e he
      rw [hcall, hexec] at he
      cases he
  · refine ⟨?_, ?_⟩
    · rintro voterId' electionId' hcall' -
      obtain ⟨rfl, rfl⟩ := Call.markVoted.inj (hcall.symm.trans hcall')
      rw [hexec, hstep]
      exact ⟨rfl, h.indexes.set_eq_map hindex hvoter (VoterState.mark electionId)⟩
    · intro e he
      rw [hexec] at he
      cases he
  · refine ⟨?_, ?_⟩
    · intro voterId electionId _ hok
      rw [hexec] at hok
      cases hok
    · intro e' _
      rw [hexec]

theorem callExact_run (calls : List Call) : Runs.Along step CallExact new calls := by
  induction calls using List.reverseRecOn with
  | nil => trivial
  | append_singleton calls call ih =>
      exact Runs.along_concat.mpr ⟨ih, (holds_run calls).callExact call⟩

end VoterRegistry

/-! ## The ballot box -/

structure BallotBox where
  ballots : List CastBallot
  ballotIndex : Finmap fun _ : BallotId => Nat

namespace BallotBox

def new : BallotBox := ⟨[], ∅⟩

def addBallot (ballot : CastBallot) : Exec BallotBox Unit := do
  Exec.lift (ensure (decide (ballot.ballotId ∉ (← get).ballotIndex))
    (.invalidBallot "Ballot already exists"))
  modify fun box =>
    { ballots := box.ballots ++ [ballot]
      ballotIndex := box.ballotIndex.insert ballot.ballotId box.ballots.length }

def getBallot (box : BallotBox) (ballotId : BallotId) : Option CastBallot :=
  (box.ballotIndex.lookup ballotId).bind fun index => box.ballots[index]?

def containsBallot (box : BallotBox) (ballotId : BallotId) : Bool :=
  decide (ballotId ∈ box.ballotIndex)

theorem exec_addBallot (ballot : CastBallot) (box : BallotBox) :
    (ballot.ballotId ∉ box.ballotIndex ∧ (addBallot ballot).exec box =
      (.ok (), ⟨box.ballots ++ [ballot],
        box.ballotIndex.insert ballot.ballotId box.ballots.length⟩)) ∨
    ∃ e, (addBallot ballot).exec box = (.error e, box) := by
  rw [addBallot, Exec.exec_get_bind, Exec.exec_lift_bind]
  by_cases h : ballot.ballotId ∈ box.ballotIndex
  · rw [decide_eq_false (not_not.mpr h)]
    exact Or.inr ⟨_, rfl⟩
  · rw [decide_eq_true h]
    exact Or.inl ⟨h, rfl⟩

/-- The box after a ballot was added, or refused. -/
def step (box : BallotBox) (ballot : CastBallot) : BallotBox := (addBallot ballot).next box

/-- What was added, if the call returned `Ok`. -/
def added (box : BallotBox) (ballot : CastBallot) : List CastBallot :=
  onOk ((addBallot ballot).exec box).1 [ballot]

/-- The ids are different, the index maps them to their positions, and a ballot is found
exactly if it was added. -/
structure Exact (box : BallotBox) (ballots : List CastBallot) : Prop where
  distinct : (box.ballots.map CastBallot.ballotId).Nodup
  index : ∀ ballotId i, box.ballotIndex.lookup ballotId = some i ↔
    ∃ ballot, box.ballots[i]? = some ballot ∧ ballot.ballotId = ballotId
  getBallot : ∀ ballotId ballot, box.getBallot ballotId = some ballot ↔
    ballot ∈ ballots ∧ ballot.ballotId = ballotId

/-- A call that returns an error changes nothing. -/
def CallExact (box : BallotBox) (ballot : CastBallot) : Prop :=
  ∀ e, ((addBallot ballot).exec box).1 = .error e → ((addBallot ballot).exec box).2 = box

theorem callExact (box : BallotBox) (ballot : CastBallot) : CallExact box ballot := by
  intro e he
  rcases exec_addBallot ballot box with ⟨-, hexec⟩ | ⟨e', hexec⟩
  · rw [hexec] at he
    cases he
  · rw [hexec]

theorem holds_run (ballots : List CastBallot) :
    (Runs.run step new ballots).ballots = Runs.trace step added new ballots ∧
      Indexes CastBallot.ballotId (Runs.run step new ballots).ballots
        (Runs.run step new ballots).ballotIndex := by
  induction ballots using List.reverseRecOn with
  | nil => exact ⟨rfl, Indexed.indexes_nil⟩
  | append_singleton ballots ballot ih =>
      obtain ⟨hballots, hindexes⟩ := ih
      rw [Runs.run_concat, Runs.trace_concat, added]
      rcases exec_addBallot ballot (Runs.run step new ballots) with ⟨hnew, hexec⟩ | ⟨e, hexec⟩
      · rw [step, Exec.next_of_ok hexec, hexec, onOk, ← hballots]
        exact ⟨rfl, hindexes.push hnew⟩
      · rw [step, Exec.next_of_error hexec, hexec, onOk, List.append_nil]
        exact ⟨hballots, hindexes⟩

theorem exact_run (ballots : List CastBallot) :
    Exact (Runs.run step new ballots) (Runs.trace step added new ballots) := by
  obtain ⟨hballots, hindexes⟩ := holds_run ballots
  refine ⟨hindexes.nodup_keys, hindexes, ?_⟩
  intro ballotId ballot
  rw [← hballots]
  exact hindexes.find_eq_some_iff

theorem containsBallot_run (ballots : List CastBallot) (ballotId : BallotId) :
    (Runs.run step new ballots).containsBallot ballotId = true ↔
      ballotId ∈ (Runs.trace step added new ballots).map CastBallot.ballotId := by
  obtain ⟨hballots, hindexes⟩ := holds_run ballots
  rw [containsBallot, decide_eq_true_eq, hindexes.mem_iff, hballots]

end BallotBox

/-- **Registry and box are exact.**  After any run of calls the ids are different, the index
has them and their positions, and what is found under an id is what was added with it, with
the elections marked since; nothing is marked twice, a mark changes one voter, and errors
change nothing. -/
theorem registries_exact :
    (∀ calls : List VoterRegistry.Call,
      VoterRegistry.Exact (Runs.run VoterRegistry.step .new calls)
          (Runs.trace VoterRegistry.step VoterRegistry.added .new calls)
          (Runs.trace VoterRegistry.step VoterRegistry.marked .new calls) ∧
        Runs.Along VoterRegistry.step VoterRegistry.CallExact .new calls) ∧
    ∀ ballots : List CastBallot,
      BallotBox.Exact (Runs.run BallotBox.step .new ballots)
          (Runs.trace BallotBox.step BallotBox.added .new ballots) ∧
        Runs.Along BallotBox.step BallotBox.CallExact .new ballots := by
  constructor
  · intro calls
    exact ⟨(VoterRegistry.holds_run calls).exact, VoterRegistry.callExact_run calls⟩
  · intro ballots
    exact ⟨BallotBox.exact_run ballots, Runs.along_of_forall BallotBox.callExact _ _⟩

end VotingChain
