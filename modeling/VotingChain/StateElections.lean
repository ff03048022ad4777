/-
# `VotingChain.StateElections` — elections in the state store, over whole runs

The votes of an election are counted in its cached record; the stored one is a vote ahead
after every call of `increment_vote_count`, until the election is closed
(`counts_agree_iff`).  Closing does not stop the counting, nor does it stop another closing
(`result_kept_iff`).  And a closed election is still listed as active, until the store is
opened again (`listed_active_iff`).
-/
import VotingChain.StateEntries

namespace VotingChain

/-! ## Counting votes -/

namespace Entry

/-- The last of the calls counts a vote. -/
def pending (electionId : ElectionId) (calls : List ElectionCall) : Nat :=
  if calls.getLast? = some (.increment electionId) then 1 else 0

/-- The cached count of a new election is the number of increments; the stored one is ahead
by one after an increment. -/
theorem totalVotes_run {election : ElectionState} (hzero : election.totalVotes = 0)
    {electionId : ElectionId} {calls : List ElectionCall}
    (hcalls : ∀ call ∈ calls, call.electionId = electionId ∧ ∀ e, call ≠ .create e) :
    ∃ x y, Runs.run step ⟨some election, some (.ok election)⟩ calls = ⟨some x, some (.ok y)⟩ ∧
      x.totalVotes = UInt64.ofNat (calls.count (.increment electionId)) ∧
      y.totalVotes =
        UInt64.ofNat (calls.count (.increment electionId) + pending electionId calls) := by
  induction calls using List.reverseRecOn with
  | nil => exact ⟨election, election, rfl, hzero, hzero⟩
  | append_singleton calls call ih =>
      obtain ⟨x, y, hrun, hx, -⟩ := ih fun c hc => hcalls c (List.mem_append_left _ hc)
      obtain ⟨hid, hnew⟩ := hcalls call (List.mem_append_right _ (List.mem_singleton_self _))
      rw [Runs.run_concat, hrun, pending, List.getLast?_concat, List.count_append,
        List.count_singleton]
      cases call with
      | create e => exact absurd rfl (hnew e)
      | increment id =>
          obtain rfl : id = electionId := hid
          refine ⟨x.addVote, x.addVote.addVote, rfl, ?_, ?_⟩
          · simp only [ElectionState.addVote, hx, beq_self_eq_true, if_true]
            exact (UInt64.ofNat_add _ 1).symm
          · simp only [ElectionState.addVote, hx, beq_self_eq_true, if_true]
            rw [UInt64.ofNat_add, UInt64.ofNat_add]
            rfl
      | close id height =>
          have hne : (ElectionCall.close id height == .increment electionId) = false :=
            beq_eq_false_iff_ne.mpr fun h => by cases h
          have hlast : ¬some (ElectionCall.close id height) = some (.increment electionId) :=
            fun h => by cases h
          rw [hne, if_neg hlast, if_neg Bool.false_ne_true, Nat.add_zero]
          exact ⟨x.close height, (x.close height).close height, rfl, hx, hx⟩

end Entry

namespace StateStore
variable {C : StateCodec}

variable (C) in
/-- The cached and the stored record have both counted so many votes. -/
def HasVotes [Hex] (store : StateStore) (electionId : ElectionId) (n : Nat) : Prop :=
  ∃ cached persisted, store.cache.activeElections.lookup electionId = some cached ∧
    (store.db.lookup (electionKey electionId)).map C.deserialize = some (.ok persisted) ∧
    cached.totalVotes.toNat = n ∧ persisted.totalVotes.toNat = n

theorem hasVotes_iff [Hex] {store : StateStore} {electionId : ElectionId} {x y : ElectionState}
    (h : store.entry C electionId = ⟨some x, some (.ok y)⟩) (n : Nat) :
    store.HasVotes C electionId n ↔ x.totalVotes.toNat = n ∧ y.totalVotes.toNat = n := by
  have hcached : store.cache.activeElections.lookup electionId = some x := congrArg Entry.cached h
  have hstored : (store.db.lookup (electionKey electionId)).map C.deserialize = some (.ok y) :=
    congrArg Entry.stored h
  rw [HasVotes, hcached, hstored]
  constructor
  · rintro ⟨cached, persisted, hx, hy, hn⟩
    cases hx
    cases hy
    exact hn
  · intro hn
    exact ⟨x, y, rfl, rfl, hn⟩

/-- **When all counts of an election agree.**  In a run in which the election is created once,
with no votes, the cached count, the stored count and the number of increments that were
called for are the same exactly if none was called for before the election was there, they
are not more than the counter can hold, and the last call about the election is not an
increment. -/
theorem counts_agree_iff [Hex] (hcodec : C.Exact) (store : StateStore) {election : ElectionState}
    (hzero : election.totalVotes = 0) {before after : List ElectionCall}
    (honce : ∀ e, ElectionCall.create e ∈ before ++ after → e.id ≠ election.id) :
    (Runs.run (electionStep C) store (before ++ .create election :: after)).HasVotes C election.id
        ((before ++ .create election :: after).count (.increment election.id)) ↔
      .increment election.id ∉ before ∧
      after.count (.increment election.id) < 2 ^ 64 ∧
      (after.filter fun call => decide (call.electionId = election.id)).getLast? ≠
        some (.increment election.id) := by
  -- creating the election makes a new entry, whatever was there
  have hself : decide ((ElectionCall.create election).electionId = election.id) = true :=
    decide_eq_true rfl
  have hentry : (Runs.run (electionStep C) store (before ++ .create election :: after)).entry C
      election.id = Runs.run Entry.step ⟨some election, some (.ok election)⟩
        (after.filter fun call => decide (call.electionId = election.id)) := by
    rw [entry_run hcodec, List.filter_append, List.filter_cons, if_pos hself, Runs.run_append,
      Runs.run_cons]
    rfl
  have hcalls : ∀ call ∈ after.filter fun call => decide (call.electionId = election.id),
      call.electionId = election.id ∧ ∀ e, call ≠ .create e := by
    intro call hcall
    obtain ⟨hmem, hid⟩ := List.mem_filter.mp hcall
    refine ⟨of_decide_eq_true hid, ?_⟩
    rintro e rfl
    exact honce e (List.mem_append_right _ hmem) (of_decide_eq_true hid)
  obtain ⟨x, y, hrun, hx, hy⟩ := Entry.totalVotes_run hzero hcalls
  have hcreate : (ElectionCall.create election == .increment election.id) = false :=
    beq_eq_false_iff_ne.mpr fun h => by cases h
  have hcount : (after.filter fun call => decide (call.electionId = election.id)).count
      (.increment election.id) = after.count (.increment election.id) :=
    List.count_filter (p := fun call : ElectionCall => decide (call.electionId = election.id))
      (decide_eq_true rfl)
  rw [hasVotes_iff (hentry.trans hrun), hx, hy, List.count_append, List.count_cons, hcreate,
    hcount, Entry.pending, ← List.count_eq_zero, UInt64.toNat_ofNat',
    UInt64.toNat_ofNat', if_neg Bool.false_ne_true, Nat.add_zero]
  split
  · next hlast =>
      simp only [hlast, ne_eq, not_true_eq_false, and_false, iff_false]
      omega
  · next hlast =>
      simp only [hlast, ne_eq, not_false_eq_true, and_true, Nat.add_zero]
      omega

section
open Reference (stateCodec openElection)

/-- One vote, and then the election is closed. -/
theorem counts_agree_iff_closed :
    (Runs.run (electionStep stateCodec) fresh
      [.create openElection, .increment openElection.id, .close openElection.id 200]).HasVotes
        stateCodec openElection.id 1 := by
  have honce : ∀ e, ElectionCall.create e ∈ [] ++ [ElectionCall.increment openElection.id,
      .close openElection.id 200] → e.id ≠ openElection.id := by
    intro e he
    simp at he
  exact (counts_agree_iff Reference.exact_stateCodec fresh rfl honce).mpr
    ⟨List.not_mem_nil, by decide, by decide⟩

/-- One vote in an open election: the stored record says two. -/
theorem stored_count_ahead :
    ¬(Runs.run (electionStep stateCodec) fresh
      [.create openElection, .increment openElection.id]).HasVotes stateCodec openElection.id 1 := by
  have hentry := entry_run Reference.exact_stateCodec openElection.id
    [.create openElection, .increment openElection.id] fresh
  have hrun : Runs.run Entry.step (fresh.entry stateCodec openElection.id)
      ([.create openElection, .increment openElection.id].filter
        fun call => decide (call.electionId = openElection.id)) =
      ⟨some openElection.addVote, some (.ok openElection.addVote.addVote)⟩ := rfl
  rw [hasVotes_iff (hentry.trans hrun)]
  decide

end

end StateStore

/-! ## After the closing -/

namespace Entry

/-- The total and the height of closing, as they are reported. -/
def result (entry : Entry) : Result (Option (UInt64 × Option BlockHeight)) :=
  entry.reported.map (Option.map fun election => (election.totalVotes, election.closedAtHeight))

/-- There is a record in the database that can be read. -/
def Stored (entry : Entry) : Prop := ∃ election, entry.stored = some (.ok election)

theorem Stored.step {entry : Entry} (h : entry.Stored) (call : ElectionCall) :
    (entry.step call).Stored := by
  have hchange : ∀ f, (entry.change f).Stored := by
    intro f
    obtain ⟨election, hstored⟩ := h
    rw [change, hstored]
    cases entry.cached with
    | some cached => exact ⟨_, rfl⟩
    | none => exact ⟨_, rfl⟩
  cases call with
  | create election => exact ⟨election, rfl⟩
  | increment electionId => exact hchange _
  | close electionId closedAtHeight => exact hchange _

theorem stored_change {entry : Entry} {election : ElectionState}
    (h : entry.reported = .ok (some election)) (f : ElectionState → ElectionState) :
    (entry.change f).Stored := by
  rcases entry with ⟨cached, stored⟩
  cases cached with
  | some x => exact ⟨_, rfl⟩
  | none =>
      cases stored with
      | none => cases h
      | some r =>
          cases r with
          | error e => cases h
          | ok x => exact ⟨_, rfl⟩

theorem Stored.reported {entry : Entry} (h : entry.Stored) :
    ∃ election, entry.reported = .ok (some election) ∧
      ∀ f, (entry.change f).reported = .ok (some (f election)) := by
  obtain ⟨election, hstored⟩ := h
  rcases entry with ⟨cached, stored⟩
  obtain rfl : stored = some (.ok election) := hstored
  cases cached with
  | some x => exact ⟨x, rfl, fun f => rfl⟩
  | none => exact ⟨election, rfl, fun f => rfl⟩

end Entry

namespace StateStore
variable {C : StateCodec}

variable (C) in
/-- The total and the height of closing, as `get_election` reports them. -/
def result [Hex] (store : StateStore) (electionId : ElectionId) :
    Result (Option (UInt64 × Option BlockHeight)) :=
  (store.getElection C electionId).map
    (Option.map fun election => (election.totalVotes, election.closedAtHeight))

variable (C) in
/-- If the call counts a vote or closes an election, it does not change the result of this
one. -/
def LeavesResult [Hex] (electionId : ElectionId) (store : StateStore) : StateCall → Prop
  | .election (.increment x) =>
      (store.step C (.election (.increment x))).result C electionId = store.result C electionId
  | .election (.close x height) =>
      (store.step C (.election (.close x height))).result C electionId = store.result C electionId
  | _ => True

variable (C) in
/-- The call does not count a vote of the election, and does not close it at another height
than the one reported. -/
def KeepsClosed [Hex] (electionId : ElectionId) (store : StateStore) : StateCall → Prop
  | .election (.increment x) => x ≠ electionId
  | .election (.close x height) => x = electionId →
      ∃ election, store.getElection C electionId = .ok (some election) ∧
        election.closedAtHeight = some height
  | _ => True

theorem result_eq [Hex] (store : StateStore) (electionId : ElectionId) :
    store.result C electionId = (store.entry C electionId).result := by
  rw [result, getElection_eq]
  rfl

theorem stored_step [Hex] (hcodec : C.Exact) {store : StateStore} {electionId : ElectionId}
    (h : (store.entry C electionId).Stored) (call : StateCall) :
    ((store.step C call).entry C electionId).Stored := by
  cases call with
  | election call =>
      rw [step, entry_electionStep hcodec]
      split
      · exact h.step call
      · exact h
  | chain call =>
      rw [step, entry_chainStep]
      exact h
  | record x voterId =>
      obtain ⟨hdb, -⟩ := next_record x voterId store
      obtain ⟨election, hstored⟩ := h
      refine ⟨election, ?_⟩
      rw [step, entry, hdb]
      exact hstored
  | addPending tx => exact h
  | removePending txId => exact h
  | prunePending cutoffTime => exact h
  | reopen order =>
      rw [step]
      cases hnew : new C order store.db with
      | error e => exact h
      | ok store' =>
          obtain ⟨-, elections, -, rfl⟩ := new_eq_ok.mp hnew
          exact h

/-- One more vote is another count, even if the counter wraps. -/
theorem addVote_ne (election : ElectionState) :
    election.addVote.totalVotes ≠ election.totalVotes := by
  intro h
  have hnat := congrArg UInt64.toNat h
  have hlt := election.totalVotes.toNat_lt
  rw [ElectionState.addVote, UInt64.toNat_add] at hnat
  change (election.totalVotes.toNat + 1) % 2 ^ 64 = election.totalVotes.toNat at hnat
  omega

theorem leavesResult_iff [Hex] (hcodec : C.Exact) {store : StateStore} {electionId : ElectionId}
    (h : (store.entry C electionId).Stored) (call : StateCall) :
    LeavesResult C electionId store call ↔ KeepsClosed C electionId store call := by
  obtain ⟨election, hreported, hchange⟩ := h.reported
  have hbefore : store.result C electionId =
      .ok (some (election.totalVotes, election.closedAtHeight)) := by
    rw [result_eq, Entry.result, hreported]
    rfl
  have hother : ∀ c : ElectionCall, c.electionId ≠ electionId →
      (store.step C (.election c)).result C electionId = store.result C electionId := by
    intro c hc
    rw [result_eq, result_eq, step, entry_electionStep hcodec, if_neg hc]
  have hown : ∀ (c : ElectionCall) (f : ElectionState → ElectionState),
      c.electionId = electionId →
      (store.entry C electionId).step c = (store.entry C electionId).change f →
      (store.step C (.election c)).result C electionId =
        .ok (some ((f election).totalVotes, (f election).closedAtHeight)) := by
    intro c f hc hstep
    rw [result_eq, step, entry_electionStep hcodec, if_pos hc, hstep, Entry.result, hchange]
    rfl
  cases call with
  | election call =>
      cases call with
      | create x => exact Iff.rfl
      | increment x =>
          rw [LeavesResult, KeepsClosed]
          by_cases hx : x = electionId
          · refine iff_of_false ?_ (not_not.mpr hx)
            rw [hown (.increment x) ElectionState.addVote hx rfl, hbefore]
            intro hsame
            simp only [Except.ok.injEq, Option.some.injEq, Prod.mk.injEq] at hsame
            exact addVote_ne election hsame.1
          · exact iff_of_true (hother (.increment x) hx) hx
      | close x height =>
          rw [LeavesResult, KeepsClosed]
          by_cases hx : x = electionId
          · rw [hown (.close x height) (ElectionState.close height) hx rfl, hbefore,
              getElection_eq, hreported]
            simp only [hx, ElectionState.close, Except.ok.injEq, Option.some.injEq,
              Prod.mk.injEq, true_and, forall_const, exists_eq_left']
            exact eq_comm
          · exact iff_of_true (hother (.close x height) hx) (fun heq => absurd heq hx)
  | chain call => exact Iff.rfl
  | record x voterId => exact Iff.rfl
  | addPending tx => exact Iff.rfl
  | removePending txId => exact Iff.rfl
  | prunePending cutoffTime => exact Iff.rfl
  | reopen order => exact Iff.rfl

/-- **When the result of a closed election stands.**  After an election that exists has been
closed, none of the calls of a run that count votes or close elections changes its total or
its height of closing exactly if none of them counts a vote of it, and none closes it at
another height than the one reported. -/
theorem result_kept_iff [Hex] (hcodec : C.Exact) {store : StateStore} {electionId : ElectionId}
    {election : ElectionState} (hexists : store.getElection C electionId = .ok (some election))
    (height : BlockHeight) (calls : List StateCall) :
    Runs.Along (step C) (LeavesResult C electionId)
        (store.step C (.election (.close electionId height))) calls ↔
      Runs.Along (step C) (KeepsClosed C electionId)
        (store.step C (.election (.close electionId height))) calls := by
  refine Runs.along_congr (I := fun store => (store.entry C electionId).Stored)
    (fun store call h => stored_step hcodec h call)
    (fun store call h => leavesResult_iff hcodec h call) ?_ calls
  rw [getElection_eq] at hexists
  have hclosed : (store.electionStep C (.close electionId height)).entry C electionId =
      (store.entry C electionId).change (ElectionState.close height) :=
    entry_electionStep_self hcodec store (.close electionId height)
  show ((store.electionStep C (.close electionId height)).entry C electionId).Stored
  rw [hclosed]
  exact Entry.stored_change hexists _

section
open Reference (stateCodec openElection)

theorem entry_created : (fresh.step stateCodec (.election (.create openElection))).entry stateCodec
    openElection.id = ⟨some openElection, some (.ok openElection)⟩ :=
  entry_electionStep_self Reference.exact_stateCodec fresh (.create openElection)

theorem getElection_created :
    (fresh.step stateCodec (.election (.create openElection))).getElection stateCodec
      openElection.id = .ok (some openElection) := by
  rw [getElection_eq, entry_created]
  rfl

theorem entry_closed :
    ((fresh.step stateCodec (.election (.create openElection))).step stateCodec
      (.election (.close openElection.id 200))).entry stateCodec openElection.id =
      ⟨some (openElection.close 200), some (.ok ((openElection.close 200).close 200))⟩ := by
  have h := entry_electionStep_self Reference.exact_stateCodec
    (fresh.step stateCodec (.election (.create openElection))) (.close openElection.id 200)
  refine h.trans ?_
  rw [show ElectionCall.electionId (.close openElection.id 200) = openElection.id from rfl,
    entry_created]
  rfl

/-- Closed twice at the same height, the election stays as it is. -/
theorem result_kept_iff_closed :
    Runs.Along (step stateCodec) (LeavesResult stateCodec openElection.id)
      ((fresh.step stateCodec (.election (.create openElection))).step stateCodec
        (.election (.close openElection.id 200)))
      [.election (.close openElection.id 200), .chain (.updateTip 200 BlockHash.zero)] := by
  refine (result_kept_iff Reference.exact_stateCodec getElection_created 200 _).mpr
    ⟨?_, trivial, trivial⟩
  intro _
  rw [getElection_eq, entry_closed]
  exact ⟨openElection.close 200, rfl, rfl⟩

/-- A vote for a closed election is counted. -/
theorem counted_after_closing :
    (fresh.step stateCodec (.election (.create openElection))).getElection stateCodec
        openElection.id = .ok (some openElection) ∧
    ¬Runs.Along (step stateCodec) (LeavesResult stateCodec openElection.id)
      ((fresh.step stateCodec (.election (.create openElection))).step stateCodec
        (.election (.close openElection.id 200)))
      [.election (.increment openElection.id)] := by
  refine ⟨getElection_created, ?_⟩
  rintro ⟨hleaves, -⟩
  have hstored : (((fresh.step stateCodec (.election (.create openElection))).step stateCodec
      (.election (.close openElection.id 200))).entry stateCodec openElection.id).Stored := by
    rw [entry_closed]
    exact ⟨_, rfl⟩
  exact (leavesResult_iff Reference.exact_stateCodec hstored _).mp hleaves rfl

end

end StateStore

/-! ## Listed elections -/

namespace Entry

/-- The records are those of the election. -/
structure Named (x : ElectionId) (entry : Entry) : Prop where
  cached : ∀ e, entry.cached = some e → e.id = x
  stored : ∀ r, entry.stored = some r → ∃ e, r = .ok e ∧ e.id = x

theorem Named.change {x : ElectionId} {entry : Entry} (h : entry.Named x)
    {f : ElectionState → ElectionState} (hf : ∀ e, (f e).id = e.id) : (entry.change f).Named x := by
  rcases entry with ⟨cached, stored⟩
  cases cached with
  | some e =>
      have he := h.cached e rfl
      refine ⟨?_, ?_⟩
      · intro e' he'
        cases he'
        rw [hf, he]
      · intro r hr
        cases hr
        exact ⟨_, rfl, by rw [hf, hf, he]⟩
  | none =>
      cases stored with
      | none => exact h
      | some r =>
          obtain ⟨e, rfl, he⟩ := h.stored r rfl
          refine ⟨?_, ?_⟩
          · intro e' he'
            cases he'
          · intro r hr
            cases hr
            exact ⟨_, rfl, by rw [hf, he]⟩

theorem Named.step {entry : Entry} {call : ElectionCall} (h : entry.Named call.electionId) :
    (entry.step call).Named call.electionId := by
  cases call with
  | create election =>
      refine ⟨?_, ?_⟩
      · intro e he
        cases he
        rfl
      · intro r hr
        cases hr
        exact ⟨election, rfl, rfl⟩
  | increment x => exact h.change fun _ => rfl
  | close x height => exact h.change fun _ => rfl

/-- The election is cached, and both records are active, or it is not, and the stored record
is not active. -/
def Synced (entry : Entry) : Prop :=
  (∃ e e', entry = ⟨some e, some (.ok e')⟩ ∧ e.isActive = true ∧ e'.isActive = true) ∨
    (entry.cached = none ∧ ∀ e, entry.stored = some (.ok e) → e.isActive = false)

theorem Synced.change_of_none {entry : Entry} (h : entry.Synced) (hnone : entry.cached = none)
    {f : ElectionState → ElectionState} (hf : ∀ e, e.isActive = false → (f e).isActive = false) :
    (entry.change f).Synced := by
  rcases entry with ⟨cached, stored⟩
  obtain rfl : cached = none := hnone
  rcases h with ⟨e, e', heq, -⟩ | ⟨-, hinactive⟩
  · cases heq
  · cases stored with
    | none => exact Or.inr ⟨rfl, hinactive⟩
    | some r =>
        cases r with
        | error text => exact Or.inr ⟨rfl, hinactive⟩
        | ok e =>
            refine Or.inr ⟨rfl, ?_⟩
            intro e' he'
            cases he'
            exact hf e (hinactive e rfl)

theorem Synced.step {entry : Entry} (h : entry.Synced) {call : ElectionCall}
    (hcreate : ∀ e, call = .create e → e.isActive = true)
    (hclose : ∀ x height, call = .close x height → entry.cached = none) :
    (entry.step call).Synced := by
  cases call with
  | create election =>
      exact Or.inl ⟨election, election, rfl, hcreate election rfl, hcreate election rfl⟩
  | increment x =>
      rcases h with ⟨e, e', rfl, he, he'⟩ | hnone
      · exact Or.inl ⟨e.addVote, e.addVote.addVote, rfl, he, he⟩
      · exact Synced.change_of_none (Or.inr hnone) hnone.1 fun _ he => he
  | close x height => exact h.change_of_none (hclose x height rfl) fun _ _ => rfl

end Entry

namespace StateStore
variable {C : StateCodec}

variable (C) in
/-- Everything under the key of an election is a record of it, and there is nothing else
that looks like one. -/
structure WellKept [Hex] (store : StateStore) : Prop where
  named : ∀ x, (store.entry C x).Named x
  keys : ∀ k ∈ store.db, electionPrefix <+: k → ∃ x, k = electionKey x

theorem wellKept_fresh [Hex] : WellKept C fresh := by
  refine ⟨?_, ?_⟩
  · intro x
    refine ⟨?_, ?_⟩
    · intro e he
      cases he
    · intro r hr
      cases hr
  · intro k hk
    exact absurd hk Finmap.notMem_empty

theorem WellKept.loadable_elections [Hex] {store : StateStore} (h : WellKept C store) :
    ∀ k data, electionPrefix <+: k → store.db.lookup k = some data →
      ∃ e, C.deserialize data = .ok e ∧ k = electionKey e.id := by
  intro k data hk hdata
  obtain ⟨x, rfl⟩ := h.keys k (Finmap.mem_of_lookup_eq_some hdata) hk
  obtain ⟨e, he, hid⟩ := (h.named x).stored (C.deserialize data) (by rw [entry, hdata]; rfl)
  exact ⟨e, he, by rw [hid]⟩

theorem WellKept.of_same [Hex] {store store' : StateStore} (h : WellKept C store)
    (hcached : ∀ x e, store'.cache.activeElections.lookup x = some e → e.id = x)
    (hdb : ∀ k, electionPrefix <+: k → store'.db.lookup k = store.db.lookup k) :
    WellKept C store' := by
  refine ⟨?_, ?_⟩
  · intro x
    refine ⟨hcached x, ?_⟩
    intro r hr
    rw [entry, hdb _ (prefix_electionKey x)] at hr
    exact (h.named x).stored r hr
  · intro k hk hprefix
    refine h.keys k ?_ hprefix
    rw [← Finmap.lookup_isSome, hdb k hprefix, Finmap.lookup_isSome] at hk
    exact hk

theorem WellKept.electionStep [Hex] (hcodec : C.Exact) {store : StateStore} (h : WellKept C store)
    (call : ElectionCall) : WellKept C (store.electionStep C call) := by
  refine ⟨?_, ?_⟩
  · intro x
    rw [entry_electionStep hcodec]
    split
    · next heq =>
        rw [← heq]
        exact (h.named call.electionId).step
    · exact h.named x
  · intro k hk hprefix
    by_cases hkey : k = electionKey call.electionId
    · exact ⟨_, hkey⟩
    · refine h.keys k ?_ hprefix
      rw [← Finmap.lookup_isSome, (sameElsewhere_electionStep hcodec store call).db k hkey,
        Finmap.lookup_isSome] at hk
      exact hk

theorem WellKept.new [Hex] {store store' : StateStore} (h : WellKept C store)
    {order : MapOrder Bytes Bytes} (hnew : new C order store.db = .ok store') :
    WellKept C store' := by
  obtain ⟨-, elections, hload, rfl⟩ := new_eq_ok.mp hnew
  exact h.of_same (fun x e he => (loaded_of_loadActiveElections hload x e he).2) fun _ _ => rfl

theorem WellKept.step [Hex] (hcodec : C.Exact) {store : StateStore} (h : WellKept C store)
    (call : StateCall) : WellKept C (store.step C call) := by
  have hcached : ∀ x e, store.cache.activeElections.lookup x = some e → e.id = x :=
    fun x => (h.named x).cached
  cases call with
  | election call => exact h.electionStep hcodec call
  | chain call =>
      refine h.of_same ?_ fun k hk => lookup_chainStep store call hk
      rw [StateStore.step, activeElections_chainStep]
      exact hcached
  | record x voterId =>
      obtain ⟨hdb, helections⟩ := next_record x voterId store
      refine h.of_same ?_ ?_
      · rw [StateStore.step, helections]
        exact hcached
      · intro k _
        rw [StateStore.step, hdb]
  | addPending tx => exact h.of_same hcached fun _ _ => rfl
  | removePending txId => exact h.of_same hcached fun _ _ => rfl
  | prunePending cutoffTime => exact h.of_same hcached fun _ _ => rfl
  | reopen order =>
      rw [StateStore.step]
      cases hnew : StateStore.new C order store.db with
      | error e => exact h
      | ok store' => exact h.new hnew

theorem WellKept.mem_loaded [Hex] {store : StateStore} (h : WellKept C store)
    {order : MapOrder Bytes Bytes} {elections : Finmap fun _ : ElectionId => ElectionState}
    (hload : loadActiveElections C order store.db = .ok elections) (x : ElectionId) :
    x ∈ elections ↔ ∃ e, (store.entry C x).stored = some (.ok e) ∧ e.isActive = true := by
  have hread : ∀ k data, electionPrefix <+: k → store.db.lookup k = some data →
      ∃ election, C.deserialize data = .ok election := by
    intro k data hk hdata
    exact (h.loadable_elections k data hk hdata).imp fun _ he => he.1
  obtain ⟨loaded, hload', hmem⟩ := exists_loadActiveElections hread order
  cases hload.symm.trans hload'
  rw [hmem]
  constructor
  · rintro ⟨k, data, e, hk, hdata, hread, hactive, rfl⟩
    obtain ⟨e', hread', rfl⟩ := h.loadable_elections k data hk hdata
    cases hread.symm.trans hread'
    refine ⟨e, ?_, hactive⟩
    rw [entry, hdata, Option.map_some, hread]
  · rintro ⟨e, hstored, hactive⟩
    obtain ⟨data, hdata, hread⟩ := Option.map_eq_some_iff.mp hstored
    refine ⟨_, data, e, prefix_electionKey x, hdata, hread, hactive, ?_⟩
    obtain ⟨e', he', hid⟩ := (h.named x).stored _ hstored
    cases he'
    exact hid

variable (C) in
/-- Whatever order things are listed in: all elections that `get_active_elections` returns are
active, `get_stats` counts them, and the store can be opened again and then has the same
ones. -/
def ListsActive (store : StateStore) : Prop :=
  ∀ (listing : MapOrder ElectionId ElectionState) (order : MapOrder Bytes Bytes),
    (∀ e ∈ store.getActiveElections listing, e.isActive = true) ∧
    store.getStats.activeElections = (store.getActiveElections listing).length ∧
    ∃ reopened, new C order store.db = .ok reopened ∧
      ∀ x, (∃ e ∈ reopened.getActiveElections listing, e.id = x) ↔
        ∃ e ∈ store.getActiveElections listing, e.id = x

/-- No election in the cache is closed. -/
def ClosesNoneListed (store : StateStore) : ElectionCall → Prop
  | .close x _ => x ∉ store.cache.activeElections
  | _ => True

theorem exists_listed_iff {store : StateStore}
    (h : ∀ x e, store.cache.activeElections.lookup x = some e → e.id = x)
    (listing : MapOrder ElectionId ElectionState) (x : ElectionId) :
    (∃ e ∈ store.getActiveElections listing, e.id = x) ↔ x ∈ store.cache.activeElections := by
  rw [getActiveElections, Finmap.mem_iff]
  constructor
  · rintro ⟨e, he, rfl⟩
    obtain ⟨y, hy⟩ := listing.mem_values.mp he
    rw [h y e hy]
    exact ⟨e, hy⟩
  · rintro ⟨e, he⟩
    exact ⟨e, listing.mem_values.mpr ⟨x, he⟩, h x e he⟩

variable (C) in
/-- Cache and database agree on which elections are active. -/
structure ListInv [Hex] (store : StateStore) : Prop where
  wellKept : WellKept C store
  loadable : Loadable C store.db
  synced : ∀ x, (store.entry C x).Synced

theorem ListInv.mem_iff [Hex] {store : StateStore} (h : ListInv C store) (x : ElectionId) :
    x ∈ store.cache.activeElections ↔
      ∃ e, (store.entry C x).stored = some (.ok e) ∧ e.isActive = true := by
  rw [Finmap.mem_iff]
  rcases h.synced x with ⟨e, e', heq, -, he'⟩ | ⟨hnone, hinactive⟩
  · refine iff_of_true ⟨e, congrArg Entry.cached heq⟩ ⟨e', congrArg Entry.stored heq, he'⟩
  · refine iff_of_false ?_ ?_
    · rintro ⟨e, he⟩
      cases hnone.symm.trans he
    · rintro ⟨e, he, hactive⟩
      rw [hinactive e he] at hactive
      cases hactive

theorem ListInv.listsActive [Hex] {store : StateStore} (h : ListInv C store) :
    ListsActive C store := by
  intro listing order
  refine ⟨?_, ?_, ?_⟩
  · intro e he
    obtain ⟨x, hx⟩ := listing.mem_values.mp he
    rcases h.synced x with ⟨e', e'', heq, hactive, -⟩ | ⟨hnone, -⟩
    · cases (congrArg Entry.cached heq).symm.trans hx
      exact hactive
    · cases hnone.symm.trans hx
  · exact (listing.length_values _).symm
  · obtain ⟨elections, hnew⟩ := exists_new h.loadable order
    refine ⟨_, hnew, ?_⟩
    intro x
    obtain ⟨-, elections', hload, heq⟩ := new_eq_ok.mp hnew
    cases heq
    rw [exists_listed_iff (fun x e he => (loaded_of_loadActiveElections hload x e he).2),
      exists_listed_iff (fun x => (h.wellKept.named x).cached), h.mem_iff]
    exact h.wellKept.mem_loaded hload x

theorem ListInv.electionStep [Hex] (hcodec : C.Exact) {store : StateStore} (h : ListInv C store)
    {call : ElectionCall} (hcreate : ∀ e, call = .create e → e.isActive = true)
    (hclose : ClosesNoneListed store call) : ListInv C (store.electionStep C call) := by
  refine ⟨h.wellKept.electionStep hcodec call, h.loadable.electionStep hcodec call, ?_⟩
  intro x
  rw [entry_electionStep hcodec]
  split
  · next heq =>
      refine (h.synced x).step hcreate ?_
      rintro y height rfl
      obtain rfl : y = x := heq
      exact Finmap.lookup_eq_none.mpr hclose
  · exact h.synced x

theorem cached_close [Hex] (hcodec : C.Exact) {store : StateStore} {x : ElectionId}
    {e : ElectionState}
    (he : store.cache.activeElections.lookup x = some e) (height : BlockHeight) :
    (store.electionStep C (.close x height)).cache.activeElections.lookup x =
      some (e.close height) := by
  have hentry : (store.electionStep C (.close x height)).entry C x =
      (store.entry C x).change (ElectionState.close height) :=
    entry_electionStep_self hcodec store (.close x height)
  exact (congrArg Entry.cached hentry).trans (Entry.cached_change he _)

theorem listed_close [Hex] (hcodec : C.Exact) {store : StateStore} {x : ElectionId}
    (hmem : x ∈ store.cache.activeElections) (height : BlockHeight)
    (listing : MapOrder ElectionId ElectionState) :
    (store.electionStep C (.close x height)).isElectionActive x = false ∧
      ∃ e ∈ (store.electionStep C (.close x height)).getActiveElections listing,
        e.isActive = false := by
  obtain ⟨e, he⟩ := Finmap.mem_iff.mp hmem
  have hcached := cached_close hcodec he height
  constructor
  · rw [isElectionActive, hcached]
    rfl
  · exact ⟨e.close height, listing.mem_values.mpr ⟨x, hcached⟩, rfl⟩

theorem closesNoneListed_of_listsActive [Hex] (hcodec : C.Exact) {store : StateStore}
    {call : ElectionCall} (hlists : ListsActive C (store.electionStep C call)) :
    ClosesNoneListed store call := by
  cases call with
  | create election => trivial
  | increment x => trivial
  | close x height =>
      intro hmem
      obtain ⟨-, e, hlisted, hinactive⟩ := listed_close hcodec hmem height default
      rw [(hlists default default).1 e hlisted] at hinactive
      cases hinactive

theorem listInv_new [Hex] {store store' : StateStore} (h : WellKept C store)
    {order : MapOrder Bytes Bytes} (hnew : new C order store.db = .ok store') :
    ListInv C store' := by
  have hkept := h.new hnew
  obtain ⟨hloadable, elections, hload, rfl⟩ := new_eq_ok.mp hnew
  refine ⟨hkept, hloadable, ?_⟩
  intro x
  cases hcached : elections.lookup x with
  | some e =>
      obtain ⟨e', he', hactive'⟩ :=
        (h.mem_loaded hload x).mp (Finmap.mem_of_lookup_eq_some hcached)
      refine Or.inl ⟨e, e', ?_, (loaded_of_loadActiveElections hload x e hcached).1, hactive'⟩
      rw [entry]
      exact congrArg₂ Entry.mk hcached he'
  | none =>
      refine Or.inr ⟨hcached, ?_⟩
      intro e he
      rw [Bool.eq_false_iff]
      intro hactive
      exact Finmap.lookup_eq_none.mp hcached ((h.mem_loaded hload x).mpr ⟨e, he, hactive⟩)

/-- **When the listed elections are the active ones.**  Let a store be opened on a database
with any history.  In every state of a run of elections that are created active, counted and
closed, all listed elections are active, counted, and found again after opening the store
once more, exactly if no call of the run closes an election that is in the cache. -/
theorem listed_active_iff [Hex] (hcodec : C.Exact) (history : List StateCall)
    {order : MapOrder Bytes Bytes} {store : StateStore}
    (hopen : new C order (Runs.run (step C) fresh history).db = .ok store)
    {calls : List ElectionCall} (hactive : ∀ e, .create e ∈ calls → e.isActive = true) :
    Runs.Visits (electionStep C) (ListsActive C) store calls ↔
      Runs.Along (electionStep C) ClosesNoneListed store calls := by
  have hkept : WellKept C (Runs.run (step C) fresh history) :=
    Runs.run_preserves (fun s call h => h.step hcodec call) wellKept_fresh history
  refine Runs.visits_iff_along_of_forall
    (A := fun call => ∀ e, call = .create e → e.isActive = true) (I := ListInv C)
    (fun store h => h.listsActive)
    (fun store call hcreate h hclose => h.electionStep hcodec hcreate hclose)
    (fun store call _ _ hlists => closesNoneListed_of_listsActive hcodec hlists) ?_
    (listInv_new hkept hopen)
  rintro call hcall e rfl
  exact hactive e hcall

section
open Reference (stateCodec openElection)

/-- An election that is created and voted in. -/
theorem listed_active_iff_open :
    Runs.Visits (electionStep stateCodec) (ListsActive stateCodec) fresh
      [.create openElection, .increment openElection.id] := by
  have hactive : ∀ e, ElectionCall.create e ∈ [ElectionCall.create openElection,
      .increment openElection.id] → e.isActive = true := by
    intro e he
    rcases List.mem_cons.mp he with he | he
    · cases he
      rfl
    · simp at he
  exact (listed_active_iff Reference.exact_stateCodec [] (new_empty default) hactive).mpr
    ⟨trivial, trivial, trivial⟩

/-- A closed election is listed as active. -/
theorem closed_still_listed :
    new stateCodec default (Runs.run (step stateCodec) fresh []).db = .ok fresh ∧
    openElection.isActive = true ∧
    ¬Runs.Visits (electionStep stateCodec) (ListsActive stateCodec) fresh
      [.create openElection, .close openElection.id 200] := by
  refine ⟨new_empty default, rfl, ?_⟩
  rintro ⟨-, -, hclosed⟩
  refine closesNoneListed_of_listsActive Reference.exact_stateCodec hclosed ?_
  exact Finmap.mem_of_lookup_eq_some (congrArg Entry.cached entry_created)

end

end StateStore

end VotingChain
