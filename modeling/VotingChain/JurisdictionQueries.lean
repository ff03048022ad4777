/-
# `VotingChain.JurisdictionQueries` — elections, asked for by jurisdiction

The model of `query_elections_by_jurisdiction`, `aggregate_results` and `validate_jurisdiction`
of `storage/src/lib.rs`, over the state store.  A path is read, and that is the last that is
heard of it: every election is returned, whatever its jurisdiction.

    query      reads the records of the database, all of them
    aggregate  asks the store for one election, 0 if it is not there
    validate   queries, asks the store for each, and adds up

Elections come from `create_election` and never go.  Over a whole run, in which the store may be
opened again, the ids that are stored are those that were created (`stored_iff_created`), so
the query returns each of them once and the sum is over what `aggregate_results` says of them
(`jurisdiction_validated`).
-/
import Mathlib.Algebra.BigOperators.Group.Finset.Basic
import VotingChain.ElectionResults
import VotingChain.JurisdictionPaths

namespace VotingChain

/-- Aggregated election results. -/
structure AggregatedResults where
  jurisdiction : JurisdictionTree.Path
  electionId : ElectionId
  totalVotes : UInt64
  timestamp : Timestamp

/-- Jurisdiction validation result. -/
structure JurisdictionValidation where
  jurisdiction : JurisdictionTree.Path
  electionsCount : Nat
  validatedElections : Nat
  totalVotes : UInt64
  validationTimestamp : Timestamp

namespace StorageManager
variable (C : StateCodec) (order : MapOrder Bytes Bytes)

/-- Query elections by jurisdiction path. -/
def queryElectionsByJurisdiction (stateStore : StateStore) (jurisdictionPath : String) :
    Result (List ElectionId) := do
  let _path ← JurisdictionTree.Path.parse jurisdictionPath
  let elections ← stateStore.getAllElections C order
  return elections.map ElectionState.id

/-- Aggregate results for a jurisdiction, at the time `now`. -/
def aggregateResults [Hex] (now : Timestamp) (stateStore : StateStore) (jurisdictionPath : String)
    (electionId : ElectionId) : Result AggregatedResults := do
  let path ← JurisdictionTree.Path.parse jurisdictionPath
  let election ← stateStore.getElection C electionId
  return {
    jurisdiction := path
    electionId
    totalVotes := (election.map ElectionState.totalVotes).getD 0
    timestamp := now }

/-- The body of the loop of `validate_jurisdiction`: the total and the number so far. -/
def validateElection [Hex] (stateStore : StateStore) (acc : UInt64 × Nat)
    (electionId : ElectionId) : Result (UInt64 × Nat) := do
  match ← stateStore.getElection C electionId with
  | some election => return (acc.1 + election.totalVotes, acc.2 + 1)
  | none => return acc

/-- Validate blockchain data for a specific jurisdiction, at the time `now`. -/
def validateJurisdiction [Hex] (now : Timestamp) (stateStore : StateStore)
    (jurisdictionPath : String) : Result JurisdictionValidation := do
  let path ← JurisdictionTree.Path.parse jurisdictionPath
  let elections ← queryElectionsByJurisdiction C order stateStore jurisdictionPath
  let (totalVotes, validatedElections) ← elections.foldlM (validateElection C stateStore) (0, 0)
  return {
    jurisdiction := path
    electionsCount := elections.length
    validatedElections
    totalVotes
    validationTimestamp := now }

end StorageManager

/-! ## What is stored -/

namespace Entry

/-- What is cached is stored as well, in some form. -/
def Backed (entry : Entry) : Prop := ∀ e, entry.cached = some e → entry.stored ≠ none

theorem Backed.change {entry : Entry} (h : entry.Backed) (f : ElectionState → ElectionState) :
    (entry.change f).Backed ∧ ((entry.change f).stored = none ↔ entry.stored = none) := by
  rcases entry with ⟨cached, stored⟩
  cases cached with
  | some x =>
      refine ⟨?_, ?_⟩
      · intro e he hnone
        cases hnone
      · exact iff_of_false (fun hnone => by cases hnone) (h x rfl)
  | none =>
      cases stored with
      | none => exact ⟨h, Iff.rfl⟩
      | some r =>
          cases r with
          | error e => exact ⟨h, Iff.rfl⟩
          | ok x =>
              refine ⟨?_, ?_⟩
              · intro e he
                cases he
              · exact iff_of_false (fun hnone => by cases hnone) (fun hnone => by cases hnone)

end Entry

namespace StateStore
variable {C : StateCodec}

/-- The id of an election that a call creates. -/
def createdBy : StateCall → Finset ElectionId
  | .election (.create election) => {election.id}
  | _ => ∅

/-- The ids of the elections that are created in a run. -/
def created (calls : List StateCall) : Finset ElectionId :=
  calls.foldl (fun ids call => ids ∪ createdBy call) ∅

theorem created_concat (calls : List StateCall) (call : StateCall) :
    created (calls ++ [call]) = created calls ∪ createdBy call := by
  rw [created, List.foldl_concat]
  rfl

variable (C) in
/-- What is stored, of each election, is what was created. -/
structure HasCreated [Hex] (ids : Finset ElectionId) (store : StateStore) : Prop where
  kept : WellKept C store
  backed : ∀ x, (store.entry C x).Backed
  stored : ∀ x, (store.entry C x).stored = none ↔ x ∉ ids

theorem hasCreated_fresh [Hex] : HasCreated C ∅ fresh := by
  refine ⟨wellKept_fresh, ?_, ?_⟩
  · intro x e he
    cases he
  · intro x
    exact iff_of_true rfl (Finset.notMem_empty x)

theorem HasCreated.of_entry [Hex] {ids : Finset ElectionId} {store store' : StateStore}
    (h : HasCreated C ids store) (hkept : WellKept C store')
    (hentry : ∀ x, store'.entry C x = store.entry C x) : HasCreated C ids store' := by
  refine ⟨hkept, ?_, ?_⟩
  · intro x
    rw [hentry]
    exact h.backed x
  · intro x
    rw [hentry]
    exact h.stored x

theorem HasCreated.electionStep [Hex] (hcodec : C.Exact) {ids : Finset ElectionId}
    {store : StateStore} (h : HasCreated C ids store) (call : ElectionCall) :
    HasCreated C (ids ∪ createdBy (.election call)) (store.electionStep C call) := by
  -- the entry that is called for, by the kind of the call
  have hown : ((store.entry C call.electionId).step call).Backed ∧
      (((store.entry C call.electionId).step call).stored = none ↔
        call.electionId ∉ ids ∪ createdBy (.election call)) := by
    cases call with
    | create election =>
        refine ⟨?_, ?_⟩
        · intro e _ hnone
          cases hnone
        · refine iff_of_false (fun hnone => by cases hnone) (not_not.mpr ?_)
          exact Finset.mem_union_right _ (Finset.mem_singleton_self election.id)
    | increment x =>
        have hids : ids ∪ createdBy (.election (.increment x)) = ids := Finset.union_empty ids
        rw [hids, ← h.stored]
        exact (h.backed x).change ElectionState.addVote
    | close x height =>
        have hids : ids ∪ createdBy (.election (.close x height)) = ids := Finset.union_empty ids
        rw [hids, ← h.stored]
        exact (h.backed x).change (ElectionState.close height)
  have hother : ∀ x, x ≠ call.electionId →
      (x ∉ ids ∪ createdBy (.election call) ↔ x ∉ ids) := by
    intro x hx
    cases call with
    | create election =>
        have hne : x ≠ election.id := hx
        rw [createdBy, Finset.mem_union, Finset.mem_singleton, or_iff_left hne]
    | increment y =>
        show x ∉ ids ∪ ∅ ↔ x ∉ ids
        rw [Finset.union_empty]
    | close y height =>
        show x ∉ ids ∪ ∅ ↔ x ∉ ids
        rw [Finset.union_empty]
  refine ⟨h.kept.electionStep hcodec call, ?_, ?_⟩
  · intro x
    rw [entry_electionStep hcodec]
    split
    · next heq =>
        rw [← heq]
        exact hown.1
    · exact h.backed x
  · intro x
    rw [entry_electionStep hcodec]
    split
    · next heq =>
        rw [← heq]
        exact hown.2
    · next hne => rw [h.stored, hother x fun heq => hne heq.symm]

theorem HasCreated.step [Hex] (hcodec : C.Exact) {ids : Finset ElectionId} {store : StateStore}
    (h : HasCreated C ids store) (call : StateCall) :
    HasCreated C (ids ∪ createdBy call) (store.step C call) := by
  have hkept := h.kept.step hcodec call
  cases call with
  | election call => exact h.electionStep hcodec call
  | chain call =>
      show HasCreated C (ids ∪ ∅) _
      rw [Finset.union_empty]
      exact h.of_entry hkept fun x => entry_chainStep store call x
  | record y voterId =>
      obtain ⟨hdb, hcache⟩ := next_record y voterId store
      show HasCreated C (ids ∪ ∅) _
      rw [Finset.union_empty]
      refine h.of_entry hkept fun x => ?_
      rw [StateStore.step, entry, hdb, hcache]
      rfl
  | addPending tx =>
      show HasCreated C (ids ∪ ∅) _
      rw [Finset.union_empty]
      exact h.of_entry hkept fun x => rfl
  | removePending txId =>
      show HasCreated C (ids ∪ ∅) _
      rw [Finset.union_empty]
      exact h.of_entry hkept fun x => rfl
  | prunePending cutoffTime =>
      show HasCreated C (ids ∪ ∅) _
      rw [Finset.union_empty]
      exact h.of_entry hkept fun x => rfl
  | reopen order =>
      show HasCreated C (ids ∪ ∅) _
      rw [Finset.union_empty]
      rw [StateStore.step] at hkept ⊢
      cases hnew : StateStore.new C order store.db with
      | error e => exact h
      | ok store' =>
          rw [hnew] at hkept
          refine ⟨hkept, ?_, ?_⟩
          · intro x e he hnone
            obtain ⟨hstored, hcached⟩ := h.kept.entry_new hnew x
            rw [hstored, hcached e he] at hnone
            cases hnone
          · intro x
            show (store'.entry C x).stored = none ↔ x ∉ ids
            rw [(h.kept.entry_new hnew x).1, h.stored]

/-- **Elections never go.** -/
theorem hasCreated_run [Hex] (hcodec : C.Exact) (calls : List StateCall) :
    HasCreated C (created calls) (Runs.run (step C) fresh calls) := by
  induction calls using List.reverseRecOn with
  | nil => exact hasCreated_fresh
  | append_singleton calls call ih =>
      rw [Runs.run_concat, created_concat]
      exact ih.step hcodec call

/-! ## The query -/

theorem exists_readElections [Hex] {db : Database} {keys : List Bytes}
    (hread : ∀ k ∈ keys, ∃ data e, db.lookup k = some data ∧ C.deserialize data = .ok e ∧
      k = electionKey e.id) :
    ∃ elections, readElections C db keys = .ok elections ∧
      elections.map (fun e => electionKey e.id) = keys := by
  induction keys with
  | nil => exact ⟨[], rfl, rfl⟩
  | cons key keys ih =>
      obtain ⟨⟨data, e, hdata, hread, hkey⟩, hrest⟩ := List.forall_mem_cons.mp hread
      obtain ⟨elections, helections, hkeys⟩ := ih hrest
      refine ⟨e :: elections, ?_, ?_⟩
      · rw [readElections]
        simp only [hdata, hread, ofBincode, helections]
        rfl
      · rw [List.map_cons, hkeys, ← hkey]

theorem HasCreated.getAllElections [Hex] {ids : Finset ElectionId} {store : StateStore}
    (h : HasCreated C ids store) (order : MapOrder Bytes Bytes) :
    ∃ elections, store.getAllElections C order = .ok elections ∧
      (elections.map ElectionState.id).Nodup ∧
      (elections.map ElectionState.id).toFinset = ids := by
  have hread : ∀ k ∈ store.db.keysWithPrefix order electionPrefix, ∃ data e,
      store.db.lookup k = some data ∧ C.deserialize data = .ok e ∧ k = electionKey e.id := by
    intro k hk
    obtain ⟨hmem, hprefix⟩ := Database.mem_keysWithPrefix.mp hk
    obtain ⟨data, hdata⟩ := Finmap.mem_iff.mp hmem
    obtain ⟨e, he, hkey⟩ := h.kept.loadable_elections k data hprefix hdata
    exact ⟨data, e, hdata, he, hkey⟩
  obtain ⟨elections, helections, hkeys⟩ := exists_readElections hread
  have hcomp : (elections.map ElectionState.id).map electionKey =
      store.db.keysWithPrefix order electionPrefix := by
    rw [List.map_map, ← hkeys]
    rfl
  refine ⟨elections, helections, ?_, ?_⟩
  · refine List.Nodup.of_map electionKey ?_
    rw [hcomp]
    exact (order.nodup_keys store.db).filter _
  · ext x
    have hmem : x ∈ elections.map ElectionState.id ↔
        electionKey x ∈ store.db.keysWithPrefix order electionPrefix := by
      rw [← hcomp, List.mem_map_of_injective electionKey_injective]
    rw [List.mem_toFinset, hmem, Database.mem_keysWithPrefix, ← not_iff_not, ← h.stored, entry,
      Option.map_eq_none_iff, Finmap.lookup_eq_none,
      and_iff_left (prefix_electionKey x)]

theorem HasCreated.getElection [Hex] {ids : Finset ElectionId} {store : StateStore}
    (h : HasCreated C ids store) (x : ElectionId) :
    ∃ found, store.getElection C x = .ok found ∧ (found = none ↔ x ∉ ids) := by
  rw [getElection_eq, ← h.stored, Entry.reported]
  have hbacked := h.backed x
  have hnamed := (h.kept.named x).stored
  cases hcached : (store.entry C x).cached with
  | some e => exact ⟨some e, rfl, iff_of_false (Option.some_ne_none e) (hbacked e hcached)⟩
  | none =>
      cases hstored : (store.entry C x).stored with
      | none => exact ⟨none, rfl, iff_of_true rfl rfl⟩
      | some r =>
          obtain ⟨e, rfl, -⟩ := hnamed r hstored
          exact ⟨some e, rfl, iff_of_false (Option.some_ne_none e) (Option.some_ne_none _)⟩

end StateStore

namespace StorageManager
variable {C : StateCodec}

open StateStore (HasCreated created hasCreated_run)

variable (C) in
/-- The votes of an election, as the store reports them, or none. -/
def reportedVotes [Hex] (store : StateStore) (x : ElectionId) : UInt64 :=
  match store.getElection C x with
  | .ok (some election) => election.totalVotes
  | _ => 0

theorem aggregateResults_eq [Hex] {ids : Finset ElectionId} {store : StateStore}
    (h : HasCreated C ids store) (now : Timestamp) {path : String} {p : JurisdictionTree.Path}
    (hpath : JurisdictionTree.Path.parse path = .ok p) (x : ElectionId) :
    aggregateResults C now store path x = .ok ⟨p, x, reportedVotes C store x, now⟩ := by
  obtain ⟨found, hfound, -⟩ := h.getElection x
  rw [aggregateResults, hpath, reportedVotes, hfound]
  cases found with
  | none => rfl
  | some election => rfl

theorem foldlM_validateElection [Hex] {ids : Finset ElectionId} {store : StateStore}
    (h : HasCreated C ids store) (elections : List ElectionId)
    (hcreated : ∀ x ∈ elections, x ∈ ids) (hnodup : elections.Nodup) (n k : Nat) :
    elections.foldlM (validateElection C store) (UInt64.ofNat n, k) =
      .ok (UInt64.ofNat (n + elections.toFinset.sum fun x => (reportedVotes C store x).toNat),
        k + elections.length) := by
  induction elections generalizing n k with
  | nil => rfl
  | cons x elections ih =>
      obtain ⟨hx, hrest⟩ := List.forall_mem_cons.mp hcreated
      obtain ⟨hnot, hnodup⟩ := List.nodup_cons.mp hnodup
      obtain ⟨found, hfound, hnone⟩ := h.getElection x
      cases found with
      | none => exact absurd hx (hnone.mp rfl)
      | some election =>
          have hvotes : reportedVotes C store x = election.totalVotes := by
            rw [reportedVotes, hfound]
          have hstep : validateElection C store (UInt64.ofNat n, k) x =
              .ok (UInt64.ofNat (n + election.totalVotes.toNat), k + 1) := by
            rw [validateElection, hfound, UInt64.ofNat_add, UInt64.ofNat_toNat]
            rfl
          rw [List.foldlM_cons, hstep, List.toFinset_cons,
            Finset.sum_insert (List.mem_toFinset.not.mpr hnot), hvotes, ← Nat.add_assoc,
            List.length_cons, ← Nat.add_assoc, Nat.add_right_comm k]
          exact ih hrest hnodup _ _

/-- **Whatever the jurisdiction, every election.**  After any run of a store that began on an
empty database, and for every path that can be read: the query returns each election that was
created in the run, once; `aggregate_results` succeeds for every id and every readable path, with
a number of votes that does not depend on the path and is 0 for what was never created; and
`validate_jurisdiction` counts all elections as found and as validated, with the sum of these
numbers as its total. -/
theorem jurisdiction_validated [Hex] (hcodec : C.Exact) (calls : List StateCall)
    (order : MapOrder Bytes Bytes) (now : Timestamp) {path : String} {p : JurisdictionTree.Path}
    (hpath : JurisdictionTree.Path.parse path = .ok p) :
    ∃ (elections : List ElectionId) (votes : ElectionId → UInt64),
      queryElectionsByJurisdiction C order (Runs.run (StateStore.step C) StateStore.fresh calls)
        path = .ok elections ∧
      elections.Nodup ∧ elections.toFinset = created calls ∧
      (∀ (x : ElectionId) (other : String) (q : JurisdictionTree.Path),
        JurisdictionTree.Path.parse other = .ok q →
        aggregateResults C now (Runs.run (StateStore.step C) StateStore.fresh calls) other x =
          .ok ⟨q, x, votes x, now⟩) ∧
      (∀ x, x ∉ created calls → votes x = 0) ∧
      validateJurisdiction C order now (Runs.run (StateStore.step C) StateStore.fresh calls) path =
        .ok ⟨p, (created calls).card, (created calls).card,
          UInt64.ofNat ((created calls).sum fun x => (votes x).toNat), now⟩ := by
  have h := hasCreated_run hcodec calls
  generalize Runs.run (StateStore.step C) StateStore.fresh calls = store at *
  obtain ⟨records, hrecords, hnodup, hids⟩ := h.getAllElections order
  have hquery : queryElectionsByJurisdiction C order store path =
      .ok (records.map ElectionState.id) := by
    rw [queryElectionsByJurisdiction, hpath, hrecords]
    rfl
  have hcreated : ∀ x ∈ records.map ElectionState.id, x ∈ created calls := by
    intro x hx
    rw [← hids]
    exact List.mem_toFinset.mpr hx
  have hcard : (records.map ElectionState.id).length = (created calls).card := by
    rw [← hids, List.toFinset_card_of_nodup hnodup]
  have hsum := foldlM_validateElection h _ hcreated hnodup 0 0
  rw [hids, hcard, Nat.zero_add, Nat.zero_add] at hsum
  have hzero : UInt64.ofNat 0 = 0 := rfl
  rw [hzero] at hsum
  refine ⟨records.map ElectionState.id, reportedVotes C store, hquery, hnodup, hids, ?_, ?_, ?_⟩
  · intro x other q hother
    exact aggregateResults_eq h now hother x
  · intro x hx
    obtain ⟨found, hfound, hnone⟩ := h.getElection x
    rw [hnone.mpr hx] at hfound
    rw [reportedVotes, hfound]
  · simp only [validateJurisdiction, hpath, hquery, hsum, hcard, bind, Except.bind]
    rfl

end StorageManager

/-- Two elections, of which one gets a vote and is closed. -/
def Reference.twoElections : List StateCall :=
  [.election (.create openElection), .election (.create votedElection),
    .election (.increment openElection.id), .election (.close openElection.id 5)]

namespace StorageManager

/-- Both are found in California. -/
theorem jurisdiction_validated_two : ∃ validation,
    validateJurisdiction Reference.stateCodec default 0
      (Runs.run (StateStore.step Reference.stateCodec) StateStore.fresh Reference.twoElections)
      "US/California" = .ok validation ∧ validation.electionsCount = 2 := by
  have hpath : JurisdictionTree.Path.parse "US/California" = .ok ⟨["US", "California"]⟩ := by
    decide
  have hcard : (StateStore.created Reference.twoElections).card = 2 := by decide
  obtain ⟨elections, votes, -, -, -, -, -, hvalid⟩ :=
    jurisdiction_validated Reference.exact_stateCodec Reference.twoElections default 0 hpath
  exact ⟨_, hvalid, hcard⟩

end StorageManager

end VotingChain
