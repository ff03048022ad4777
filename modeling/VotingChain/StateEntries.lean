/-
# `VotingChain.StateEntries` — what the operations do to the state store

One election at a time: its cached record and its stored one are an `Entry`.  An operation
on an election changes its own entry and no other, since no two keys of the database are
the same.  The change is stated once, for any function on records (`Entry.change`): the
cached record is changed once, and then it is read back and changed again for the
database, so the stored record has been changed twice.

And the other way, what is loaded from a database, for any order of its keys.
-/
import VotingChain.StateStore

namespace VotingChain

/-! ## Keys -/

theorem length_validatorKey [Hex] (validator : PublicKey) :
    (validatorKey validator).length = 80 := by
  rw [validatorKey, length_strBytes, String.utf8ByteSize_append, PublicKey.toHex,
    Hex.utf8ByteSize_encode, PublicKey.asBytes, List.Vector.toList_length]
  rfl

theorem length_currentHeightKey : currentHeightKey.length = 20 := rfl

theorem length_latestBlockHashKey : latestBlockHashKey.length = 23 := rfl

theorem ne_of_length {k k' : Bytes} {n n' : Nat} (hk : k.length = n) (hk' : k'.length = n')
    (hn : n ≠ n') : k ≠ k' := by
  rintro rfl
  exact hn (hk.symm.trans hk')

theorem currentHeightKey_ne_latestBlockHashKey : currentHeightKey ≠ latestBlockHashKey :=
  ne_of_length length_currentHeightKey length_latestBlockHashKey (by decide)

theorem currentHeightKey_ne_validatorKey [Hex] (validator : PublicKey) :
    currentHeightKey ≠ validatorKey validator :=
  ne_of_length length_currentHeightKey (length_validatorKey validator) (by decide)

theorem latestBlockHashKey_ne_validatorKey [Hex] (validator : PublicKey) :
    latestBlockHashKey ≠ validatorKey validator :=
  ne_of_length length_latestBlockHashKey (length_validatorKey validator) (by decide)

theorem electionKey_injective [Hex] : Function.Injective electionKey := by
  intro x y h
  rw [electionKey, electionKey, strBytes_append, strBytes_append] at h
  exact selfDelimiting_electionId.injective
    (Hex.encode_injective (strBytes_injective (List.append_cancel_left h)))

theorem prefix_electionKey [Hex] (electionId : ElectionId) :
    electionPrefix <+: electionKey electionId := by
  rw [electionKey, strBytes_append]
  exact List.prefix_append _ _

theorem not_prefix_of_take_ne {w u : Bytes} {n : Nat} (hw : n ≤ w.length) (hu : n ≤ u.length)
    (h : w.take n ≠ u.take n) (rest : Bytes) : ¬w <+: u ++ rest := by
  rintro ⟨rest', heq⟩
  have htake := congrArg (List.take n) heq
  rw [List.take_append_of_le_length hw, List.take_append_of_le_length hu] at htake
  exact h htake

theorem not_prefix_validatorKey [Hex] (validator : PublicKey) :
    ¬electionPrefix <+: validatorKey validator := by
  rw [validatorKey, strBytes_append]
  exact not_prefix_of_take_ne (n := 7) (by decide) (by decide) (by decide) _

theorem not_prefix_currentHeightKey : ¬electionPrefix <+: currentHeightKey := by
  rw [← List.append_nil currentHeightKey]
  exact not_prefix_of_take_ne (n := 7) (by decide) (by decide) (by decide) _

theorem not_prefix_latestBlockHashKey : ¬electionPrefix <+: latestBlockHashKey := by
  rw [← List.append_nil latestBlockHashKey]
  exact not_prefix_of_take_ne (n := 7) (by decide) (by decide) (by decide) _

/-! ## One election -/

/-- The cached record of an election, and the stored one as it is read. -/
structure Entry where
  cached : Option ElectionState
  stored : Option (Except String ElectionState)

namespace Entry

/-- What `get_election` reports. -/
def reported (entry : Entry) : Result (Option ElectionState) :=
  match entry.cached, entry.stored with
  | some election, _ => .ok (some election)
  | none, some (.ok election) => .ok (some election)
  | none, some (.error e) => fail (.serializationError e)
  | none, none => .ok none

/-- A change of the record: the cached one is changed, and the one that is stored then is the
changed one, changed once more. -/
def change (f : ElectionState → ElectionState) (entry : Entry) : Entry :=
  match entry.cached, entry.stored with
  | some election, _ => ⟨some (f election), some (.ok (f (f election)))⟩
  | none, some (.ok election) => ⟨none, some (.ok (f election))⟩
  | none, _ => entry

theorem cached_change {entry : Entry} {election : ElectionState}
    (h : entry.cached = some election) (f : ElectionState → ElectionState) :
    (entry.change f).cached = some (f election) := by
  rw [change, h]

/-- The entry of the election that is called for, after the call. -/
def step (entry : Entry) : ElectionCall → Entry
  | .create election => ⟨some election, some (.ok election)⟩
  | .increment _ => entry.change ElectionState.addVote
  | .close _ closedAtHeight => entry.change (ElectionState.close closedAtHeight)

/-- A stored record can be read. -/
def Readable (entry : Entry) : Prop := ∀ r, entry.stored = some r → ∃ election, r = .ok election

theorem Readable.change {entry : Entry} (h : entry.Readable) (f : ElectionState → ElectionState) :
    (entry.change f).Readable := by
  rcases entry with ⟨cached, stored⟩
  intro r hr
  cases cached with
  | some x =>
      cases hr
      exact ⟨_, rfl⟩
  | none =>
      cases stored with
      | none => cases hr
      | some old =>
          obtain ⟨x, rfl⟩ := h old rfl
          cases hr
          exact ⟨_, rfl⟩

theorem Readable.step {entry : Entry} (h : entry.Readable) (call : ElectionCall) :
    (entry.step call).Readable := by
  cases call with
  | create election =>
      intro r hr
      cases hr
      exact ⟨election, rfl⟩
  | increment electionId => exact h.change _
  | close electionId closedAtHeight => exact h.change _

end Entry

namespace StateStore
variable (C : StateCodec)

/-- The entry of an election in a store. -/
def entry [Hex] (store : StateStore) (electionId : ElectionId) : Entry where
  cached := store.cache.activeElections.lookup electionId
  stored := (store.db.lookup (electionKey electionId)).map C.deserialize

/-- The stores differ in nothing but the records of one election. -/
structure SameElsewhere [Hex] (electionId : ElectionId) (store store' : StateStore) : Prop where
  currentHeight : store'.cache.currentHeight = store.cache.currentHeight
  latestBlockHash : store'.cache.latestBlockHash = store.cache.latestBlockHash
  activeValidators : store'.cache.activeValidators = store.cache.activeValidators
  activeElections : ∀ x, x ≠ electionId →
    store'.cache.activeElections.lookup x = store.cache.activeElections.lookup x
  db : ∀ k, k ≠ electionKey electionId → store'.db.lookup k = store.db.lookup k

variable {C}

theorem sameElsewhere_self [Hex] (electionId : ElectionId) (store : StateStore) :
    SameElsewhere electionId store store :=
  ⟨rfl, rfl, rfl, fun _ _ => rfl, fun _ _ => rfl⟩

theorem SameElsewhere.entry_eq [Hex] {electionId x : ElectionId} {store store' : StateStore}
    (h : SameElsewhere electionId store store') (hne : x ≠ electionId) :
    store'.entry C x = store.entry C x := by
  rw [entry, entry, h.activeElections x hne, h.db _ fun heq => hne (electionKey_injective heq)]

theorem getElection_eq [Hex] (store : StateStore) (electionId : ElectionId) :
    store.getElection C electionId = (store.entry C electionId).reported := by
  rw [getElection, Entry.reported, entry]
  cases store.cache.activeElections.lookup electionId with
  | some election => rfl
  | none =>
      cases store.db.lookup (electionKey electionId) with
      | none => rfl
      | some data =>
          simp only [Option.map_some]
          cases C.deserialize data with
          | error e => rfl
          | ok election => rfl

theorem exec_putElection [Hex] {electionId : ElectionId} {election : ElectionState} {data : Bytes}
    (hdata : C.serialize election = .ok data) (store : StateStore) :
    (putElection C electionId election).exec store =
      (.ok (), { store with db := store.db.insert (electionKey electionId) data }) := by
  rw [putElection, hdata]
  rfl

theorem exec_createElection [Hex] (hcodec : C.Exact) (election : ElectionState)
    (store : StateStore) :
    ∃ store', (createElection C election).exec store = (.ok (), store') ∧
      SameElsewhere election.id store store' ∧
      store'.entry C election.id = ⟨some election, some (.ok election)⟩ ∧
      store'.cache.voterParticipation =
        store.cache.voterParticipation.insert election.id ∅ := by
  obtain ⟨data, hdata, hread⟩ := hcodec election
  let store' : StateStore :=
    { db := store.db.insert (electionKey election.id) data
      cache := { store.cache with
        activeElections := store.cache.activeElections.insert election.id election
        voterParticipation := store.cache.voterParticipation.insert election.id ∅ } }
  refine ⟨store', ?_, ⟨rfl, rfl, rfl, ?_, ?_⟩, ?_, rfl⟩
  · rw [createElection, Exec.exec_modify_bind, exec_putElection hdata]
  · intro x hx
    exact Finmap.lookup_insert_of_ne _ hx
  · intro k hk
    exact Finmap.lookup_insert_of_ne _ hk
  · simp only [entry, store', Finmap.lookup_insert, Option.map_some, hread]

theorem exec_writeBack_of_some [Hex] {electionId : ElectionId} {f : ElectionState → ElectionState}
    {store : StateStore} {election : ElectionState} {data : Bytes}
    (h : (store.entry C electionId).reported = .ok (some election))
    (hdata : C.serialize (f election) = .ok data) :
    (writeBack C electionId f).exec store =
      (.ok (), { store with db := store.db.insert (electionKey electionId) data }) := by
  rw [writeBack, Exec.exec_get_bind, getElection_eq, h, Exec.exec_lift_bind]
  exact exec_putElection hdata store

theorem next_writeBack_of_none [Hex] {electionId : ElectionId} {f : ElectionState → ElectionState}
    {store : StateStore} (h : ∀ election, (store.entry C electionId).reported ≠ .ok (some election)) :
    (writeBack C electionId f).next store = store := by
  have hexec : ∃ r, (writeBack C electionId f).exec store = (r, store) := by
    rw [writeBack, Exec.exec_get_bind, getElection_eq, Exec.exec_lift_bind]
    cases hreported : (store.entry C electionId).reported with
    | error e => exact ⟨_, rfl⟩
    | ok found =>
        cases found with
        | none => exact ⟨_, rfl⟩
        | some election => exact absurd hreported (h election)
  obtain ⟨r, hr⟩ := hexec
  exact Exec.next_of_unchanged hr

/-- The store with another cached record. -/
def withCached (electionId : ElectionId) (election : ElectionState) (store : StateStore) :
    StateStore :=
  { store with
    cache := { store.cache with
      activeElections := store.cache.activeElections.insert electionId election } }

theorem exec_changeElection_of_some [Hex] {electionId : ElectionId}
    {f : ElectionState → ElectionState} {store : StateStore} {election : ElectionState}
    (h : store.cache.activeElections.lookup electionId = some election) :
    (changeElection C electionId f).exec store =
      (writeBack C electionId f).exec (store.withCached electionId (f election)) := by
  rw [changeElection, updateCached, Exec.exec_modify_bind]
  simp only [h]
  rfl

theorem exec_changeElection_of_none [Hex] {electionId : ElectionId}
    {f : ElectionState → ElectionState}
    {store : StateStore} (h : store.cache.activeElections.lookup electionId = none) :
    (changeElection C electionId f).exec store = (writeBack C electionId f).exec store := by
  rw [changeElection, updateCached, Exec.exec_modify_bind]
  simp only [h]

/-- **What `close_election` and `increment_vote_count` do** to the records of the election; to
everything else, nothing. -/
theorem next_changeElection [Hex] (hcodec : C.Exact) (electionId : ElectionId)
    (f : ElectionState → ElectionState) (store : StateStore) :
    SameElsewhere electionId store ((changeElection C electionId f).next store) ∧
    ((changeElection C electionId f).next store).entry C electionId =
      (store.entry C electionId).change f ∧
    ((changeElection C electionId f).next store).cache.voterParticipation =
      store.cache.voterParticipation := by
  cases hcached : store.cache.activeElections.lookup electionId with
  | some election =>
      obtain ⟨data, hdata, hread⟩ := hcodec (f (f election))
      have hreported : ((store.withCached electionId (f election)).entry C electionId).reported =
          .ok (some (f election)) := by
        simp only [entry, withCached, Finmap.lookup_insert, Entry.reported]
      rw [Exec.next_of_ok
        ((exec_changeElection_of_some hcached).trans (exec_writeBack_of_some hreported hdata))]
      refine ⟨⟨rfl, rfl, rfl, ?_, ?_⟩, ?_, rfl⟩
      · intro x hx
        exact Finmap.lookup_insert_of_ne _ hx
      · intro k hk
        exact Finmap.lookup_insert_of_ne _ hk
      · simp only [entry, withCached, Entry.change, Finmap.lookup_insert, Option.map_some, hread,
          hcached]
  | none =>
      have hnext : (changeElection C electionId f).next store =
          (writeBack C electionId f).next store := by
        rw [Exec.next, Exec.next, exec_changeElection_of_none hcached]
      have hentry : store.entry C electionId =
          ⟨none, (store.db.lookup (electionKey electionId)).map C.deserialize⟩ := by
        rw [entry, hcached]
      rw [hnext]
      cases hstored : (store.db.lookup (electionKey electionId)).map C.deserialize with
      | none =>
          rw [hstored] at hentry
          rw [next_writeBack_of_none (by rw [hentry]; intro _ h; cases h)]
          refine ⟨sameElsewhere_self _ _, ?_, rfl⟩
          rw [hentry]
          rfl
      | some r =>
          rw [hstored] at hentry
          cases r with
          | error e =>
              rw [next_writeBack_of_none (by rw [hentry]; intro _ h; cases h)]
              refine ⟨sameElsewhere_self _ _, ?_, rfl⟩
              rw [hentry]
              rfl
          | ok election =>
              obtain ⟨data, hdata, hread⟩ := hcodec (f election)
              have hreported : (store.entry C electionId).reported = .ok (some election) := by
                rw [hentry]
                rfl
              rw [Exec.next_of_ok (exec_writeBack_of_some hreported hdata)]
              refine ⟨⟨rfl, rfl, rfl, fun _ _ => rfl, ?_⟩, ?_, rfl⟩
              · intro k hk
                exact Finmap.lookup_insert_of_ne _ hk
              · rw [hentry]
                simp only [entry, Entry.change, Finmap.lookup_insert, Option.map_some, hread,
                  hcached]

theorem sameElsewhere_electionStep [Hex] (hcodec : C.Exact) (store : StateStore)
    (call : ElectionCall) :
    SameElsewhere call.electionId store (store.electionStep C call) := by
  cases call with
  | create election =>
      obtain ⟨store', hexec, hsame, -⟩ := exec_createElection hcodec election store
      rw [electionStep, Exec.next_of_ok hexec]
      exact hsame
  | increment electionId => exact (next_changeElection hcodec electionId _ store).1
  | close electionId closedAtHeight => exact (next_changeElection hcodec electionId _ store).1

theorem entry_electionStep_self [Hex] (hcodec : C.Exact) (store : StateStore)
    (call : ElectionCall) :
    (store.electionStep C call).entry C call.electionId =
      (store.entry C call.electionId).step call := by
  cases call with
  | create election =>
      obtain ⟨store', hexec, -, hentry, -⟩ := exec_createElection hcodec election store
      rw [electionStep, Exec.next_of_ok hexec]
      exact hentry
  | increment electionId => exact (next_changeElection hcodec electionId _ store).2.1
  | close electionId closedAtHeight => exact (next_changeElection hcodec electionId _ store).2.1

theorem entry_electionStep [Hex] (hcodec : C.Exact) (store : StateStore) (call : ElectionCall)
    (electionId : ElectionId) :
    (store.electionStep C call).entry C electionId =
      if call.electionId = electionId then (store.entry C electionId).step call
      else store.entry C electionId := by
  split
  · next heq =>
      rw [← heq]
      exact entry_electionStep_self hcodec store call
  · next hne => exact (sameElsewhere_electionStep hcodec store call).entry_eq (Ne.symm hne)

theorem entry_run [Hex] (hcodec : C.Exact) (electionId : ElectionId) (calls : List ElectionCall)
    (store : StateStore) :
    (Runs.run (electionStep C) store calls).entry C electionId =
      Runs.run Entry.step (store.entry C electionId)
        (calls.filter fun call => decide (call.electionId = electionId)) := by
  induction calls generalizing store with
  | nil => rfl
  | cons call calls ih =>
      rw [Runs.run_cons, ih, entry_electionStep hcodec, List.filter_cons]
      by_cases heq : call.electionId = electionId
      · rw [if_pos heq, if_pos (decide_eq_true heq), Runs.run_cons]
      · rw [if_neg heq, if_neg (by rw [decide_eq_true_iff]; exact heq)]

/-! ## Calls that are not about elections -/

theorem chainStep_updateTip [Hex] (store : StateStore) (height : BlockHeight)
    (blockHash : BlockHash) :
    store.chainStep (.updateTip height blockHash) =
      { db := (store.db.insert currentHeightKey (u64Bytes height)).insert latestBlockHashKey
          blockHash.asBytes
        cache := { store.cache with currentHeight := height, latestBlockHash := blockHash } } :=
  rfl

theorem chainStep_addValidator [Hex] (store : StateStore) (validator : PublicKey) :
    store.chainStep (.addValidator validator) =
      { db := store.db.insert (validatorKey validator) [1]
        cache := { store.cache with
          activeValidators := insert validator store.cache.activeValidators } } :=
  rfl

theorem chainStep_removeValidator [Hex] (store : StateStore) (validator : PublicKey) :
    store.chainStep (.removeValidator validator) =
      { db := store.db.erase (validatorKey validator)
        cache := { store.cache with
          activeValidators := store.cache.activeValidators.erase validator } } :=
  rfl

theorem lookup_chainStep [Hex] (store : StateStore) (call : ChainCall) {k : Bytes}
    (hk : electionPrefix <+: k) : (store.chainStep call).db.lookup k = store.db.lookup k := by
  cases call with
  | updateTip height blockHash =>
      have hheight : k ≠ currentHeightKey := fun heq => not_prefix_currentHeightKey (heq ▸ hk)
      have hhash : k ≠ latestBlockHashKey := fun heq => not_prefix_latestBlockHashKey (heq ▸ hk)
      rw [chainStep_updateTip, Finmap.lookup_insert_of_ne _ hhash,
        Finmap.lookup_insert_of_ne _ hheight]
  | addValidator validator =>
      have hne : k ≠ validatorKey validator :=
        fun heq => not_prefix_validatorKey validator (heq ▸ hk)
      rw [chainStep_addValidator, Finmap.lookup_insert_of_ne _ hne]
  | removeValidator validator =>
      have hne : k ≠ validatorKey validator :=
        fun heq => not_prefix_validatorKey validator (heq ▸ hk)
      rw [chainStep_removeValidator, Finmap.lookup_erase_ne hne]

theorem activeElections_chainStep [Hex] (store : StateStore) (call : ChainCall) :
    (store.chainStep call).cache.activeElections = store.cache.activeElections := by
  cases call <;> rfl

theorem entry_chainStep [Hex] (store : StateStore) (call : ChainCall) (electionId : ElectionId) :
    (store.chainStep call).entry C electionId = store.entry C electionId := by
  rw [entry, entry, lookup_chainStep store call (prefix_electionKey electionId),
    activeElections_chainStep]

theorem exec_recordVoterParticipation (electionId : ElectionId) (voterId : VoterIdentifier)
    (store : StateStore) :
    (recordVoterParticipation electionId voterId).exec store =
      match store.cache.voterParticipation.lookup electionId with
      | some voters =>
        (.ok (decide (voterId ∉ voters)),
          { store with
            cache := { store.cache with
              voterParticipation :=
                store.cache.voterParticipation.insert electionId (insert voterId voters) } })
      | none => (.ok false, store) := by
  rw [recordVoterParticipation, Exec.exec_get_bind]
  cases store.cache.voterParticipation.lookup electionId with
  | some voters => rfl
  | none => rfl

theorem next_record (electionId : ElectionId) (voterId : VoterIdentifier) (store : StateStore) :
    ((recordVoterParticipation electionId voterId).next store).db = store.db ∧
      ((recordVoterParticipation electionId voterId).next store).cache.activeElections =
        store.cache.activeElections := by
  rw [Exec.next, exec_recordVoterParticipation]
  cases store.cache.voterParticipation.lookup electionId with
  | some voters => exact ⟨rfl, rfl⟩
  | none => exact ⟨rfl, rfl⟩

/-! ## Loading -/

/-- The height that is stored. -/
def heightIn (db : Database) : BlockHeight :=
  match db.lookup currentHeightKey with
  | some heightBytes => UInt64.ofNat (Codec.ofLeBytes heightBytes)
  | none => 0

/-- The hash that is stored. -/
def hashIn (db : Database) : BlockHash :=
  match db.lookup latestBlockHashKey with
  | some hashBytes => if h : hashBytes.length = 32 then ⟨⟨hashBytes, h⟩⟩ else BlockHash.zero
  | none => BlockHash.zero

variable (C) in
/-- The tip is stored in the right lengths, and what is under the keys of elections can be
read. -/
structure Loadable (db : Database) : Prop where
  height : ∀ data, db.lookup currentHeightKey = some data → data.length = 8
  hash : ∀ data, db.lookup latestBlockHashKey = some data → data.length = 32
  elections : ∀ k data, electionPrefix <+: k → db.lookup k = some data →
    ∃ election, C.deserialize data = .ok election

variable (C) in
/-- The id of an active election that is stored under one of the keys. -/
def ActiveUnder (db : Database) (keys : List Bytes) (electionId : ElectionId) : Prop :=
  ∃ k ∈ keys, ∃ data election, db.lookup k = some data ∧ C.deserialize data = .ok election ∧
    election.isActive = true ∧ election.id = electionId

theorem activeUnder_cons {db : Database} {k : Bytes} {keys : List Bytes} {electionId : ElectionId} :
    ActiveUnder C db (k :: keys) electionId ↔
      (∃ data election, db.lookup k = some data ∧ C.deserialize data = .ok election ∧
        election.isActive = true ∧ election.id = electionId) ∨
      ActiveUnder C db keys electionId := by
  simp only [ActiveUnder, List.mem_cons, or_and_right, exists_or, exists_eq_left]

/-- The loop succeeds where everything can be read, and the ids it finds are those of the
active elections. -/
theorem exists_loadElections {db : Database} {keys : List Bytes}
    (hread : ∀ k ∈ keys, ∀ data, db.lookup k = some data →
      ∃ election, C.deserialize data = .ok election)
    (elections : Finmap fun _ : ElectionId => ElectionState) :
    ∃ loaded, loadElections C db keys elections = .ok loaded ∧
      ∀ electionId, electionId ∈ loaded ↔
        electionId ∈ elections ∨ ActiveUnder C db keys electionId := by
  induction keys generalizing elections with
  | nil =>
      refine ⟨elections, rfl, ?_⟩
      intro electionId
      simp only [ActiveUnder, List.not_mem_nil, false_and, exists_false, or_false]
  | cons k keys ih =>
      have hrest := fun k' hk' => hread k' (List.mem_cons_of_mem k hk')
      cases hfound : db.lookup k with
      | none =>
          obtain ⟨loaded, hload, hmem⟩ := ih hrest elections
          refine ⟨loaded, ?_, ?_⟩
          · rw [loadElections, hfound]
            exact hload
          · intro electionId
            rw [hmem, activeUnder_cons, hfound]
            simp only [reduceCtorEq, false_and, exists_false, false_or]
      | some data =>
          obtain ⟨election, helection⟩ := hread k List.mem_cons_self data hfound
          obtain ⟨loaded, hload, hmem⟩ := ih hrest
            (if election.isActive then elections.insert election.id election else elections)
          refine ⟨loaded, ?_, ?_⟩
          · rw [loadElections, hfound]
            simp only [helection, ofBincode]
            exact hload
          · intro electionId
            rw [hmem, activeUnder_cons, hfound]
            have hhead : (∃ data' election', some data = some data' ∧
                C.deserialize data' = .ok election' ∧ election'.isActive = true ∧
                election'.id = electionId) ↔
                election.isActive = true ∧ election.id = electionId := by
              constructor
              · rintro ⟨data', election', hdata', hread', hactive, hid⟩
                cases hdata'
                cases helection.symm.trans hread'
                exact ⟨hactive, hid⟩
              · rintro ⟨hactive, hid⟩
                exact ⟨data, election, rfl, helection, hactive, hid⟩
            rw [hhead]
            split
            · next hactive =>
                simp only [Finmap.mem_insert, hactive, true_and, eq_comm (a := electionId),
                  or_assoc, or_left_comm]
            · next hinactive => simp only [hinactive, Bool.false_eq_true, false_and, false_or]

theorem readable_of_loadElections {db : Database} :
    ∀ {keys : List Bytes} {elections loaded : Finmap fun _ : ElectionId => ElectionState},
      loadElections C db keys elections = .ok loaded →
      ∀ k ∈ keys, ∀ data, db.lookup k = some data → ∃ election, C.deserialize data = .ok election
  | [], _, _, _, _, hk, _, _ => absurd hk List.not_mem_nil
  | key :: keys, elections, loaded, h, k, hk, data, hdata => by
      rw [loadElections] at h
      cases hfound : db.lookup key with
      | none =>
          rw [hfound] at h
          rcases List.mem_cons.mp hk with rfl | hk
          · cases hfound.symm.trans hdata
          · exact readable_of_loadElections h k hk data hdata
      | some value =>
          rw [hfound] at h
          simp only [bind_eq_ok] at h
          obtain ⟨election, helection, h⟩ := h
          rcases List.mem_cons.mp hk with rfl | hk
          · cases hfound.symm.trans hdata
            exact ⟨election, ofBincode_eq_ok.mp helection⟩
          · exact readable_of_loadElections h k hk data hdata

theorem loadHeight_eq_ok {db : Database} {height : BlockHeight} :
    loadHeight db = .ok height ↔
      (∀ data, db.lookup currentHeightKey = some data → data.length = 8) ∧
        height = heightIn db := by
  rw [loadHeight, heightIn]
  cases db.lookup currentHeightKey with
  | none =>
      simp only [reduceCtorEq, false_implies, implies_true, true_and, Except.ok.injEq]
      exact eq_comm
  | some data =>
      simp only [Option.some.injEq, forall_eq']
      split
      · next hlen =>
          simp only [hlen, true_and, Except.ok.injEq]
          exact eq_comm
      · next hlen =>
          simp only [hlen, false_and, iff_false]
          intro h
          cases h

theorem loadHash_eq_ok {db : Database} {hash : BlockHash} :
    loadHash db = .ok hash ↔
      (∀ data, db.lookup latestBlockHashKey = some data → data.length = 32) ∧
        hash = hashIn db := by
  rw [loadHash, hashIn]
  cases db.lookup latestBlockHashKey with
  | none =>
      simp only [reduceCtorEq, false_implies, implies_true, true_and, Except.ok.injEq]
      exact eq_comm
  | some data =>
      simp only [Option.some.injEq, forall_eq']
      by_cases hlen : data.length = 32
      · simp only [hlen, dif_pos, true_and, Except.ok.injEq]
        exact eq_comm
      · simp only [hlen, dif_neg, not_false_eq_true, false_and, iff_false]
        intro h
        cases h

/-- The cache that is loaded, with the elections. -/
def loadedCache (order : MapOrder Bytes Bytes) (db : Database)
    (elections : Finmap fun _ : ElectionId => ElectionState) : StateCache :=
  { StateCache.empty with
    currentHeight := heightIn db
    latestBlockHash := hashIn db
    activeValidators := loadValidators order db
    activeElections := elections }

/-- **When a store can be opened, and what is in its cache.** -/
theorem new_eq_ok {order : MapOrder Bytes Bytes} {db : Database} {store : StateStore} :
    new C order db = .ok store ↔ Loadable C db ∧ ∃ elections,
      loadActiveElections C order db = .ok elections ∧
      store = ⟨db, loadedCache order db elections⟩ := by
  simp only [new, loadStateFromDb, bind_eq_ok, loadHeight_eq_ok, loadHash_eq_ok]
  constructor
  · rintro ⟨cache, ⟨height, ⟨hheight, rfl⟩, hash, ⟨hhash, rfl⟩, elections, helections, hcache⟩,
      hstore⟩
    cases hcache
    cases hstore
    refine ⟨⟨hheight, hhash, ?_⟩, elections, helections, rfl⟩
    intro k data hprefix hdata
    refine readable_of_loadElections helections k ?_ data hdata
    exact Database.mem_keysWithPrefix.mpr ⟨Finmap.mem_of_lookup_eq_some hdata, hprefix⟩
  · rintro ⟨hloadable, elections, helections, rfl⟩
    exact ⟨_, ⟨_, ⟨hloadable.height, rfl⟩, _, ⟨hloadable.hash, rfl⟩, elections, helections, rfl⟩,
      rfl⟩

theorem exists_loadActiveElections {db : Database}
    (hread : ∀ k data, electionPrefix <+: k → db.lookup k = some data →
      ∃ election, C.deserialize data = .ok election) (order : MapOrder Bytes Bytes) :
    ∃ elections, loadActiveElections C order db = .ok elections ∧
      ∀ electionId, electionId ∈ elections ↔
        ∃ k data election, electionPrefix <+: k ∧ db.lookup k = some data ∧
          C.deserialize data = .ok election ∧ election.isActive = true ∧
          election.id = electionId := by
  have hkeys : ∀ k ∈ db.keysWithPrefix order electionPrefix, ∀ data, db.lookup k = some data →
      ∃ election, C.deserialize data = .ok election := by
    intro k hk data hdata
    exact hread k data (Database.mem_keysWithPrefix.mp hk).2 hdata
  obtain ⟨elections, hload, hmem⟩ := exists_loadElections hkeys ∅
  refine ⟨elections, hload, ?_⟩
  intro electionId
  rw [hmem]
  constructor
  · rintro (hempty | ⟨k, hk, data, election, hdata, hread, hactive, hid⟩)
    · exact absurd hempty Finmap.notMem_empty
    · exact ⟨k, data, election, (Database.mem_keysWithPrefix.mp hk).2, hdata, hread, hactive, hid⟩
  · rintro ⟨k, data, election, hprefix, hdata, hread, hactive, hid⟩
    refine Or.inr ⟨k, ?_, data, election, hdata, hread, hactive, hid⟩
    exact Database.mem_keysWithPrefix.mpr ⟨Finmap.mem_of_lookup_eq_some hdata, hprefix⟩

theorem exists_new {db : Database} (h : Loadable C db) (order : MapOrder Bytes Bytes) :
    ∃ elections, new C order db = .ok ⟨db, loadedCache order db elections⟩ := by
  obtain ⟨elections, hload, -⟩ := exists_loadActiveElections h.elections order
  exact ⟨elections, new_eq_ok.mpr ⟨h, elections, hload, rfl⟩⟩

theorem loaded_of_loadElections {db : Database} :
    ∀ {keys : List Bytes} {elections loaded : Finmap fun _ : ElectionId => ElectionState},
      loadElections C db keys elections = .ok loaded →
      (∀ x e, elections.lookup x = some e → e.isActive = true ∧ e.id = x) →
      ∀ x e, loaded.lookup x = some e → e.isActive = true ∧ e.id = x
  | [], elections, loaded, h, hinit => by
      cases h
      exact hinit
  | key :: keys, elections, loaded, h, hinit => by
      rw [loadElections] at h
      cases hfound : db.lookup key with
      | none =>
          rw [hfound] at h
          exact loaded_of_loadElections h hinit
      | some value =>
          rw [hfound] at h
          simp only [bind_eq_ok] at h
          obtain ⟨election, -, h⟩ := h
          refine loaded_of_loadElections h ?_
          split
          · next hactive => exact Finmap.forall_lookup_insert hinit ⟨hactive, rfl⟩
          · exact hinit

theorem loaded_of_loadActiveElections {db : Database} {order : MapOrder Bytes Bytes}
    {elections : Finmap fun _ : ElectionId => ElectionState}
    (h : loadActiveElections C order db = .ok elections) :
    ∀ x e, elections.lookup x = some e → e.isActive = true ∧ e.id = x := by
  refine loaded_of_loadElections h ?_
  intro x e he
  cases he

/-! ## A store that can be opened again -/

theorem electionKey_ne_currentHeightKey [Hex] (electionId : ElectionId) :
    currentHeightKey ≠ electionKey electionId :=
  fun heq => not_prefix_currentHeightKey (heq ▸ prefix_electionKey electionId)

theorem electionKey_ne_latestBlockHashKey [Hex] (electionId : ElectionId) :
    latestBlockHashKey ≠ electionKey electionId :=
  fun heq => not_prefix_latestBlockHashKey (heq ▸ prefix_electionKey electionId)

theorem Loadable.electionStep [Hex] (hcodec : C.Exact) {store : StateStore}
    (h : Loadable C store.db) (call : ElectionCall) :
    Loadable C (store.electionStep C call).db := by
  have hsame := sameElsewhere_electionStep hcodec store call
  refine ⟨?_, ?_, ?_⟩
  · intro data hdata
    rw [hsame.db _ (electionKey_ne_currentHeightKey _)] at hdata
    exact h.height data hdata
  · intro data hdata
    rw [hsame.db _ (electionKey_ne_latestBlockHashKey _)] at hdata
    exact h.hash data hdata
  · intro k data hk hdata
    by_cases hkey : k = electionKey call.electionId
    · have hreadable : (store.entry C call.electionId).Readable := by
        intro r hr
        obtain ⟨old, hold, rfl⟩ := Option.map_eq_some_iff.mp hr
        exact h.elections _ old (prefix_electionKey _) hold
      have hnext : ((store.electionStep C call).entry C call.electionId).Readable := by
        rw [entry_electionStep_self hcodec]
        exact hreadable.step call
      refine hnext (C.deserialize data) ?_
      rw [entry, ← hkey, hdata]
      rfl
    · rw [hsame.db k hkey] at hdata
      exact h.elections k data hk hdata

theorem lookup_chainStep_tip [Hex] (store : StateStore) (call : ChainCall) :
    (∀ data, (store.chainStep call).db.lookup currentHeightKey = some data →
      data.length = 8 ∨ store.db.lookup currentHeightKey = some data) ∧
    ∀ data, (store.chainStep call).db.lookup latestBlockHashKey = some data →
      data.length = 32 ∨ store.db.lookup latestBlockHashKey = some data := by
  cases call with
  | updateTip height blockHash =>
      rw [chainStep_updateTip]
      constructor
      · intro data hdata
        rw [Finmap.lookup_insert_of_ne _ currentHeightKey_ne_latestBlockHashKey,
          Finmap.lookup_insert] at hdata
        cases hdata
        exact Or.inl (Codec.length_leBytes 8 _)
      · intro data hdata
        rw [Finmap.lookup_insert] at hdata
        cases hdata
        exact Or.inl (length_blockHash_asBytes blockHash)
  | addValidator v =>
      rw [chainStep_addValidator]
      constructor
      · intro data hdata
        rw [Finmap.lookup_insert_of_ne _ (currentHeightKey_ne_validatorKey v)] at hdata
        exact Or.inr hdata
      · intro data hdata
        rw [Finmap.lookup_insert_of_ne _ (latestBlockHashKey_ne_validatorKey v)] at hdata
        exact Or.inr hdata
  | removeValidator v =>
      rw [chainStep_removeValidator]
      constructor
      · intro data hdata
        rw [Finmap.lookup_erase_ne (currentHeightKey_ne_validatorKey v)] at hdata
        exact Or.inr hdata
      · intro data hdata
        rw [Finmap.lookup_erase_ne (latestBlockHashKey_ne_validatorKey v)] at hdata
        exact Or.inr hdata

theorem Loadable.chainStep [Hex] {store : StateStore} (h : Loadable C store.db) (call : ChainCall) :
    Loadable C (store.chainStep call).db := by
  obtain ⟨hheight, hhash⟩ := lookup_chainStep_tip store call
  refine ⟨?_, ?_, ?_⟩
  · intro data hdata
    exact (hheight data hdata).elim id (h.height data)
  · intro data hdata
    exact (hhash data hdata).elim id (h.hash data)
  · intro k data hk hdata
    rw [lookup_chainStep store call hk] at hdata
    exact h.elections k data hk hdata

theorem Loadable.step [Hex] (hcodec : C.Exact) {store : StateStore} (h : Loadable C store.db)
    (call : StateCall) : Loadable C (store.step C call).db := by
  cases call with
  | election call => exact h.electionStep hcodec call
  | chain call => exact h.chainStep call
  | record x voterId =>
      rw [StateStore.step, (next_record x voterId store).1]
      exact h
  | addPending tx => exact h
  | removePending txId => exact h
  | prunePending cutoffTime => exact h
  | reopen order =>
      obtain ⟨elections, hnew⟩ := exists_new h order
      rw [StateStore.step, hnew]
      exact h

/-! ## Which validators are loaded -/

/-- The key under which a validator is looked for when validators are loaded: with the bytes
of the public key as they are. -/
def rawValidatorKey (validator : PublicKey) : Bytes := validatorPrefix ++ validator.asBytes

theorem length_rawValidatorKey (validator : PublicKey) :
    (rawValidatorKey validator).length = 48 := by
  rw [rawValidatorKey, List.length_append, PublicKey.asBytes, List.Vector.toList_length]
  rfl

theorem validatorOf_eq_some {k : Bytes} {validator : PublicKey} (hk : validatorPrefix <+: k) :
    validatorOf k = some validator ↔ k = rawValidatorKey validator := by
  obtain ⟨rest, rfl⟩ := hk
  rw [validatorOf, rawValidatorKey, List.append_cancel_left_eq]
  constructor
  · intro h
    split at h
    · cases h
      exact (List.drop_left).symm
    · cases h
  · rintro rfl
    have hlen : (validatorPrefix ++ validator.asBytes).length = validatorPrefix.length + 32 := by
      rw [List.length_append, PublicKey.asBytes, List.Vector.toList_length]
    rw [dif_pos hlen]
    simp only [List.drop_left]
    rfl

theorem mem_loadValidators {order : MapOrder Bytes Bytes} {db : Database} {validator : PublicKey} :
    validator ∈ loadValidators order db ↔ rawValidatorKey validator ∈ db := by
  rw [loadValidators, List.mem_toFinset, List.mem_filterMap]
  constructor
  · rintro ⟨k, hk, hsome⟩
    obtain ⟨hmem, hprefix⟩ := Database.mem_keysWithPrefix.mp hk
    rw [← (validatorOf_eq_some hprefix).mp hsome]
    exact hmem
  · intro hmem
    have hprefix : validatorPrefix <+: rawValidatorKey validator := List.prefix_append _ _
    exact ⟨_, Database.mem_keysWithPrefix.mpr ⟨hmem, hprefix⟩,
      (validatorOf_eq_some hprefix).mpr rfl⟩

theorem rawValidatorKey_mem_chainStep [Hex] (store : StateStore) (call : ChainCall)
    (validator : PublicKey) :
    rawValidatorKey validator ∈ (store.chainStep call).db ↔ rawValidatorKey validator ∈ store.db := by
  have hlen := length_rawValidatorKey validator
  cases call with
  | updateTip height blockHash =>
      rw [chainStep_updateTip, Finmap.mem_insert, Finmap.mem_insert,
        or_iff_right (ne_of_length hlen length_latestBlockHashKey (by decide)),
        or_iff_right (ne_of_length hlen length_currentHeightKey (by decide))]
  | addValidator v =>
      rw [chainStep_addValidator, Finmap.mem_insert,
        or_iff_right (ne_of_length hlen (length_validatorKey v) (by decide))]
  | removeValidator v =>
      rw [chainStep_removeValidator, Finmap.mem_erase]
      exact and_iff_right (ne_of_length hlen (length_validatorKey v) (by decide))

/-- The tip in the cache is the stored one. -/
def TipStored (store : StateStore) : Prop :=
  store.cache.currentHeight = heightIn store.db ∧ store.cache.latestBlockHash = hashIn store.db

theorem TipStored.chainStep [Hex] {store : StateStore} (h : TipStored store) (call : ChainCall) :
    TipStored (store.chainStep call) := by
  cases call with
  | updateTip height blockHash =>
      rw [chainStep_updateTip, TipStored, heightIn, hashIn,
        Finmap.lookup_insert_of_ne _ currentHeightKey_ne_latestBlockHashKey,
        Finmap.lookup_insert, Finmap.lookup_insert]
      constructor
      · have hread : Codec.ofLeBytes (Codec.leBytes 8 height.toNat) = height.toNat :=
          Codec.ofLeBytes_leBytes (show height.toNat < 256 ^ 8 from height.toNat_lt)
        show height = UInt64.ofNat (Codec.ofLeBytes (Codec.leBytes 8 height.toNat))
        rw [hread, UInt64.ofNat_toNat]
      · simp only [length_blockHash_asBytes, dif_pos]
        rfl
  | addValidator v =>
      rw [chainStep_addValidator, TipStored, heightIn, hashIn,
        Finmap.lookup_insert_of_ne _ (currentHeightKey_ne_validatorKey v),
        Finmap.lookup_insert_of_ne _ (latestBlockHashKey_ne_validatorKey v)]
      exact h
  | removeValidator v =>
      rw [chainStep_removeValidator, TipStored, heightIn, hashIn,
        Finmap.lookup_erase_ne (currentHeightKey_ne_validatorKey v),
        Finmap.lookup_erase_ne (latestBlockHashKey_ne_validatorKey v)]
      exact h

/-- A store on an empty database. -/
def fresh : StateStore := ⟨∅, StateCache.empty⟩

theorem new_empty (order : MapOrder Bytes Bytes) : new C order ∅ = .ok fresh := by
  have hkeys : Database.keysWithPrefix order electionPrefix ∅ = [] := by
    rw [List.eq_nil_iff_forall_not_mem]
    intro k hk
    exact Finmap.notMem_empty (Database.mem_keysWithPrefix.mp hk).1
  have hvalidators : loadValidators order ∅ = ∅ := by
    rw [Finset.eq_empty_iff_forall_notMem]
    intro v hv
    exact Finmap.notMem_empty (mem_loadValidators.mp hv)
  refine new_eq_ok.mpr ⟨⟨?_, ?_, ?_⟩, ∅, ?_, ?_⟩
  · intro data hdata
    cases hdata
  · intro data hdata
    cases hdata
  · intro k data _ hdata
    cases hdata
  · rw [loadActiveElections, hkeys]
    rfl
  · rw [loadedCache, hvalidators]
    rfl

end StateStore

end VotingChain
