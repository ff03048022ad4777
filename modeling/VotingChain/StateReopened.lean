/-
# `VotingChain.StateReopened` — what is left when the state store is opened again

The voters who took part in an election are in the cache only.  They are forgotten when the
store is opened again, and also when the election is created once more, and then they are
accepted a second time (`voters_once_iff`).

Validators are written to the database, under their public keys in hexadecimal; when they
are loaded, they are looked for under the bytes of their public keys (`reopened_same_iff`).
-/
import VotingChain.StateEntries

namespace VotingChain

/-! ## Voters -/

namespace StateStore
variable {C : StateCodec}

theorem hasVoterParticipated_iff {store : StateStore} {x : ElectionId} {v : VoterIdentifier} :
    store.hasVoterParticipated x v = true ↔
      ∃ voters, store.cache.voterParticipation.lookup x = some voters ∧ v ∈ voters := by
  rw [hasVoterParticipated]
  cases store.cache.voterParticipation.lookup x with
  | none => simp only [Option.map_none, Option.getD_none, Bool.false_eq_true, reduceCtorEq,
      false_and, exists_false]
  | some voters => simp only [Option.map_some, Option.getD_some, decide_eq_true_eq,
      Option.some.injEq, exists_eq_left']

theorem hasVoterParticipated_change [Hex] (hcodec : C.Exact) (store : StateStore) (y : ElectionId)
    (f : ElectionState → ElectionState) (x : ElectionId) (v : VoterIdentifier) :
    ((changeElection C y f).next store).hasVoterParticipated x v =
      store.hasVoterParticipated x v := by
  rw [hasVoterParticipated, hasVoterParticipated, (next_changeElection hcodec y f store).2.2]

/-- An election that is created begins with no voters, whoever has voted in it before. -/
theorem lookup_voters_create [Hex] (hcodec : C.Exact) (store : StateStore)
    (election : ElectionState) :
    (store.step C (.election (.create election))).cache.voterParticipation.lookup election.id =
      some ∅ := by
  obtain ⟨store', hexec, -, -, hvoters⟩ := exec_createElection hcodec election store
  rw [step, electionStep, Exec.next_of_ok hexec, hvoters, Finmap.lookup_insert]

theorem hasVoterParticipated_create [Hex] (hcodec : C.Exact) (store : StateStore)
    (election : ElectionState) (x : ElectionId) (v : VoterIdentifier) :
    (store.step C (.election (.create election))).hasVoterParticipated x v = true ↔
      x ≠ election.id ∧ store.hasVoterParticipated x v = true := by
  obtain ⟨store', hexec, -, -, hvoters⟩ := exec_createElection hcodec election store
  rw [step, electionStep, Exec.next_of_ok hexec, hasVoterParticipated_iff,
    hasVoterParticipated_iff, hvoters]
  by_cases hx : x = election.id
  · rw [hx, Finmap.lookup_insert]
    simp only [Option.some.injEq, exists_eq_left', Finset.notMem_empty, ne_eq,
      not_true_eq_false, false_and]
  · rw [Finmap.lookup_insert_of_ne _ hx]
    simp only [ne_eq, hx, not_false_eq_true, true_and]

theorem hasVoterParticipated_reopen [Hex] {store : StateStore} (h : Loadable C store.db)
    (order : MapOrder Bytes Bytes) (x : ElectionId) (v : VoterIdentifier) :
    (store.step C (.reopen order)).hasVoterParticipated x v = false := by
  obtain ⟨elections, hnew⟩ := exists_new h order
  rw [step, hnew]
  rfl

theorem record_cases [Hex] (store : StateStore) (x : ElectionId) (v : VoterIdentifier) :
    (((recordVoterParticipation x v).exec store).1 = .ok true ∧
      store.hasVoterParticipated x v = false ∧
      ∀ x' v', (store.step C (.record x v)).hasVoterParticipated x' v' = true ↔
        store.hasVoterParticipated x' v' = true ∨ (x', v') = (x, v)) ∨
    (((recordVoterParticipation x v).exec store).1 = .ok false ∧
      ∀ x' v', (store.step C (.record x v)).hasVoterParticipated x' v' = true ↔
        store.hasVoterParticipated x' v' = true) := by
  rw [step, Exec.next, exec_recordVoterParticipation]
  cases hvoters : store.cache.voterParticipation.lookup x with
  | none => exact Or.inr ⟨rfl, fun _ _ => Iff.rfl⟩
  | some voters =>
      have hlookup : ∀ x', (store.cache.voterParticipation.insert x (insert v voters)).lookup x' =
          if x' = x then some (insert v voters)
          else store.cache.voterParticipation.lookup x' := by
        intro x'
        split
        · next heq => rw [heq, Finmap.lookup_insert]
        · next hne => exact Finmap.lookup_insert_of_ne _ hne
      by_cases hv : v ∈ voters
      · refine Or.inr ⟨congrArg Except.ok (decide_eq_false (not_not.mpr hv)), ?_⟩
        intro x' v'
        rw [hasVoterParticipated_iff, hasVoterParticipated_iff]
        simp only [hlookup]
        split
        · next heq => rw [heq, hvoters, Finset.insert_eq_of_mem hv]
        · exact Iff.rfl
      · have hfresh : store.hasVoterParticipated x v = false := by
          rw [Bool.eq_false_iff, ne_eq, hasVoterParticipated_iff, hvoters]
          rintro ⟨voters', hsome, hmem⟩
          cases hsome
          exact hv hmem
        refine Or.inl ⟨congrArg Except.ok (decide_eq_true hv), hfresh, ?_⟩
        intro x' v'
        rw [hasVoterParticipated_iff, hasVoterParticipated_iff]
        simp only [hlookup, Prod.mk.injEq]
        split
        · next heq =>
            rw [heq, hvoters]
            simp only [Option.some.injEq, exists_eq_left', Finset.mem_insert, true_and]
            exact or_comm
        · next hne => simp only [hne, false_and, or_false]

end StateStore

/-- A store, and the voters that were accepted. -/
structure VoterHistory where
  store : StateStore
  accepted : List (ElectionId × VoterIdentifier)

namespace VoterHistory
variable (C : StateCodec)

/-- The voter that a call accepts: `record_voter_participation` returns `Ok(true)`. -/
def acceptedBy (store : StateStore) : StateCall → List (ElectionId × VoterIdentifier)
  | .record x v =>
    match ((StateStore.recordVoterParticipation x v).exec store).1 with
    | .ok true => [(x, v)]
    | _ => []
  | _ => []

def step [Hex] (s : VoterHistory) (call : StateCall) : VoterHistory :=
  ⟨s.store.step C call, s.accepted ++ acceptedBy s.store call⟩

/-- Nobody was accepted twice for an election, and everybody who was accepted has taken
part. -/
def OneVote (s : VoterHistory) : Prop :=
  s.accepted.Nodup ∧ ∀ p ∈ s.accepted, s.store.hasVoterParticipated p.1 p.2 = true

/-- No election is created for which somebody has taken part, and the store is not opened
again once somebody has. -/
def ForgetsNobody (s : VoterHistory) : StateCall → Prop
  | .election (.create election) => ∀ v, s.store.hasVoterParticipated election.id v = false
  | .reopen _ => ∀ x v, s.store.hasVoterParticipated x v = false
  | _ => True

/-- Those who have taken part are those who were accepted. -/
structure Inv (s : VoterHistory) : Prop where
  loadable : StateStore.Loadable C s.store.db
  participated : ∀ x v, s.store.hasVoterParticipated x v = true ↔ (x, v) ∈ s.accepted
  nodup : s.accepted.Nodup

variable {C}

theorem Inv.oneVote {s : VoterHistory} (h : s.Inv C) : s.OneVote :=
  ⟨h.nodup, fun p hp => (h.participated p.1 p.2).mpr hp⟩

theorem Inv.of_same [Hex] {s : VoterHistory} (h : s.Inv C) (hcodec : C.Exact) {call : StateCall}
    (hnone : acceptedBy s.store call = [])
    (hsame : ∀ x v, (s.store.step C call).hasVoterParticipated x v = true ↔
      s.store.hasVoterParticipated x v = true) : (s.step C call).Inv C := by
  refine ⟨h.loadable.step hcodec call, ?_, ?_⟩
  · intro x v
    show (s.store.step C call).hasVoterParticipated x v = true ↔ _ ∈ s.accepted ++ _
    rw [hsame, hnone, List.append_nil]
    exact h.participated x v
  · show (s.accepted ++ _).Nodup
    rw [hnone, List.append_nil]
    exact h.nodup

theorem Inv.step [Hex] {s : VoterHistory} (h : s.Inv C) (hcodec : C.Exact) {call : StateCall}
    (hcall : s.ForgetsNobody call) : (s.step C call).Inv C := by
  cases call with
  | election call =>
      cases call with
      | create election =>
          refine h.of_same hcodec rfl ?_
          intro x v
          rw [StateStore.hasVoterParticipated_create hcodec]
          refine ⟨And.right, fun hv => ⟨?_, hv⟩⟩
          rintro rfl
          rw [hcall v] at hv
          cases hv
      | increment x =>
          refine h.of_same hcodec rfl ?_
          intro x' v
          exact Bool.eq_iff_iff.mp (StateStore.hasVoterParticipated_change hcodec s.store x _ x' v)
      | close x height =>
          refine h.of_same hcodec rfl ?_
          intro x' v
          exact Bool.eq_iff_iff.mp (StateStore.hasVoterParticipated_change hcodec s.store x _ x' v)
  | chain call =>
      refine h.of_same hcodec rfl ?_
      intro x v
      cases call <;> exact Iff.rfl
  | record x v =>
      rcases StateStore.record_cases (C := C) s.store x v with ⟨hok, hfresh, hnext⟩ | ⟨hok, hnext⟩
      · have haccepted : acceptedBy s.store (.record x v) = [(x, v)] := by
          rw [acceptedBy, hok]
        refine ⟨h.loadable.step hcodec _, ?_, ?_⟩
        · intro x' v'
          show _ ↔ _ ∈ s.accepted ++ acceptedBy s.store (.record x v)
          rw [haccepted, List.mem_append, List.mem_singleton, ← h.participated]
          exact hnext x' v'
        · show (s.accepted ++ acceptedBy s.store (.record x v)).Nodup
          rw [haccepted, ← List.concat_eq_append]
          refine List.Nodup.concat ?_ h.nodup
          rw [← h.participated, hfresh]
          exact Bool.false_ne_true
      · refine h.of_same hcodec ?_ hnext
        rw [acceptedBy, hok]
  | addPending tx => exact h.of_same hcodec rfl fun _ _ => Iff.rfl
  | removePending txId => exact h.of_same hcodec rfl fun _ _ => Iff.rfl
  | prunePending cutoffTime => exact h.of_same hcodec rfl fun _ _ => Iff.rfl
  | reopen order =>
      refine h.of_same hcodec rfl ?_
      intro x v
      rw [StateStore.hasVoterParticipated_reopen h.loadable, hcall x v]

theorem Inv.forgetsNobody [Hex] {s : VoterHistory} (h : s.Inv C) (hcodec : C.Exact)
    {call : StateCall} (hone : (s.step C call).OneVote) : s.ForgetsNobody call := by
  have hkept : ∀ x v, s.store.hasVoterParticipated x v = true →
      (s.store.step C call).hasVoterParticipated x v = true := by
    intro x v hv
    exact hone.2 (x, v) (List.mem_append_left _ ((h.participated x v).mp hv))
  cases call with
  | election call =>
      cases call with
      | create election =>
          intro v
          rw [Bool.eq_false_iff]
          intro hv
          exact ((StateStore.hasVoterParticipated_create hcodec s.store election _ v).mp
            (hkept _ v hv)).1 rfl
      | increment x => trivial
      | close x height => trivial
  | reopen order =>
      intro x v
      rw [Bool.eq_false_iff]
      intro hv
      have hgone := hkept x v hv
      rw [StateStore.hasVoterParticipated_reopen h.loadable] at hgone
      cases hgone
  | chain call => trivial
  | record x v => trivial
  | addPending tx => trivial
  | removePending txId => trivial
  | prunePending cutoffTime => trivial

/-- **When each voter is accepted once.**  In every state of a run of a store that was opened
on some database, exactly if no call of the run creates an election for which somebody has
taken part, or opens the store again after somebody has. -/
theorem voters_once_iff [Hex] (hcodec : C.Exact) {order : MapOrder Bytes Bytes} {db : Database}
    {store : StateStore} (hnew : StateStore.new C order db = .ok store) (calls : List StateCall) :
    Runs.Visits (step C) OneVote ⟨store, []⟩ calls ↔
      Runs.Along (step C) ForgetsNobody ⟨store, []⟩ calls := by
  refine Runs.visits_iff_along (I := Inv C) (fun s h => h.oneVote)
    (fun s call h hcall => h.step hcodec hcall) (fun s call h hone => h.forgetsNobody hcodec hone) ?_
  obtain ⟨hloadable, elections, -, rfl⟩ := StateStore.new_eq_ok.mp hnew
  refine ⟨hloadable, ?_, List.nodup_nil⟩
  intro x v
  refine iff_of_false ?_ List.not_mem_nil
  intro h
  cases h

section
open Reference (stateCodec openElection)

def voter : VoterIdentifier := ⟨List.Vector.replicate 32 7⟩

/-- A voter who comes twice is turned away. -/
theorem voters_once_iff_turned_away :
    Runs.Visits (step stateCodec) OneVote ⟨StateStore.fresh, []⟩
      [.election (.create openElection), .record openElection.id voter,
        .record openElection.id voter] := by
  refine (voters_once_iff Reference.exact_stateCodec (StateStore.new_empty default) _).mpr
    ⟨?_, trivial, trivial, trivial⟩
  intro v
  rfl

theorem acceptedBy_created [Hex] (hcodec : C.Exact) (store : StateStore) (election : ElectionState)
    (v : VoterIdentifier) :
    acceptedBy (store.step C (.election (.create election))) (.record election.id v) =
      [(election.id, v)] := by
  rw [acceptedBy, StateStore.exec_recordVoterParticipation,
    StateStore.lookup_voters_create hcodec]
  rfl

/-- When the election is created a second time, the voter is accepted again. -/
theorem voter_accepted_twice :
    StateStore.new stateCodec default ∅ = .ok StateStore.fresh ∧
    (Runs.run (step stateCodec) ⟨StateStore.fresh, []⟩
      [.election (.create openElection), .record openElection.id voter,
        .election (.create openElection), .record openElection.id voter]).accepted =
      [(openElection.id, voter), (openElection.id, voter)] ∧
    ¬Runs.Visits (step stateCodec) OneVote ⟨StateStore.fresh, []⟩
      [.election (.create openElection), .record openElection.id voter,
        .election (.create openElection), .record openElection.id voter] := by
  have haccepted : (Runs.run (step stateCodec) ⟨StateStore.fresh, []⟩
      [.election (.create openElection), .record openElection.id voter,
        .election (.create openElection), .record openElection.id voter]).accepted =
      [(openElection.id, voter), (openElection.id, voter)] := by
    simp only [Runs.run_cons, Runs.run_nil, step]
    rw [acceptedBy_created Reference.exact_stateCodec, acceptedBy_created Reference.exact_stateCodec]
    rfl
  refine ⟨StateStore.new_empty default, haccepted, ?_⟩
  rintro ⟨-, -, -, -, honce, -⟩
  simp only [Runs.run_cons, Runs.run_nil] at haccepted
  rw [haccepted] at honce
  exact (List.nodup_cons.mp honce).1 (List.mem_singleton_self _)

end

end VoterHistory

/-! ## Validators -/

/-- The call is about the validator. -/
def ChainCall.isAbout (validator : PublicKey) : ChainCall → Bool
  | .updateTip _ _ => false
  | .addValidator v => decide (v = validator)
  | .removeValidator v => decide (v = validator)

/-- The last of the calls about the validator. -/
def lastCall (validator : PublicKey) (calls : List ChainCall) : Option ChainCall :=
  (calls.filter (ChainCall.isAbout validator)).getLast?

namespace StateStore
variable {C : StateCodec}

theorem lastCall_concat (v : PublicKey) (calls : List ChainCall) (call : ChainCall) :
    lastCall v (calls ++ [call]) = if call.isAbout v then some call else lastCall v calls := by
  rw [lastCall, List.filter_append, List.filter_singleton]
  cases call.isAbout v with
  | true => exact List.getLast?_concat
  | false => exact congrArg List.getLast? (List.append_nil _)

theorem mem_activeValidators_run [Hex] (store : StateStore) (calls : List ChainCall)
    (v : PublicKey) :
    v ∈ (Runs.run chainStep store calls).cache.activeValidators ↔
      lastCall v calls = some (.addValidator v) ∨
        lastCall v calls ≠ some (.removeValidator v) ∧ v ∈ store.cache.activeValidators := by
  induction calls using List.reverseRecOn with
  | nil => simp only [Runs.run_nil, lastCall, List.filter_nil, List.getLast?_nil, reduceCtorEq,
      false_or, ne_eq, not_false_eq_true, true_and]
  | append_singleton calls call ih =>
      rw [Runs.run_concat, lastCall_concat]
      cases call with
      | updateTip height blockHash => exact ih
      | addValidator w =>
          rw [chainStep_addValidator, Finset.mem_insert, ih, ChainCall.isAbout]
          by_cases hw : w = v
          · simp [hw]
          · simp [hw, Ne.symm hw]
      | removeValidator w =>
          rw [chainStep_removeValidator, Finset.mem_erase, ih, ChainCall.isAbout]
          by_cases hw : w = v
          · simp [hw]
          · simp [hw, Ne.symm hw]

/-- The two stores give the same tip, the same number of validators and the same validators. -/
structure SameChainState (store store' : StateStore) : Prop where
  height : store.getCurrentHeight = store'.getCurrentHeight
  hash : store.getLatestBlockHash = store'.getLatestBlockHash
  count : store.validatorCount = store'.validatorCount
  active : ∀ v, store.isValidatorActive v = store'.isValidatorActive v

/-- What is found in a store that is opened after a run: the tip, and the validators of the
store before the run. -/
theorem exists_new_run [Hex] {order : MapOrder Bytes Bytes} {db : Database} {store : StateStore}
    (hnew : new C order db = .ok store) (calls : List ChainCall) (order' : MapOrder Bytes Bytes) :
    ∃ reopened, new C order' (Runs.run chainStep store calls).db = .ok reopened ∧
      reopened.getCurrentHeight = (Runs.run chainStep store calls).getCurrentHeight ∧
      reopened.getLatestBlockHash = (Runs.run chainStep store calls).getLatestBlockHash ∧
      reopened.cache.activeValidators = store.cache.activeValidators := by
  obtain ⟨hloadable, elections, -, rfl⟩ := new_eq_ok.mp hnew
  have hrun : Loadable C (Runs.run chainStep ⟨db, loadedCache order db elections⟩ calls).db :=
    Runs.run_preserves (I := fun s : StateStore => Loadable C s.db)
      (fun s call h => h.chainStep call) hloadable calls
  have htip : TipStored (Runs.run chainStep ⟨db, loadedCache order db elections⟩ calls) :=
    Runs.run_preserves (fun s call h => h.chainStep call) ⟨rfl, rfl⟩ calls
  have hkeys : ∀ v,
      rawValidatorKey v ∈ (Runs.run chainStep ⟨db, loadedCache order db elections⟩ calls).db ↔
        rawValidatorKey v ∈ db := by
    intro v
    exact Runs.run_preserves
      (I := fun s : StateStore => rawValidatorKey v ∈ s.db ↔ rawValidatorKey v ∈ db)
      (fun s call h => (rawValidatorKey_mem_chainStep s call v).trans h) Iff.rfl calls
  obtain ⟨elections', hreopen⟩ := exists_new hrun order'
  refine ⟨_, hreopen, htip.1.symm, htip.2.symm, ?_⟩
  ext v
  show v ∈ loadValidators order' _ ↔ v ∈ loadValidators order db
  rw [mem_loadValidators, mem_loadValidators]
  exact hkeys v

/-- **When a store is found again as it was.**  Opening a new store after a run gives the same
tip and the same validators exactly if, for every validator, the last call about it leaves it
as it was when the store was opened: added validators are stored under keys that the loader
does not read. -/
theorem reopened_same_iff [Hex] {order : MapOrder Bytes Bytes} {db : Database} {store : StateStore}
    (hnew : new C order db = .ok store) (calls : List ChainCall) (order' : MapOrder Bytes Bytes) :
    (∃ reopened, new C order' (Runs.run chainStep store calls).db = .ok reopened ∧
      SameChainState reopened (Runs.run chainStep store calls)) ↔
    ∀ v, (lastCall v calls = some (.addValidator v) → store.isValidatorActive v = true) ∧
      (lastCall v calls = some (.removeValidator v) → store.isValidatorActive v = false) := by
  obtain ⟨reopened, hreopen, hheight, hhash, hvalidators⟩ := exists_new_run hnew calls order'
  have hsame : SameChainState reopened (Runs.run chainStep store calls) ↔
      ∀ v, v ∈ store.cache.activeValidators ↔
        v ∈ (Runs.run chainStep store calls).cache.activeValidators := by
    constructor
    · intro h v
      have hactive := h.active v
      rw [isValidatorActive, isValidatorActive, hvalidators, decide_eq_decide] at hactive
      exact hactive
    · intro h
      have hset : reopened.cache.activeValidators =
          (Runs.run chainStep store calls).cache.activeValidators := by
        rw [hvalidators]
        exact Finset.ext h
      refine ⟨hheight, hhash, ?_, ?_⟩
      · rw [validatorCount, hset]
        rfl
      · intro v
        rw [isValidatorActive, hset]
        rfl
  have hexists : (∃ r, new C order' (Runs.run chainStep store calls).db = .ok r ∧
      SameChainState r (Runs.run chainStep store calls)) ↔
      SameChainState reopened (Runs.run chainStep store calls) := by
    rw [hreopen]
    simp only [Except.ok.injEq, exists_eq_left']
  rw [hexists, hsame]
  refine forall_congr' fun v => ?_
  rw [mem_activeValidators_run, isValidatorActive, decide_eq_true_iff, decide_eq_false_iff_not]
  have hnotboth : ¬(lastCall v calls = some (.addValidator v) ∧
      lastCall v calls = some (.removeValidator v)) := by
    rintro ⟨hadd, hremove⟩
    cases hadd.symm.trans hremove
  tauto

section
open Reference (stateCodec)

def validator : PublicKey := ⟨List.Vector.replicate 32 1⟩

/-- A validator that is added and removed again. -/
theorem reopened_same_iff_removed :
    ∃ reopened, new stateCodec default (Runs.run chainStep fresh [.updateTip 5 BlockHash.zero,
        .addValidator validator, .removeValidator validator]).db = .ok reopened ∧
      SameChainState reopened (Runs.run chainStep fresh [.updateTip 5 BlockHash.zero,
        .addValidator validator, .removeValidator validator]) := by
  refine (reopened_same_iff (new_empty default) _ default).mpr ?_
  intro v
  refine ⟨?_, fun _ => rfl⟩
  intro hlast
  rw [lastCall] at hlast
  by_cases hv : validator = v
  · simp [ChainCall.isAbout, hv] at hlast
  · simp [ChainCall.isAbout, hv] at hlast

/-- A validator that was added is not found again. -/
theorem added_validator_lost :
    new stateCodec default ∅ = .ok fresh ∧
    (Runs.run chainStep fresh [.addValidator validator]).isValidatorActive validator = true ∧
    ¬∃ reopened, new stateCodec default (Runs.run chainStep fresh [.addValidator validator]).db =
        .ok reopened ∧
      SameChainState reopened (Runs.run chainStep fresh [.addValidator validator]) := by
  have hactive :
      (Runs.run chainStep fresh [.addValidator validator]).isValidatorActive validator = true :=
    decide_eq_true (Finset.mem_insert_self validator _)
  refine ⟨new_empty default, hactive, ?_⟩
  rintro ⟨reopened, hreopen, hsame⟩
  obtain ⟨reopened', hreopen', -, -, hvalidators⟩ :=
    exists_new_run (C := stateCodec) (new_empty default) [.addValidator validator] default
  cases hreopen.symm.trans hreopen'
  have hlost := hsame.active validator
  rw [hactive, isValidatorActive, hvalidators] at hlost
  cases hlost

end

end StateStore

end VotingChain
