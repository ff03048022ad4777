/-
# `VotingChain.StateStore` — the current state, in a cache over a database

The model of `storage/src/state_store.rs`.  The tip of the chain, the validators and the
elections are kept twice, in a cache in memory and in the database; the voters who took
part and the pool of transactions are in the cache only.  `StateStore::new` fills the cache
from the database.

A run of a store is a list of calls.  One of them is `reopen`, after which the cache is what
was loaded from the database.
-/
import VotingChain.Database
import VotingChain.Lib.Format
import VotingChain.Lib.Runs

namespace VotingChain

/-! ## Records -/

/-- `String`: one that fits into memory. -/
abbrev Str := { s : String // s.utf8ByteSize ≤ maxVecLength }

/-- Candidate information. -/
structure CandidateInfo where
  id : Str
  name : Str
  party : Option Str
  metadata : Option Str
  deriving DecidableEq

/-- Jurisdiction path for hierarchical queries. -/
structure JurisdictionPath where
  components : Vec Str
  deriving DecidableEq

/-- State of an election. -/
structure ElectionState where
  id : ElectionId
  name : Str
  description : Str
  jurisdictionPath : JurisdictionPath
  candidates : Vec CandidateInfo
  startTime : Timestamp
  endTime : Timestamp
  totalVotes : UInt64
  isActive : Bool
  isFinalized : Bool
  createdAtHeight : BlockHeight
  closedAtHeight : Option BlockHeight
  deriving DecidableEq

/-- What closing does to a record. -/
def ElectionState.close (closedAtHeight : BlockHeight) (election : ElectionState) :
    ElectionState :=
  { election with isActive := false, isFinalized := true, closedAtHeight := some closedAtHeight }

/-- What one more vote does to a record. -/
def ElectionState.addVote (election : ElectionState) : ElectionState :=
  { election with totalVotes := election.totalVotes + 1 }

/-- Pending transaction in the pool. -/
structure PendingTransaction where
  txId : TxId
  data : Bytes
  addedAt : Timestamp
  priority : UInt32
  deriving DecidableEq

/-- Voter identifier (anonymized). -/
structure VoterIdentifier where
  bytes : ByteArr 32
  deriving DecidableEq

/-- `bincode` on the records of elections.  It may fail, with a text. -/
structure StateCodec where
  serialize : ElectionState → Except String Bytes
  deserialize : Bytes → Except String ElectionState

/-- The records come back as they were, and nothing fails on the way. -/
def StateCodec.Exact (C : StateCodec) : Prop :=
  ∀ election, ∃ data, C.serialize election = .ok data ∧ C.deserialize data = .ok election

/-! ## Keys -/

def currentHeightKey : Bytes := strBytes "state:current_height"

def latestBlockHashKey : Bytes := strBytes "state:latest_block_hash"

def validatorPrefix : Bytes := strBytes "state:validator:"

def electionPrefix : Bytes := strBytes "state:election:"

def validatorKey [Hex] (validator : PublicKey) : Bytes :=
  strBytes ("state:validator:" ++ validator.toHex)

def electionKey [Hex] (electionId : ElectionId) : Bytes :=
  strBytes ("state:election:" ++ electionId.toHex)

/-! ## The store -/

/-- In-memory cache of current state. -/
structure StateCache where
  currentHeight : BlockHeight
  latestBlockHash : BlockHash
  activeValidators : Finset PublicKey
  activeElections : Finmap fun _ : ElectionId => ElectionState
  txPool : Finmap fun _ : TxId => PendingTransaction
  voterParticipation : Finmap fun _ : ElectionId => Finset VoterIdentifier

/-- State store for tracking current blockchain state. -/
structure StateStore where
  db : Database
  cache : StateCache

/-- The cache of a store that has not been loaded. -/
def StateCache.empty : StateCache where
  currentHeight := 0
  latestBlockHash := BlockHash.zero
  activeValidators := ∅
  activeElections := ∅
  txPool := ∅
  voterParticipation := ∅

namespace StateStore

/-! ### Loading -/

/-- The height, by `u64::from_le_bytes`, if it has eight bytes. -/
def loadHeight (db : Database) : Result BlockHeight :=
  match db.lookup currentHeightKey with
  | some heightBytes =>
    if heightBytes.length = 8 then .ok (UInt64.ofNat (Codec.ofLeBytes heightBytes))
    else fail (.storageError "Invalid height bytes")
  | none => .ok 0

/-- The hash is copied into an array, and `copy_from_slice` panics if it does not fit. -/
def loadHash (db : Database) : Result BlockHash :=
  match db.lookup latestBlockHashKey with
  | some hashBytes =>
    if h : hashBytes.length = 32 then .ok ⟨⟨hashBytes, h⟩⟩ else .error .panicked
  | none => .ok BlockHash.zero

/-- The public key in a key of the database, if the key has the length for one. -/
def validatorOf (key : Bytes) : Option PublicKey :=
  if h : key.length = validatorPrefix.length + 32 then
    some ⟨⟨key.drop validatorPrefix.length, by rw [List.length_drop, h, Nat.add_sub_cancel_left]⟩⟩
  else none

/-- Load validators from database. -/
def loadValidators (order : MapOrder Bytes Bytes) (db : Database) : Finset PublicKey :=
  ((db.keysWithPrefix order validatorPrefix).filterMap validatorOf).toFinset

/-- The loop of `load_active_elections`. -/
def loadElections (C : StateCodec) (db : Database) :
    List Bytes → (Finmap fun _ : ElectionId => ElectionState) →
      Result (Finmap fun _ : ElectionId => ElectionState)
  | [], elections => .ok elections
  | key :: keys, elections =>
    match db.lookup key with
    | some value => do
        let election ← ofBincode (C.deserialize value)
        loadElections C db keys
          (if election.isActive then elections.insert election.id election else elections)
    | none => loadElections C db keys elections

/-- Load active elections from database. -/
def loadActiveElections (C : StateCodec) (order : MapOrder Bytes Bytes) (db : Database) :
    Result (Finmap fun _ : ElectionId => ElectionState) :=
  loadElections C db (db.keysWithPrefix order electionPrefix) ∅

/-- Load state from database into cache. -/
def loadStateFromDb (C : StateCodec) (order : MapOrder Bytes Bytes) (db : Database) :
    Result StateCache := do
  let currentHeight ← loadHeight db
  let latestBlockHash ← loadHash db
  let activeElections ← loadActiveElections C order db
  return { StateCache.empty with
    currentHeight, latestBlockHash, activeValidators := loadValidators order db, activeElections }

/-- Create a new state store. -/
def new (C : StateCodec) (order : MapOrder Bytes Bytes) (db : Database) : Result StateStore := do
  let cache ← loadStateFromDb C order db
  return { db, cache }

/-! ### The tip and the validators -/

/-- Update current height and block hash. -/
def updateChainTip (height : BlockHeight) (blockHash : BlockHash) : Exec StateStore Unit := do
  modify fun store =>
    { store with
      cache := { store.cache with currentHeight := height, latestBlockHash := blockHash } }
  modify fun store => { store with db := store.db.insert currentHeightKey (u64Bytes height) }
  modify fun store => { store with db := store.db.insert latestBlockHashKey blockHash.asBytes }

/-- Add a validator to the active set. -/
def addValidator [Hex] (validator : PublicKey) : Exec StateStore Unit := do
  modify fun store =>
    { store with
      cache := { store.cache with
        activeValidators := insert validator store.cache.activeValidators } }
  modify fun store => { store with db := store.db.insert (validatorKey validator) [1] }

/-- Remove a validator from the active set. -/
def removeValidator [Hex] (validator : PublicKey) : Exec StateStore Unit := do
  modify fun store =>
    { store with
      cache := { store.cache with
        activeValidators := store.cache.activeValidators.erase validator } }
  modify fun store => { store with db := store.db.erase (validatorKey validator) }

def getCurrentHeight (store : StateStore) : BlockHeight := store.cache.currentHeight

def getLatestBlockHash (store : StateStore) : BlockHash := store.cache.latestBlockHash

/-- Check if a validator is active. -/
def isValidatorActive (store : StateStore) (validator : PublicKey) : Bool :=
  decide (validator ∈ store.cache.activeValidators)

def validatorCount (store : StateStore) : Nat := store.cache.activeValidators.card

/-! ### Elections -/

section
variable (C : StateCodec)

/-- Get election state: from the cache, or else from the database. -/
def getElection [Hex] (store : StateStore) (electionId : ElectionId) :
    Result (Option ElectionState) :=
  match store.cache.activeElections.lookup electionId with
  | some election => .ok (some election)
  | none =>
    match store.db.lookup (electionKey electionId) with
    | some data => do
        let election ← ofBincode (C.deserialize data)
        return some election
    | none => .ok none

/-- The record is written to the database. -/
def putElection [Hex] (electionId : ElectionId) (election : ElectionState) :
    Exec StateStore Unit := do
  let data ← Exec.lift (ofBincode (C.serialize election))
  modify fun store => { store with db := store.db.insert (electionKey electionId) data }

/-- The cached record of an election is changed, if there is one. -/
def updateCached (electionId : ElectionId) (f : ElectionState → ElectionState) :
    Exec StateStore Unit :=
  modify fun store =>
    match store.cache.activeElections.lookup electionId with
    | some election =>
      { store with
        cache := { store.cache with
          activeElections := store.cache.activeElections.insert electionId (f election) } }
    | none => store

/-- Create a new election. -/
def createElection [Hex] (election : ElectionState) : Exec StateStore Unit := do
  modify fun store =>
    { store with
      cache := { store.cache with
        activeElections := store.cache.activeElections.insert election.id election
        voterParticipation := store.cache.voterParticipation.insert election.id ∅ } }
  putElection C election.id election

/-- The record that is read, through the cache, is changed and written to the database. -/
def writeBack [Hex] (electionId : ElectionId) (f : ElectionState → ElectionState) :
    Exec StateStore Unit := do
  match ← Exec.lift ((← get).getElection C electionId) with
  | some election => putElection C electionId (f election)
  | none => pure ()

/-- The body of `close_election` and `increment_vote_count`: a record is changed in the cache,
and then in the database. -/
def changeElection [Hex] (electionId : ElectionId) (f : ElectionState → ElectionState) :
    Exec StateStore Unit := do
  updateCached electionId f
  writeBack C electionId f

/-- Close an election. -/
def closeElection [Hex] (electionId : ElectionId) (closedAtHeight : BlockHeight) :
    Exec StateStore Unit :=
  changeElection C electionId (ElectionState.close closedAtHeight)

/-- Increment vote count for an election. -/
def incrementVoteCount [Hex] (electionId : ElectionId) : Exec StateStore Unit :=
  changeElection C electionId ElectionState.addVote

/-- The loop of `get_all_elections`. -/
def readElections (db : Database) : List Bytes → Result (List ElectionState)
  | [] => .ok []
  | key :: keys =>
    match db.lookup key with
    | some data => do
        let election ← ofBincode (C.deserialize data)
        let elections ← readElections db keys
        return election :: elections
    | none => readElections db keys

/-- Get all elections. -/
def getAllElections (order : MapOrder Bytes Bytes) (store : StateStore) :
    Result (List ElectionState) :=
  readElections C store.db (store.db.keysWithPrefix order electionPrefix)

end

/-- Get all active elections, in the order of the map. -/
def getActiveElections (order : MapOrder ElectionId ElectionState) (store : StateStore) :
    List ElectionState :=
  order.values store.cache.activeElections

/-- Check if election is active. -/
def isElectionActive (store : StateStore) (electionId : ElectionId) : Bool :=
  ((store.cache.activeElections.lookup electionId).map ElectionState.isActive).getD false

/-! ### Voters and the pool -/

/-- Record voter participation: whether the voter is new. -/
def recordVoterParticipation (electionId : ElectionId) (voterId : VoterIdentifier) :
    Exec StateStore Bool := do
  match (← get).cache.voterParticipation.lookup electionId with
  | some voters =>
    modify fun store =>
      { store with
        cache := { store.cache with
          voterParticipation :=
            store.cache.voterParticipation.insert electionId (insert voterId voters) } }
    return decide (voterId ∉ voters)
  | none => return false

/-- Check if voter has already voted. -/
def hasVoterParticipated (store : StateStore) (electionId : ElectionId)
    (voterId : VoterIdentifier) : Bool :=
  ((store.cache.voterParticipation.lookup electionId).map fun voters =>
    decide (voterId ∈ voters)).getD false

/-- Add transaction to mempool. -/
def addPendingTransaction (tx : PendingTransaction) : Exec StateStore Unit :=
  modify fun store =>
    { store with cache := { store.cache with txPool := store.cache.txPool.insert tx.txId tx } }

/-- Remove transaction from mempool. -/
def removePendingTransaction (txId : TxId) : Exec StateStore Unit :=
  modify fun store =>
    { store with cache := { store.cache with txPool := store.cache.txPool.erase txId } }

/-- Clear old pending transactions: how many there were. -/
def prunePendingTransactions (cutoffTime : Timestamp) : Exec StateStore Nat := do
  let txPool := (← get).cache.txPool
  let kept := txPool.retain fun _ tx => decide (cutoffTime ≤ tx.addedAt)
  modify fun store => { store with cache := { store.cache with txPool := kept } }
  return txPool.entries.card - kept.entries.card

end StateStore

/-- State statistics. -/
structure StateStats where
  currentHeight : BlockHeight
  latestBlockHash : BlockHash
  activeValidators : Nat
  activeElections : Nat
  pendingTransactions : Nat
  totalVotesTracked : Nat
  deriving DecidableEq

/-- Get state statistics. -/
def StateStore.getStats (store : StateStore) : StateStats where
  currentHeight := store.cache.currentHeight
  latestBlockHash := store.cache.latestBlockHash
  activeValidators := store.cache.activeValidators.card
  activeElections := store.cache.activeElections.entries.card
  pendingTransactions := store.cache.txPool.entries.card
  totalVotesTracked :=
    (store.cache.voterParticipation.entries.map fun entry => entry.2.card).sum

/-! ## Calls -/

/-- A call about an election. -/
inductive ElectionCall
  | create (election : ElectionState)
  | increment (electionId : ElectionId)
  | close (electionId : ElectionId) (closedAtHeight : BlockHeight)
  deriving DecidableEq

/-- A call about the chain. -/
inductive ChainCall
  | updateTip (height : BlockHeight) (blockHash : BlockHash)
  | addValidator (validator : PublicKey)
  | removeValidator (validator : PublicKey)
  deriving DecidableEq

/-- A call that changes the store.  With `reopen` a new store is made on the database, whose
keys come in the given order. -/
inductive StateCall
  | election (call : ElectionCall)
  | chain (call : ChainCall)
  | record (electionId : ElectionId) (voterId : VoterIdentifier)
  | addPending (tx : PendingTransaction)
  | removePending (txId : TxId)
  | prunePending (cutoffTime : Timestamp)
  | reopen (order : MapOrder Bytes Bytes)

/-- The election that is called for. -/
def ElectionCall.electionId : ElectionCall → ElectionId
  | .create election => election.id
  | .increment electionId => electionId
  | .close electionId _ => electionId

namespace StateStore
variable (C : StateCodec)

def electionStep [Hex] (store : StateStore) : ElectionCall → StateStore
  | .create election => (createElection C election).next store
  | .increment electionId => (incrementVoteCount C electionId).next store
  | .close electionId closedAtHeight => (closeElection C electionId closedAtHeight).next store

def chainStep [Hex] (store : StateStore) : ChainCall → StateStore
  | .updateTip height blockHash => (updateChainTip height blockHash).next store
  | .addValidator validator => (addValidator validator).next store
  | .removeValidator validator => (removeValidator validator).next store

/-- The store after a call.  If it cannot be opened again, it stays as it is. -/
def step [Hex] (store : StateStore) : StateCall → StateStore
  | .election call => store.electionStep C call
  | .chain call => store.chainStep call
  | .record electionId voterId => (recordVoterParticipation electionId voterId).next store
  | .addPending tx => (addPendingTransaction tx).next store
  | .removePending txId => (removePendingTransaction txId).next store
  | .prunePending cutoffTime => (prunePendingTransactions cutoffTime).next store
  | .reopen order =>
    match new C order store.db with
    | .ok store' => store'
    | .error _ => store

end StateStore

/-! ## Elections to try things on -/

namespace Reference

theorem maxVecLength_lt : maxVecLength < 256 ^ 8 := by decide

def strFormat : Format Str := Format.string maxVecLength_lt

def candidateInfoFormat : Format CandidateInfo :=
  (strFormat.pair (strFormat.pair (strFormat.option.pair strFormat.option))).comap
    (fun c => (c.id, c.name, c.party, c.metadata))
    (fun (id, name, party, metadata) => some ⟨id, name, party, metadata⟩) (fun _ => rfl)

/-- How `bincode` writes the record of an election. -/
def electionFormat : Format ElectionState :=
  ((Format.array 16).pair (strFormat.pair (strFormat.pair ((Format.vec strFormat maxVecLength_lt).pair
    ((Format.vec candidateInfoFormat maxVecLength_lt).pair (Format.u64.pair (Format.u64.pair
      (Format.u64.pair (Format.bool.pair (Format.bool.pair (Format.u64.pair
        Format.u64.option))))))))))).comap
    (fun e => (e.id.bytes, e.name, e.description, e.jurisdictionPath.components, e.candidates,
      e.startTime, e.endTime, e.totalVotes, e.isActive, e.isFinalized, e.createdAtHeight,
      e.closedAtHeight))
    (fun (id, name, description, components, candidates, startTime, endTime, totalVotes, isActive,
        isFinalized, createdAtHeight, closedAtHeight) =>
      some ⟨⟨id⟩, name, description, ⟨components⟩, candidates, startTime, endTime, totalVotes,
        isActive, isFinalized, createdAtHeight, closedAtHeight⟩)
    (fun _ => rfl)

def stateCodec : StateCodec where
  serialize election := .ok (electionFormat.write election)
  deserialize := electionFormat.decode

theorem exact_stateCodec : stateCodec.Exact :=
  fun election => ⟨_, rfl, electionFormat.decode_write election⟩

/-- An election that has just been opened. -/
def openElection : ElectionState where
  id := ⟨List.Vector.replicate 16 1⟩
  name := ⟨"Test Election", by decide⟩
  description := ⟨"Test", by decide⟩
  jurisdictionPath := ⟨⟨[⟨"US", by decide⟩, ⟨"Test", by decide⟩], by decide⟩⟩
  candidates := ⟨[], by decide⟩
  startTime := 1000
  endTime := 2000
  totalVotes := 0
  isActive := true
  isFinalized := false
  createdAtHeight := 100
  closedAtHeight := none

end Reference

end VotingChain
