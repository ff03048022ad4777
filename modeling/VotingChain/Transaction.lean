/-
# `VotingChain.Transaction` — transactions, their ids and their validation

The model of `blockchain-core/src/transaction.rs`, over the two functions of
other crates that a transaction id is made with: Blake2b-256, which
`common::utils` calls, and `bincode`, which turns a transaction type into bytes.
Both are fields of `Primitives`, and every definition takes them as `P`.
-/
import VotingChain.Common

namespace VotingChain

/-! ## Payloads -/

/-- Vote transaction — the core voting operation. -/
structure VoteTransaction where
  electionId : ElectionId
  encryptedVote : Bytes
  validityProof : Option Bytes
  voterSignature : Signature
  deriving DecidableEq

structure ValidatorMetadata where
  name : String
  organization : Option String
  contact : Option String
  deriving DecidableEq

structure ValidatorRegistration where
  validatorKey : PublicKey
  metadata : ValidatorMetadata
  authorizingSignature : Signature
  deriving DecidableEq

structure ValidatorRemoval where
  validatorKey : PublicKey
  reason : String
  authorizingSignature : Signature
  deriving DecidableEq

structure Candidate where
  id : String
  name : String
  party : Option String
  metadata : Option String
  deriving DecidableEq

structure ElectionCreation where
  electionId : ElectionId
  name : String
  description : String
  candidates : List Candidate
  startTime : Timestamp
  endTime : Timestamp
  authoritySignature : Signature
  deriving DecidableEq

structure ElectionClosure where
  electionId : ElectionId
  results : Bytes
  authoritySignature : Signature
  deriving DecidableEq

/-- The different types of transactions. -/
inductive TransactionType where
  | vote (vote : VoteTransaction)
  | validatorRegistration (reg : ValidatorRegistration)
  | validatorRemoval (removal : ValidatorRemoval)
  | electionCreation (creation : ElectionCreation)
  | electionClosure (closure : ElectionClosure)
  deriving DecidableEq

/-- A transaction; `id` is meant to be the hash of the rest. -/
structure Transaction where
  id : TxId
  txType : TransactionType
  timestamp : Timestamp
  nonce : UInt64
  deriving DecidableEq

/-! ## Hashing -/

/-- What the crate takes from elsewhere: the hash function and the serialiser of
transaction types. -/
structure Primitives where
  blake2b256 : Bytes → Hash
  bincode : TransactionType → Bytes

/-- `hash_data`: one update, then the digest. -/
def hashData (P : Primitives) (data : Bytes) : Hash := P.blake2b256 data

/-- `hash_multiple`: one update per piece; updates concatenate. -/
def hashMultiple (P : Primitives) (pieces : List Bytes) : Hash := P.blake2b256 pieces.flatten

namespace Transaction
variable (P : Primitives)

/-- The transaction data that is hashed, the id left out. -/
def serializeForHashing (tx : Transaction) : Bytes :=
  Codec.leBytes 8 tx.timestamp.toNat ++ (Codec.leBytes 8 tx.nonce.toNat ++ P.bincode tx.txType)

def calculateId (tx : Transaction) : TxId := ⟨hashData P (tx.serializeForHashing P)⟩

/-- A transaction with a given timestamp and nonce. -/
def newWithParams (txType : TransactionType) (timestamp : Timestamp) (nonce : UInt64) :
    Transaction :=
  let tx : Transaction := ⟨⟨List.Vector.replicate 32 0⟩, txType, timestamp, nonce⟩
  { tx with id := tx.calculateId P }

/-! ## Validation -/

def validateVote (vote : VoteTransaction) : Result Unit := do
  ensure (!vote.encryptedVote.isEmpty) (.invalidVote "Vote data is empty")
  ensure (decide (vote.encryptedVote.length ≤ 1024 * 1024)) (.invalidVote "Vote data too large")

def validateValidatorRegistration (reg : ValidatorRegistration) : Result Unit :=
  ensure (!reg.metadata.name.isEmpty) (.invalidTransaction "Validator name cannot be empty")

def validateValidatorRemoval (removal : ValidatorRemoval) : Result Unit :=
  ensure (!removal.reason.isEmpty) (.invalidTransaction "Removal reason cannot be empty")

def validateElectionCreation (creation : ElectionCreation) : Result Unit := do
  ensure (!creation.name.isEmpty) (.invalidTransaction "Election name cannot be empty")
  ensure (!creation.candidates.isEmpty)
    (.invalidTransaction "Election must have at least one candidate")
  ensure (decide (creation.startTime < creation.endTime))
    (.invalidTransaction "Election end time must be after start time")

def validateElectionClosure (closure : ElectionClosure) : Result Unit :=
  ensure (!closure.results.isEmpty) (.invalidTransaction "Election results cannot be empty")

/-- The check on the payload, by transaction type. -/
def validateType : TransactionType → Result Unit
  | .vote vote => validateVote vote
  | .validatorRegistration reg => validateValidatorRegistration reg
  | .validatorRemoval removal => validateValidatorRemoval removal
  | .electionCreation creation => validateElectionCreation creation
  | .electionClosure closure => validateElectionClosure closure

/-- Validate transaction structure: the id, then the payload. -/
def validate (tx : Transaction) : Result Unit := do
  ensure (decide (tx.id = tx.calculateId P)) (.invalidTransaction "Transaction ID mismatch")
  validateType tx.txType

variable {P}

theorem id_of_validate {tx : Transaction} (h : tx.validate P = .ok ()) :
    tx.id = tx.calculateId P := by
  simp only [validate, bind_eq_ok, ensure_eq_ok, decide_eq_true_eq] at h
  exact h.choose_spec.1

variable (P) in
theorem validate_newWithParams (txType : TransactionType) (timestamp : Timestamp) (nonce : UInt64) :
    (newWithParams P txType timestamp nonce).validate P = validateType txType := by
  simp [newWithParams, validate, calculateId, serializeForHashing, ensure, bind, Except.bind]

/-! ## The id binds the contents -/

theorem serializeForHashing_inj {tx tx' : Transaction}
    (h : tx.serializeForHashing P = tx'.serializeForHashing P) :
    tx.timestamp = tx'.timestamp ∧ tx.nonce = tx'.nonce ∧
      P.bincode tx.txType = P.bincode tx'.txType := by
  obtain ⟨htime, hrest⟩ := Codec.selfDelimiting_u64 _ _ _ _ h
  obtain ⟨hnonce, htype⟩ := Codec.selfDelimiting_u64 _ _ _ _ hrest
  exact ⟨htime, hnonce, htype⟩

theorem length_serializeForHashing (tx : Transaction) :
    (tx.serializeForHashing P).length = 16 + (P.bincode tx.txType).length := by
  simp only [serializeForHashing, List.length_append, Codec.length_leBytes]
  omega

/-- **Equal ids, equal transactions**, for two transactions whose ids are the
hashes of their contents and whose preimages the hash function does not
confuse. -/
theorem eq_of_id_eq {S : Set Bytes} (hhash : Set.InjOn P.blake2b256 S) {T : Set TransactionType}
    (hcode : Set.InjOn P.bincode T) {tx tx' : Transaction}
    (hid : tx.id = tx.calculateId P) (hid' : tx'.id = tx'.calculateId P)
    (hS : tx.serializeForHashing P ∈ S) (hS' : tx'.serializeForHashing P ∈ S)
    (hT : tx.txType ∈ T) (hT' : tx'.txType ∈ T) (h : tx.id = tx'.id) : tx = tx' := by
  have hdigest : P.blake2b256 (tx.serializeForHashing P)
      = P.blake2b256 (tx'.serializeForHashing P) := by
    have := (hid.symm.trans h).trans hid'
    exact congrArg TxId.bytes this
  obtain ⟨htime, hnonce, htype⟩ := serializeForHashing_inj (hhash hS hS' hdigest)
  have htype' : tx.txType = tx'.txType := hcode hT hT' htype
  cases tx
  cases tx'
  exact Transaction.mk.injEq .. ▸ ⟨h, htype', htime, hnonce⟩

end Transaction

end VotingChain
