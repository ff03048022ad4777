/-
# `VotingChain.Block` — blocks, their hashes and their validation

The model of `blockchain-core/src/block.rs`.  A header's hash is over a
fixed-width layout,

    height ‖ timestamp ‖ previous hash ‖ transactions root ‖ validator ‖ count
      8         8             32               32              32        4

and covers the transactions through the Merkle root of their ids and their
number, so it binds the whole block (`HashBinding`).  The signatures are not
under the hash, and no function of this module looks inside one.
-/
import VotingChain.Merkle

namespace VotingChain

structure ValidatorSignature where
  validator : PublicKey
  signature : Signature
  deriving DecidableEq

/-- Block header containing metadata. -/
structure BlockHeader where
  height : BlockHeight
  timestamp : Timestamp
  previousHash : BlockHash
  transactionsRoot : BlockHash
  hash : BlockHash
  validator : PublicKey
  transactionCount : UInt32
  deriving DecidableEq

structure Block where
  header : BlockHeader
  transactions : List Transaction
  signatures : List ValidatorSignature
  deriving DecidableEq

namespace BlockHeader

/-- The header fields under the hash, the hash itself left out. -/
def hashInput (h : BlockHeader) : Bytes :=
  Codec.leBytes 8 h.height.toNat ++ (Codec.leBytes 8 h.timestamp.toNat ++
    (h.previousHash.asBytes ++ (h.transactionsRoot.asBytes ++
      (h.validator.asBytes ++ Codec.leBytes 4 h.transactionCount.toNat))))

/-- Calculate hash of block header. -/
def calculateHash (P : Primitives) (h : BlockHeader) : BlockHash := ⟨hashData P h.hashInput⟩

/-- The layout is fixed-width, so the bytes determine the fields. -/
theorem hashInput_inj {h h' : BlockHeader} (heq : h.hashInput = h'.hashInput) :
    h.height = h'.height ∧ h.timestamp = h'.timestamp ∧ h.previousHash = h'.previousHash ∧
      h.transactionsRoot = h'.transactionsRoot ∧ h.validator = h'.validator ∧
      h.transactionCount = h'.transactionCount := by
  obtain ⟨hheight, hrest⟩ := Codec.selfDelimiting_u64 _ _ _ _ heq
  obtain ⟨htime, hrest⟩ := Codec.selfDelimiting_u64 _ _ _ _ hrest
  obtain ⟨hprev, hrest⟩ := selfDelimiting_blockHash _ _ _ _ hrest
  obtain ⟨hroot, hrest⟩ := selfDelimiting_blockHash _ _ _ _ hrest
  obtain ⟨hval, hrest⟩ := selfDelimiting_publicKey _ _ _ _ hrest
  exact ⟨hheight, htime, hprev, hroot, hval, Codec.selfDelimiting_u32.injective hrest⟩

end BlockHeader

namespace Block
variable (P : Primitives)

/-- The leaves of the Merkle tree: the transaction ids, read as hashes. -/
def txHashes (transactions : List Transaction) : List BlockHash :=
  transactions.map fun tx => ⟨tx.id.bytes⟩

/-- Calculate merkle root of transactions. -/
def calculateTransactionsRoot (transactions : List Transaction) : BlockHash :=
  if transactions.isEmpty then BlockHash.zero
  else (MerkleTree.new P (txHashes transactions)).root

/-- Create a new block; `now` is what the clock says. -/
def new (now : Timestamp) (height : BlockHeight) (previousHash : BlockHash)
    (transactions : List Transaction) (validator : PublicKey) : Block :=
  let header : BlockHeader :=
    { height
      timestamp := now
      previousHash
      transactionsRoot := calculateTransactionsRoot P transactions
      hash := BlockHash.zero
      validator
      transactionCount := UInt32.ofNat transactions.length }
  { header := { header with hash := header.calculateHash P }
    transactions
    signatures := [] }

def hash (b : Block) : BlockHash := b.header.hash
def height (b : Block) : BlockHeight := b.header.height
def previousHash (b : Block) : BlockHash := b.header.previousHash
def timestamp (b : Block) : Timestamp := b.header.timestamp

/-- Add a validator signature. -/
def addSignature (b : Block) (validator : PublicKey) (signature : Signature) : Block :=
  { b with signatures := b.signatures ++ [⟨validator, signature⟩] }

/-- Get number of validator signatures. -/
def signatureCount (b : Block) : Nat := b.signatures.length

/-- Validate block structure and integrity. -/
def validate [Hex] (b : Block) : Result Unit := do
  let calculatedHash := b.header.calculateHash P
  ensure (decide (b.header.hash = calculatedHash))
    (.invalidBlockHash calculatedHash.toHex b.header.hash.toHex)
  ensure (decide (b.header.transactionCount = UInt32.ofNat b.transactions.length))
    (.invalidBlock ("Transaction count mismatch: header says " ++
      toString b.header.transactionCount ++ ", actual is " ++ toString b.transactions.length))
  ensure (decide (b.header.transactionsRoot = calculateTransactionsRoot P b.transactions))
    (.invalidBlock "Transactions merkle root mismatch")
  forEach (Transaction.validate P) b.transactions

/-- Validate that this block follows the previous block. -/
def validateChainLink [Hex] (b previous : Block) : Result Unit := do
  ensure (decide (b.header.height = previous.header.height + 1))
    (.blockHeightMismatch (previous.header.height + 1) b.header.height)
  ensure (decide (b.header.previousHash = previous.hash))
    (.invalidPreviousHash ("Expected " ++ previous.hash.toHex ++ ", got " ++
      b.header.previousHash.toHex))
  ensure (decide (previous.header.timestamp ≤ b.header.timestamp))
    (.invalidBlock "Block timestamp is before previous block")

/-- Get transaction by ID. -/
def getTransaction (b : Block) (txId : TxId) : Option Transaction :=
  b.transactions.find? fun tx => tx.id = txId

/-- The transaction ids of a block, in order. -/
def ids (b : Block) : List TxId := b.transactions.map Transaction.id

/-! ## What the checks say -/

/-- What `validate` accepts. -/
structure Valid (b : Block) : Prop where
  hash : b.header.hash = b.header.calculateHash P
  count : b.header.transactionCount = UInt32.ofNat b.transactions.length
  root : b.header.transactionsRoot = calculateTransactionsRoot P b.transactions
  transactions : ∀ tx ∈ b.transactions, tx.validate P = .ok ()

theorem validate_eq_ok [Hex] {b : Block} {u : Unit} : b.validate P = .ok u ↔ Valid P b := by
  simp only [validate, bind_eq_ok, ensure_eq_ok, decide_eq_true_eq, forEach_eq_ok]
  constructor
  · rintro ⟨_, hhash, _, hcount, _, hroot, htx⟩
    exact ⟨hhash, hcount, hroot, htx⟩
  · rintro ⟨hhash, hcount, hroot, htx⟩
    exact ⟨(), hhash, (), hcount, (), hroot, htx⟩

/-- What `validateChainLink` accepts: `b` directly after `previous`. -/
structure Follows (previous b : Block) : Prop where
  height : b.header.height = previous.header.height + 1
  previousHash : b.header.previousHash = previous.header.hash
  timestamp : previous.header.timestamp ≤ b.header.timestamp

theorem validateChainLink_eq_ok [Hex] {b previous : Block} {u : Unit} :
    b.validateChainLink previous = .ok u ↔ Follows previous b := by
  simp only [validateChainLink, bind_eq_ok, ensure_eq_ok, decide_eq_true_eq]
  constructor
  · rintro ⟨_, hheight, _, hprev, htime⟩
    exact ⟨hheight, hprev, htime⟩
  · rintro ⟨hheight, hprev, htime⟩
    exact ⟨(), hheight, (), hprev, htime⟩

theorem valid_new {now : Timestamp} {height : BlockHeight} {previousHash : BlockHash}
    {transactions : List Transaction} {validator : PublicKey}
    (htx : ∀ tx ∈ transactions, tx.validate P = .ok ()) :
    Valid P (new P now height previousHash transactions validator) where
  hash := rfl
  count := rfl
  root := rfl
  transactions := htx

theorem valid_signatures {b : Block} (sigs : List ValidatorSignature) :
    Valid P { b with signatures := sigs } ↔ Valid P b :=
  ⟨fun ⟨h₁, h₂, h₃, h₄⟩ => ⟨h₁, h₂, h₃, h₄⟩, fun ⟨h₁, h₂, h₃, h₄⟩ => ⟨h₁, h₂, h₃, h₄⟩⟩

theorem getTransaction_eq_some {b : Block} {txId : TxId} {tx : Transaction}
    (h : b.getTransaction txId = some tx) : tx ∈ b.transactions ∧ tx.id = txId :=
  ⟨List.mem_of_find?_eq_some h, by simpa using List.find?_some h⟩

theorem exists_getTransaction {b : Block} {tx : Transaction} (h : tx ∈ b.transactions) :
    ∃ tx', b.getTransaction tx.id = some tx' := by
  refine Option.isSome_iff_exists.mp ?_
  rw [getTransaction, List.find?_isSome]
  exact ⟨tx, h, by simp⟩

/-! ## The hash binds the block -/

/-- The strings hashed when a block is validated: the header, the transactions,
and the pairs of the Merkle tree. -/
def hashInputs (b : Block) : List Bytes :=
  b.header.hashInput :: (b.transactions.map (Transaction.serializeForHashing P) ++
    MerkleTree.treeInputs P (txHashes b.transactions))

theorem header_mem_hashInputs (b : Block) : b.header.hashInput ∈ b.hashInputs P :=
  List.mem_cons_self

theorem tx_mem_hashInputs {b : Block} {tx : Transaction} (h : tx ∈ b.transactions) :
    tx.serializeForHashing P ∈ b.hashInputs P :=
  List.mem_cons_of_mem _ (List.mem_append_left _ (List.mem_map_of_mem h))

theorem tree_mem_hashInputs {b : Block} {x : Bytes}
    (h : x ∈ MerkleTree.treeInputs P (txHashes b.transactions)) : x ∈ b.hashInputs P :=
  List.mem_cons_of_mem _ (List.mem_append_right _ h)

variable {P}

/-- Lists of transactions with the same ids, in order, are equal: each id is the
hash of its transaction. -/
theorem transactions_eq_of_txHashes_eq {S : Set Bytes} (hhash : Set.InjOn P.blake2b256 S)
    {T : Set TransactionType} (hcode : Set.InjOn P.bincode T)
    {txs txs' : List Transaction}
    (htx : ∀ tx ∈ txs, tx.id = tx.calculateId P ∧ tx.serializeForHashing P ∈ S ∧ tx.txType ∈ T)
    (htx' : ∀ tx ∈ txs', tx.id = tx.calculateId P ∧ tx.serializeForHashing P ∈ S ∧ tx.txType ∈ T)
    (h : txHashes txs = txHashes txs') : txs = txs' := by
  refine List.eq_of_map_eq_of_injOn ?_ htx htx' h
  rintro tx ⟨hid, hS, hT⟩ tx' ⟨hid', hS', hT'⟩ heq
  have hids : tx.id = tx'.id := TxId.ext (BlockHash.mk.inj heq)
  exact Transaction.eq_of_id_eq hhash hcode hid hid' hS hS' hT hT' hids

end Block

end VotingChain
