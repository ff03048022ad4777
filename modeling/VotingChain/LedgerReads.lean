/-
# `VotingChain.LedgerReads` — who reads the ledger, and what they are told

A transaction of the chain can be asked for in three ways.  A full node walks through all
heights and searches every block; the chain has an index from ids to heights; the RPC methods
go through the index, twice, and unwrap what they find.

    FullNode::get_transaction           for height in 0..=height, for tx in the block
    Blockchain::get_transaction         tx_to_block, then the block, then the tx
    BlockchainMethods::get_transaction  the same, and the height once more
    ValidationMethods::get_vote         the same
    ValidationMethods::verify_vote      the same

There is one answer to all of them, the first place in the chain that holds the id
(`Blockchain.locate`, `reads_agree`), and once it is there no further block changes it
(`answers_kept`).  The totals are read in two ways as well: `chain_info` walks through the
blocks, the chain counts the entries of its index.
-/
import VotingChain.BlockchainMethods
import VotingChain.Encryption
import VotingChain.Node
import VotingChain.Pruning

namespace VotingChain

/-! ## Ids as text -/

/-- `from_hex` of a type of `n` bytes.  What is wrong with the text is lost in all callers. -/
def arrayFromHex [Hex] (n : Nat) (s : String) : Option (ByteArr n) :=
  match Hex.decode s with
  | .ok bytes => if h : bytes.length = n then some ⟨bytes, h⟩ else none
  | .error _ => none

def TxId.fromHex [Hex] (s : String) : Option TxId := (arrayFromHex 32 s).map TxId.mk

def ElectionId.fromHex [Hex] (s : String) : Option ElectionId :=
  (arrayFromHex 16 s).map ElectionId.mk

theorem arrayFromHex_encode [Hex] {n : Nat} (bytes : ByteArr n) :
    arrayFromHex n (Hex.encode bytes.toList) = some bytes := by
  simp only [arrayFromHex, Hex.decode_encode]
  rw [dif_pos bytes.toList_length]
  rfl

@[simp] theorem TxId.fromHex_toHex [Hex] (txId : TxId) : TxId.fromHex txId.toHex = some txId := by
  rw [fromHex, toHex, asBytes, arrayFromHex_encode]
  rfl

@[simp] theorem ElectionId.fromHex_toHex [Hex] (electionId : ElectionId) :
    ElectionId.fromHex electionId.toHex = some electionId := by
  rw [fromHex, toHex, asBytes, arrayFromHex_encode]
  rfl

/-! ## Queries -/

/-- How a query can fail: as a call that it makes, or because there is no such thing. -/
inductive QueryFault where
  | fault (f : Fault)
  | transactionNotFound (hash : String)
  | electionNotFound (id : String)
  deriving DecidableEq

abbrev QueryResult (α : Type) := Except QueryFault α

namespace QueryResult

/-- What a call returns, as what the query returns. -/
def lift {α : Type} (r : Result α) : QueryResult α := r.mapError .fault

/-- `ok_or_else`. -/
def okOr {α : Type} (x : Option α) (e : QueryFault) : QueryResult α :=
  match x with
  | some a => .ok a
  | none => .error e

@[simp] theorem lift_ok {α : Type} (a : α) : lift (.ok a) = .ok a := rfl

@[simp] theorem okOr_some {α : Type} (a : α) (e : QueryFault) : okOr (some a) e = .ok a := rfl

@[simp] theorem ok_bind {α β : Type} (a : α) (f : α → QueryResult β) :
    ((.ok a : QueryResult α) >>= f) = f a := rfl

@[simp] theorem error_bind {α β : Type} (e : QueryFault) (f : α → QueryResult β) :
    ((.error e : QueryResult α) >>= f) = .error e := rfl

end QueryResult

open QueryResult (lift okOr)

/-- The id in the text of a request. -/
def txIdOf [Hex] (txHash : String) : QueryResult TxId :=
  okOr (TxId.fromHex txHash) (.fault (.err (.invalidTransaction "Invalid transaction hash")))

/-- What is done at a height, if there is a block. -/
def Blockchain.visitBlock {β : Type} (c : Blockchain) (visit : β → Block → Result β) (acc : β)
    (height : BlockHeight) : Result β := do
  match ← c.getBlockByHeight height with
  | some block => visit acc block
  | none => return acc

/-- `for height in first..=last`. -/
def Blockchain.visitBlocks {β : Type} (c : Blockchain) (first last : BlockHeight)
    (visit : β → Block → Result β) (acc : β) : Result β :=
  (BlockchainMethods.heightsInclusive first last).foldlM (c.visitBlock visit) acc

/-- Get a transaction: `get_block_at_height` for every height, and the first transaction of
that block with the id. -/
def FullNode.getTransaction (node : FullNode) (txId : TxId) : Result (Option Transaction) :=
  match node.components with
  | none => .ok none
  | some components =>
    let blockchain := components.blockchain
    .ok ((BlockchainMethods.heightsInclusive 0 blockchain.height).findSome? fun height =>
      (blockchain.getBlockAtHeight height).toOption.bind fun block =>
        block.transactions.find? fun tx => tx.id = txId)

/-- Get a block. -/
def FullNode.getBlock (node : FullNode) (height : BlockHeight) : Result (Option Block) :=
  match node.components with
  | none => .ok none
  | some components => .ok (components.blockchain.getBlockAtHeight height).toOption

/-- Blockchain statistics, without the average, which is a floating-point number. -/
structure BlockchainStats where
  height : BlockHeight
  totalBlocks : UInt64
  totalTransactions : Nat
  genesisHash : BlockHash
  latestBlockHash : BlockHash
  latestBlockTimestamp : Timestamp
  deriving DecidableEq

/-- Get blockchain statistics. -/
def Blockchain.getStats (c : Blockchain) : BlockchainStats where
  height := c.height
  totalBlocks := UInt64.ofNat c.blocks.length
  totalTransactions := c.transactionCount
  genesisHash := c.genesisHash
  latestBlockHash := c.latestBlock.hash
  latestBlockTimestamp := c.latestBlock.timestamp

namespace BlockchainMethods

/-- Get transaction by hash. -/
def getTransaction [Hex] {ι : Type} (toValue : Transaction → Except String ι) (chain : Blockchain)
    (hashStr : String) : QueryResult (TransactionResponse ι) := do
  let txId ← txIdOf hashStr
  let tx ← okOr (← lift (chain.getTransaction txId)) (.transactionNotFound hashStr)
  let blockHeight ← okOr (chain.getTransactionBlockHeight txId) (.transactionNotFound hashStr)
  -- `unwrap`
  let block ← okOr (← lift (chain.getBlockByHeight blockHeight)) (.fault .panicked)
  lift (transactionToResponse toValue tx block)

def countTotalTransactions (chain : Blockchain) : Result UInt64 :=
  chain.visitBlocks 0 chain.height
    (fun count block => .ok (count + UInt64.ofNat block.transactions.length)) 0

end BlockchainMethods

/-- A transaction is a vote. -/
def Transaction.isVote (tx : Transaction) : Bool :=
  match tx.txType with
  | .vote _ => true
  | _ => false

namespace BlockchainMethods

def countTotalVotes (chain : Blockchain) : Result UInt64 :=
  chain.visitBlocks 0 chain.height
    (fun count block => .ok (block.transactions.foldl
      (fun count tx => if tx.isVote then count + 1 else count) count)) 0

/-- Blockchain information.  The counts of validators and elections, which are not kept, are
left out. -/
structure ChainInfo where
  height : BlockHeight
  genesisHash : String
  latestBlockHash : String
  latestBlockTime : Timestamp
  totalTransactions : UInt64
  totalVotes : UInt64
  deriving DecidableEq

/-- Get blockchain information. -/
def chainInfo [Hex] (chain : Blockchain) : Result ChainInfo := do
  let latestBlock := chain.latestBlock
  let totalTransactions ← countTotalTransactions chain
  let totalVotes ← countTotalVotes chain
  return {
    height := chain.height
    genesisHash := chain.genesisHash.toHex
    latestBlockHash := latestBlock.hash.toHex
    latestBlockTime := latestBlock.header.timestamp
    totalTransactions
    totalVotes }

end BlockchainMethods

namespace ValidationMethods

/-- Vote response. -/
structure VoteResponse where
  txId : String
  electionId : String
  encryptedVote : String
  timestamp : Timestamp
  blockHeight : UInt64
  zkProof : Option String
  verified : Bool
  deriving DecidableEq

/-- Vote verification request. -/
structure VerifyVoteRequest where
  txId : String
  zkProof : String
  voterSignature : Option String

structure VerifyVoteResponse where
  valid : Bool
  details : Option String
  blockHeight : Option UInt64
  electionId : Option String
  deriving DecidableEq

/-- The transaction and its vote, or an error if it is no vote. -/
def voteOf (tx : Transaction) : QueryResult VoteTransaction :=
  match tx.txType with
  | .vote voteTx => .ok voteTx
  | _ => .error (.fault (.err (.invalidTransaction "Transaction is not a vote")))

def getVote [Hex] (chain : Blockchain) (txHash : String) : QueryResult VoteResponse := do
  let txId ← txIdOf txHash
  let tx ← okOr (← lift (chain.getTransaction txId)) (.transactionNotFound txHash)
  let voteTx ← voteOf tx
  let blockHeight ← okOr (chain.getTransactionBlockHeight txId) (.transactionNotFound txId.toHex)
  return {
    txId := tx.id.toHex
    electionId := voteTx.electionId.toHex
    encryptedVote := Hex.encode voteTx.encryptedVote
    timestamp := tx.timestamp
    blockHeight
    zkProof := voteTx.validityProof.map Hex.encode
    verified := true }

/-- A vote is valid if it came with a proof.  The proof and the signature of the request are
not looked at. -/
def verifyVote [Hex] (chain : Blockchain) (request : VerifyVoteRequest) :
    QueryResult VerifyVoteResponse := do
  let txId ← txIdOf request.txId
  let tx ← okOr (← lift (chain.getTransaction txId)) (.transactionNotFound request.txId)
  let voteTx ← voteOf tx
  let valid := voteTx.validityProof.isSome
  return {
    valid
    details :=
      if valid then some "Vote proof verified successfully"
      else some "Vote proof verification failed"
    blockHeight := chain.getTransactionBlockHeight txId
    electionId := some voteTx.electionId.toHex }

end ValidationMethods

/-! ## The place of a transaction -/

namespace Blockchain
variable {P : Primitives} {c : Blockchain}

/-- The first block that holds the id, and the transaction there. -/
def locate (c : Blockchain) (txId : TxId) : Option (Block × Transaction) :=
  c.blocks.findSome? fun block => (block.getTransaction txId).map fun tx => (block, tx)

theorem locate_eq_none {txId : TxId} : c.locate txId = none ↔ ∀ b ∈ c.blocks, txId ∉ b.ids := by
  simp only [locate, List.findSome?_eq_none_iff, Option.map_eq_none_iff, Block.getTransaction,
    Block.ids, List.find?_eq_none, List.mem_map, decide_eq_true_eq, not_exists, not_and]

theorem mem_of_locate {txId : TxId} {found : Block × Transaction}
    (h : c.locate txId = some found) :
    found.1 ∈ c.blocks ∧ found.1.getTransaction txId = some found.2 := by
  obtain ⟨block, hblock, hfound⟩ := List.exists_of_findSome?_eq_some h
  obtain ⟨tx, htx, rfl⟩ := Option.map_eq_some_iff.mp hfound
  exact ⟨hblock, htx⟩

theorem mem_ids_of_getTransaction {block : Block} {txId : TxId} {tx : Transaction}
    (h : block.getTransaction txId = some tx) : txId ∈ block.ids := by
  obtain ⟨hmem, rfl⟩ := Block.getTransaction_eq_some h
  exact List.mem_map_of_mem hmem

theorem locate_extend {txId : TxId} {found : Block × Transaction} (h : c.locate txId = some found)
    (b : Block) : (c.extend b).locate txId = some found := by
  rw [locate, extend, List.findSome?_append, ← locate, h]
  rfl

theorem locate_addBlocks [Hex] {txId : TxId} {found : Block × Transaction}
    (h : c.locate txId = some found) (bs : List Block) :
    (c.addBlocks P bs).locate txId = some found :=
  addBlocks_invariant (I := fun c => c.locate txId = some found)
    (fun _ b hc _ => locate_extend hc b) h bs

/-! ## The three ways to it -/

theorem lookup_of_locate (hindex : Indexed c) (txId : TxId) :
    c.txToBlock.lookup txId = (c.locate txId).map fun found => found.1.height := by
  cases hfound : c.locate txId with
  | none =>
      rw [Option.map_none, Finmap.lookup_eq_none, hindex.mem_txToBlock]
      rintro ⟨b, hb, ht⟩
      exact locate_eq_none.mp hfound b hb ht
  | some found =>
      obtain ⟨hblock, htx⟩ := mem_of_locate hfound
      exact (hindex.tx_lookup txId _).mpr ⟨found.1, hblock, rfl, mem_ids_of_getTransaction htx⟩

theorem getTransaction_of_locate (hshape : Shape P c) (hindex : Indexed c) (txId : TxId) :
    c.getTransaction txId = .ok ((c.locate txId).map Prod.snd) := by
  rw [getTransaction, lookup_of_locate hindex]
  cases hfound : c.locate txId with
  | none => rfl
  | some found =>
      obtain ⟨hblock, htx⟩ := mem_of_locate hfound
      simp only [Option.map_some, hshape.getBlockByHeight_of_mem hblock, Except.map,
        Option.bind_some, htx]

theorem toOption_getBlockAtHeight (hshape : Shape P c) (height : BlockHeight) :
    (c.getBlockAtHeight height).toOption = c.blocks[height.toNat]? := by
  cases hb : c.blocks[height.toNat]? with
  | some b =>
      have hheight : b.header.height = height := UInt64.toNat_inj.mp (hshape.heights _ b hb)
      rw [(hshape.getBlockAtHeight_eq_ok height b).mpr ⟨List.mem_of_getElem? hb, hheight⟩]
      rfl
  | none =>
      cases hfound : c.getBlockAtHeight height with
      | error e => rfl
      | ok b =>
          obtain ⟨hmem, rfl⟩ := (hshape.getBlockAtHeight_eq_ok height b).mp hfound
          obtain ⟨i, hi⟩ := List.mem_iff_getElem?.mp hmem
          rw [hshape.heights i b hi, hi] at hb
          cases hb

theorem filterMap_allBlocks (hshape : Shape P c) :
    (BlockchainMethods.heightsInclusive 0 c.height).filterMap
      (fun height => c.blocks[height.toNat]?) = c.blocks := by
  rw [BlockchainMethods.filterMap_blocks hshape, BlockchainMethods.blocksBetween,
    List.filter_eq_self]
  intro b hb
  obtain ⟨i, hi⟩ := List.mem_iff_getElem?.mp hb
  obtain ⟨hlt, -⟩ := List.getElem?_eq_some_iff.mp hi
  have hheight := hshape.height
  rw [BlockchainMethods.between_iff hshape hi]
  exact ⟨Nat.zero_le i, by omega⟩

theorem scan_of_locate (hshape : Shape P c) {node : FullNode} {components : NodeComponents}
    (hcomp : node.components = some components) (hchain : components.blockchain = c)
    (txId : TxId) : node.getTransaction txId = .ok ((c.locate txId).map Prod.snd) := by
  have hscan : (BlockchainMethods.heightsInclusive 0 c.height).findSome? (fun height =>
      c.blocks[height.toNat]?.bind fun block => block.getTransaction txId) =
      c.blocks.findSome? fun block => block.getTransaction txId := by
    rw [← List.head?_filterMap, ← List.head?_filterMap, ← List.filterMap_filterMap,
      filterMap_allBlocks hshape]
  have hlocate : (c.locate txId).map Prod.snd =
      c.blocks.findSome? fun block => block.getTransaction txId := by
    rw [locate, ← List.head?_filterMap, ← List.head?_filterMap, ← List.head?_map,
      List.map_filterMap]
    simp
  subst hchain
  rw [FullNode.getTransaction, hcomp, hlocate, ← hscan]
  simp only [toOption_getBlockAtHeight hshape]
  rfl

/-! ## Every answer, from the place -/

theorem getTransactionBlockHeight_of_locate (hindex : Indexed c) (txId : TxId) :
    c.getTransactionBlockHeight txId = (c.locate txId).map fun found => found.1.height :=
  lookup_of_locate hindex txId

end Blockchain

open Blockchain (Shape Indexed addBlocks)

variable {P : Primitives} {c : Blockchain}

/-- Where the id of a request is. -/
def Blockchain.placeOf [Hex] (c : Blockchain) (txHash : String) :
    QueryResult (Block × Transaction) := do
  let txId ← txIdOf txHash
  okOr (c.locate txId) (.transactionNotFound txHash)

theorem Blockchain.placeOf_of_txId [Hex] {txHash : String} {txId : TxId}
    (h : TxId.fromHex txHash = some txId) :
    c.placeOf txHash = okOr (c.locate txId) (.transactionNotFound txHash) := by
  rw [placeOf, txIdOf, h]
  rfl

/-- A vote and its block, as they are reported. -/
def ValidationMethods.voteResponse [Hex] (found : Block × Transaction) (voteTx : VoteTransaction) :
    VoteResponse where
  txId := found.2.id.toHex
  electionId := voteTx.electionId.toHex
  encryptedVote := Hex.encode voteTx.encryptedVote
  timestamp := found.2.timestamp
  blockHeight := found.1.height
  zkProof := voteTx.validityProof.map Hex.encode
  verified := true

def ValidationMethods.verifyVoteResponse [Hex] (found : Block × Transaction)
    (voteTx : VoteTransaction) : VerifyVoteResponse where
  valid := voteTx.validityProof.isSome
  details :=
    if voteTx.validityProof.isSome then some "Vote proof verified successfully"
    else some "Vote proof verification failed"
  blockHeight := some found.1.height
  electionId := some voteTx.electionId.toHex

theorem BlockchainMethods.getTransaction_eq [Hex] {ι : Type}
    (toValue : Transaction → Except String ι)
    (hshape : Shape P c) (hindex : Indexed c) (hashStr : String) :
    getTransaction toValue c hashStr =
      (c.placeOf hashStr >>= fun found =>
        lift (transactionToResponse toValue found.2 found.1)) := by
  rw [getTransaction, Blockchain.placeOf]
  cases txIdOf hashStr with
  | error e => rfl
  | ok txId =>
      simp only [QueryResult.ok_bind, Blockchain.getTransaction_of_locate hshape hindex,
        Blockchain.getTransactionBlockHeight_of_locate hindex, QueryResult.lift_ok]
      cases hfound : c.locate txId with
      | none => rfl
      | some found =>
          obtain ⟨hblock, -⟩ := Blockchain.mem_of_locate hfound
          simp only [Option.map_some, QueryResult.okOr_some, QueryResult.ok_bind,
            hshape.getBlockByHeight_of_mem hblock, QueryResult.lift_ok]

theorem ValidationMethods.getVote_eq [Hex] (hshape : Shape P c) (hindex : Indexed c)
    (txHash : String) :
    getVote c txHash =
      (c.placeOf txHash >>= fun found => (voteOf found.2).map (voteResponse found)) := by
  rw [getVote, Blockchain.placeOf]
  cases txIdOf txHash with
  | error e => rfl
  | ok txId =>
      simp only [QueryResult.ok_bind, Blockchain.getTransaction_of_locate hshape hindex,
        Blockchain.getTransactionBlockHeight_of_locate hindex, QueryResult.lift_ok]
      cases c.locate txId with
      | none => rfl
      | some found =>
          simp only [Option.map_some, QueryResult.okOr_some, QueryResult.ok_bind]
          cases voteOf found.2 with
          | error e => rfl
          | ok voteTx => rfl

theorem ValidationMethods.verifyVote_eq [Hex] (hshape : Shape P c) (hindex : Indexed c)
    (request : VerifyVoteRequest) :
    verifyVote c request =
      (c.placeOf request.txId >>= fun found =>
        (voteOf found.2).map (verifyVoteResponse found)) := by
  rw [verifyVote, Blockchain.placeOf]
  cases txIdOf request.txId with
  | error e => rfl
  | ok txId =>
      simp only [QueryResult.ok_bind, Blockchain.getTransaction_of_locate hshape hindex,
        Blockchain.getTransactionBlockHeight_of_locate hindex, QueryResult.lift_ok]
      cases c.locate txId with
      | none => rfl
      | some found =>
          simp only [Option.map_some, QueryResult.okOr_some, QueryResult.ok_bind]
          cases voteOf found.2 with
          | error e => rfl
          | ok voteTx => rfl

/-- **One ledger, one answer.**  In every chain that is built by `add_block`, and for every text
that is an id: the full node, which walks, and the index, which jumps, find the same
transaction; a query that finds none says so, and otherwise what each of them reports is read off
the one block that holds the id, and the one transaction there. -/
theorem reads_agree [Hex] {ι : Type} (toValue : Transaction → Except String ι) {now : Timestamp}
    {genesis : GenesisBlock} {c₀ : Blockchain} (hnew : Blockchain.new P now genesis = .ok c₀)
    (bs : List Block) {node : FullNode} {components : NodeComponents}
    (hcomp : node.components = some components)
    (hchain : components.blockchain = c₀.addBlocks P bs)
    {request : ValidationMethods.VerifyVoteRequest} {txId : TxId}
    (hid : TxId.fromHex request.txId = some txId) :
    (node.getTransaction txId = .ok none ∧ (c₀.addBlocks P bs).getTransaction txId = .ok none ∧
      (∀ b ∈ (c₀.addBlocks P bs).blocks, txId ∉ b.ids) ∧
      BlockchainMethods.getTransaction toValue (c₀.addBlocks P bs) request.txId =
        .error (.transactionNotFound request.txId) ∧
      ValidationMethods.getVote (c₀.addBlocks P bs) request.txId =
        .error (.transactionNotFound request.txId) ∧
      ValidationMethods.verifyVote (c₀.addBlocks P bs) request =
        .error (.transactionNotFound request.txId)) ∨
    ∃ found : Block × Transaction, node.getTransaction txId = .ok (some found.2) ∧
      (c₀.addBlocks P bs).getTransaction txId = .ok (some found.2) ∧
      found.1 ∈ (c₀.addBlocks P bs).blocks ∧ found.2 ∈ found.1.transactions ∧ found.2.id = txId ∧
      (∀ b ∈ (c₀.addBlocks P bs).blocks, txId ∈ b.ids → b = found.1) ∧
      BlockchainMethods.getTransaction toValue (c₀.addBlocks P bs) request.txId =
        lift (BlockchainMethods.transactionToResponse toValue found.2 found.1) ∧
      ValidationMethods.getVote (c₀.addBlocks P bs) request.txId =
        (ValidationMethods.voteOf found.2).map (ValidationMethods.voteResponse found) ∧
      ValidationMethods.verifyVote (c₀.addBlocks P bs) request =
        (ValidationMethods.voteOf found.2).map (ValidationMethods.verifyVoteResponse found) := by
  have hshape := Blockchain.shape_addBlocks hnew bs
  have hindex := Blockchain.indexed_addBlocks hnew bs
  have hplace := Blockchain.placeOf_of_txId (c := c₀.addBlocks P bs) hid
  rw [Blockchain.scan_of_locate hshape hcomp hchain,
    Blockchain.getTransaction_of_locate hshape hindex,
    BlockchainMethods.getTransaction_eq toValue hshape hindex,
    ValidationMethods.getVote_eq hshape hindex, ValidationMethods.verifyVote_eq hshape hindex,
    hplace]
  cases hfound : (c₀.addBlocks P bs).locate txId with
  | none => exact Or.inl ⟨rfl, rfl, Blockchain.locate_eq_none.mp hfound, rfl, rfl, rfl⟩
  | some found =>
      obtain ⟨hblock, htx⟩ := Blockchain.mem_of_locate hfound
      obtain ⟨hmem, hidtx⟩ := Block.getTransaction_eq_some htx
      refine Or.inr ⟨found, rfl, rfl, hblock, hmem, hidtx, ?_, rfl, rfl, rfl⟩
      intro b hb ht
      have hheight : (c₀.addBlocks P bs).txToBlock.lookup txId = some b.height :=
        (hindex.tx_lookup txId _).mpr ⟨b, hb, rfl, ht⟩
      rw [Blockchain.lookup_of_locate hindex, hfound] at hheight
      exact hshape.eq_of_height_eq hb hblock (Option.some.inj hheight).symm

/-! ### A chain to read -/

namespace Reference

/-- The first vote, on top of the genesis block. -/
def votedBlock : Block := chain.nextBlock primitives [vote 0] key

theorem addBlocks_votedBlock : chain.addBlocks primitives [votedBlock] = chain.extend votedBlock :=
  Blockchain.addBlocks_of_admits (admits_votes [vote 0] (by simp))

/-- A second vote, on top of that. -/
def laterBlock : Block := (chain.extend votedBlock).nextBlock primitives [vote 1] key

theorem admits_laterBlock :
    Blockchain.Admits primitives (chain.extend votedBlock) laterBlock := by
  have hindex := Blockchain.indexed_addBlocks (new_genesis 0) [votedBlock]
  rw [addBlocks_votedBlock] at hindex
  refine Blockchain.admits_nextBlock key ?_ ?_ ?_
  · intro tx htx
    rw [List.mem_singleton.mp htx]
    exact validate_vote 1
  · intro tx htx
    rw [List.mem_singleton.mp htx, hindex.mem_txToBlock]
    have hids : ∀ b ∈ [genesisBlock, votedBlock], (vote 1).id ∉ b.ids := by decide +kernel
    rintro ⟨b, hb, hid⟩
    exact hids b hb hid
  · show 2 < 2 ^ 63 - 1
    omega

theorem addBlocks_laterBlock : chain.addBlocks primitives ([votedBlock] ++ [laterBlock]) =
    (chain.extend votedBlock).extend laterBlock := by
  rw [Blockchain.addBlocks_append, addBlocks_votedBlock,
    Blockchain.addBlocks_of_admits admits_laterBlock]

/-- The components of a full node with the chain of the first vote. -/
def readerComponents : NodeComponents := ⟨chain.addBlocks primitives [votedBlock], []⟩

theorem blockchain_readerComponents :
    readerComponents.blockchain = chain.addBlocks primitives [votedBlock] := by
  rw [readerComponents]

def reader : FullNode := ⟨some readerComponents, ∅, NodeStats.default⟩

def voteRequest : ValidationMethods.VerifyVoteRequest := ⟨(vote 0).id.toHex, "", none⟩

theorem vote_mem : (vote 0).id ∈ votedBlock.ids := List.mem_singleton_self _

end Reference

/-- The vote is found, by the node and by the query. -/
theorem reads_agree_vote : ∃ found : Block × Transaction,
    Reference.reader.getTransaction (Reference.vote 0).id = .ok (some found.2) ∧
    ValidationMethods.getVote
        (Reference.chain.addBlocks Reference.primitives [Reference.votedBlock])
        (Reference.vote 0).id.toHex =
      (ValidationMethods.voteOf found.2).map (ValidationMethods.voteResponse found) := by
  have hid : TxId.fromHex Reference.voteRequest.txId = some (Reference.vote 0).id :=
    TxId.fromHex_toHex _
  have hcomp : Reference.reader.components = some Reference.readerComponents := rfl
  have h := reads_agree (fun _ => Except.ok ()) (Reference.new_genesis 0) [Reference.votedBlock]
    hcomp Reference.blockchain_readerComponents hid
  rw [Reference.addBlocks_votedBlock] at h ⊢
  rcases h with ⟨-, -, hnone, -⟩ | ⟨found, hnode, -, -, -, -, -, -, hvote, -⟩
  · exact absurd Reference.vote_mem
      (hnone _ (Blockchain.mem_extend.mpr (Or.inr rfl)))
  · exact ⟨found, hnode, hvote⟩

theorem Blockchain.placeOf_addBlocks [Hex] {txHash : String}
    (h : c.placeOf txHash ≠ .error (.transactionNotFound txHash)) (bs : List Block) :
    (c.addBlocks P bs).placeOf txHash = c.placeOf txHash := by
  rw [placeOf, placeOf]
  cases hid : txIdOf txHash with
  | error e => rfl
  | ok txId =>
      cases hfound : c.locate txId with
      | none =>
          rw [placeOf, hid, QueryResult.ok_bind, hfound] at h
          exact absurd rfl h
      | some found => rw [QueryResult.ok_bind, QueryResult.ok_bind, locate_addBlocks hfound, hfound]

/-- **An answer stands.**  Whatever blocks are added to a chain that was built by `add_block`,
accepted or refused: a query about a transaction that had any other answer than that there is no
such transaction has the same answer again. -/
theorem answers_kept [Hex] {ι : Type} (toValue : Transaction → Except String ι) {now : Timestamp}
    {genesis : GenesisBlock} {c₀ : Blockchain} (hnew : Blockchain.new P now genesis = .ok c₀)
    (bs more : List Block) (request : ValidationMethods.VerifyVoteRequest) :
    (BlockchainMethods.getTransaction toValue (c₀.addBlocks P bs) request.txId ≠
        .error (.transactionNotFound request.txId) →
      BlockchainMethods.getTransaction toValue (c₀.addBlocks P (bs ++ more)) request.txId =
        BlockchainMethods.getTransaction toValue (c₀.addBlocks P bs) request.txId) ∧
    (ValidationMethods.getVote (c₀.addBlocks P bs) request.txId ≠
        .error (.transactionNotFound request.txId) →
      ValidationMethods.getVote (c₀.addBlocks P (bs ++ more)) request.txId =
        ValidationMethods.getVote (c₀.addBlocks P bs) request.txId) ∧
    (ValidationMethods.verifyVote (c₀.addBlocks P bs) request ≠
        .error (.transactionNotFound request.txId) →
      ValidationMethods.verifyVote (c₀.addBlocks P (bs ++ more)) request =
        ValidationMethods.verifyVote (c₀.addBlocks P bs) request) := by
  have hshape := Blockchain.shape_addBlocks hnew bs
  have hindex := Blockchain.indexed_addBlocks hnew bs
  have hshape' := Blockchain.shape_addBlocks hnew (bs ++ more)
  have hindex' := Blockchain.indexed_addBlocks hnew (bs ++ more)
  have hkept : ∀ {β : Type} (answer : Block × Transaction → QueryResult β),
      ((c₀.addBlocks P bs).placeOf request.txId >>= answer) ≠
        .error (.transactionNotFound request.txId) →
      ((c₀.addBlocks P (bs ++ more)).placeOf request.txId >>= answer) =
        ((c₀.addBlocks P bs).placeOf request.txId >>= answer) := by
    intro β answer h
    rw [Blockchain.addBlocks_append, Blockchain.placeOf_addBlocks]
    intro hnone
    rw [hnone] at h
    exact h rfl
  rw [BlockchainMethods.getTransaction_eq toValue hshape hindex,
    BlockchainMethods.getTransaction_eq toValue hshape' hindex',
    ValidationMethods.getVote_eq hshape hindex, ValidationMethods.getVote_eq hshape' hindex',
    ValidationMethods.verifyVote_eq hshape hindex, ValidationMethods.verifyVote_eq hshape' hindex']
  exact ⟨hkept _, hkept _, hkept _⟩

theorem ValidationMethods.voteOf_map_ne {β : Type} (tx : Transaction) (answer : VoteTransaction → β)
    (hash : String) : (voteOf tx).map answer ≠ .error (.transactionNotFound hash) := by
  rw [voteOf]
  cases tx.txType <;> exact fun h => by cases h

/-- Another block, which is accepted, does not change what is reported of the vote. -/
theorem answers_kept_vote :
    (Reference.chain.addBlocks Reference.primitives
        ([Reference.votedBlock] ++ [Reference.laterBlock])).height = 2 ∧
    ValidationMethods.getVote
        (Reference.chain.addBlocks Reference.primitives
          ([Reference.votedBlock] ++ [Reference.laterBlock]))
        (Reference.vote 0).id.toHex =
      ValidationMethods.getVote
        (Reference.chain.addBlocks Reference.primitives [Reference.votedBlock])
        (Reference.vote 0).id.toHex := by
  refine ⟨by rw [Reference.addBlocks_laterBlock]; rfl, ?_⟩
  refine (answers_kept (fun _ => Except.ok ()) (Reference.new_genesis 0) [Reference.votedBlock]
    [Reference.laterBlock] Reference.voteRequest).2.1 ?_
  have hshape := Blockchain.shape_addBlocks (Reference.new_genesis 0) [Reference.votedBlock]
  have hindex := Blockchain.indexed_addBlocks (Reference.new_genesis 0) [Reference.votedBlock]
  have hplace : (Reference.chain.addBlocks Reference.primitives
      [Reference.votedBlock]).placeOf Reference.voteRequest.txId =
        okOr ((Reference.chain.addBlocks Reference.primitives
          [Reference.votedBlock]).locate (Reference.vote 0).id)
          (.transactionNotFound Reference.voteRequest.txId) :=
    Blockchain.placeOf_of_txId (TxId.fromHex_toHex _)
  rw [ValidationMethods.getVote_eq hshape hindex, hplace]
  cases hfound : (Reference.chain.addBlocks Reference.primitives [Reference.votedBlock]).locate
      (Reference.vote 0).id with
  | none =>
      rw [Blockchain.locate_eq_none, Reference.addBlocks_votedBlock] at hfound
      exact absurd Reference.vote_mem
        (hfound _ (Blockchain.mem_extend.mpr (Or.inr rfl)))
  | some found =>
      rw [QueryResult.okOr_some, QueryResult.ok_bind]
      exact ValidationMethods.voteOf_map_ne found.2 _ _

/-! ## The totals -/

namespace Blockchain

theorem foldlM_heights {β : Type} {visit : β → Block → Result β} (heights : List BlockHeight)
    (hget : ∀ height ∈ heights, c.getBlockByHeight height = .ok c.blocks[height.toNat]?)
    (acc : β) :
    heights.foldlM (c.visitBlock visit) acc =
      (heights.filterMap fun height => c.blocks[height.toNat]?).foldlM visit acc := by
  induction heights generalizing acc with
  | nil => rfl
  | cons height heights ih =>
      obtain ⟨hfirst, hrest⟩ := List.forall_mem_cons.mp hget
      rw [List.foldlM_cons, visitBlock, hfirst]
      cases hblock : c.blocks[height.toNat]? with
      | none =>
          rw [List.filterMap_cons_none (f := fun h : BlockHeight => c.blocks[h.toNat]?) hblock]
          exact ih hrest acc
      | some block =>
          rw [List.filterMap_cons_some (f := fun h : BlockHeight => c.blocks[h.toNat]?) hblock,
            List.foldlM_cons]
          show (visit acc block >>= _) = (visit acc block >>= _)
          cases visit acc block with
          | error e => rfl
          | ok acc' => exact ih hrest acc'

theorem visitBlocks_eq (hshape : Shape P c) (first last : BlockHeight) {β : Type}
    (visit : β → Block → Result β) (acc : β) :
    c.visitBlocks first last visit acc =
      (BlockchainMethods.blocksBetween c first last).foldlM visit acc := by
  rw [visitBlocks, foldlM_heights _ fun height _ => hshape.getBlockByHeight_eq height,
    BlockchainMethods.filterMap_blocks hshape]

theorem blocksBetween_all (hshape : Shape P c) :
    BlockchainMethods.blocksBetween c 0 c.height = c.blocks := by
  rw [← BlockchainMethods.filterMap_blocks hshape, filterMap_allBlocks hshape]

theorem foldlM_count {α : Type} (itemsOf : Block → List α) (blocks : List Block) (n : Nat) :
    blocks.foldlM (fun count block => (.ok (count + UInt64.ofNat (itemsOf block).length) :
        Result UInt64)) (UInt64.ofNat n) =
      .ok (UInt64.ofNat (n + (blocks.flatMap itemsOf).length)) := by
  induction blocks generalizing n with
  | nil => rfl
  | cons block blocks ih =>
      rw [List.foldlM_cons, ← UInt64.ofNat_add, List.flatMap_cons, List.length_append,
        ← Nat.add_assoc]
      exact ih _

end Blockchain

namespace BlockchainMethods

theorem foldl_votes (txs : List Transaction) (n : Nat) :
    txs.foldl (fun count tx => if tx.isVote then count + 1 else count) (UInt64.ofNat n) =
      UInt64.ofNat n + UInt64.ofNat (txs.filter Transaction.isVote).length := by
  induction txs generalizing n with
  | nil => simp
  | cons tx txs ih =>
      rw [List.foldl_cons, List.filter_cons]
      split
      · have hone : UInt64.ofNat n + 1 = UInt64.ofNat (n + 1) := (UInt64.ofNat_add n 1).symm
        rw [hone, ih, List.length_cons, ← UInt64.ofNat_add, ← UInt64.ofNat_add]
        congr 1
        omega
      · exact ih n

theorem countTotalTransactions_eq (hshape : Shape P c) :
    countTotalTransactions c = .ok (UInt64.ofNat c.getAllTransactions.length) := by
  have h := Blockchain.foldlM_count Block.transactions c.blocks 0
  rw [Nat.zero_add] at h
  rw [countTotalTransactions, Blockchain.visitBlocks_eq hshape, Blockchain.blocksBetween_all hshape]
  exact h

theorem countTotalVotes_eq (hshape : Shape P c) :
    countTotalVotes c =
      .ok (UInt64.ofNat (c.getAllTransactions.filter Transaction.isVote).length) := by
  have h := Blockchain.foldlM_count
    (fun block => block.transactions.filter Transaction.isVote) c.blocks 0
  rw [Nat.zero_add, ← List.filter_flatMap] at h
  rw [countTotalVotes, Blockchain.visitBlocks_eq hshape, Blockchain.blocksBetween_all hshape,
    Blockchain.getAllTransactions]
  refine Eq.trans ?_ h
  congr 1
  funext count block
  have hvotes := foldl_votes block.transactions count.toNat
  rw [UInt64.ofNat_toNat] at hvotes
  rw [hvotes]

end BlockchainMethods

/-- **The totals agree exactly if no id repeats.**  In every chain that is built by `add_block`,
with fewer transactions than a word counts to: `chain_info` reports the number of the
transactions and the number of the votes among them, both by walking through all blocks; the
statistics of the chain report one block more than the height, and the total of the index, which
is the other total exactly if no two transactions have one id. -/
theorem totals_agree_iff [Hex] {now : Timestamp} {genesis : GenesisBlock} {c₀ : Blockchain}
    (hnew : Blockchain.new P now genesis = .ok c₀) (bs : List Block)
    (hfits : (c₀.addBlocks P bs).getAllTransactions.length < UInt64.size) :
    ∃ info, BlockchainMethods.chainInfo (c₀.addBlocks P bs) = .ok info ∧
      info.totalTransactions.toNat = (c₀.addBlocks P bs).getAllTransactions.length ∧
      info.totalVotes.toNat =
        ((c₀.addBlocks P bs).getAllTransactions.filter Transaction.isVote).length ∧
      (c₀.addBlocks P bs).getStats.totalBlocks = info.height + 1 ∧
      ((c₀.addBlocks P bs).getStats.totalTransactions = info.totalTransactions.toNat ↔
        (c₀.addBlocks P bs).ids.Nodup) := by
  have hshape := Blockchain.shape_addBlocks hnew bs
  have hindex := Blockchain.indexed_addBlocks hnew bs
  have hvotes := List.length_filter_le Transaction.isVote (c₀.addBlocks P bs).getAllTransactions
  rw [BlockchainMethods.chainInfo, BlockchainMethods.countTotalTransactions_eq hshape,
    BlockchainMethods.countTotalVotes_eq hshape]
  have htotal : (UInt64.ofNat (c₀.addBlocks P bs).getAllTransactions.length).toNat =
      (c₀.addBlocks P bs).getAllTransactions.length := UInt64.toNat_ofNat_of_lt' hfits
  refine ⟨_, rfl, htotal, UInt64.toNat_ofNat_of_lt' (by omega), ?_, ?_⟩
  · show UInt64.ofNat (c₀.addBlocks P bs).blocks.length = (c₀.addBlocks P bs).height + 1
    rw [← hshape.toNat_succ_height, UInt64.ofNat_toNat]
  · show (c₀.addBlocks P bs).transactionCount = (UInt64.ofNat _).toNat ↔ _
    rw [htotal]
    exact Blockchain.transactionCount_eq_iff hindex

/-- One registration and one vote, and two in the index. -/
theorem totals_agree_iff_vote : ∃ info,
    BlockchainMethods.chainInfo
      (Reference.chain.addBlocks Reference.primitives [Reference.votedBlock]) = .ok info ∧
    info.totalTransactions.toNat = 2 ∧ info.totalVotes.toNat = 1 := by
  have hall : (Reference.chain.addBlocks Reference.primitives
      [Reference.votedBlock]).getAllTransactions.length = 2 := by
    rw [Reference.addBlocks_votedBlock]
    rfl
  have hvotes : ((Reference.chain.addBlocks Reference.primitives
      [Reference.votedBlock]).getAllTransactions.filter Transaction.isVote).length = 1 := by
    rw [Reference.addBlocks_votedBlock]
    rfl
  obtain ⟨info, hinfo, htotal, hcount, -⟩ := totals_agree_iff (Reference.new_genesis 0)
    [Reference.votedBlock] (by rw [hall]; decide)
  exact ⟨info, hinfo, htotal.trans hall, hcount.trans hvotes⟩

end VotingChain
