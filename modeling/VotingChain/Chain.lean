/-
# `VotingChain.Chain` — the blockchain as a state machine

The model of `blockchain-core/src/chain.rs`: a vector of blocks, two indexes
over it and a height counter, changed by `add_block` and `prune_old_blocks` and
read by the lookups.

The vector is never empty: it is made with the genesis block in it, grows, and
keeps its first element when it is pruned.  `Blockchain` carries that as a
field, which is what the source's `expect` in `latest_block` relies on.

`addBlock` is written in the order of the source, every check before every
write.  `addBlock_cases` says once what a call does — it is refused and nothing
changes, or the block is admitted and the chain is `extend`ed by it, or the
vector is full and the push panics — and everything later is about `Admits` and
`extend`.
-/
import VotingChain.Genesis
import VotingChain.Lib.Maps
import VotingChain.Lib.Runs

namespace VotingChain

/-- `HashMap<BlockHash, BlockHeight>`. -/
abbrev HashIndex := Finmap fun _ : BlockHash => BlockHeight

/-- `HashMap<TxId, BlockHeight>`. -/
abbrev TxIndex := Finmap fun _ : TxId => BlockHeight

/-- The blockchain structure. -/
structure Blockchain where
  blocks : List Block
  hashToHeight : HashIndex
  txToBlock : TxIndex
  height : BlockHeight
  genesisHash : BlockHash
  blocks_ne : blocks ≠ []

/-- Index transactions under a height, in order. -/
def TxIndex.insertAll (index : TxIndex) (txs : List Transaction) (height : BlockHeight) : TxIndex :=
  txs.foldl (fun m tx => m.insert tx.id height) index

/-- Drop transactions from the index, in order. -/
def TxIndex.eraseAll (index : TxIndex) (txs : List Transaction) : TxIndex :=
  txs.foldl (fun m tx => m.erase tx.id) index

theorem TxIndex.lookup_insertAll (index : TxIndex) (txs : List Transaction) (height : BlockHeight)
    (t : TxId) : (index.insertAll txs height).lookup t =
      if t ∈ txs.map Transaction.id then some height else index.lookup t :=
  Finmap.lookup_foldl_insert Transaction.id height t txs index

theorem TxIndex.lookup_eraseAll (index : TxIndex) (txs : List Transaction) (t : TxId) :
    (index.eraseAll txs).lookup t =
      if t ∈ txs.map Transaction.id then none else index.lookup t :=
  Finmap.lookup_foldl_erase Transaction.id t txs index

/-- `&xs[first..=last]`: panics when the range leaves the vector or its end does
not fit a machine word. -/
def sliceInclusive {α : Type} (xs : List α) (first last : Nat) : Result (List α) :=
  if last + 1 < 2 ^ 64 ∧ first ≤ last + 1 ∧ last < xs.length then
    .ok ((xs.take (last + 1)).drop first)
  else .error .panicked

namespace Blockchain
variable (P : Primitives)

/-- Create a new blockchain with genesis block. -/
def new (now : Timestamp) (genesis : GenesisBlock) : Result Blockchain := do
  let genesisBlock ← genesis.createBlock P now
  return {
    blocks := [genesisBlock]
    hashToHeight := (∅ : HashIndex).insert genesisBlock.hash 0
    txToBlock := (∅ : TxIndex).insertAll genesisBlock.transactions 0
    height := 0
    genesisHash := genesisBlock.hash
    blocks_ne := List.cons_ne_nil _ _ }

/-- The chain of a genesis block alone. -/
def ofGenesis (b : Block) : Blockchain where
  blocks := [b]
  hashToHeight := (∅ : HashIndex).insert b.hash 0
  txToBlock := (∅ : TxIndex).insertAll b.transactions 0
  height := 0
  genesisHash := b.hash
  blocks_ne := List.cons_ne_nil _ _

variable {P} in
theorem new_eq_ok {now : Timestamp} {g : GenesisBlock} {c : Blockchain} :
    new P now g = .ok c ↔ ∃ b, g.createBlock P now = .ok b ∧ c = ofGenesis b := by
  simp only [new, bind_eq_ok]
  refine exists_congr fun b => and_congr_right fun _ => ?_
  exact ⟨fun h => (Except.ok.inj h).symm, fun h => congrArg Except.ok h.symm⟩

variable {P} in
theorem new_clock {now : Timestamp} {g : GenesisBlock} {c : Blockchain} (h : new P now g = .ok c)
    (now' : Timestamp) : new P now' g = .ok c := by
  obtain ⟨b, hb, hc⟩ := new_eq_ok.mp h
  refine new_eq_ok.mpr ⟨b, ?_, hc⟩
  rw [GenesisBlock.createBlock_eq_ok] at hb ⊢
  exact hb

theorem exists_new (now : Timestamp) {g : GenesisBlock} (h : g.validators ≠ []) :
    ∃ c, new P now g = .ok c := by
  obtain ⟨b, hb⟩ := GenesisBlock.exists_createBlock P h
  exact ⟨ofGenesis b, new_eq_ok.mpr ⟨b, hb now, rfl⟩⟩

/-! ## Lookups -/

/-- Get the latest block. -/
def latestBlock (c : Blockchain) : Block := c.blocks.getLast c.blocks_ne

/-- Get block by height: indexes the vector with the height. -/
def getBlockByHeight (c : Blockchain) (height : BlockHeight) : Result (Option Block) :=
  if height ≤ c.height then (indexVec c.blocks height.toNat).map some else .ok none

/-- Get block by hash. -/
def getBlockByHash (c : Blockchain) (hash : BlockHash) : Result (Option Block) :=
  match c.hashToHeight.lookup hash with
  | some height => c.getBlockByHeight height
  | none => .ok none

/-- Get transaction by ID. -/
def getTransaction (c : Blockchain) (txId : TxId) : Result (Option Transaction) :=
  match c.txToBlock.lookup txId with
  | some height => (c.getBlockByHeight height).map fun block => block.bind (·.getTransaction txId)
  | none => .ok none

/-- Get the block height for a transaction. -/
def getTransactionBlockHeight (c : Blockchain) (txId : TxId) : Option BlockHeight :=
  c.txToBlock.lookup txId

/-- Check if transaction exists in blockchain. -/
def containsTransaction (c : Blockchain) (txId : TxId) : Bool := (c.txToBlock.lookup txId).isSome

/-- Get block at specific height: searches the vector for the height. -/
def getBlockAtHeight (c : Blockchain) (height : BlockHeight) : Result Block :=
  match c.blocks.find? fun b => b.header.height = height with
  | some b => .ok b
  | none => fail (.blockNotFound (toString height))

/-- Get all blocks in range (inclusive). -/
def getBlocksRange (c : Blockchain) (first last : BlockHeight) : Result (List Block) :=
  if last < first ∨ c.height < last then .ok []
  else sliceInclusive c.blocks first.toNat last.toNat

/-- Get all transactions in blockchain. -/
def getAllTransactions (c : Blockchain) : List Transaction := c.blocks.flatMap Block.transactions

/-- Count total transactions in blockchain: the size of the index. -/
def transactionCount (c : Blockchain) : Nat := c.txToBlock.keys.card

/-- Get the best (latest) block. -/
def getBestBlock (c : Blockchain) : Result Block :=
  match c.blocks.getLast? with
  | some b => .ok b
  | none => fail (.blockNotFound "No blocks in chain")

/-- The blocks after the first, each checked against its predecessor. -/
def verifyLinks [Hex] : List Block → Result Unit
  | previous :: current :: rest => do
      current.validate P
      current.validateChainLink previous
      verifyLinks (current :: rest)
  | _ => .ok ()

/-- Verify the entire blockchain integrity. -/
def verify [Hex] (c : Blockchain) : Result Unit := do
  ensure (!c.blocks.isEmpty) (.invalidBlock "Blockchain is empty")
  let genesis ← indexVec c.blocks 0
  ensure (decide (genesis.height = 0)) (.genesisError "Genesis height must be 0")
  ensure (decide (genesis.previousHash = BlockHash.zero))
    (.genesisError "Genesis must have zero previous hash")
  genesis.validate P
  verifyLinks P c.blocks

/-! ## Adding a block -/

/-- No transaction of the block is in the index. -/
def checkDuplicates [Hex] (c : Blockchain) (txs : List Transaction) : Result Unit :=
  forEach (fun tx => ensure (!c.containsTransaction tx.id) (.duplicateTransaction tx.id.toHex)) txs

/-- Add a new block to the chain. -/
def addBlock [Hex] (block : Block) : Exec Blockchain Unit := do
  Exec.lift (block.validate P)
  let latest := (← get).latestBlock
  Exec.lift (block.validateChainLink latest)
  Exec.lift ((← get).checkDuplicates block.transactions)
  modify fun c => { c with hashToHeight := c.hashToHeight.insert block.hash block.height }
  modify fun c => { c with txToBlock := c.txToBlock.insertAll block.transactions block.height }
  Exec.lift (reserveOne (← get).blocks)
  modify fun c =>
    { c with
      blocks := c.blocks ++ [block]
      blocks_ne := List.append_ne_nil_of_right_ne_nil _ (List.cons_ne_nil _ _) }
  modify fun c => { c with height := block.height }

/-! ## Pruning -/

/-- What the pruning loop has built so far: the kept blocks after the genesis
block, the two indexes, and the number of blocks dropped. -/
structure PruneState where
  kept : List Block
  hashToHeight : HashIndex
  txToBlock : TxIndex
  prunedCount : Nat

/-- One block of the pruning loop. -/
def pruneStep (beforeTimestamp : Timestamp) (s : PruneState) (block : Block) : PruneState :=
  if beforeTimestamp ≤ block.timestamp then { s with kept := s.kept ++ [block] }
  else
    { s with
      hashToHeight := s.hashToHeight.erase block.hash
      txToBlock := s.txToBlock.eraseAll block.transactions
      prunedCount := s.prunedCount + 1 }

/-- Prune blocks older than specified timestamp (keeping genesis).  The height
stays what it was. -/
def pruneOldBlocks (beforeTimestamp : Timestamp) : Exec Blockchain Nat := do
  let c ← get
  let genesis ← Exec.lift (indexVec c.blocks 0)
  let s := (c.blocks.drop 1).foldl (pruneStep beforeTimestamp) ⟨[], c.hashToHeight, c.txToBlock, 0⟩
  modify fun c =>
    { c with
      blocks := genesis :: s.kept
      hashToHeight := s.hashToHeight
      txToBlock := s.txToBlock
      blocks_ne := List.cons_ne_nil _ _ }
  return s.prunedCount

/-! ## What a call of `addBlock` does -/

/-- `b` passes every check `addBlock` makes on the chain `c`, and there is room
for it in the vector. -/
structure Admits (c : Blockchain) (b : Block) : Prop where
  valid : b.Valid P
  follows : Block.Follows c.latestBlock b
  fresh : ∀ tx ∈ b.transactions, tx.id ∉ c.txToBlock
  room : c.blocks.length < maxVecLength

/-- `c` with `b` appended and indexed. -/
def extend (c : Blockchain) (b : Block) : Blockchain where
  blocks := c.blocks ++ [b]
  hashToHeight := c.hashToHeight.insert b.hash b.height
  txToBlock := c.txToBlock.insertAll b.transactions b.height
  height := b.height
  genesisHash := c.genesisHash
  blocks_ne := List.append_ne_nil_of_right_ne_nil _ (List.cons_ne_nil _ _)

theorem getElem?_latestBlock (c : Blockchain) :
    c.blocks[c.blocks.length - 1]? = some c.latestBlock := by
  rw [← List.getLast?_eq_getElem?, List.getLast?_eq_some_getLast c.blocks_ne]
  rfl

theorem getElem?_extend {c : Blockchain} {b x : Block} {i : Nat} :
    (c.extend b).blocks[i]? = some x ↔ c.blocks[i]? = some x ∨ (i = c.blocks.length ∧ b = x) := by
  rw [extend, List.getElem?_append]
  split
  · next hlt => simp [Nat.ne_of_lt hlt]
  · next hge =>
      rw [List.getElem?_eq_none (Nat.le_of_not_lt hge), List.getElem?_singleton]
      split <;> simp <;> omega

theorem mem_extend {c : Blockchain} {b x : Block} :
    x ∈ (c.extend b).blocks ↔ x ∈ c.blocks ∨ x = b := by
  rw [extend, List.mem_append, List.mem_singleton]

theorem tail_extend (c : Blockchain) (b : Block) :
    (c.extend b).blocks.tail = c.blocks.tail ++ [b] :=
  List.tail_append_of_ne_nil c.blocks_ne

theorem lookup_tx_extend (c : Blockchain) (b : Block) (t : TxId) :
    (c.extend b).txToBlock.lookup t =
      if t ∈ b.ids then some b.height else c.txToBlock.lookup t :=
  TxIndex.lookup_insertAll c.txToBlock b.transactions b.height t

theorem mem_tx_extend {c : Blockchain} {b : Block} {t : TxId} :
    t ∈ (c.extend b).txToBlock ↔ t ∈ b.ids ∨ t ∈ c.txToBlock := by
  rw [← Finmap.lookup_isSome, lookup_tx_extend, ← Finmap.lookup_isSome]
  split
  · next ht => simp [ht]
  · next ht => simp [ht]

variable {P}

theorem checkDuplicates_eq_ok [Hex] {c : Blockchain} {txs : List Transaction} {u : Unit} :
    c.checkDuplicates txs = .ok u ↔ ∀ tx ∈ txs, tx.id ∉ c.txToBlock := by
  simp only [checkDuplicates, forEach_eq_ok, ensure_eq_ok, containsTransaction]
  refine forall₂_congr fun tx _ => ?_
  rw [← Finmap.lookup_isSome]
  simp

/-- **What a call of `addBlock` does.** -/
theorem addBlock_cases [Hex] (c : Blockchain) (b : Block) :
    (Admits P c b ∧ (addBlock P b).exec c = (.ok (), c.extend b)) ∨
    (¬ Admits P c b ∧ ∃ e, (addBlock P b).exec c = (.error e, c)) ∨
    (¬ Admits P c b ∧ ((addBlock P b).exec c).1 = .error .panicked) := by
  simp only [addBlock, Exec.exec_lift_bind]
  cases hvalid : b.validate P with
  | error e =>
      refine Or.inr (Or.inl ⟨?_, e, rfl⟩)
      intro h
      rw [(Block.validate_eq_ok P (u := ())).mpr h.valid] at hvalid
      exact absurd hvalid (by simp)
  | ok _ =>
      simp only [Exec.exec_get_bind, Exec.exec_lift_bind]
      cases hlink : b.validateChainLink c.latestBlock with
      | error e =>
          refine Or.inr (Or.inl ⟨?_, e, rfl⟩)
          intro h
          rw [(Block.validateChainLink_eq_ok (u := ())).mpr h.follows] at hlink
          exact absurd hlink (by simp)
      | ok _ =>
          cases hdup : c.checkDuplicates b.transactions with
          | error e =>
              refine Or.inr (Or.inl ⟨?_, e, rfl⟩)
              intro h
              rw [(checkDuplicates_eq_ok (u := ())).mpr h.fresh] at hdup
              exact absurd hdup (by simp)
          | ok _ =>
              -- the indexes are written before the push, so a panic loses them
              simp only [Exec.exec_modify_bind, Exec.exec_get_bind, Exec.exec_lift_bind, reserveOne]
              by_cases hroom : c.blocks.length < maxVecLength
              · refine Or.inl ⟨⟨(Block.validate_eq_ok P).mp hvalid,
                  Block.validateChainLink_eq_ok.mp hlink, checkDuplicates_eq_ok.mp hdup, hroom⟩, ?_⟩
                rw [if_pos hroom]
                rfl
              · refine Or.inr (Or.inr ⟨fun h => hroom h.room, ?_⟩)
                rw [if_neg hroom]

theorem addBlock_eq_ok [Hex] {c : Blockchain} {b : Block} :
    ((addBlock P b).exec c).1 = .ok () ↔ Admits P c b := by
  obtain ⟨h, hexec⟩ | ⟨h, e, hexec⟩ | ⟨h, hexec⟩ := addBlock_cases (P := P) c b
  · simp [h, hexec]
  · simp [h, hexec]
  · simp [h, hexec]

theorem addBlock_exec_of_admits [Hex] {c : Blockchain} {b : Block} (h : Admits P c b) :
    (addBlock P b).exec c = (.ok (), c.extend b) := by
  obtain ⟨-, hexec⟩ | ⟨hnot, -⟩ | ⟨hnot, -⟩ := addBlock_cases (P := P) c b
  · exact hexec
  · exact absurd h hnot
  · exact absurd h hnot

/-- **What a caller does with `addBlock`**, where the chain is a part of its object:
it goes on with the extended chain put back, or stops where it was, or panics. -/
theorem on_addBlock_cases [Hex] {σ β : Type} {c : Blockchain} {put : Blockchain → σ → σ} {s : σ}
    (hput : put c s = s) (b : Block) (rest : Unit → Exec σ β) :
    (Admits P c b ∧
      (Exec.on c put (addBlock P b) >>= rest).exec s = (rest ()).exec (put (c.extend b) s)) ∨
    (¬ Admits P c b ∧ ∃ e, (Exec.on c put (addBlock P b) >>= rest).exec s = (.error e, s)) ∨
    (¬ Admits P c b ∧
      ((Exec.on c put (addBlock P b) >>= rest).exec s).1 = .error .panicked) := by
  rw [Exec.exec_on_bind]
  rcases addBlock_cases (P := P) c b with ⟨hadm, hexec⟩ | ⟨hadm, e, hexec⟩ | ⟨hadm, hexec⟩
  · rw [hexec]
    exact Or.inl ⟨hadm, rfl⟩
  · rw [hexec]
    simp only [hput]
    exact Or.inr (Or.inl ⟨hadm, e, rfl⟩)
  · rcases hr : (addBlock P b).exec c with ⟨r, c'⟩
    rw [hr] at hexec
    obtain rfl : r = .error .panicked := hexec
    exact Or.inr (Or.inr ⟨hadm, rfl⟩)

/-- **A returned error leaves the chain as it was.** -/
theorem addBlock_of_err [Hex] {c : Blockchain} {b : Block} {e : VotingError}
    (h : ((addBlock P b).exec c).1 = .error (.err e)) : ((addBlock P b).exec c).2 = c := by
  obtain ⟨-, hexec⟩ | ⟨-, f, hexec⟩ | ⟨-, hexec⟩ := addBlock_cases (P := P) c b
  · simp [hexec] at h
  · rw [hexec]
  · simp [hexec] at h

theorem next_addBlock_of_admits [Hex] {c : Blockchain} {b : Block} (h : Admits P c b) :
    (addBlock P b).next c = c.extend b :=
  Exec.next_of_ok (addBlock_exec_of_admits h)

theorem next_addBlock_of_not_admits [Hex] {c : Blockchain} {b : Block} (h : ¬ Admits P c b) :
    (addBlock P b).next c = c := by
  obtain ⟨hadm, -⟩ | ⟨-, e, hexec⟩ | ⟨-, hexec⟩ := addBlock_cases (P := P) c b
  · exact absurd hadm h
  · exact Exec.next_of_error hexec
  · exact Exec.next_of_panicked hexec

/-- What holds of a chain, and of the chain extended if the block is admitted,
holds after the call. -/
theorem next_addBlock_preserves [Hex] {I : Blockchain → Prop} {c : Blockchain} {b : Block} (h : I c)
    (hextend : Admits P c b → I (c.extend b)) : I ((addBlock P b).next c) := by
  by_cases hadm : Admits P c b
  · rw [next_addBlock_of_admits hadm]
    exact hextend hadm
  · rwa [next_addBlock_of_not_admits hadm]

theorem Admits.addSignature {c : Blockchain} {b : Block} (h : Admits P c b) (validator : PublicKey)
    (signature : Signature) : Admits P c (b.addSignature validator signature) where
  valid := (Block.valid_signatures P _).mpr h.valid
  follows := ⟨h.follows.height, h.follows.previousHash, h.follows.timestamp⟩
  fresh := h.fresh
  room := h.room

/-! ## A block that fits -/

variable (P) in
/-- A block built on the chain: it takes over the timestamp of the latest block. -/
def nextBlock (c : Blockchain) (txs : List Transaction) (validator : PublicKey) : Block :=
  Block.new P c.latestBlock.timestamp (c.latestBlock.height + 1) c.latestBlock.hash txs validator

theorem admits_nextBlock {c : Blockchain} {txs : List Transaction} (validator : PublicKey)
    (hvalid : ∀ tx ∈ txs, tx.validate P = .ok ()) (hfresh : ∀ tx ∈ txs, tx.id ∉ c.txToBlock)
    (hroom : c.blocks.length < maxVecLength) : Admits P c (c.nextBlock P txs validator) where
  valid := Block.valid_new P hvalid
  follows := ⟨rfl, rfl, UInt64.le_refl _⟩
  fresh := hfresh
  room := hroom

end Blockchain

end VotingChain
