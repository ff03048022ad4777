/-
# `VotingChain.LightNode` — headers and proofs instead of blocks

The model of `node/src/light_node.rs`: `initialize`, on which see `LightGenesis`, and
`verify_transaction`.  A light node holds headers; a server hands it a transaction and
a Merkle proof, and the node checks the proof against the root in the header.

What it does not check is that the transaction has anything to do with the proof:
neither is the transaction's id compared with the leaf the proof starts from, nor
its contents with its id.  So any transaction passes with a proof of another one
(`verifyTransaction_other_vote`).  With the two comparisons made the call would be
sound (`verifyTransaction_sound_iff`, second part): a leaf of the tree is the hash of
more than 64 bytes and an inner node the hash of exactly 64, so a proof cannot
start or end inside the tree.
-/
import VotingChain.Reference

namespace VotingChain

/-- Lightweight block header for verification. -/
structure LightHeader where
  height : BlockHeight
  hash : BlockHash
  previousHash : BlockHash
  transactionsRoot : BlockHash
  timestamp : Timestamp
  validator : PublicKey
  deriving DecidableEq

def LightHeader.fromBlock (block : Block) : LightHeader where
  height := block.header.height
  hash := block.header.hash
  previousHash := block.header.previousHash
  transactionsRoot := block.header.transactionsRoot
  timestamp := block.header.timestamp
  validator := block.header.validator

/-- Check that a header follows the previous one, if there is one. -/
def LightHeader.validate [Hex] (header : LightHeader) (previous : Option LightHeader) :
    Result Unit :=
  match previous with
  | none => .ok ()
  | some prev => do
      ensure (decide (header.height = prev.height + 1))
        (.blockHeightMismatch (prev.height + 1) header.height)
      ensure (decide (header.previousHash = prev.hash))
        (.invalidPreviousHash ("Expected " ++ prev.hash.toHex ++ ", got " ++
          header.previousHash.toHex))

/-- Verified transaction with proof. -/
structure VerifiedTransaction where
  transaction : Transaction
  blockHeight : BlockHeight
  blockHash : BlockHash
  merkleProof : List BlockHash
  verifiedAt : Timestamp
  deriving DecidableEq

/-- Light node - verifies block headers and specific transactions without full
blockchain. -/
structure LightNode where
  blockHeaders : Finmap fun _ : BlockHeight => LightHeader
  verifiedTransactions : Finmap fun _ : TxId => VerifiedTransaction
  trustedValidators : List PublicKey
  transactionsProcessed : UInt64

namespace LightNode
variable (P : Primitives)

/-- A node that has not been started. -/
def new : LightNode := ⟨∅, ∅, [], 0⟩

/-- The genesis block as `initialize` builds it: without transactions, and with the
time of the clock. -/
def genesisBlockAt (now : Timestamp) (genesis : GenesisBlock) : Block :=
  Block.new P now 0 BlockHash.zero []
    (genesis.validators.head?.getD ⟨List.Vector.replicate 32 0⟩)

/-- `initialize`: set the node up from the genesis configuration of its genesis
file, if it has one; `now` is what the clock says. -/
def initializeNode (now : Timestamp) (genesis : Option GenesisBlock) : Exec LightNode Unit :=
  match genesis with
  | none => return ()
  | some genesis => do
      Exec.lift genesis.validate
      modify fun node =>
        { node with trustedValidators := node.trustedValidators ++ genesis.validators }
      let header := LightHeader.fromBlock (genesisBlockAt P now genesis)
      modify fun node => { node with blockHeaders := node.blockHeaders.insert 0 header }

/-- The header of a height. -/
def getHeader (node : LightNode) (height : BlockHeight) : Option LightHeader :=
  node.blockHeaders.lookup height

/-- Check a transaction against the header of a height; `now` is what the clock
says. -/
def verifyTransaction (now : Timestamp) (tx : Transaction) (blockHeight : BlockHeight)
    (merkleProof : MerkleProof) : Exec LightNode Bool := do
  match (← get).blockHeaders.lookup blockHeight with
  | none => Exec.lift (fail (.blockNotFound (toString blockHeight)))
  | some header =>
    if !merkleProof.verify P then return false
    if merkleProof.root ≠ header.transactionsRoot then return false
    let verified : VerifiedTransaction :=
      { transaction := tx
        blockHeight
        blockHash := header.hash
        merkleProof := []
        verifiedAt := now }
    modify fun node =>
      { node with verifiedTransactions := node.verifiedTransactions.insert tx.id verified }
    modify fun node => { node with transactionsProcessed := node.transactionsProcessed + 1 }
    return true

variable {P}

theorem verifyTransaction_eq_true {now : Timestamp} {tx : Transaction} {blockHeight : BlockHeight}
    {proof : MerkleProof} {node : LightNode} {header : LightHeader}
    (hstored : node.blockHeaders.lookup blockHeight = some header) :
    ((verifyTransaction P now tx blockHeight proof).exec node).1 = .ok true ↔
      proof.verify P = true ∧ proof.root = header.transactionsRoot := by
  simp only [verifyTransaction, Exec.exec_get_bind, hstored]
  by_cases hverify : proof.verify P = true
  · by_cases hroot : proof.root = header.transactionsRoot
    · refine iff_of_true ?_ ⟨hverify, hroot⟩
      simp [hverify, hroot]
      rfl
    · simp [hverify, hroot]
  · simp [hverify]

end LightNode

/-! ## What a proof shows -/

section
variable {P : Primitives}

/-- A transaction is hashed from more bytes than a pair of digests. -/
theorem serializeForHashing_ne_pairInput (hlen : ∀ t, 48 < (P.bincode t).length) (tx : Transaction)
    {x : Bytes} (hx : x.length = 64) : tx.serializeForHashing P ≠ x := by
  intro h
  have := hlen tx.txType
  rw [← h, Transaction.length_serializeForHashing] at hx
  omega

/-- The assumptions on the primitives, for a block, a transaction and a proof: the
hash function does not confuse the strings that are hashed for them, `bincode` not
the transaction types among them, and what `bincode` writes is longer than 48
bytes, as a signature alone is. -/
structure NoConfusion (P : Primitives) (b : Block) (tx : Transaction) (proof : MerkleProof) :
    Prop where
  hash : Set.InjOn P.blake2b256 {x | x ∈ b.hashInputs P ∨ x = tx.serializeForHashing P ∨
    x ∈ MerkleTree.proofInputs P proof}
  bincode : Set.InjOn P.bincode {t | t = tx.txType ∨ ∃ tx' ∈ b.transactions, t = tx'.txType}
  length : ∀ t, 48 < (P.bincode t).length

namespace NoConfusion
variable {b : Block} {tx : Transaction} {proof : MerkleProof}

/-- A transaction whose id is the hash of its contents and the id of a transaction
of the block is that transaction. -/
theorem mem_of_id_mem (h : NoConfusion P b tx proof) (hvalid : b.Valid P)
    (hid : tx.id = tx.calculateId P) (hmem : tx.id ∈ b.ids) : tx ∈ b.transactions := by
  obtain ⟨tx', htx', heq⟩ := List.mem_map.mp hmem
  have hid' := Transaction.id_of_validate (hvalid.transactions tx' htx')
  have hsame : tx' = tx := Transaction.eq_of_id_eq h.hash h.bincode hid' hid
    (Or.inl (Block.tx_mem_hashInputs P htx')) (Or.inr (Or.inl rfl)) (Or.inr ⟨tx', htx', rfl⟩)
    (Or.inl rfl) heq
  exact hsame ▸ htx'

/-- A proof that checks against the root of the block and starts from a transaction
id starts from the id of a transaction of the block. -/
theorem id_mem_of_verify (h : NoConfusion P b tx proof) (hvalid : b.Valid P)
    (hne : b.transactions ≠ []) (hid : tx.id = tx.calculateId P)
    (hleaf : proof.leafHash.bytes = tx.id.bytes) (hverify : proof.verify P = true)
    (hroot : proof.root = b.header.transactionsRoot) : tx.id ∈ b.ids := by
  have hroot' : proof.root = (MerkleTree.new P (Block.txHashes b.transactions)).root := by
    rw [hroot, hvalid.root, Block.calculateTransactionsRoot, if_neg (by simpa using hne)]
  have hnonempty : Block.txHashes b.transactions ≠ [] := by simpa [Block.txHashes] using hne
  rcases MerkleTree.leaf_of_verifyProof h.hash hnonempty
      (fun x hx => Or.inl (Block.tree_mem_hashInputs P hx)) (fun x hx => Or.inr (Or.inr hx))
      hverify hroot' with hmem | ⟨x, hx, hinner⟩ | ⟨x, hx, hinner⟩
  · obtain ⟨tx', htx', heq⟩ := List.mem_map.mp hmem
    refine List.mem_map.mpr ⟨tx', htx', TxId.ext ?_⟩
    rw [← hleaf, ← heq]
  · -- the leaf would be an inner node of the tree
    have hdigest : P.blake2b256 (tx.serializeForHashing P) = P.blake2b256 x := by
      have := congrArg TxId.bytes hid
      rw [← hleaf, hinner] at this
      exact this.symm
    have hstring := h.hash (Or.inr (Or.inl rfl)) (Or.inl (Block.tree_mem_hashInputs P hx)) hdigest
    obtain ⟨p, -, rfl⟩ := List.mem_map.mp hx
    exact absurd hstring
      (serializeForHashing_ne_pairInput h.length tx (MerkleTree.length_pairInput p))
  · -- a transaction of the block would be a node of the path
    obtain ⟨tx', htx', heq⟩ := List.mem_map.mp hinner
    have hid' := Transaction.id_of_validate (hvalid.transactions tx' htx')
    have hdigest : P.blake2b256 (tx'.serializeForHashing P) = P.blake2b256 x :=
      (congrArg TxId.bytes hid').symm.trans (congrArg BlockHash.bytes heq)
    have hstring := h.hash (Or.inl (Block.tx_mem_hashInputs P htx')) (Or.inr (Or.inr hx)) hdigest
    obtain ⟨p, -, rfl⟩ := List.mem_map.mp hx
    exact absurd hstring
      (serializeForHashing_ne_pairInput h.length tx' (MerkleTree.length_pairInput p))

end NoConfusion

/-- **What a light node can rely on.**  Take a light node whose header at a height is
that of a valid block with transactions.  A call that returns `Ok(true)` is right
about its transaction exactly if the proof does not check against the header, or
the transaction has the id of one in the block and contents that hash to that id.
It is right in particular whenever the contents hash to the id and the proof
starts from that id, which the call does not check. -/
theorem verifyTransaction_sound_iff [Hex] {node : LightNode} {blockHeight : BlockHeight} {b : Block}
    (hstored : node.blockHeaders.lookup blockHeight = some (LightHeader.fromBlock b))
    (hvalid : b.validate P = .ok ()) (hne : b.transactions ≠ []) (now : Timestamp)
    {tx : Transaction} {proof : MerkleProof} (h : NoConfusion P b tx proof) :
    ((((LightNode.verifyTransaction P now tx blockHeight proof).exec node).1 = .ok true →
        tx ∈ b.transactions) ↔
      (proof.verify P = false ∨ proof.root ≠ b.header.transactionsRoot ∨
        (tx.id = tx.calculateId P ∧ tx.id ∈ b.ids))) ∧
    (tx.id = tx.calculateId P → proof.leafHash.bytes = tx.id.bytes →
      ((LightNode.verifyTransaction P now tx blockHeight proof).exec node).1 = .ok true →
        tx ∈ b.transactions) := by
  have hb := (Block.validate_eq_ok P).mp hvalid
  rw [LightNode.verifyTransaction_eq_true hstored]
  refine ⟨⟨?_, ?_⟩, ?_⟩
  · intro hsound
    by_cases hverify : proof.verify P = true
    · by_cases hroot : proof.root = b.header.transactionsRoot
      · have hmem := hsound ⟨hverify, hroot⟩
        exact Or.inr (Or.inr ⟨Transaction.id_of_validate (hb.transactions tx hmem),
          List.mem_map_of_mem hmem⟩)
      · exact Or.inr (Or.inl hroot)
    · exact Or.inl (Bool.eq_false_iff.mpr hverify)
  · rintro (hverify | hroot | ⟨hid, hmem⟩) ⟨hverify', hroot'⟩
    · rw [hverify] at hverify'
      cases hverify'
    · exact absurd hroot' hroot
    · exact h.mem_of_id_mem hb hid hmem
  · rintro hid hleaf ⟨hverify, hroot⟩
    exact h.mem_of_id_mem hb hid (h.id_mem_of_verify hb hne hid hleaf hverify hroot)

end

theorem calculateTransactionsRoot_singleton (P : Primitives) (tx : Transaction) :
    Block.calculateTransactionsRoot P [tx] = ⟨tx.id.bytes⟩ := rfl

theorem verify_of_nil (P : Primitives) (leaf : BlockHash) (i : Nat) :
    MerkleProof.verify P ⟨leaf, i, [], leaf⟩ = true := decide_eq_true rfl

namespace Reference

/-- A light node with the header of `voteBlock` at height 1. -/
def lightNode : LightNode where
  blockHeaders := Finmap.singleton 1 (LightHeader.fromBlock voteBlock)
  verifiedTransactions := ∅
  trustedValidators := []
  transactionsProcessed := 0

/-- The proof of the only transaction of a block: no siblings. -/
def voteProof : MerkleProof where
  leafHash := ⟨(vote 0).id.bytes⟩
  leafIndex := 0
  proof := []
  root := ⟨(vote 0).id.bytes⟩

theorem lookup_lightNode :
    lightNode.blockHeaders.lookup 1 = some (LightHeader.fromBlock voteBlock) :=
  Finmap.lookup_singleton_eq

theorem verifyTransaction_voteProof (tx : Transaction) :
    ((LightNode.verifyTransaction primitives 0 tx 1 voteProof).exec lightNode).1 = .ok true := by
  rw [LightNode.verifyTransaction_eq_true lookup_lightNode]
  exact ⟨verify_of_nil _ _ 0, (calculateTransactionsRoot_singleton primitives (vote 0)).symm⟩

end Reference

/-- The vote of the block, with the proof of that vote. -/
theorem verifyTransaction_sound_iff_sample :
    ((LightNode.verifyTransaction Reference.primitives 0 (Reference.vote 0) 1
      Reference.voteProof).exec Reference.lightNode).1 = .ok true ∧
      Reference.vote 0 ∈ Reference.voteBlock.transactions := by
  have htrue := Reference.verifyTransaction_voteProof (Reference.vote 0)
  refine ⟨htrue, (verifyTransaction_sound_iff Reference.lookup_lightNode
    ((Block.validate_eq_ok _).mpr Reference.valid_voteBlock) (List.cons_ne_nil _ _) 0 ?_).2
    (Transaction.id_of_validate (Reference.validate_vote 0)) rfl htrue⟩
  refine ⟨Reference.injOn_voteBlock.mono ?_, ?_, ?_⟩
  · rintro x (hx | rfl | hx)
    · exact hx
    · exact Block.tx_mem_hashInputs _ (List.mem_singleton_self _)
    · cases hx
  · have hsame : ∀ t, t = (Reference.vote 0).txType ∨
        (∃ tx ∈ [Reference.vote 0], t = tx.txType) → t = (Reference.vote 0).txType := by
      simp
    intro t ht t' ht' _
    rw [hsame t ht, hsame t' ht']
  · intro t
    exact Nat.lt_of_lt_of_le (by decide) (Reference.length_bincode t)

/-- Another vote, which is in no block, with the proof of the first one. -/
theorem verifyTransaction_other_vote :
    Reference.lightNode.blockHeaders.lookup 1 = some (LightHeader.fromBlock Reference.voteBlock) ∧
    Reference.voteBlock.validate Reference.primitives = .ok () ∧
    ((LightNode.verifyTransaction Reference.primitives 0 (Reference.vote 1) 1
      Reference.voteProof).exec Reference.lightNode).1 = .ok true ∧
    Reference.vote 1 ∉ Reference.voteBlock.transactions := by
  refine ⟨Reference.lookup_lightNode, (Block.validate_eq_ok _).mpr Reference.valid_voteBlock,
    Reference.verifyTransaction_voteProof _, ?_⟩
  intro hmem
  have hnonce := congrArg Transaction.nonce (List.mem_singleton.mp hmem)
  exact absurd hnonce (by decide)

end VotingChain
