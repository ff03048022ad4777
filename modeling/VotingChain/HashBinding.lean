/-
# `VotingChain.HashBinding` — a block hash fixes the block

Three encodings lie between a block and its hash: the header layout, the Merkle
tree over the transaction ids, and the preimage of each id.  The first is
fixed-width, the last is fixed-width up to the serialised type.  The tree is
neither: a list with an odd number of ids has the same root as the list with its
last id repeated.  What tells those two apart is the transaction count in the
header, a `u32`; so the argument goes from the hash to the header, from the
count to the number of transactions, from the root and the number to the ids,
and from the ids to the transactions.

The hash function is only asked to tell apart the strings that validating the
two blocks hashes.
-/
import VotingChain.Reference

namespace VotingChain.Block

variable {P : Primitives}

theorem Valid.count_toNat {b : Block} (h : b.Valid P) (hlen : b.transactions.length < 2 ^ 32) :
    b.header.transactionCount.toNat = b.transactions.length := by
  rw [h.count, UInt32.toNat_ofNat_of_lt' hlen]

theorem length_txHashes (txs : List Transaction) : (txHashes txs).length = txs.length :=
  List.length_map _

theorem txHashes_eq_of_root_eq {S : Set Bytes} (hhash : Set.InjOn P.blake2b256 S)
    {txs txs' : List Transaction} (hlen : txs.length = txs'.length)
    (hS : ∀ x ∈ MerkleTree.treeInputs P (txHashes txs), x ∈ S)
    (hS' : ∀ x ∈ MerkleTree.treeInputs P (txHashes txs'), x ∈ S)
    (hroot : calculateTransactionsRoot P txs = calculateTransactionsRoot P txs') :
    txHashes txs = txHashes txs' := by
  cases txs with
  | nil =>
      rw [List.eq_nil_of_length_eq_zero hlen.symm]
  | cons tx txs =>
      obtain ⟨tx', txs', rfl⟩ := List.exists_cons_of_length_eq_add_one hlen.symm
      refine MerkleTree.leaves_eq_of_root_eq hhash (List.cons_ne_nil _ _) ?_ hS hS' hroot
      rw [length_txHashes, length_txHashes, hlen]

/-- **The hash binds the block.**  Two blocks that pass `validate`, with fewer than
`2 ^ 32` transactions each and with the same hash, agree on every header field
under the hash and on the transactions. -/
theorem eq_of_hash_eq [Hex] {b b' : Block} (hb : b.validate P = .ok ())
    (hb' : b'.validate P = .ok ())
    (hlen : b.transactions.length < 2 ^ 32) (hlen' : b'.transactions.length < 2 ^ 32)
    (hhash : Set.InjOn P.blake2b256 {x | x ∈ b.hashInputs P ∨ x ∈ b'.hashInputs P})
    (hcode : Set.InjOn P.bincode
      {t | ∃ tx, (tx ∈ b.transactions ∨ tx ∈ b'.transactions) ∧ t = tx.txType})
    (heq : b.header.hash = b'.header.hash) :
    b.header.height = b'.header.height ∧ b.header.timestamp = b'.header.timestamp ∧
      b.header.previousHash = b'.header.previousHash ∧
      b.header.validator = b'.header.validator ∧ b.transactions = b'.transactions := by
  have hv := (validate_eq_ok P).mp hb
  have hv' := (validate_eq_ok P).mp hb'
  have hdigest : P.blake2b256 b.header.hashInput = P.blake2b256 b'.header.hashInput :=
    congrArg BlockHash.bytes ((hv.hash.symm.trans heq).trans hv'.hash)
  have hinput := hhash (Or.inl (header_mem_hashInputs P b)) (Or.inr (header_mem_hashInputs P b'))
    hdigest
  obtain ⟨hheight, htime, hprev, hroot, hval, hcount⟩ := BlockHeader.hashInput_inj hinput
  -- the count tells a list from the same list with its last id repeated
  have hnumber : b.transactions.length = b'.transactions.length := by
    rw [← hv.count_toNat hlen, ← hv'.count_toNat hlen', hcount]
  have hids : txHashes b.transactions = txHashes b'.transactions := by
    refine txHashes_eq_of_root_eq hhash hnumber ?_ ?_ ?_
    · intro x hx
      exact Or.inl (tree_mem_hashInputs P hx)
    · intro x hx
      exact Or.inr (tree_mem_hashInputs P hx)
    · rw [← hv.root, ← hv'.root, hroot]
  refine ⟨hheight, htime, hprev, hval, ?_⟩
  refine transactions_eq_of_txHashes_eq hhash hcode ?_ ?_ hids
  · intro tx htx
    exact ⟨Transaction.id_of_validate (hv.transactions tx htx), Or.inl (tx_mem_hashInputs P htx),
      tx, Or.inl htx, rfl⟩
  · intro tx htx
    exact ⟨Transaction.id_of_validate (hv'.transactions tx htx), Or.inr (tx_mem_hashInputs P htx),
      tx, Or.inr htx, rfl⟩

end VotingChain.Block

namespace VotingChain.Reference

/-- A block of its own with three votes in it, so that the last leaf of its tree has itself for
a partner. -/
def threeVotes : Block :=
  Block.new primitives 1000 1 BlockHash.zero [vote 0, vote 1, vote 2] key

theorem valid_threeVotes : threeVotes.Valid primitives := by
  refine Block.valid_new primitives ?_
  intro tx htx
  simp only [List.mem_cons, List.not_mem_nil, or_false] at htx
  rcases htx with rfl | rfl | rfl
  · exact validate_vote 0
  · exact validate_vote 1
  · exact validate_vote 2

theorem injOn_threeVotes :
    Set.InjOn primitives.blake2b256 {x | x ∈ threeVotes.hashInputs primitives} := by
  have hnodup : ((threeVotes.hashInputs primitives).map primitives.blake2b256).Nodup := by
    decide +kernel
  exact injOn_of_nodup_map hnodup fun x hx => hx

end VotingChain.Reference

namespace VotingChain.Block

/-- A block with three votes, and the same block signed. -/
theorem eq_of_hash_eq_sample : Reference.threeVotes.transactions =
    (Reference.threeVotes.addSignature Reference.key
      ⟨List.Vector.replicate 64 0⟩).transactions := by
  have hvalid := Reference.valid_threeVotes
  refine (eq_of_hash_eq ((validate_eq_ok _).mpr hvalid)
    ((validate_eq_ok _).mpr ((valid_signatures _ _).mpr hvalid)) ?_ ?_ ?_ ?_ rfl).2.2.2.2
  · decide
  · decide
  · intro x hx y hy
    exact Reference.injOn_threeVotes (or_self_iff.mp hx) (or_self_iff.mp hy)
  · -- what the three votes say is the same; their ids differ by the nonce
    have hsame : ∀ tx ∈ Reference.threeVotes.transactions,
        tx.txType = (Reference.vote 0).txType := by
      intro tx htx
      have hmem : tx = Reference.vote 0 ∨ tx = Reference.vote 1 ∨ tx = Reference.vote 2 := by
        simpa [Reference.threeVotes, Block.new] using htx
      rcases hmem with rfl | rfl | rfl
      · rfl
      · rfl
      · rfl
    rintro t ⟨tx, htx, rfl⟩ t' ⟨tx', htx', rfl⟩ -
    rw [hsame tx (or_self_iff.mp htx), hsame tx' (or_self_iff.mp htx')]

end VotingChain.Block
