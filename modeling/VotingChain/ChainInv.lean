/-
# `VotingChain.ChainInv` — what every chain built by `add_block` satisfies

The four fields of `Blockchain` say one thing four times.  For the chains that
`add_block` builds from a genesis block they say the same thing:

* `Shape` — the vector is the chain: the block at index `i` has height `i`, every
  block is valid and follows the one before it, and the height counter is the
  last index;
* `Indexed` — each index holds exactly what the vector holds.

Both hold of the genesis chain and are kept by `extend`; since a refused block
leaves the chain alone, that is all there is to a run.  The counter cannot wrap:
the vector would be full long before (`Shape.toNat_succ_height`).

Duplicates are only looked for in the index, so nothing stops a block from
holding one transaction twice; `nodup_transactions_iff` says that this is the
only way an id gets into the chain twice.
-/
import Mathlib.Data.Finset.Dedup
import Mathlib.Data.List.Chain
import VotingChain.Chain
import VotingChain.Reference

namespace VotingChain.Blockchain

variable (P : Primitives)

/-- One call of `add_block` in a run. -/
def addStep [Hex] (c : Blockchain) (b : Block) : Blockchain := (addBlock P b).next c

/-- The chain after a sequence of `add_block` calls, accepted or refused. -/
def addBlocks [Hex] (c : Blockchain) (bs : List Block) : Blockchain := Runs.run (addStep P) c bs

variable {P}

theorem addBlocks_append [Hex] (c : Blockchain) (bs more : List Block) :
    c.addBlocks P (bs ++ more) = (c.addBlocks P bs).addBlocks P more :=
  Runs.run_append (addStep P) c bs more

theorem addBlocks_concat [Hex] (c : Blockchain) (bs : List Block) (b : Block) :
    c.addBlocks P (bs ++ [b]) = addStep P (c.addBlocks P bs) b :=
  Runs.run_concat (addStep P) c bs b

theorem addBlocks_of_admits [Hex] {c : Blockchain} {b : Block} (h : Admits P c b) :
    c.addBlocks P [b] = c.extend b :=
  next_addBlock_of_admits h

/-- The rule for invariants of `addBlocks`: it is enough that admitted blocks keep
them. -/
theorem addBlocks_invariant [Hex] {I : Blockchain → Prop}
    (hextend : ∀ c b, I c → Admits P c b → I (c.extend b)) {c : Blockchain} (h : I c)
    (bs : List Block) : I (c.addBlocks P bs) :=
  Runs.run_preserves (fun c b hc => next_addBlock_preserves hc (hextend c b hc)) h bs

/-! ## The shape of the chain -/

variable (P) in
/-- The vector is a chain of blocks, and the height its last index. -/
structure Shape (c : Blockchain) : Prop where
  heights : ∀ (i : Nat) (b : Block), c.blocks[i]? = some b → b.header.height.toNat = i
  height : c.height.toNat + 1 = c.blocks.length
  length_le : c.blocks.length ≤ maxVecLength
  links : c.blocks.IsChain Block.Follows
  valid : ∀ b ∈ c.blocks, b.Valid P
  genesis : ∀ b : Block, c.blocks[0]? = some b → b.header.previousHash = BlockHash.zero

namespace Shape
variable {c : Blockchain}

theorem height_latestBlock (h : Shape P c) : c.latestBlock.header.height = c.height := by
  apply UInt64.toNat_inj.mp
  have hlast := h.heights _ _ c.getElem?_latestBlock
  have hheight := h.height
  omega

theorem toNat_succ_height (h : Shape P c) : (c.height + 1).toNat = c.blocks.length := by
  have hheight := h.height
  have hle : c.blocks.length ≤ 2 ^ 63 - 1 := h.length_le
  rw [UInt64.toNat_add, UInt64.toNat_one, hheight]
  exact Nat.mod_eq_of_lt (by omega)

theorem eq_of_height_eq (h : Shape P c) {b b' : Block} (hb : b ∈ c.blocks) (hb' : b' ∈ c.blocks)
    (heq : b.header.height = b'.header.height) : b = b' := by
  obtain ⟨i, hi⟩ := List.mem_iff_getElem?.mp hb
  obtain ⟨j, hj⟩ := List.mem_iff_getElem?.mp hb'
  have hij : i = j := by rw [← h.heights i b hi, ← h.heights j b' hj, heq]
  subst hij
  exact Option.some.inj (hi.symm.trans hj)

theorem follows_of_getElem? (h : Shape P c) {i : Nat} {p b : Block} (hp : c.blocks[i]? = some p)
    (hb : c.blocks[i + 1]? = some b) : Block.Follows p b := by
  obtain ⟨_, rfl⟩ := List.getElem?_eq_some_iff.mp hp
  obtain ⟨hlt, rfl⟩ := List.getElem?_eq_some_iff.mp hb
  exact List.isChain_iff_getElem.mp h.links i hlt

/-- In a chain of the right shape a lookup by height is a lookup in the vector,
and never panics. -/
theorem getBlockByHeight_eq (h : Shape P c) (height : BlockHeight) :
    c.getBlockByHeight height = .ok c.blocks[height.toNat]? := by
  have hheight := h.height
  rw [getBlockByHeight]
  by_cases hle : height ≤ c.height
  · have hlt : height.toNat < c.blocks.length := by
      have := UInt64.le_iff_toNat_le.mp hle
      omega
    rw [if_pos hle, indexVec, List.getElem?_eq_getElem hlt]
    rfl
  · have hge : c.blocks.length ≤ height.toNat := by
      rw [UInt64.le_iff_toNat_le] at hle
      omega
    rw [if_neg hle, List.getElem?_eq_none hge]

theorem getBlockByHeight_of_mem (h : Shape P c) {b : Block} (hb : b ∈ c.blocks) :
    c.getBlockByHeight b.height = .ok (some b) := by
  obtain ⟨i, hi⟩ := List.mem_iff_getElem?.mp hb
  rw [h.getBlockByHeight_eq, Block.height, h.heights i b hi, hi]

/-- Two blocks of the chain with one hash are one block, if the hash function does
not confuse the headers of the chain. -/
theorem eq_of_mem_of_hash_eq (h : Shape P c)
    (hhash : Set.InjOn P.blake2b256 {x | ∃ b ∈ c.blocks, x = b.header.hashInput}) {b b' : Block}
    (hb : b ∈ c.blocks) (hb' : b' ∈ c.blocks) (heq : b.hash = b'.hash) : b = b' := by
  have hdigest : P.blake2b256 b.header.hashInput = P.blake2b256 b'.header.hashInput := by
    have := ((h.valid b hb).hash.symm.trans heq).trans (h.valid b' hb').hash
    exact congrArg BlockHash.bytes this
  have hinput := hhash ⟨b, hb, rfl⟩ ⟨b', hb', rfl⟩ hdigest
  exact h.eq_of_height_eq hb hb' (BlockHeader.hashInput_inj hinput).1

theorem extend (h : Shape P c) {b : Block} (hadm : Admits P c b) : Shape P (c.extend b) := by
  have hb : b.header.height.toNat = c.blocks.length := by
    rw [hadm.follows.height, h.height_latestBlock, h.toNat_succ_height]
  refine ⟨?_, ?_, ?_, ?_, ?_, ?_⟩
  · intro i x hx
    rcases getElem?_extend.mp hx with hx | ⟨rfl, rfl⟩
    · exact h.heights i x hx
    · exact hb
  · simp only [Blockchain.extend, Block.height, List.length_append, List.length_singleton, hb]
  · have := hadm.room
    simp only [Blockchain.extend, List.length_append, List.length_singleton]
    omega
  · refine List.isChain_append.mpr ⟨h.links, List.isChain_singleton b, ?_⟩
    intro x hx y hy
    rw [List.getLast?_eq_some_getLast c.blocks_ne] at hx
    cases hx
    cases hy
    exact hadm.follows
  · intro x hx
    rcases mem_extend.mp hx with hx | rfl
    · exact h.valid x hx
    · exact hadm.valid
  · intro x hx
    have hpos := List.length_pos_of_ne_nil c.blocks_ne
    rw [Blockchain.extend, List.getElem?_append_left hpos] at hx
    exact h.genesis x hx

end Shape

theorem shape_ofGenesis {b : Block} (hheight : b.header.height = 0)
    (hprev : b.header.previousHash = BlockHash.zero) (hvalid : b.Valid P) :
    Shape P (ofGenesis b) := by
  refine ⟨?_, rfl, ?_, List.isChain_singleton b, ?_, ?_⟩
  · intro i x hx
    rw [ofGenesis, List.getElem?_singleton] at hx
    split at hx
    · next hi =>
        cases hx
        rw [hheight, hi]
        rfl
    · cases hx
  · simp [ofGenesis, maxVecLength]
  · intro x hx
    rw [List.mem_singleton.mp hx]
    exact hvalid
  · intro x hx
    cases hx
    exact hprev

theorem shape_of_new {now : Timestamp} {g : GenesisBlock} {c : Blockchain}
    (h : new P now g = .ok c) : Shape P c := by
  obtain ⟨b, hb, rfl⟩ := new_eq_ok.mp h
  have hb := GenesisBlock.isGenesis_of_createBlock hb
  exact shape_ofGenesis hb.height hb.previousHash hb.valid

theorem shape_addBlocks [Hex] {now : Timestamp} {g : GenesisBlock} {c : Blockchain}
    (h : new P now g = .ok c) (bs : List Block) : Shape P (c.addBlocks P bs) :=
  addBlocks_invariant (fun _ _ hc hadm => hc.extend hadm) (shape_of_new h) bs

/-! ## `verify` -/

theorem verifyLinks_eq_ok [Hex] : ∀ bs : List Block,
    verifyLinks P bs = .ok () ↔ bs.IsChain fun p b => b.Valid P ∧ Block.Follows p b
  | [] => by simp [verifyLinks]
  | [_] => by simp [verifyLinks]
  | p :: b :: bs => by
      simp only [verifyLinks, bind_eq_ok, Block.validate_eq_ok, Block.validateChainLink_eq_ok,
        List.isChain_cons_cons, verifyLinks_eq_ok (b :: bs)]
      constructor
      · rintro ⟨_, hv, _, hf, hrest⟩
        exact ⟨⟨hv, hf⟩, hrest⟩
      · rintro ⟨⟨hv, hf⟩, hrest⟩
        exact ⟨(), hv, (), hf, hrest⟩

theorem Shape.verify [Hex] {c : Blockchain} (h : Shape P c) : c.verify P = .ok () := by
  obtain ⟨b, bs, hbs⟩ := List.exists_cons_of_ne_nil c.blocks_ne
  have hb : c.blocks[0]? = some b := by simp [hbs]
  have hheight : b.header.height = 0 := UInt64.toNat_inj.mp (h.heights 0 b hb)
  have hlinks : verifyLinks P c.blocks = .ok () := by
    rw [verifyLinks_eq_ok]
    refine h.links.imp_of_mem_imp fun p x _ hx hf => ⟨h.valid x hx, hf⟩
  simp only [Blockchain.verify, bind_eq_ok, ensure_eq_ok, indexVec, hb]
  refine ⟨(), by simp [hbs], b, rfl, (), ?_, (), ?_, (), ?_, hlinks⟩
  · exact decide_eq_true hheight
  · exact decide_eq_true (h.genesis b hb)
  · exact (Block.validate_eq_ok P).mpr (h.valid b (List.mem_of_getElem? hb))

/-- **The chain invariant.**  From any genesis configuration with a validator,
after any sequence of `add_block` calls, the block at index `i` has height `i`,
the height is the last index, every block names its predecessor's hash and is
not older than it, the whole chain verifies, and a call that returns an error
changes nothing.  The vector is full before the height could wrap, so no bound on
the number of calls is needed. -/
theorem addBlocks_wellFormed [Hex] (P : Primitives) (now : Timestamp) (g : GenesisBlock)
    (hg : g.validators ≠ []) :
    ∃ c₀, new P now g = .ok c₀ ∧ ∀ (bs : List Block) (c : Blockchain), c = c₀.addBlocks P bs →
      (∀ (i : Nat) (b : Block), c.blocks[i]? = some b → b.header.height.toNat = i) ∧
      c.height.toNat = c.blocks.length - 1 ∧
      (∀ (i : Nat) (p b : Block), c.blocks[i]? = some p → c.blocks[i + 1]? = some b →
        b.header.previousHash = p.header.hash ∧ p.header.timestamp ≤ b.header.timestamp) ∧
      c.verify P = .ok () ∧
      ∀ b e, ((addBlock P b).exec c).1 = .error (.err e) → ((addBlock P b).exec c).2 = c := by
  obtain ⟨c₀, hnew⟩ := exists_new P now hg
  refine ⟨c₀, hnew, ?_⟩
  intro bs c hc
  have hshape : Shape P c := hc ▸ shape_addBlocks hnew bs
  refine ⟨hshape.heights, ?_, ?_, hshape.verify, fun b e => addBlock_of_err⟩
  · have := hshape.height
    omega
  · intro i p b hp hb
    have hlink := hshape.follows_of_getElem? hp hb
    exact ⟨hlink.previousHash, hlink.timestamp⟩

/-- One validator, and any calls at all. -/
theorem addBlocks_wellFormed_sample : ∃ c₀, new Reference.primitives 0 Reference.genesis = .ok c₀ ∧
    ∀ bs, (c₀.addBlocks Reference.primitives bs).verify Reference.primitives = .ok () := by
  obtain ⟨c₀, hnew, h⟩ := addBlocks_wellFormed Reference.primitives 0 Reference.genesis
    (List.cons_ne_nil _ _)
  exact ⟨c₀, hnew, fun bs => (h bs _ rfl).2.2.2.1⟩

/-! ## The indexes -/

/-- The indexes hold what the vector holds. -/
structure Indexed (c : Blockchain) : Prop where
  hash_mem : ∀ b ∈ c.blocks, b.hash ∈ c.hashToHeight
  hash_lookup : ∀ h k, c.hashToHeight.lookup h = some k → ∃ b ∈ c.blocks, b.hash = h ∧ b.height = k
  tx_lookup : ∀ t k, c.txToBlock.lookup t = some k ↔ ∃ b ∈ c.blocks, b.height = k ∧ t ∈ b.ids

namespace Indexed
variable {c : Blockchain}

theorem mem_txToBlock (h : Indexed c) {t : TxId} :
    t ∈ c.txToBlock ↔ ∃ b ∈ c.blocks, t ∈ b.ids := by
  rw [Finmap.mem_iff]
  constructor
  · rintro ⟨k, hk⟩
    obtain ⟨b, hb, -, ht⟩ := (h.tx_lookup t k).mp hk
    exact ⟨b, hb, ht⟩
  · rintro ⟨b, hb, ht⟩
    exact ⟨b.height, (h.tx_lookup t _).mpr ⟨b, hb, rfl, ht⟩⟩

theorem fresh (h : Indexed c) {b x : Block} (hadm : Admits P c b) (hx : x ∈ c.blocks) {t : TxId}
    (ht : t ∈ x.ids) : t ∉ b.ids := by
  intro htb
  obtain ⟨tx, htx, rfl⟩ := List.mem_map.mp htb
  exact hadm.fresh tx htx (h.mem_txToBlock.mpr ⟨x, hx, ht⟩)

theorem extend (h : Indexed c) {b : Block} (hadm : Admits P c b) : Indexed (c.extend b) := by
  refine ⟨?_, ?_, ?_⟩
  · intro x hx
    rcases mem_extend.mp hx with hx | rfl
    · exact Finmap.mem_insert.mpr (Or.inr (h.hash_mem x hx))
    · exact Finmap.mem_insert.mpr (Or.inl rfl)
  · refine Finmap.forall_lookup_insert ?_ ⟨b, mem_extend.mpr (Or.inr rfl), rfl, rfl⟩
    intro hash k hk
    obtain ⟨x, hx, hxh, hxk⟩ := h.hash_lookup hash k hk
    exact ⟨x, mem_extend.mpr (Or.inl hx), hxh, hxk⟩
  · intro t k
    rw [lookup_tx_extend]
    by_cases ht : t ∈ b.ids
    · rw [if_pos ht, Option.some.injEq]
      constructor
      · rintro rfl
        exact ⟨b, mem_extend.mpr (Or.inr rfl), rfl, ht⟩
      · rintro ⟨x, hx, rfl, htx⟩
        rcases mem_extend.mp hx with hx | rfl
        · exact absurd ht (h.fresh hadm hx htx)
        · rfl
    · rw [if_neg ht, h.tx_lookup]
      constructor
      · rintro ⟨x, hx, hxk⟩
        exact ⟨x, mem_extend.mpr (Or.inl hx), hxk⟩
      · rintro ⟨x, hx, hxk, htx⟩
        rcases mem_extend.mp hx with hx | rfl
        · exact ⟨x, hx, hxk, htx⟩
        · exact absurd htx ht

end Indexed

theorem indexed_ofGenesis {b : Block} (hzero : b.height = 0) : Indexed (ofGenesis b) := by
  refine ⟨?_, ?_, ?_⟩
  · intro x hx
    rw [List.mem_singleton.mp hx]
    exact Finmap.mem_insert.mpr (Or.inl rfl)
  · refine Finmap.forall_lookup_insert ?_ ⟨b, List.mem_singleton_self b, rfl, hzero⟩
    intro hash k hk
    rw [Finmap.lookup_empty] at hk
    cases hk
  · intro t k
    simp only [ofGenesis, TxIndex.lookup_insertAll, Finmap.lookup_empty, List.mem_singleton,
      exists_eq_left, hzero, Block.ids]
    split
    · next ht => simp [ht]
    · next ht => simp [ht]

theorem indexed_of_new {now : Timestamp} {g : GenesisBlock} {c : Blockchain}
    (h : new P now g = .ok c) : Indexed c := by
  obtain ⟨b, hb, rfl⟩ := new_eq_ok.mp h
  exact indexed_ofGenesis (GenesisBlock.isGenesis_of_createBlock hb).height

theorem indexed_addBlocks [Hex] {now : Timestamp} {g : GenesisBlock} {c : Blockchain}
    (h : new P now g = .ok c) (bs : List Block) : Indexed (c.addBlocks P bs) :=
  addBlocks_invariant (fun _ _ hc hadm => hc.extend hadm) (indexed_of_new h) bs

/-! ## Lookups in the indexes -/

theorem getBlockByHash_spec {c : Blockchain} (hshape : Shape P c) (hindex : Indexed c)
    (hhash : Set.InjOn P.blake2b256 {x | ∃ b ∈ c.blocks, x = b.header.hashInput})
    (hash : BlockHash) :
    ∃ r, c.getBlockByHash hash = .ok r ∧ ∀ b, r = some b ↔ b ∈ c.blocks ∧ b.hash = hash := by
  rw [getBlockByHash]
  cases hk : c.hashToHeight.lookup hash with
  | none =>
      refine ⟨none, rfl, ?_⟩
      intro b
      refine iff_of_false nofun ?_
      rintro ⟨hb, rfl⟩
      exact absurd (hindex.hash_mem b hb) (Finmap.lookup_eq_none.mp hk)
  | some k =>
      obtain ⟨b₀, hb₀, hh, rfl⟩ := hindex.hash_lookup hash k hk
      refine ⟨some b₀, hshape.getBlockByHeight_of_mem hb₀, ?_⟩
      intro b
      constructor
      · rintro ⟨⟩
        exact ⟨hb₀, hh⟩
      · rintro ⟨hb, hbh⟩
        rw [hshape.eq_of_mem_of_hash_eq hhash hb₀ hb (hh.trans hbh.symm)]

theorem getTransaction_spec {c : Blockchain} (hshape : Shape P c) (hindex : Indexed c) {b : Block}
    (hb : b ∈ c.blocks) {t : TxId} (ht : t ∈ b.ids) :
    c.getTransactionBlockHeight t = some b.height ∧
      ∃ tx ∈ b.transactions, tx.id = t ∧ c.getTransaction t = .ok (some tx) := by
  have hlookup : c.txToBlock.lookup t = some b.height :=
    (hindex.tx_lookup t b.height).mpr ⟨b, hb, rfl, ht⟩
  obtain ⟨tx, htx, rfl⟩ := List.mem_map.mp ht
  obtain ⟨tx', htx'⟩ := Block.exists_getTransaction htx
  obtain ⟨hmem, hid⟩ := Block.getTransaction_eq_some htx'
  refine ⟨hlookup, tx', hmem, hid, ?_⟩
  simp only [getTransaction, hlookup, hshape.getBlockByHeight_of_mem hb, Except.map,
    Option.bind_some, htx']

theorem containsTransaction_iff {c : Blockchain} (hindex : Indexed c) (t : TxId) :
    c.containsTransaction t = true ↔ ∃ b ∈ c.blocks, t ∈ b.ids := by
  rw [containsTransaction, Finmap.lookup_isSome, hindex.mem_txToBlock]

/-- **The indexes agree with the chain.**  In every chain built by `add_block`
whose headers the hash function does not confuse: a lookup by hash returns the
block with that hash, if there is one, and nothing otherwise; an id is contained
exactly if some block holds it; and then the lookups by id return a transaction of
that block with that id, and its height. -/
theorem addBlocks_lookups [Hex] {now : Timestamp} {g : GenesisBlock} {c₀ : Blockchain}
    (hnew : new P now g = .ok c₀) (bs : List Block)
    (hhash : Set.InjOn P.blake2b256
      {x | ∃ b ∈ (c₀.addBlocks P bs).blocks, x = b.header.hashInput}) :
    (∀ hash, ∃ r, (c₀.addBlocks P bs).getBlockByHash hash = .ok r ∧
      ∀ b, r = some b ↔ b ∈ (c₀.addBlocks P bs).blocks ∧ b.hash = hash) ∧
    (∀ t, (c₀.addBlocks P bs).containsTransaction t = true ↔
      ∃ b ∈ (c₀.addBlocks P bs).blocks, t ∈ b.ids) ∧
    ∀ t, ∀ b ∈ (c₀.addBlocks P bs).blocks, t ∈ b.ids →
      (c₀.addBlocks P bs).getTransactionBlockHeight t = some b.height ∧
      ∃ tx ∈ b.transactions, tx.id = t ∧
        (c₀.addBlocks P bs).getTransaction t = .ok (some tx) := by
  have hshape := shape_addBlocks hnew bs
  have hindex := indexed_addBlocks hnew bs
  exact ⟨getBlockByHash_spec hshape hindex hhash, containsTransaction_iff hindex,
    fun t b hb ht => getTransaction_spec hshape hindex hb ht⟩

/-- The genesis block and a block with one vote on top of it. -/
theorem addBlocks_lookups_sample :
    (Reference.chain.addBlocks Reference.primitives
      [Reference.chain.nextBlock Reference.primitives [Reference.vote 0] Reference.key]
      ).containsTransaction (Reference.vote 0).id = true := by
  have hadm := Reference.admits_votes [Reference.vote 0] (by simp)
  have hne : Reference.primitives.blake2b256 Reference.genesisBlock.header.hashInput ≠
      Reference.primitives.blake2b256 (Reference.chain.nextBlock Reference.primitives
        [Reference.vote 0] Reference.key).header.hashInput := by decide +kernel
  have h := addBlocks_lookups (Reference.new_genesis 0)
    [Reference.chain.nextBlock Reference.primitives [Reference.vote 0] Reference.key]
  rw [addBlocks_of_admits hadm] at h ⊢
  refine ((h fun x hx y hy heq => ?_).2.1 _).mpr ⟨_, mem_extend.mpr (Or.inr rfl), ?_⟩
  · obtain ⟨b, hb, rfl⟩ := hx
    obtain ⟨b', hb', rfl⟩ := hy
    rcases mem_extend.mp hb with hb | rfl <;> rcases mem_extend.mp hb' with hb' | rfl
    · rw [List.mem_singleton.mp hb, List.mem_singleton.mp hb']
    · rw [List.mem_singleton.mp hb] at heq
      exact absurd heq hne
    · rw [List.mem_singleton.mp hb'] at heq
      exact absurd heq.symm hne
    · rfl
  · exact List.mem_singleton_self _

/-! ## Duplicates -/

/-- The ids of all transactions of the chain, in order. -/
def ids (c : Blockchain) : List TxId := c.getAllTransactions.map Transaction.id

theorem mem_ids {c : Blockchain} {t : TxId} : t ∈ c.ids ↔ ∃ b ∈ c.blocks, t ∈ b.ids := by
  simp only [ids, getAllTransactions, List.map_flatMap, List.mem_flatMap, Block.ids]

theorem ids_extend (c : Blockchain) (b : Block) : (c.extend b).ids = c.ids ++ b.ids := by
  simp [ids, getAllTransactions, extend, Block.ids]

theorem transactionCount_eq_iff {c : Blockchain} (hindex : Indexed c) :
    c.transactionCount = c.getAllTransactions.length ↔ c.ids.Nodup := by
  have hkeys : c.txToBlock.keys = c.ids.toFinset := by
    ext t
    rw [Finmap.mem_keys, hindex.mem_txToBlock, List.mem_toFinset, mem_ids]
  have hlength : c.getAllTransactions.length = c.ids.length := by simp [ids]
  rw [transactionCount, hkeys, hlength]
  exact Multiset.toFinset_card_eq_card_iff_nodup

theorem nodup_ids_extend {c : Blockchain} (hindex : Indexed c) {b : Block} (hadm : Admits P c b) :
    (c.extend b).ids.Nodup ↔ c.ids.Nodup ∧ b.ids.Nodup := by
  rw [ids_extend, List.nodup_append]
  constructor
  · rintro ⟨hc, hb, -⟩
    exact ⟨hc, hb⟩
  · rintro ⟨hc, hb⟩
    refine ⟨hc, hb, ?_⟩
    intro t ht t' ht' heq
    obtain ⟨x, hx, htx⟩ := mem_ids.mp ht
    exact hindex.fresh hadm hx htx (heq ▸ ht')

theorem nodup_ids_addBlocks [Hex] {c₀ : Blockchain} (hindex : Indexed c₀) (hnodup : c₀.ids.Nodup)
    (bs : List Block) :
    Runs.Along (addStep P) (fun c b => Admits P c b → b.ids.Nodup) c₀ bs ↔
      (c₀.addBlocks P bs).ids.Nodup := by
  -- peel the run from its last call
  induction bs using List.reverseRecOn with
  | nil => exact ⟨fun _ => hnodup, fun _ => trivial⟩
  | append_singleton bs b ih =>
      have hc : Indexed (c₀.addBlocks P bs) :=
        addBlocks_invariant (fun _ _ hc hadm => hc.extend hadm) hindex bs
      rw [Runs.along_concat, ih, addBlocks_concat, ← addBlocks, addStep]
      by_cases hadm : Admits P (c₀.addBlocks P bs) b
      · rw [next_addBlock_of_admits hadm, nodup_ids_extend hc hadm]
        exact and_congr_right fun _ => ⟨fun h => h hadm, fun h _ => h⟩
      · rw [next_addBlock_of_not_admits hadm]
        exact and_iff_left fun h => absurd h hadm

theorem nodup_ids_of_new {now : Timestamp} {g : GenesisBlock} {c : Blockchain}
    (hnew : new P now g = .ok c)
    (hhash : Set.InjOn P.blake2b256
      {x | ∃ tx ∈ g.registrations P, x = tx.serializeForHashing P}) : c.ids.Nodup := by
  obtain ⟨b, hb, rfl⟩ := new_eq_ok.mp hnew
  have hids : (ofGenesis b).ids = (g.registrations P).map Transaction.id := by
    rw [← (GenesisBlock.isGenesis_of_createBlock hb).transactions]
    simp [ids, getAllTransactions, ofGenesis]
  rw [hids]
  exact GenesisBlock.nodup_registrations hhash

/-- **When ids repeat.**  In a chain built by `add_block` no transaction id occurs
twice, and the number of indexed transactions is the number of transactions,
exactly if no block that was admitted held one id twice. -/
theorem nodup_transactions_iff [Hex] {now : Timestamp} {g : GenesisBlock} {c₀ : Blockchain}
    (hnew : new P now g = .ok c₀)
    (hhash : Set.InjOn P.blake2b256
      {x | ∃ tx ∈ g.registrations P, x = tx.serializeForHashing P}) (bs : List Block) :
    Runs.Along (addStep P) (fun c b => Admits P c b → b.ids.Nodup) c₀ bs ↔
      (c₀.addBlocks P bs).ids.Nodup ∧
        (c₀.addBlocks P bs).transactionCount = (c₀.addBlocks P bs).getAllTransactions.length := by
  rw [transactionCount_eq_iff (indexed_addBlocks hnew bs), and_self]
  exact nodup_ids_addBlocks (indexed_of_new hnew) (nodup_ids_of_new hnew hhash) bs

/-- One genesis validator, and a block with one vote. -/
theorem nodup_transactions_iff_sample :
    (Reference.chain.addBlocks Reference.primitives
      [Reference.chain.nextBlock Reference.primitives [Reference.vote 0] Reference.key]
      ).transactionCount =
    (Reference.chain.addBlocks Reference.primitives
      [Reference.chain.nextBlock Reference.primitives [Reference.vote 0] Reference.key]
      ).getAllTransactions.length := by
  refine ((nodup_transactions_iff (Reference.new_genesis 0) ?_ _).mp ?_).2
  · rintro x ⟨tx, htx, rfl⟩ y ⟨tx', htx', rfl⟩ -
    rw [List.mem_singleton.mp htx, List.mem_singleton.mp htx']
  · exact ⟨fun _ => List.nodup_singleton _, trivial⟩

/-- One block that holds one vote twice is admitted, and the two counts drift
apart. -/
theorem addBlocks_repeated_vote :
    new Reference.primitives 0 Reference.genesis = .ok Reference.chain ∧
    ¬ ((Reference.chain.addBlocks Reference.primitives
        [Reference.chain.nextBlock Reference.primitives [Reference.vote 0, Reference.vote 0]
          Reference.key]).ids.Nodup) ∧
    (Reference.chain.addBlocks Reference.primitives
        [Reference.chain.nextBlock Reference.primitives [Reference.vote 0, Reference.vote 0]
          Reference.key]).transactionCount ≠
      (Reference.chain.addBlocks Reference.primitives
        [Reference.chain.nextBlock Reference.primitives [Reference.vote 0, Reference.vote 0]
          Reference.key]).getAllTransactions.length := by
  have hadm := Reference.admits_votes [Reference.vote 0, Reference.vote 0] (by simp)
  have hindex := indexed_of_new (Reference.new_genesis 0)
  have hrepeat : ¬ (Reference.chain.extend (Reference.chain.nextBlock Reference.primitives
      [Reference.vote 0, Reference.vote 0] Reference.key)).ids.Nodup := by
    rw [nodup_ids_extend hindex hadm]
    rintro ⟨-, hb⟩
    exact (List.nodup_cons.mp hb).1 (List.mem_singleton_self _)
  rw [addBlocks_of_admits hadm]
  refine ⟨Reference.new_genesis 0, hrepeat, ?_⟩
  rwa [Ne, transactionCount_eq_iff (hindex.extend hadm)]

end VotingChain.Blockchain
