/-
# `VotingChain.Store` — the chain in a key-value database

The model of `storage/src/blockchain_store.rs` as far as a whole chain is stored and
loaded.  The database is a map from byte strings to byte strings that does not fail.  A
block is put under its height and under its hash, and for each transaction the place where
it is; the keys begin with a word for their kind, and keys of different kinds have
different lengths, so they do not get in each other's way (`heightKey_ne_hashKey` and so
on).

`load_blockchain` reads the genesis block only for its validator and its timestamp, and
makes a genesis block of its own from them: one with a single registration.  The blocks
after it are added to the chain of that block as if they came from the network.  If the
genesis block had one validator, the rebuilt block is the stored one, and then every block
is admitted again, since a chain is the result of adding its own blocks (`Built`).  If it
had more, the chain that is loaded begins with another block than the stored one
(`load_store_iff`).
-/
import VotingChain.ChainInv
import VotingChain.Database

namespace VotingChain

/-! ## What is written -/

/-- Chain metadata. -/
structure ChainMetadata where
  chainHeight : BlockHeight
  genesisHash : BlockHash
  latestBlockHash : BlockHash
  latestBlockTimestamp : Timestamp
  totalTransactions : UInt64
  lastUpdated : Timestamp
  deriving DecidableEq

/-- The default metadata, made at the time `now`. -/
def ChainMetadata.default (now : Timestamp) : ChainMetadata where
  chainHeight := 0
  genesisHash := BlockHash.zero
  latestBlockHash := BlockHash.zero
  latestBlockTimestamp := 0
  totalTransactions := 0
  lastUpdated := now

/-- Transaction location in blockchain. -/
structure TxLocation where
  blockHeight : BlockHeight
  blockHash : BlockHash
  deriving DecidableEq

/-- `bincode` on what the store writes and reads.  It may fail, with a text. -/
structure StoreCodec where
  serializeBlock : Block → Except String Bytes
  deserializeBlock : Bytes → Except String Block
  serializeLocation : TxLocation → Except String Bytes
  serializeMetadata : ChainMetadata → Except String Bytes

/-- The blocks come back as they were, and nothing fails on the way. -/
structure StoreCodec.Exact (C : StoreCodec) (blocks : List Block) : Prop where
  block : ∀ b ∈ blocks, ∃ data, C.serializeBlock b = .ok data ∧ C.deserializeBlock data = .ok b
  location : ∀ location, ∃ data, C.serializeLocation location = .ok data
  metadata : ∀ metadata, ∃ data, C.serializeMetadata metadata = .ok data

/-- The result of serializing, with an error that says what it was. -/
def serialized (what : String) (r : Except String Bytes) : Result Bytes :=
  match r with
  | .ok data => .ok data
  | .error e => fail (.serializationError (what ++ " serialization failed: " ++ e))

/-! ## Keys -/

def heightKey (height : BlockHeight) : Bytes := strBytes "block:height:" ++ u64Bytes height

def hashKey (hash : BlockHash) : Bytes := strBytes "block:hash:" ++ hash.asBytes

def txKey (txId : TxId) : Bytes := strBytes "tx:" ++ txId.asBytes

def metadataKey : Bytes := strBytes "meta:chain"

theorem length_heightKey (height : BlockHeight) : (heightKey height).length = 21 := by
  rw [heightKey, List.length_append, u64Bytes, Codec.length_leBytes]
  rfl

theorem length_hashKey (hash : BlockHash) : (hashKey hash).length = 43 := by
  rw [hashKey, List.length_append, length_blockHash_asBytes]
  rfl

theorem length_txKey (txId : TxId) : (txKey txId).length = 35 := by
  rw [txKey, List.length_append, TxId.asBytes, List.Vector.toList_length]
  rfl

theorem heightKey_injective : Function.Injective heightKey := by
  intro h h' heq
  exact Codec.selfDelimiting_u64.injective (List.append_cancel_left heq)

theorem heightKey_ne_of_length {k : Bytes} {n : Nat} (hk : k.length = n) (hn : 21 ≠ n)
    (height : BlockHeight) : heightKey height ≠ k := by
  intro heq
  rw [← heq, length_heightKey] at hk
  exact hn hk

theorem heightKey_ne_hashKey (height : BlockHeight) (hash : BlockHash) :
    heightKey height ≠ hashKey hash :=
  heightKey_ne_of_length (length_hashKey hash) (by decide) height

theorem heightKey_ne_txKey (height : BlockHeight) (txId : TxId) :
    heightKey height ≠ txKey txId :=
  heightKey_ne_of_length (length_txKey txId) (by decide) height

theorem heightKey_ne_metadataKey (height : BlockHeight) : heightKey height ≠ metadataKey :=
  heightKey_ne_of_length rfl (by decide) height

/-! ## The store -/

structure BlockchainStore where
  db : Database
  metadata : ChainMetadata

namespace BlockchainStore
variable (P : Primitives) (C : StoreCodec)

/-- Create with in-memory database, at the time `now`. -/
def newMemory (now : Timestamp) : BlockchainStore := ⟨∅, ChainMetadata.default now⟩

def put (key value : Bytes) : Exec BlockchainStore Unit :=
  modify fun store => { store with db := store.db.insert key value }

def saveMetadata : Exec BlockchainStore Unit := do
  let data ← Exec.lift (serialized "Metadata" (C.serializeMetadata (← get).metadata))
  put metadataKey data

/-- Index the transactions of a block, in order. -/
def indexTransactions (height : BlockHeight) (hash : BlockHash) :
    List Transaction → Exec BlockchainStore Unit
  | [] => return ()
  | tx :: txs => do
      let data ← Exec.lift (serialized "TX location" (C.serializeLocation ⟨height, hash⟩))
      put (txKey tx.id) data
      indexTransactions height hash txs

/-- Store a block. -/
def storeBlock (block : Block) : Exec BlockchainStore Unit := do
  let height := block.height
  let hash := block.hash
  let blockData ← Exec.lift (serialized "Block" (C.serializeBlock block))
  put (heightKey height) blockData
  put (hashKey hash) blockData
  indexTransactions C height hash block.transactions
  if (← get).metadata.chainHeight < height then
    modify fun store =>
      { store with
        metadata :=
          { store.metadata with
            chainHeight := height
            latestBlockHash := hash
            latestBlockTimestamp := block.timestamp } }
    saveMetadata C
  else return ()

/-- Get block by height. -/
def getBlockByHeight (store : BlockchainStore) (height : BlockHeight) : Result (Option Block) :=
  match store.db.lookup (heightKey height) with
  | some data =>
    match C.deserializeBlock data with
    | .ok block => .ok (some block)
    | .error e => fail (.deserializationError ("Block deserialization failed: " ++ e))
  | none => .ok none

/-- `first..=last`. -/
def heightsFrom (first last : BlockHeight) : List BlockHeight :=
  (List.range' first.toNat (last.toNat + 1 - first.toNat)).map UInt64.ofNat

/-- The loop of `store_blockchain`. -/
def storeHeights (blockchain : Blockchain) : List BlockHeight → Exec BlockchainStore Unit
  | [] => return ()
  | height :: heights => do
      match ← Exec.lift (blockchain.getBlockByHeight height) with
      | some block => storeBlock C block
      | none => pure ()
      storeHeights blockchain heights

/-- Store entire blockchain. -/
def storeBlockchain (blockchain : Blockchain) : Exec BlockchainStore Unit := do
  storeHeights C blockchain (heightsFrom 0 blockchain.height)
  modify fun store =>
    { store with
      metadata :=
        { store.metadata with
          genesisHash := blockchain.genesisHash
          totalTransactions := UInt64.ofNat blockchain.transactionCount } }
  saveMetadata C

/-- The loop of `load_blockchain`: each block that is found is added. -/
def loadHeights [Hex] (store : BlockchainStore) : List BlockHeight → Blockchain → Result Blockchain
  | [], blockchain => .ok blockchain
  | height :: heights, blockchain => do
      match ← store.getBlockByHeight C height with
      | some block =>
        match (Blockchain.addBlock P block).exec blockchain with
        | (.ok _, blockchain) => loadHeights store heights blockchain
        | (.error e, _) => .error e
      | none => loadHeights store heights blockchain

/-- Load blockchain from storage at the time `now`. -/
def loadBlockchain [Hex] (now : Timestamp) (store : BlockchainStore) : Result Blockchain := do
  ensure (decide ¬(store.metadata.chainHeight = 0 ∧ store.metadata.genesisHash = BlockHash.zero))
    (.invalidInput "No blockchain data in storage")
  match ← store.getBlockByHeight C 0 with
  | none => fail (.blockNotFound "Genesis block not found")
  | some genesisBlock =>
    let genesisConfig := GenesisBlock.new [genesisBlock.header.validator] genesisBlock.timestamp
      (show 1 < 2 ^ 64 by decide)
    let blockchain ← Blockchain.new P now genesisConfig
    loadHeights P C store (heightsFrom 1 store.metadata.chainHeight) blockchain

/-! ## What is stored -/

variable {P C}

theorem exec_saveMetadata (store : BlockchainStore) {data : Bytes}
    (h : C.serializeMetadata store.metadata = .ok data) :
    (saveMetadata C).exec store =
      (.ok (), { store with db := store.db.insert metadataKey data }) := by
  rw [saveMetadata, Exec.exec_get_bind, h]
  rfl

/-- The index of the transactions: all of them get the same entry. -/
theorem exec_indexTransactions {height : BlockHeight} {hash : BlockHash} {data : Bytes}
    (hdata : C.serializeLocation ⟨height, hash⟩ = .ok data) (txs : List Transaction) :
    ∀ store : BlockchainStore, (indexTransactions C height hash txs).exec store =
      (.ok (), { store with
        db := txs.foldl (fun db tx => db.insert (txKey tx.id) data) store.db }) := by
  induction txs with
  | nil =>
      intro store
      rfl
  | cons tx txs ih =>
      intro store
      rw [indexTransactions, hdata]
      exact ih { store with db := store.db.insert (txKey tx.id) data }

/-- What `store_block` puts into the database, the metadata apart: the block under its height
and its hash, and its place under its transactions. -/
def written (b : Block) (data location : Bytes) (db : Database) : Database :=
  b.transactions.foldl (fun db tx => db.insert (txKey tx.id) location)
    ((db.insert (heightKey b.height) data).insert (hashKey b.hash) data)

/-- **What `store_block` does.** -/
theorem exec_storeBlock {blocks : List Block} (hcodec : C.Exact blocks) {b : Block}
    {data location : Bytes} (hdata : C.serializeBlock b = .ok data)
    (hlocation : C.serializeLocation ⟨b.height, b.hash⟩ = .ok location)
    (store : BlockchainStore) :
    ∃ store', (storeBlock C b).exec store = (.ok (), store') ∧
      (∀ k, k ≠ metadataKey → store'.db.lookup k = (written b data location store.db).lookup k) ∧
      store'.metadata =
        if store.metadata.chainHeight < b.height then
          { store.metadata with
            chainHeight := b.height
            latestBlockHash := b.hash
            latestBlockTimestamp := b.timestamp }
        else store.metadata := by
  rw [storeBlock, hdata]
  simp only [serialized, Exec.exec_lift_bind, put, Exec.exec_modify_bind]
  rw [Exec.exec_bind, exec_indexTransactions hlocation]
  simp only [Exec.exec_get_bind]
  split
  · rw [Exec.exec_modify_bind]
    obtain ⟨value, hvalue⟩ := hcodec.metadata
      { store.metadata with
        chainHeight := b.height
        latestBlockHash := b.hash
        latestBlockTimestamp := b.timestamp }
    refine ⟨_, exec_saveMetadata _ hvalue, ?_, rfl⟩
    intro k hk
    exact Finmap.lookup_insert_of_ne _ hk
  · exact ⟨_, rfl, fun _ _ => rfl, rfl⟩

theorem lookup_written_heightKey (b : Block) (data location : Bytes) (db : Database)
    (h : BlockHeight) : (written b data location db).lookup (heightKey h) =
      if h = b.height then some data else db.lookup (heightKey h) := by
  have htx : heightKey h ∉ b.transactions.map fun tx => txKey tx.id := by
    intro hmem
    obtain ⟨tx, -, heq⟩ := List.mem_map.mp hmem
    exact heightKey_ne_txKey h tx.id heq.symm
  rw [written, Finmap.lookup_foldl_insert (fun tx : Transaction => txKey tx.id), if_neg htx,
    Finmap.lookup_insert_of_ne _ (heightKey_ne_hashKey h b.hash)]
  split
  · next heq => rw [heq, Finmap.lookup_insert]
  · next hne => exact Finmap.lookup_insert_of_ne _ fun heq => hne (heightKey_injective heq)

variable (C) in
/-- The first `n` of the blocks are found under their heights, and the metadata has the
height of the last of them. -/
structure Holds (store : BlockchainStore) (blocks : List Block) (n : Nat) : Prop where
  found : ∀ (i : Nat) (b : Block), i < n → blocks[i]? = some b →
    store.getBlockByHeight C (UInt64.ofNat i) = .ok (some b)
  chainHeight : store.metadata.chainHeight.toNat = n - 1

theorem getBlockByHeight_of_lookup {store : BlockchainStore} {h : BlockHeight} {data : Bytes}
    {b : Block} (hlookup : store.db.lookup (heightKey h) = some data)
    (hdata : C.deserializeBlock data = .ok b) : store.getBlockByHeight C h = .ok (some b) := by
  rw [getBlockByHeight, hlookup]
  simp only [hdata]

theorem Holds.storeBlock {store : BlockchainStore} {c : Blockchain} (hshape : c.Shape P)
    (hcodec : C.Exact c.blocks) {n : Nat} (h : Holds C store c.blocks n) {b : Block}
    (hb : c.blocks[n]? = some b) :
    ∃ store', (storeBlock C b).exec store = (.ok (), store') ∧ Holds C store' c.blocks (n + 1) ∧
      store'.metadata.genesisHash = store.metadata.genesisHash := by
  obtain ⟨data, hdata, hdecode⟩ := hcodec.block b (List.mem_of_getElem? hb)
  obtain ⟨location, hlocation⟩ := hcodec.location ⟨b.height, b.hash⟩
  obtain ⟨store', hexec, hkeys, hmetadata⟩ := exec_storeBlock hcodec hdata hlocation store
  have hlookup : ∀ h, store'.db.lookup (heightKey h) =
      if h = b.height then some data else store.db.lookup (heightKey h) := by
    intro h
    rw [hkeys _ (heightKey_ne_metadataKey h), lookup_written_heightKey]
  have hgenesis : store'.metadata.genesisHash = store.metadata.genesisHash := by
    rw [hmetadata]
    split
    · rfl
    · rfl
  have hbheight : b.height.toNat = n := hshape.heights n b hb
  refine ⟨store', hexec, ⟨?_, ?_⟩, hgenesis⟩
  · intro i x hi hx
    by_cases hin : i = n
    · rw [hin] at hx ⊢
      obtain rfl : b = x := Option.some.inj (hb.symm.trans hx)
      refine getBlockByHeight_of_lookup ?_ hdecode
      rw [hlookup, if_pos]
      rw [← hbheight, UInt64.ofNat_toNat]
    · have hn := (List.getElem?_eq_some_iff.mp hb).1
      have hmax : c.blocks.length ≤ 2 ^ 63 - 1 := hshape.length_le
      have hne : UInt64.ofNat i ≠ b.height := by
        intro heq
        have := congrArg UInt64.toNat heq
        rw [UInt64.toNat_ofNat_of_lt' (show i < 2 ^ 64 by omega), hbheight] at this
        exact hin this
      rw [getBlockByHeight, hlookup, if_neg hne]
      exact h.found i x (by omega) hx
  · have hlast := h.chainHeight
    rw [hmetadata, Nat.add_sub_cancel]
    split
    · exact hbheight
    · next hge =>
        rw [UInt64.lt_iff_toNat_lt, hbheight] at hge
        omega

theorem exec_storeHeights {c : Blockchain} (hshape : c.Shape P) (hcodec : C.Exact c.blocks)
    (m : Nat) : ∀ {n : Nat} {store : BlockchainStore}, Holds C store c.blocks n →
      n + m ≤ c.blocks.length →
      ∃ store', (storeHeights C c ((List.range' n m).map UInt64.ofNat)).exec store =
          (.ok (), store') ∧
        Holds C store' c.blocks (n + m) ∧
        store'.metadata.genesisHash = store.metadata.genesisHash := by
  induction m with
  | zero =>
      intro n store h _
      exact ⟨store, rfl, h, rfl⟩
  | succ m ih =>
      intro n store h hlen
      have hmax : c.blocks.length ≤ 2 ^ 63 - 1 := hshape.length_le
      have hn : (UInt64.ofNat n).toNat = n :=
        UInt64.toNat_ofNat_of_lt' (show n < 2 ^ 64 by omega)
      have hb : c.blocks[n]? = some c.blocks[n] := List.getElem?_eq_getElem (by omega)
      obtain ⟨store', hexec, hholds, hgenesis⟩ := h.storeBlock hshape hcodec hb
      obtain ⟨store'', hrest, hholds', hgenesis'⟩ := ih hholds (by omega)
      refine ⟨store'', ?_, ?_, hgenesis'.trans hgenesis⟩
      · rw [List.range'_succ, List.map_cons, storeHeights, hshape.getBlockByHeight_eq, hn, hb,
          Exec.exec_lift_bind]
        simp only [Exec.exec_bind, hexec]
        exact hrest
      · rwa [Nat.add_assoc, Nat.add_comm 1 m] at hholds'

/-- **What `store_blockchain` leaves** in an empty store: every block of the chain under its
height, and the height and the genesis hash in the metadata. -/
theorem exec_storeBlockchain {c : Blockchain} (hshape : c.Shape P) (hcodec : C.Exact c.blocks)
    (now : Timestamp) :
    ∃ store, (storeBlockchain C c).exec (newMemory now) = (.ok (), store) ∧
      Holds C store c.blocks c.blocks.length ∧ store.metadata.chainHeight = c.height ∧
      store.metadata.genesisHash = c.genesisHash := by
  have hempty : Holds C (newMemory now) c.blocks 0 :=
    ⟨fun i b hi => absurd hi (Nat.not_lt_zero i), rfl⟩
  have hheight := hshape.height
  obtain ⟨store, hexec, hholds, -⟩ := exec_storeHeights hshape hcodec c.blocks.length hempty
    (Nat.zero_add _).le
  rw [Nat.zero_add] at hholds
  have hrange : heightsFrom 0 c.height = (List.range' 0 c.blocks.length).map UInt64.ofNat := by
    rw [heightsFrom, ← hheight]
    rfl
  obtain ⟨value, hvalue⟩ := hcodec.metadata
    { store.metadata with
      genesisHash := c.genesisHash
      totalTransactions := UInt64.ofNat c.transactionCount }
  refine ⟨⟨store.db.insert metadataKey value,
    { store.metadata with
      genesisHash := c.genesisHash
      totalTransactions := UInt64.ofNat c.transactionCount }⟩, ?_, ⟨?_, hholds.chainHeight⟩, ?_, rfl⟩
  · rw [storeBlockchain, hrange, Exec.exec_bind, hexec]
    simp only [Exec.exec_modify_bind]
    exact exec_saveMetadata _ hvalue
  · intro i b hi hb
    rw [getBlockByHeight, Finmap.lookup_insert_of_ne _ (heightKey_ne_metadataKey _)]
    exact hholds.found i b hi hb
  · have hlast := hholds.chainHeight
    have hnat : store.metadata.chainHeight.toNat = c.height.toNat := by omega
    exact UInt64.toNat_inj.mp hnat

/-! ## What is loaded -/

/-- The chain is `c₀` with the blocks `bs` added, each of them admitted. -/
structure Built [Hex] (P : Primitives) (c₀ : Blockchain) (bs : List Block)
    (c : Blockchain) : Prop where
  admitted : Runs.Along (Blockchain.addStep P) (Blockchain.Admits P) c₀ bs
  run : c₀.addBlocks P bs = c
  blocks : c.blocks = c₀.blocks ++ bs

theorem exists_built [Hex] (c₀ : Blockchain) (bs : List Block) :
    ∃ bs', Built P c₀ bs' (c₀.addBlocks P bs) := by
  refine Blockchain.addBlocks_invariant (I := fun c => ∃ bs', Built P c₀ bs' c) ?_ ?_ bs
  · rintro c b ⟨bs', h⟩ hadm
    refine ⟨bs' ++ [b], ?_, ?_, ?_⟩
    · refine Runs.along_concat.mpr ⟨h.admitted, ?_⟩
      show Blockchain.Admits P (c₀.addBlocks P bs') b
      rwa [h.run]
    · rw [Blockchain.addBlocks_concat, h.run]
      exact Blockchain.next_addBlock_of_admits hadm
    · show c.blocks ++ [b] = c₀.blocks ++ (bs' ++ [b])
      rw [h.blocks, List.append_assoc]
  · exact ⟨[], trivial, rfl, (List.append_nil _).symm⟩

theorem loadHeights_of_admitted [Hex] {store : BlockchainStore} (bs : List Block) :
    ∀ {c : Blockchain} {n : Nat},
      (∀ i b, bs[i]? = some b →
        store.getBlockByHeight C (UInt64.ofNat (n + i)) = .ok (some b)) →
      Runs.Along (Blockchain.addStep P) (Blockchain.Admits P) c bs →
      loadHeights P C store ((List.range' n bs.length).map UInt64.ofNat) c =
        .ok (c.addBlocks P bs) := by
  induction bs with
  | nil =>
      intro c n _ _
      rfl
  | cons b bs ih =>
      intro c n hfound hadmitted
      obtain ⟨hadm, hrest⟩ := hadmitted
      have hb := hfound 0 b rfl
      have hstep : Blockchain.addStep P c b = c.extend b :=
        Blockchain.next_addBlock_of_admits hadm
      rw [Nat.add_zero] at hb
      rw [List.length_cons, List.range'_succ, List.map_cons, loadHeights, hb]
      simp only [bind, Except.bind, Blockchain.addBlock_exec_of_admits hadm]
      rw [hstep] at hrest
      rw [ih ?_ hrest, ← hstep]
      · rfl
      · intro i x hx
        rw [Nat.add_assoc, Nat.add_comm 1 i]
        exact hfound (i + 1) x hx

theorem getElem?_zero_loadHeights [Hex] {store : BlockchainStore} :
    ∀ {heights : List BlockHeight} {c loaded : Blockchain},
      loadHeights P C store heights c = .ok loaded → loaded.blocks[0]? = c.blocks[0]?
  | [], c, loaded, h => by
      cases h
      rfl
  | height :: heights, c, loaded, h => by
      rw [loadHeights, bind_eq_ok] at h
      obtain ⟨block, -, h⟩ := h
      cases block with
      | none => exact getElem?_zero_loadHeights h
      | some b =>
          rcases hexec : (Blockchain.addBlock P b).exec c with ⟨r, c'⟩
          simp only [hexec] at h
          cases r with
          | error e => cases h
          | ok u =>
              have hadm : Blockchain.Admits P c b :=
                Blockchain.addBlock_eq_ok.mp (congrArg Prod.fst hexec)
              have hc' : c.extend b = c' := by
                rw [Blockchain.addBlock_exec_of_admits hadm] at hexec
                exact congrArg Prod.snd hexec
              rw [getElem?_zero_loadHeights h, ← hc']
              exact List.getElem?_append_left (List.length_pos_of_ne_nil c.blocks_ne)

variable (P) in
/-- The genesis block that is made from the validator and the timestamp of a block. -/
def rebuiltGenesis (b : Block) : Block :=
  (GenesisBlock.new [b.header.validator] b.timestamp (show 1 < 2 ^ 64 by decide)).blockOf P
    b.header.validator

theorem loadBlockchain_eq [Hex] {store : BlockchainStore} {b : Block}
    (hdata : ¬(store.metadata.chainHeight = 0 ∧ store.metadata.genesisHash = BlockHash.zero))
    (hb : store.getBlockByHeight C 0 = .ok (some b)) (now : Timestamp) :
    loadBlockchain P C now store =
      loadHeights P C store (heightsFrom 1 store.metadata.chainHeight)
        (Blockchain.ofGenesis (rebuiltGenesis P b)) := by
  have hnew : Blockchain.new P now (GenesisBlock.new [b.header.validator] b.timestamp
      (show 1 < 2 ^ 64 by decide)) = .ok (Blockchain.ofGenesis (rebuiltGenesis P b)) :=
    Blockchain.new_eq_ok.mpr ⟨_, GenesisBlock.createBlock_eq_ok.mpr ⟨_, rfl, rfl⟩, rfl⟩
  rw [loadBlockchain, decide_eq_true hdata, hb]
  simp only [ensure, if_true, bind, Except.bind, hnew]

theorem rebuiltGenesis_of_single {g : GenesisBlock} {key : PublicKey} (h : g.validators = [key]) :
    rebuiltGenesis P (g.blockOf P key) = g.blockOf P key := by
  have hregs : (GenesisBlock.new [key] g.timestamp (show 1 < 2 ^ 64 by decide)).registrations P =
      g.registrations P := by
    rw [GenesisBlock.registrations, GenesisBlock.registrations, h]
    rfl
  show (GenesisBlock.new [key] g.timestamp (show 1 < 2 ^ 64 by decide)).blockOf P key = _
  rw [GenesisBlock.blockOf, hregs]
  rfl

theorem length_rebuiltGenesis (b : Block) : (rebuiltGenesis P b).transactions.length = 1 :=
  rfl

theorem length_blockOf (g : GenesisBlock) (key : PublicKey) :
    (g.blockOf P key).transactions.length = g.validators.length := by
  show (g.registrations P).length = _
  rw [GenesisBlock.registrations, List.length_map, List.length_zipIdx]

section
variable {now : Timestamp} {g : GenesisBlock} {c₀ : Blockchain}

theorem exists_genesis [Hex] (hnew : Blockchain.new P now g = .ok c₀) (bs : List Block) :
    ∃ key bs', g.validators[0]? = some key ∧
      c₀ = Blockchain.ofGenesis (g.blockOf P key) ∧
      Built P c₀ bs' (c₀.addBlocks P bs) ∧
      (c₀.addBlocks P bs).blocks = g.blockOf P key :: bs' := by
  obtain ⟨b, hb, rfl⟩ := Blockchain.new_eq_ok.mp hnew
  obtain ⟨key, hkey, rfl⟩ := GenesisBlock.createBlock_eq_ok.mp hb
  obtain ⟨bs', hbuilt⟩ := exists_built (P := P) (Blockchain.ofGenesis (g.blockOf P key)) bs
  exact ⟨key, bs', hkey, rfl, hbuilt, hbuilt.blocks⟩

theorem loadBlockchain_of_single [Hex] (hnew : Blockchain.new P now g = .ok c₀) (bs : List Block)
    (hone : g.validators.length = 1) {store : BlockchainStore}
    (hholds : Holds C store (c₀.addBlocks P bs).blocks (c₀.addBlocks P bs).blocks.length)
    (hheight : store.metadata.chainHeight = (c₀.addBlocks P bs).height)
    (hdata : ¬(store.metadata.chainHeight = 0 ∧ store.metadata.genesisHash = BlockHash.zero))
    (now' : Timestamp) : loadBlockchain P C now' store = .ok (c₀.addBlocks P bs) := by
  have hshape := Blockchain.shape_addBlocks hnew bs
  obtain ⟨key, bs', hkey, hc₀, hbuilt, hblocks⟩ := exists_genesis hnew bs
  have hsingle : g.validators = [key] := by
    obtain ⟨key', hkey'⟩ := List.length_eq_one_iff.mp hone
    rw [hkey', List.getElem?_cons_zero, Option.some.injEq] at hkey
    rw [hkey', hkey]
  have hlength : (c₀.addBlocks P bs).blocks.length = bs'.length + 1 := by
    rw [hblocks, List.length_cons]
  have hgenesis : store.getBlockByHeight C 0 = .ok (some (g.blockOf P key)) := by
    refine hholds.found 0 _ (by omega) ?_
    rw [hblocks, List.getElem?_cons_zero]
  have hrange : heightsFrom 1 store.metadata.chainHeight =
      (List.range' 1 bs'.length).map UInt64.ofNat := by
    have hlast := hshape.height
    rw [heightsFrom, hheight]
    congr 2
    show (c₀.addBlocks P bs).height.toNat + 1 - 1 = bs'.length
    omega
  rw [loadBlockchain_eq hdata hgenesis, rebuiltGenesis_of_single hsingle, hrange, ← hc₀,
    loadHeights_of_admitted bs' ?_ hbuilt.admitted, hbuilt.run]
  intro i b hb
  have hlt := (List.getElem?_eq_some_iff.mp hb).1
  refine hholds.found (1 + i) b (by omega) ?_
  rw [hblocks, Nat.add_comm, List.getElem?_cons_succ]
  exact hb

theorem single_of_loadBlockchain [Hex] (hnew : Blockchain.new P now g = .ok c₀) (bs : List Block)
    {store : BlockchainStore}
    (hholds : Holds C store (c₀.addBlocks P bs).blocks (c₀.addBlocks P bs).blocks.length)
    (hdata : ¬(store.metadata.chainHeight = 0 ∧ store.metadata.genesisHash = BlockHash.zero))
    {now' : Timestamp} {loaded : Blockchain} (hload : loadBlockchain P C now' store = .ok loaded)
    (hsame : loaded.blocks = (c₀.addBlocks P bs).blocks) : g.validators.length = 1 := by
  obtain ⟨key, bs', -, -, -, hblocks⟩ := exists_genesis hnew bs
  have hgenesis : store.getBlockByHeight C 0 = .ok (some (g.blockOf P key)) := by
    refine hholds.found 0 _ (List.length_pos_of_ne_nil (Blockchain.blocks_ne _)) ?_
    rw [hblocks, List.getElem?_cons_zero]
  rw [loadBlockchain_eq hdata hgenesis] at hload
  have hfirst := getElem?_zero_loadHeights hload
  rw [hsame, hblocks] at hfirst
  have hrebuilt : g.blockOf P key = rebuiltGenesis P (g.blockOf P key) := Option.some.inj hfirst
  rw [← length_blockOf (P := P) g key, hrebuilt]
  exact length_rebuiltGenesis _

theorem loadBlockchain_ne_ok [Hex] {store : BlockchainStore}
    (hdata : store.metadata.chainHeight = 0 ∧ store.metadata.genesisHash = BlockHash.zero)
    (now' : Timestamp) (loaded : Blockchain) : loadBlockchain P C now' store ≠ .ok loaded := by
  intro h
  rw [loadBlockchain, decide_eq_false (not_not.mpr hdata)] at h
  cases h

variable (P C) in
/-- Stored in an empty store and loaded from it, the chain comes back with the same blocks,
height and genesis hash. -/
def RoundTrip [Hex] (stored now' : Timestamp) (c : Blockchain) : Prop :=
  ∃ store loaded, (storeBlockchain C c).exec (newMemory stored) = (.ok (), store) ∧
    loadBlockchain P C now' store = .ok loaded ∧ loaded.blocks = c.blocks ∧
    loaded.height = c.height ∧ loaded.genesisHash = c.genesisHash

theorem RoundTrip.single [Hex] (hnew : Blockchain.new P now g = .ok c₀) (bs : List Block)
    (hcodec : C.Exact (c₀.addBlocks P bs).blocks) {stored now' : Timestamp}
    (h : RoundTrip P C stored now' (c₀.addBlocks P bs)) :
    g.validators.length = 1 ∧
      ¬((c₀.addBlocks P bs).height = 0 ∧ (c₀.addBlocks P bs).genesisHash = BlockHash.zero) := by
  obtain ⟨store, hexec, hholds, hheight, hgenesis⟩ :=
    exec_storeBlockchain (Blockchain.shape_addBlocks hnew bs) hcodec stored
  obtain ⟨store', loaded, hexec', hload, hsame, -, -⟩ := h
  obtain rfl : store = store' := congrArg Prod.snd (hexec.symm.trans hexec')
  have hdata : ¬(store.metadata.chainHeight = 0 ∧
      store.metadata.genesisHash = BlockHash.zero) :=
    fun hdata => loadBlockchain_ne_ok hdata now' loaded hload
  rw [← hheight, ← hgenesis]
  exact ⟨single_of_loadBlockchain hnew bs hholds hdata hload hsame, hdata⟩

/-- **Which chains survive storing and loading.**  A chain that was built by `add_block`
and put into an empty store is loaded with the same blocks, height and genesis hash exactly
if its genesis configuration has one validator, and it is not a genesis block alone whose
hash is zero. -/
theorem load_store_iff [Hex] (hnew : Blockchain.new P now g = .ok c₀) (bs : List Block)
    (hcodec : C.Exact (c₀.addBlocks P bs).blocks) (stored now' : Timestamp) :
    RoundTrip P C stored now' (c₀.addBlocks P bs) ↔
      g.validators.length = 1 ∧
        ¬((c₀.addBlocks P bs).height = 0 ∧
          (c₀.addBlocks P bs).genesisHash = BlockHash.zero) := by
  constructor
  · intro h
    exact h.single hnew bs hcodec
  · rintro ⟨hone, hdata⟩
    obtain ⟨store, hexec, hholds, hheight, hgenesis⟩ :=
      exec_storeBlockchain (Blockchain.shape_addBlocks hnew bs) hcodec stored
    rw [← hheight, ← hgenesis] at hdata
    exact ⟨store, c₀.addBlocks P bs, hexec,
      loadBlockchain_of_single hnew bs hone hholds hheight hdata now', rfl, rfl, rfl⟩

end

end BlockchainStore

/-! ## Chains to store -/

namespace Reference

theorem height_of_encodeBlock {b b' : Block} (h : encodeBlock b = encodeBlock b') :
    b.header.height = b'.header.height := by
  rw [encodeBlock, encodeBlock, encodeHeader, encodeHeader, List.append_assoc,
    List.append_assoc] at h
  exact (Codec.selfDelimiting_u64 _ _ _ _ h).1

/-- The serializer of the program, with a reader that knows the given blocks only. -/
def storeCodec (blocks : List Block) : StoreCodec where
  serializeBlock b := .ok (encodeBlock b)
  deserializeBlock data :=
    match blocks.find? fun b => decide (encodeBlock b = data) with
    | some b => .ok b
    | none => .error "invalid value"
  serializeLocation location :=
    .ok (encodeU64 location.blockHeight ++ location.blockHash.asBytes)
  serializeMetadata metadata :=
    .ok (encodeU64 metadata.chainHeight ++ metadata.genesisHash.asBytes ++
      metadata.latestBlockHash.asBytes ++ encodeU64 metadata.latestBlockTimestamp ++
      encodeU64 metadata.totalTransactions ++ encodeU64 metadata.lastUpdated)

theorem exact_storeCodec_of_injOn {blocks : List Block}
    (h : ∀ b ∈ blocks, ∀ x ∈ blocks, encodeBlock x = encodeBlock b → x = b) :
    (storeCodec blocks).Exact blocks := by
  refine ⟨?_, fun _ => ⟨_, rfl⟩, fun _ => ⟨_, rfl⟩⟩
  intro b hb
  refine ⟨encodeBlock b, rfl, ?_⟩
  show (match blocks.find? fun x => decide (encodeBlock x = encodeBlock b) with
    | some b => Except.ok b
    | none => .error "invalid value") = .ok b
  cases hfind : blocks.find? fun x => decide (encodeBlock x = encodeBlock b) with
  | none => exact absurd (decide_eq_true rfl) (List.find?_eq_none.mp hfind b hb)
  | some x =>
      have hx := List.find?_some hfind
      simp only [decide_eq_true_eq] at hx
      rw [h b hb x (List.mem_of_find?_eq_some hfind) hx]

theorem exact_storeCodec {P : Primitives} {c : Blockchain} (h : c.Shape P) :
    (storeCodec c.blocks).Exact c.blocks := by
  refine exact_storeCodec_of_injOn ?_
  intro b hb x hx heq
  exact h.eq_of_height_eq hx hb (height_of_encodeBlock heq)

/-- The genesis configuration of two validators. -/
def genesisOfTwo : GenesisBlock :=
  GenesisBlock.new [key, ⟨List.Vector.replicate 32 2⟩] 1000 (by decide)

end Reference

namespace BlockchainStore
open Reference (primitives storeCodec)

/-- A chain with a vote in it. -/
theorem load_store_iff_vote :
    RoundTrip primitives
      (storeCodec (Reference.chain.addBlocks primitives
        [Reference.chain.nextBlock primitives [Reference.vote 0] Reference.key]).blocks) 5000 6000
      (Reference.chain.addBlocks primitives
        [Reference.chain.nextBlock primitives [Reference.vote 0] Reference.key]) := by
  have hnew := Reference.new_genesis 0
  refine (load_store_iff hnew _ (Reference.exact_storeCodec (Blockchain.shape_addBlocks hnew _))
    5000 6000).mpr ⟨rfl, ?_⟩
  rw [Blockchain.addBlocks_of_admits (Reference.admits_votes [Reference.vote 0]
    fun _ h => List.mem_singleton.mp h)]
  rintro ⟨hheight, -⟩
  cases hheight

/-- The genesis block of two validators is not loaded as it was stored. -/
theorem two_validators_lost :
    ∃ c, Blockchain.new primitives 0 Reference.genesisOfTwo = .ok c ∧
      (storeCodec (c.addBlocks primitives []).blocks).Exact (c.addBlocks primitives []).blocks ∧
      ¬RoundTrip primitives (storeCodec (c.addBlocks primitives []).blocks) 5000 6000
        (c.addBlocks primitives []) := by
  obtain ⟨c, hnew⟩ := Blockchain.exists_new primitives 0 (g := Reference.genesisOfTwo)
    (List.cons_ne_nil _ _)
  have hcodec := Reference.exact_storeCodec (Blockchain.shape_addBlocks hnew [])
  refine ⟨c, hnew, hcodec, ?_⟩
  intro h
  exact absurd (h.single hnew [] hcodec).1 (by decide)

end BlockchainStore

end VotingChain
