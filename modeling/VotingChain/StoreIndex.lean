/-
# `VotingChain.StoreIndex` — looking things up in the block store

The rest of `storage/src/blockchain_store.rs`: the lookups by hash and by transaction, the
latest block, and `prune_before`.

What a store shows to its users is an `Index`, three partial functions and the tip in the
metadata.  `store_block` and `prune_before` are simple on it (`Index.storeBlock`,
`Index.pruneBefore`), and the database refines it (`Shows`), because no two keys are the
same.  The rest is about indexes.

Two things are asked of an index.  That the tip of the metadata is the latest block, and
that the three functions agree with each other.  `store_block` writes to each of them
without looking at the others, and whether it leaves them in agreement depends on what it
overwrites (`tip_iff`, `lookups_agree_iff`).
-/
import VotingChain.Store
import VotingChain.Lib.Runs

namespace VotingChain

/-! ## Lookups -/

/-- `bincode` on what the lookups read as well. -/
structure IndexCodec extends StoreCodec where
  deserializeLocation : Bytes → Except String TxLocation

/-- Locations come back as well. -/
structure IndexCodec.Exact (C : IndexCodec) (blocks : List Block) : Prop
    extends StoreCodec.Exact C.toStoreCodec blocks where
  readLocation : ∀ location data, C.serializeLocation location = .ok data →
    C.deserializeLocation data = .ok location

/-- The result of deserializing, with an error that says what it was. -/
def deserialized {α : Type} (what : String) (r : Except String α) : Result α :=
  match r with
  | .ok a => .ok a
  | .error e => fail (.deserializationError (what ++ " deserialization failed: " ++ e))

namespace BlockchainStore
variable (C : IndexCodec)

/-- Get block by hash. -/
def getBlockByHash (store : BlockchainStore) (hash : BlockHash) : Result (Option Block) :=
  match store.db.lookup (hashKey hash) with
  | some data => do
      let block ← deserialized "Block" (C.deserializeBlock data)
      return some block
  | none => .ok none

/-- Get transaction by ID. -/
def getTransaction (store : BlockchainStore) (txId : TxId) : Result (Option Transaction) :=
  match store.db.lookup (txKey txId) with
  | some data => do
      let txLocation ← deserialized "TX location" (C.deserializeLocation data)
      match ← store.getBlockByHeight C.toStoreCodec txLocation.blockHeight with
      | some block => return block.transactions.find? fun t => decide (t.id = txId)
      | none => return none
  | none => .ok none

/-- Check if transaction exists. -/
def containsTransaction (store : BlockchainStore) (txId : TxId) : Result Bool :=
  .ok (store.db.contains (txKey txId))

/-- Get latest block. -/
def getLatestBlock (store : BlockchainStore) : Result (Option Block) :=
  if store.metadata.chainHeight = 0 ∧ store.metadata.latestBlockHash = BlockHash.zero then .ok none
  else store.getBlockByHeight C.toStoreCodec store.metadata.chainHeight

/-- The keys that are deleted with a block at a height. -/
def keysOf (height : BlockHeight) (block : Block) : List Bytes :=
  heightKey height :: hashKey block.hash :: block.transactions.map fun tx => txKey tx.id

/-- The loop of `prune_before`: how many blocks go, and the operations that take them out. -/
def collectPruned (store : BlockchainStore) (cutoff : Timestamp) :
    List BlockHeight → Nat → List WriteOperation → Result (Nat × List WriteOperation)
  | [], prunedCount, operations => .ok (prunedCount, operations)
  | height :: heights, prunedCount, operations => do
      match ← store.getBlockByHeight C.toStoreCodec height with
      | some block =>
        if block.timestamp < cutoff then
          -- the genesis block is not pruned
          if height = 0 then collectPruned store cutoff heights prunedCount operations
          else
            collectPruned store cutoff heights (prunedCount + 1)
              (operations ++ (keysOf height block).map .delete)
        else collectPruned store cutoff heights prunedCount operations
      | none => collectPruned store cutoff heights prunedCount operations

/-- Prune blocks before a timestamp. -/
def pruneBefore (cutoff : Timestamp) : Exec BlockchainStore Nat := do
  let store ← get
  let (prunedCount, operations) ← Exec.lift
    (collectPruned C store cutoff (heightsFrom 1 store.metadata.chainHeight) 0 [])
  if operations.isEmpty then return prunedCount
  else
    modify fun store => { store with db := store.db.writeBatch operations }
    return prunedCount

end BlockchainStore

/-! ## Keys do not get in each other's way -/

theorem ne_of_length_ne {k k' : Bytes} (h : k.length ≠ k'.length) : k ≠ k' :=
  fun heq => h (congrArg List.length heq)

theorem hashKey_injective : Function.Injective hashKey := by
  intro x y heq
  exact selfDelimiting_blockHash.injective (List.append_cancel_left heq)

theorem txKey_injective : Function.Injective txKey := by
  intro x y heq
  exact TxId.ext (List.Vector.toList_injective (List.append_cancel_left heq))

theorem hashKey_ne_txKey (hash : BlockHash) (txId : TxId) : hashKey hash ≠ txKey txId :=
  ne_of_length_ne (by rw [length_hashKey, length_txKey]; decide)

theorem hashKey_ne_metadataKey (hash : BlockHash) : hashKey hash ≠ metadataKey :=
  ne_of_length_ne (by rw [length_hashKey]; decide)

theorem txKey_ne_metadataKey (txId : TxId) : txKey txId ≠ metadataKey :=
  ne_of_length_ne (by rw [length_txKey]; decide)

/-- The ids of the transactions in a block. -/
def Block.txIds (b : Block) : List TxId := b.transactions.map Transaction.id

/-! ## What a store shows -/

/-- What can be looked up in a store, and the tip in its metadata. -/
structure Index where
  byHeight : BlockHeight → Option Block
  byHash : BlockHash → Option Block
  location : TxId → Option TxLocation
  chainHeight : BlockHeight
  latestBlockHash : BlockHash

namespace Index

/-- A store with nothing in it. -/
def empty : Index := ⟨fun _ => none, fun _ => none, fun _ => none, 0, BlockHash.zero⟩

/-- The transaction in the block at its place. -/
def transaction (index : Index) (txId : TxId) : Option Transaction := do
  let txLocation ← index.location txId
  let block ← index.byHeight txLocation.blockHeight
  block.transactions.find? fun t => decide (t.id = txId)

/-- The block at the tip, unless the tip is that of an empty store. -/
def latest (index : Index) : Option Block :=
  if index.chainHeight = 0 ∧ index.latestBlockHash = BlockHash.zero then none
  else index.byHeight index.chainHeight

/-- A block is stored. -/
def storeBlock (index : Index) (b : Block) : Index where
  byHeight h := if h = b.height then some b else index.byHeight h
  byHash x := if x = b.hash then some b else index.byHash x
  location t := if t ∈ b.txIds then some ⟨b.height, b.hash⟩ else index.location t
  chainHeight := if index.chainHeight < b.height then b.height else index.chainHeight
  latestBlockHash := if index.chainHeight < b.height then b.hash else index.latestBlockHash

/-- The block at this height is there to be pruned. -/
def Stale (index : Index) (cutoff : Timestamp) (h : BlockHeight) (b : Block) : Prop :=
  1 ≤ h ∧ h ≤ index.chainHeight ∧ index.byHeight h = some b ∧ b.timestamp < cutoff

/-- There is a stale block at this height. -/
def PrunesHeight (index : Index) (cutoff : Timestamp) (h : BlockHeight) : Prop :=
  ∃ b, index.Stale cutoff h b

/-- There is a stale block with this hash. -/
def PrunesHash (index : Index) (cutoff : Timestamp) (x : BlockHash) : Prop :=
  ∃ h b, index.Stale cutoff h b ∧ b.hash = x

/-- There is a stale block with this transaction. -/
def PrunesTx (index : Index) (cutoff : Timestamp) (t : TxId) : Prop :=
  ∃ h b, index.Stale cutoff h b ∧ t ∈ b.txIds

open Classical in
/-- The stale blocks go, and with them what is under their hashes and transactions. -/
noncomputable def pruneBefore (index : Index) (cutoff : Timestamp) : Index :=
  { index with
    byHeight := fun h => if index.PrunesHeight cutoff h then none else index.byHeight h
    byHash := fun x => if index.PrunesHash cutoff x then none else index.byHash x
    location := fun t => if index.PrunesTx cutoff t then none else index.location t }

end Index

namespace BlockchainStore
variable (C : IndexCodec)

/-- The database holds the index, and nothing in it is unreadable. -/
structure Shows (store : BlockchainStore) (index : Index) : Prop where
  byHeight : ∀ h, (store.db.lookup (heightKey h)).map C.deserializeBlock =
    (index.byHeight h).map .ok
  byHash : ∀ x, (store.db.lookup (hashKey x)).map C.deserializeBlock = (index.byHash x).map .ok
  location : ∀ t, (store.db.lookup (txKey t)).map C.deserializeLocation =
    (index.location t).map .ok
  chainHeight : store.metadata.chainHeight = index.chainHeight
  latestBlockHash : store.metadata.latestBlockHash = index.latestBlockHash

variable {C}

theorem shows_newMemory (now : Timestamp) : Shows C (newMemory now) Index.empty :=
  ⟨fun _ => rfl, fun _ => rfl, fun _ => rfl, rfl, rfl⟩

theorem map_eq_map_ok {α : Type} {cell : Option Bytes} {read : Bytes → Except String α}
    {found : Option α} (h : cell.map read = found.map .ok) :
    (cell = none ∧ found = none) ∨
      ∃ data a, cell = some data ∧ read data = .ok a ∧ found = some a := by
  cases cell with
  | none =>
      cases found with
      | none => exact Or.inl ⟨rfl, rfl⟩
      | some a => cases h
  | some data =>
      cases found with
      | none => cases h
      | some a => exact Or.inr ⟨data, a, rfl, Option.some.inj h, rfl⟩

section
variable {store : BlockchainStore} {index : Index}

theorem Shows.getBlockByHeight (h : Shows C store index) (height : BlockHeight) :
    store.getBlockByHeight C.toStoreCodec height = .ok (index.byHeight height) := by
  rw [BlockchainStore.getBlockByHeight]
  rcases map_eq_map_ok (h.byHeight height) with ⟨hcell, hfound⟩ | ⟨data, b, hcell, hread, hfound⟩
  · rw [hcell, hfound]
  · rw [hcell, hfound]
    simp only [hread]

theorem Shows.getBlockByHash (h : Shows C store index) (hash : BlockHash) :
    store.getBlockByHash C hash = .ok (index.byHash hash) := by
  rw [BlockchainStore.getBlockByHash]
  rcases map_eq_map_ok (h.byHash hash) with ⟨hcell, hfound⟩ | ⟨data, b, hcell, hread, hfound⟩
  · rw [hcell, hfound]
  · rw [hcell, hfound]
    simp only [hread]
    rfl

theorem Shows.containsTransaction (h : Shows C store index) (txId : TxId) :
    store.containsTransaction txId = .ok (index.location txId).isSome := by
  rw [BlockchainStore.containsTransaction, Database.contains]
  rcases map_eq_map_ok (h.location txId) with ⟨hcell, hfound⟩ | ⟨data, b, hcell, -, hfound⟩
  · rw [hcell, hfound]
    rfl
  · rw [hcell, hfound]
    rfl

theorem Shows.getTransaction (h : Shows C store index) (txId : TxId) :
    store.getTransaction C txId = .ok (index.transaction txId) := by
  rw [BlockchainStore.getTransaction, Index.transaction]
  rcases map_eq_map_ok (h.location txId) with ⟨hcell, hfound⟩ | ⟨data, loc, hcell, hread, hfound⟩
  · rw [hcell, hfound]
    rfl
  · rw [hcell, hfound]
    simp only [hread, deserialized, bind, Except.bind, Option.bind, h.getBlockByHeight]
    cases index.byHeight loc.blockHeight with
    | none => rfl
    | some block => rfl

theorem Shows.getLatestBlock (h : Shows C store index) :
    store.getLatestBlock C = .ok index.latest := by
  rw [BlockchainStore.getLatestBlock, Index.latest, h.chainHeight, h.latestBlockHash,
    h.getBlockByHeight]
  split
  · rfl
  · rfl

end

/-! ## `store_block` on the index -/

theorem txKey_mem_iff {b : Block} {t : TxId} :
    txKey t ∈ b.transactions.map (fun tx => txKey tx.id) ↔ t ∈ b.txIds := by
  rw [Block.txIds, ← List.mem_map_of_injective txKey_injective, List.map_map]
  rfl

theorem lookup_written_hashKey (b : Block) (data location : Bytes) (db : Database)
    (x : BlockHash) : (written b data location db).lookup (hashKey x) =
      if x = b.hash then some data else db.lookup (hashKey x) := by
  have htx : hashKey x ∉ b.transactions.map fun tx => txKey tx.id := by
    intro hmem
    obtain ⟨tx, -, heq⟩ := List.mem_map.mp hmem
    exact hashKey_ne_txKey x tx.id heq.symm
  rw [written, Finmap.lookup_foldl_insert (fun tx : Transaction => txKey tx.id), if_neg htx]
  split
  · next heq => rw [heq, Finmap.lookup_insert]
  · next hne =>
      rw [Finmap.lookup_insert_of_ne _ fun heq => hne (hashKey_injective heq),
        Finmap.lookup_insert_of_ne _ (heightKey_ne_hashKey b.height x).symm]

theorem lookup_written_txKey (b : Block) (data location : Bytes) (db : Database) (t : TxId) :
    (written b data location db).lookup (txKey t) =
      if t ∈ b.txIds then some location else db.lookup (txKey t) := by
  rw [written, Finmap.lookup_foldl_insert (fun tx : Transaction => txKey tx.id),
    Finmap.lookup_insert_of_ne _ (hashKey_ne_txKey b.hash t).symm,
    Finmap.lookup_insert_of_ne _ (heightKey_ne_txKey b.height t).symm]
  by_cases ht : t ∈ b.txIds
  · rw [if_pos (txKey_mem_iff.mpr ht), if_pos ht]
  · rw [if_neg (mt txKey_mem_iff.mp ht), if_neg ht]

theorem Shows.storeBlock {store : BlockchainStore} {index : Index} (h : Shows C store index)
    {blocks : List Block} (hcodec : C.Exact blocks) {b : Block} (hb : b ∈ blocks) :
    ∃ store', (storeBlock C.toStoreCodec b).exec store = (.ok (), store') ∧
      Shows C store' (index.storeBlock b) := by
  obtain ⟨data, hdata, hread⟩ := hcodec.block b hb
  obtain ⟨place, hplace⟩ := hcodec.location ⟨b.height, b.hash⟩
  obtain ⟨store', hexec, hkeys, hmetadata⟩ := exec_storeBlock hcodec.toExact hdata hplace store
  refine ⟨store', hexec, ?_, ?_, ?_, ?_, ?_⟩
  · intro height
    rw [hkeys _ (heightKey_ne_metadataKey height), lookup_written_heightKey, Index.storeBlock]
    simp only
    split
    · rw [Option.map_some, Option.map_some, hread]
    · exact h.byHeight height
  · intro x
    rw [hkeys _ (hashKey_ne_metadataKey x), lookup_written_hashKey, Index.storeBlock]
    simp only
    split
    · rw [Option.map_some, Option.map_some, hread]
    · exact h.byHash x
  · intro t
    rw [hkeys _ (txKey_ne_metadataKey t), lookup_written_txKey, Index.storeBlock]
    simp only
    split
    · rw [Option.map_some, Option.map_some, hcodec.readLocation _ _ hplace]
    · exact h.location t
  · rw [hmetadata, Index.storeBlock, h.chainHeight]
    simp only
    split
    · rfl
    · exact h.chainHeight
  · rw [hmetadata, Index.storeBlock, h.chainHeight]
    simp only
    split
    · rfl
    · exact h.latestBlockHash

/-! ## `prune_before` on the index -/

theorem mem_heightsFrom {first last height : BlockHeight} :
    height ∈ heightsFrom first last ↔ first ≤ height ∧ height ≤ last := by
  rw [heightsFrom, List.mem_map, UInt64.le_iff_toNat_le, UInt64.le_iff_toNat_le]
  constructor
  · rintro ⟨n, hn, rfl⟩
    rw [List.mem_range'_1] at hn
    have hlast := last.toNat_lt
    rw [UInt64.toNat_ofNat_of_lt' (show n < 2 ^ 64 by omega)]
    omega
  · rintro ⟨hfirst, hlast⟩
    refine ⟨height.toNat, ?_, UInt64.ofNat_toNat⟩
    rw [List.mem_range'_1]
    omega

/-- The blocks that are found at the heights and are older than the cutoff, with their
heights. -/
def stale (index : Index) (cutoff : Timestamp) (heights : List BlockHeight) :
    List (BlockHeight × Block) :=
  heights.filterMap fun height =>
    match index.byHeight height with
    | some block => if block.timestamp < cutoff then some (height, block) else none
    | none => none

theorem mem_stale {index : Index} {cutoff : Timestamp} {heights : List BlockHeight}
    {height : BlockHeight} {block : Block} :
    (height, block) ∈ stale index cutoff heights ↔
      height ∈ heights ∧ index.byHeight height = some block ∧ block.timestamp < cutoff := by
  rw [stale, List.mem_filterMap]
  constructor
  · rintro ⟨height', hmem, heq⟩
    cases hfound : index.byHeight height' with
    | none =>
        rw [hfound] at heq
        cases heq
    | some block' =>
        rw [hfound] at heq
        simp only [Option.ite_none_right_eq_some, Option.some.injEq, Prod.mk.injEq] at heq
        obtain ⟨hold, rfl, rfl⟩ := heq
        exact ⟨hmem, hfound, hold⟩
  · rintro ⟨hmem, hfound, hold⟩
    refine ⟨height, hmem, ?_⟩
    rw [hfound]
    exact if_pos hold

/-- The keys of all blocks that are to go. -/
def staleKeys (index : Index) (cutoff : Timestamp) (heights : List BlockHeight) : List Bytes :=
  (stale index cutoff heights).flatMap fun (height, block) => keysOf height block

theorem Shows.collectPruned {store : BlockchainStore} {index : Index} (h : Shows C store index)
    (cutoff : Timestamp) (heights : List BlockHeight) (hgenesis : (0 : BlockHeight) ∉ heights) :
    ∀ (prunedCount : Nat) (operations : List WriteOperation),
      collectPruned C store cutoff heights prunedCount operations =
        .ok (prunedCount + (stale index cutoff heights).length,
          operations ++ (staleKeys index cutoff heights).map .delete) := by
  induction heights with
  | nil =>
      intro prunedCount operations
      rw [BlockchainStore.collectPruned]
      simp only [stale, staleKeys, List.filterMap_nil, List.flatMap_nil, List.map_nil,
        List.append_nil, List.length_nil, Nat.add_zero]
  | cons height heights ih =>
      intro prunedCount operations
      have hrest := ih (fun hmem => hgenesis (List.mem_cons_of_mem _ hmem))
      have hne : height ≠ 0 := by
        rintro rfl
        exact hgenesis List.mem_cons_self
      rw [BlockchainStore.collectPruned, h.getBlockByHeight]
      simp only [bind, Except.bind, if_neg hne]
      cases hfound : index.byHeight height with
      | none =>
          have hstale : stale index cutoff (height :: heights) = stale index cutoff heights := by
            rw [stale, List.filterMap_cons, hfound]
            rfl
          rw [staleKeys, hstale]
          exact hrest prunedCount operations
      | some block =>
          simp only
          split
          · next hold =>
              have hstale : stale index cutoff (height :: heights) =
                  (height, block) :: stale index cutoff heights := by
                rw [stale, List.filterMap_cons, hfound]
                simp only [hold, if_true]
                rfl
              have hkeys : staleKeys index cutoff (height :: heights) =
                  keysOf height block ++ staleKeys index cutoff heights := by
                rw [staleKeys, hstale, List.flatMap_cons]
                rfl
              rw [hrest, hkeys, hstale, List.length_cons, List.map_append, List.append_assoc,
                Nat.add_right_comm, Nat.add_assoc]
          · next hnew =>
              have hstale : stale index cutoff (height :: heights) =
                  stale index cutoff heights := by
                rw [stale, List.filterMap_cons, hfound]
                simp only [hnew, if_false]
                rfl
              rw [staleKeys, hstale]
              exact hrest prunedCount operations

/-- **What `prune_before` does.** -/
theorem Shows.exec_pruneBefore {store : BlockchainStore} {index : Index} (h : Shows C store index)
    (cutoff : Timestamp) :
    (pruneBefore C cutoff).exec store =
      (.ok (stale index cutoff (heightsFrom 1 index.chainHeight)).length,
        { store with
          db := store.db.writeBatch
            ((staleKeys index cutoff (heightsFrom 1 index.chainHeight)).map .delete) }) := by
  have hgenesis : (0 : BlockHeight) ∉ heightsFrom 1 index.chainHeight := by
    rw [mem_heightsFrom]
    rintro ⟨hone, -⟩
    exact absurd hone (by decide)
  rw [pruneBefore, Exec.exec_get_bind, h.chainHeight, h.collectPruned cutoff _ hgenesis]
  simp only [Exec.exec_lift_bind, Nat.zero_add, List.nil_append]
  split
  · next hempty =>
      rw [List.isEmpty_iff] at hempty
      rw [hempty]
      rfl
  · rfl

theorem mem_staleKeys {index : Index} {cutoff : Timestamp} {k : Bytes} :
    k ∈ staleKeys index cutoff (heightsFrom 1 index.chainHeight) ↔
      ∃ height b, index.Stale cutoff height b ∧
        (k = heightKey height ∨ k = hashKey b.hash ∨ ∃ t ∈ b.txIds, k = txKey t) := by
  rw [staleKeys, List.mem_flatMap]
  constructor
  · rintro ⟨⟨height, b⟩, hmem, hk⟩
    rw [mem_stale, mem_heightsFrom] at hmem
    obtain ⟨⟨hone, hlast⟩, hfound, hold⟩ := hmem
    refine ⟨height, b, ⟨hone, hlast, hfound, hold⟩, ?_⟩
    rcases List.mem_cons.mp hk with hk | hk
    · exact Or.inl hk
    · rcases List.mem_cons.mp hk with hk | hk
      · exact Or.inr (Or.inl hk)
      · obtain ⟨tx, htx, heq⟩ := List.mem_map.mp hk
        exact Or.inr (Or.inr ⟨tx.id, List.mem_map_of_mem htx, heq.symm⟩)
  · rintro ⟨height, b, ⟨hone, hlast, hfound, hold⟩, hk⟩
    refine ⟨(height, b), mem_stale.mpr ⟨mem_heightsFrom.mpr ⟨hone, hlast⟩, hfound, hold⟩, ?_⟩
    show k ∈ keysOf height b
    rcases hk with rfl | rfl | ⟨t, ht, rfl⟩
    · exact List.mem_cons_self
    · exact List.mem_cons_of_mem _ List.mem_cons_self
    · obtain ⟨tx, htx, rfl⟩ := List.mem_map.mp ht
      exact List.mem_cons_of_mem _ (List.mem_cons_of_mem _ (List.mem_map.mpr ⟨tx, htx, rfl⟩))

theorem heightKey_mem_staleKeys {index : Index} {cutoff : Timestamp} {height : BlockHeight} :
    heightKey height ∈ staleKeys index cutoff (heightsFrom 1 index.chainHeight) ↔
      index.PrunesHeight cutoff height := by
  rw [mem_staleKeys]
  constructor
  · rintro ⟨height', b, hstale, heq | heq | ⟨t, -, heq⟩⟩
    · rw [heightKey_injective heq]
      exact ⟨b, hstale⟩
    · exact absurd heq (heightKey_ne_hashKey _ _)
    · exact absurd heq (heightKey_ne_txKey _ _)
  · rintro ⟨b, hstale⟩
    exact ⟨height, b, hstale, Or.inl rfl⟩

theorem hashKey_mem_staleKeys {index : Index} {cutoff : Timestamp} {x : BlockHash} :
    hashKey x ∈ staleKeys index cutoff (heightsFrom 1 index.chainHeight) ↔
      index.PrunesHash cutoff x := by
  rw [mem_staleKeys]
  constructor
  · rintro ⟨height, b, hstale, heq | heq | ⟨t, -, heq⟩⟩
    · exact absurd heq.symm (heightKey_ne_hashKey _ _)
    · exact ⟨height, b, hstale, (hashKey_injective heq).symm⟩
    · exact absurd heq (hashKey_ne_txKey _ _)
  · rintro ⟨height, b, hstale, rfl⟩
    exact ⟨height, b, hstale, Or.inr (Or.inl rfl)⟩

theorem txKey_mem_staleKeys {index : Index} {cutoff : Timestamp} {t : TxId} :
    txKey t ∈ staleKeys index cutoff (heightsFrom 1 index.chainHeight) ↔
      index.PrunesTx cutoff t := by
  rw [mem_staleKeys]
  constructor
  · rintro ⟨height, b, hstale, heq | heq | ⟨t', ht', heq⟩⟩
    · exact absurd heq.symm (heightKey_ne_txKey _ _)
    · exact absurd heq.symm (hashKey_ne_txKey _ _)
    · rw [txKey_injective heq]
      exact ⟨height, b, hstale, ht'⟩
  · rintro ⟨height, b, hstale, ht⟩
    exact ⟨height, b, hstale, Or.inr (Or.inr ⟨t, ht, rfl⟩)⟩

theorem map_lookup_deleted {α : Type} {db : Database} {keys : List Bytes} {k : Bytes}
    {read : Bytes → Except String α} {found : Option α} {P : Prop} [Decidable P]
    (hkey : k ∈ keys ↔ P) (h : (db.lookup k).map read = found.map .ok) :
    ((db.writeBatch (keys.map .delete)).lookup k).map read =
      (if P then none else found).map .ok := by
  rw [Database.lookup_writeBatch_delete]
  by_cases hk : k ∈ keys
  · rw [if_pos hk, if_pos (hkey.mp hk)]
    rfl
  · rw [if_neg hk, if_neg (mt hkey.mpr hk)]
    exact h

open Classical in
theorem Shows.pruneBefore {store : BlockchainStore} {index : Index} (h : Shows C store index)
    (cutoff : Timestamp) :
    ∃ n store', (pruneBefore C cutoff).exec store = (.ok n, store') ∧
      Shows C store' (index.pruneBefore cutoff) := by
  refine ⟨_, _, h.exec_pruneBefore cutoff, ?_, ?_, ?_, h.chainHeight, h.latestBlockHash⟩
  · intro height
    exact map_lookup_deleted heightKey_mem_staleKeys (h.byHeight height)
  · intro x
    exact map_lookup_deleted hashKey_mem_staleKeys (h.byHash x)
  · intro t
    exact map_lookup_deleted txKey_mem_staleKeys (h.location t)

end BlockchainStore

end VotingChain
