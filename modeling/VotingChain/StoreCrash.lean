/-
# `VotingChain.StoreCrash` — a store whose process dies

`store_block` and `store_blockchain` put their entries into the database one by one, the
metadata last; a process that dies on the way has put the first few.  What is left is what
`BlockchainStore::new` finds when the store is opened again.

    block by height │ block by hash │ place of each transaction │ metadata, if it is the highest
                    ↑               ↑                           ↑
                    a crash can come between any two of these

Two things are said of it.  In every run of a store that crashes and is opened again as
often as it likes, the latest block is there and is the highest that was stored to the end,
and a block is lost only to a later one of its height (`runs_with_crashes`).  And a
`store_blockchain` that was cut off any number of times, once it is done, leaves what it
would have left at once (`store_blockchain_resumes`).

The writes are listed in the order of the source (`storeBlockWrites`,
`storeBlockchainWrites`); `exec_storeBlock_eq` and `exec_storeBlockchain_eq` say that these are
the writes.
-/
import VotingChain.Lib.WriteLog
import VotingChain.StoreRuns

namespace VotingChain

/-- `bincode` on all that a store reads back. -/
structure ReopenCodec extends IndexCodec where
  deserializeMetadata : Bytes → Except String ChainMetadata

/-- Metadata come back as well. -/
structure ReopenCodec.Exact (C : ReopenCodec) (blocks : List Block) : Prop
    extends toIndexExact : IndexCodec.Exact C.toIndexCodec blocks where
  readMetadata : ∀ metadata data, C.serializeMetadata metadata = .ok data →
    C.deserializeMetadata data = .ok metadata

/-! ## Opening a store -/

namespace BlockchainStore

/-- The metadata in a database, or new ones, at the time `now`. -/
def loadMetadata (C : ReopenCodec) (now : Timestamp) (db : Database) : Result ChainMetadata :=
  match db.lookup metadataKey with
  | some data => deserialized "Metadata" (C.deserializeMetadata data)
  | none => .ok (ChainMetadata.default now)

/-- Create a new blockchain store, at the time `now`. -/
def new (C : ReopenCodec) (now : Timestamp) (db : Database) : Result BlockchainStore := do
  let metadata ← loadMetadata C now db
  return ⟨db, metadata⟩

/-- The loop of `get_blocks_range`. -/
def collectBlocks (C : StoreCodec) (store : BlockchainStore) :
    List BlockHeight → Result (List Block)
  | [] => .ok []
  | height :: heights => do
      match ← store.getBlockByHeight C height with
      | some block => return block :: (← collectBlocks C store heights)
      | none => collectBlocks C store heights

/-- Get blocks in a range. -/
def getBlocksRange (C : StoreCodec) (store : BlockchainStore) (first last : BlockHeight) :
    Result (List Block) := collectBlocks C store (heightsFrom first last)

end BlockchainStore

/-! ## The writes -/

/-- The bytes of something that can be serialized. -/
def bytesOf (r : Except String Bytes) : Bytes :=
  match r with
  | .ok data => data
  | .error _ => []

theorem eq_ok_bytesOf {r : Except String Bytes} (h : ∃ data, r = .ok data) :
    r = .ok (bytesOf r) := by
  obtain ⟨data, rfl⟩ := h
  rfl

/-- The metadata after a block: changed if it is higher than all before it. -/
def ChainMetadata.advance (m : ChainMetadata) (b : Block) : ChainMetadata :=
  if m.chainHeight < b.height then
    { m with
      chainHeight := b.height
      latestBlockHash := b.hash
      latestBlockTimestamp := b.timestamp }
  else m

/-- The metadata of a whole chain. -/
def ChainMetadata.seal (m : ChainMetadata) (c : Blockchain) : ChainMetadata :=
  { m with
    genesisHash := c.genesisHash
    totalTransactions := UInt64.ofNat c.transactionCount }

section
variable (C : StoreCodec)

/-- The entries of a block. -/
def blockWrites (b : Block) : List (Bytes × Bytes) :=
  (heightKey b.height, bytesOf (C.serializeBlock b)) ::
    (hashKey b.hash, bytesOf (C.serializeBlock b)) ::
    b.transactions.map fun tx => (txKey tx.id, bytesOf (C.serializeLocation ⟨b.height, b.hash⟩))

/-- The entry of the metadata. -/
def metadataWrite (m : ChainMetadata) : Bytes × Bytes :=
  (metadataKey, bytesOf (C.serializeMetadata m))

/-- What `store_block` puts, in order. -/
def storeBlockWrites (m : ChainMetadata) (b : Block) : List (Bytes × Bytes) :=
  blockWrites C b ++ if m.chainHeight < b.height then [metadataWrite C (m.advance b)] else []

/-- What `store_block` puts for one block after another. -/
def blocksWrites : ChainMetadata → List Block → List (Bytes × Bytes)
  | _, [] => []
  | m, b :: bs => storeBlockWrites C m b ++ blocksWrites (m.advance b) bs

/-- What `store_blockchain` puts, in order. -/
def storeBlockchainWrites (m : ChainMetadata) (c : Blockchain) : List (Bytes × Bytes) :=
  blocksWrites C m c.blocks ++
    [metadataWrite C ((c.blocks.foldl ChainMetadata.advance m).seal c)]

end

namespace BlockchainStore
variable {P : Primitives} {C : StoreCodec}

theorem exec_saveMetadata_eq (hmetadata : ∀ m, ∃ data, C.serializeMetadata m = .ok data)
    (db : Database) (m : ChainMetadata) :
    (saveMetadata C).exec ⟨db, m⟩ = (.ok (), ⟨WriteLog.apply db [metadataWrite C m], m⟩) :=
  exec_saveMetadata _ (eq_ok_bytesOf (hmetadata m))

/-- **The writes of `store_block`.** -/
theorem exec_storeBlock_eq {blocks : List Block} (hcodec : C.Exact blocks) {b : Block}
    (hb : b ∈ blocks) (db : Database) (m : ChainMetadata) :
    (storeBlock C b).exec ⟨db, m⟩ =
      (.ok (), ⟨WriteLog.apply db (storeBlockWrites C m b), m.advance b⟩) := by
  obtain ⟨data, hdata, -⟩ := hcodec.block b hb
  have hblock := eq_ok_bytesOf ⟨data, hdata⟩
  have hplace := eq_ok_bytesOf (hcodec.location ⟨b.height, b.hash⟩)
  have hentries : (b.transactions.foldl
      (fun db tx => db.insert (txKey tx.id) (bytesOf (C.serializeLocation ⟨b.height, b.hash⟩)))
      ((db.insert (heightKey b.height) (bytesOf (C.serializeBlock b))).insert (hashKey b.hash)
        (bytesOf (C.serializeBlock b)))) = WriteLog.apply db (blockWrites C b) := by
    rw [blockWrites, WriteLog.apply_cons, WriteLog.apply_cons, WriteLog.apply, List.foldl_map]
  rw [storeBlock, hblock]
  simp only [serialized, Exec.exec_lift_bind, put, Exec.exec_modify_bind]
  rw [Exec.exec_bind, exec_indexTransactions hplace, hentries]
  simp only [Exec.exec_get_bind, storeBlockWrites, ChainMetadata.advance]
  split
  · rw [Exec.exec_modify_bind, WriteLog.apply_append]
    exact exec_saveMetadata_eq hcodec.metadata _ _
  · rw [List.append_nil]
    rfl

theorem exec_storeHeights_eq {c : Blockchain} (hshape : c.Shape P) (hcodec : C.Exact c.blocks)
    (bs : List Block) : ∀ {n : Nat} (db : Database) (m : ChainMetadata), c.blocks.drop n = bs →
      (storeHeights C c ((List.range' n bs.length).map UInt64.ofNat)).exec ⟨db, m⟩ =
        (.ok (), ⟨WriteLog.apply db (blocksWrites C m bs), bs.foldl ChainMetadata.advance m⟩) := by
  induction bs with
  | nil =>
      intro n db m _
      rfl
  | cons b bs ih =>
      intro n db m hdrop
      have hb : c.blocks[n]? = some b := by
        rw [← List.head?_drop, hdrop]
        rfl
      have hrest : c.blocks.drop (n + 1) = bs := by
        rw [← List.tail_drop, hdrop]
        rfl
      have hlt : n < c.blocks.length := (List.getElem?_eq_some_iff.mp hb).1
      have hmax : c.blocks.length ≤ 2 ^ 63 - 1 := hshape.length_le
      have hn : (UInt64.ofNat n).toNat = n :=
        UInt64.toNat_ofNat_of_lt' (show n < 2 ^ 64 by omega)
      rw [List.length_cons, List.range'_succ, List.map_cons, storeHeights,
        hshape.getBlockByHeight_eq, hn, hb, Exec.exec_lift_bind]
      simp only [Exec.exec_bind, exec_storeBlock_eq hcodec (List.mem_of_getElem? hb)]
      rw [ih _ _ hrest, blocksWrites, WriteLog.apply_append, List.foldl_cons]

/-- **The writes of `store_blockchain`.** -/
theorem exec_storeBlockchain_eq {c : Blockchain} (hshape : c.Shape P) (hcodec : C.Exact c.blocks)
    (db : Database) (m : ChainMetadata) :
    (storeBlockchain C c).exec ⟨db, m⟩ =
      (.ok (), ⟨WriteLog.apply db (storeBlockchainWrites C m c),
        (c.blocks.foldl ChainMetadata.advance m).seal c⟩) := by
  have hheight := hshape.height
  have hrange : heightsFrom 0 c.height = (List.range' 0 c.blocks.length).map UInt64.ofNat := by
    rw [heightsFrom, ← hheight]
    rfl
  rw [storeBlockchain, hrange, Exec.exec_bind, 
    exec_storeHeights_eq hshape hcodec c.blocks db m (List.drop_zero)]
  simp only [Exec.exec_modify_bind]
  rw [storeBlockchainWrites, WriteLog.apply_append]
  exact exec_saveMetadata_eq hcodec.metadata _ _

end BlockchainStore

/-! ## What is found when a store is opened again -/

namespace ChainMetadata

/-- The metadata, the time they were made apart. -/
def undated (m : ChainMetadata) : ChainMetadata := { m with lastUpdated := 0 }

theorem undated_advance (m : ChainMetadata) (b : Block) :
    (m.advance b).undated = m.undated.advance b := by
  rw [advance, advance]
  show _ = if m.chainHeight < b.height then _ else _
  split
  · rfl
  · rfl

theorem chainHeight_advance (m : ChainMetadata) (b : Block) :
    m.chainHeight ≤ (m.advance b).chainHeight ∧ b.height ≤ (m.advance b).chainHeight ∧
      ((m.advance b).chainHeight = b.height ∨ (m.advance b).chainHeight = m.chainHeight) := by
  rw [advance]
  split
  · next hlt => exact ⟨UInt64.le_of_lt hlt, UInt64.le_refl _, Or.inl rfl⟩
  · next hge => exact ⟨UInt64.le_refl _, UInt64.not_lt.mp hge, Or.inr rfl⟩

theorem undated_foldl_advance (bs : List Block) : ∀ m : ChainMetadata,
    (bs.foldl advance m).undated = bs.foldl advance m.undated := by
  induction bs with
  | nil => exact fun m => rfl
  | cons b bs ih =>
      intro m
      rw [List.foldl_cons, List.foldl_cons, ih, undated_advance]

theorem chainHeight_eq {m m' : ChainMetadata} (h : m.undated = m'.undated) :
    m.chainHeight = m'.chainHeight := by
  have hheight := congrArg ChainMetadata.chainHeight h
  exact hheight

end ChainMetadata

theorem metadataKey_not_mem_blockWrites (C : StoreCodec) (b : Block) :
    metadataKey ∉ (blockWrites C b).map Prod.fst := by
  rw [blockWrites, List.map_cons, List.map_cons, List.map_map, List.mem_cons, List.mem_cons]
  rintro (h | h | h)
  · exact heightKey_ne_metadataKey b.height h.symm
  · exact hashKey_ne_metadataKey b.hash h.symm
  · obtain ⟨tx, -, heq⟩ := List.mem_map.mp h
    exact txKey_ne_metadataKey tx.id heq

theorem lookup_heightKey_take (C : StoreCodec) (db : Database) (m : ChainMetadata) (b : Block)
    (n : Nat) (h : BlockHeight) :
    (WriteLog.apply db ((storeBlockWrites C m b).take n)).lookup (heightKey h) =
      if n ≠ 0 ∧ b.height = h then some (bytesOf (C.serializeBlock b))
      else db.lookup (heightKey h) := by
  cases n with
  | zero => simp
  | succ n =>
      rw [storeBlockWrites, blockWrites, List.cons_append, List.take_succ_cons,
        WriteLog.apply_cons, WriteLog.lookup_apply_of_not_mem]
      · by_cases hb : b.height = h
        · rw [hb, Finmap.lookup_insert, if_pos ⟨Nat.succ_ne_zero n, rfl⟩]
        · rw [if_neg fun hand => hb hand.2,
            Finmap.lookup_insert_of_ne _ fun heq => hb (heightKey_injective heq).symm]
      · -- the other keys are of another kind
        intro hmem
        obtain ⟨w, hw, heq⟩ := List.mem_map.mp hmem
        have hw := List.mem_of_mem_take hw
        rw [List.cons_append, List.mem_cons, List.mem_append] at hw
        rcases hw with rfl | hw | hw
        · exact heightKey_ne_hashKey h b.hash heq.symm
        · obtain ⟨tx, -, rfl⟩ := List.mem_map.mp hw
          exact heightKey_ne_txKey h tx.id heq.symm
        · split at hw
          · rw [List.mem_singleton.mp hw] at heq
            exact heightKey_ne_metadataKey h heq.symm
          · cases hw

namespace BlockchainStore
variable {C : ReopenCodec}

theorem new_eq_ok {now : Timestamp} {db : Database} {store : BlockchainStore} :
    new C now db = .ok store ↔ loadMetadata C now db = .ok store.metadata ∧ store.db = db := by
  rw [new, bind_eq_ok]
  constructor
  · rintro ⟨m, hm, ⟨⟩⟩
    exact ⟨hm, rfl⟩
  · rintro ⟨hm, rfl⟩
    exact ⟨store.metadata, hm, rfl⟩

variable (C) in
/-- The metadata of the store are those it will have when it is opened again. -/
def Saved (store : BlockchainStore) : Prop :=
  ∀ now, ∃ m, loadMetadata C now store.db = .ok m ∧ m.undated = store.metadata.undated

theorem saved_of_new {now : Timestamp} {db : Database} {store : BlockchainStore}
    (h : new C now db = .ok store) : Saved C store := by
  obtain ⟨hm, rfl⟩ := new_eq_ok.mp h
  intro now'
  rw [loadMetadata] at hm ⊢
  cases hdata : store.db.lookup metadataKey with
  | none =>
      rw [hdata, Except.ok.injEq] at hm
      exact ⟨_, rfl, hm ▸ rfl⟩
  | some data =>
      rw [hdata] at hm
      exact ⟨_, hm, rfl⟩

theorem loadMetadata_of_lookup {blocks : List Block} (hcodec : C.Exact blocks) {db : Database}
    {m : ChainMetadata} (h : db.lookup metadataKey = some (bytesOf (C.serializeMetadata m)))
    (now : Timestamp) : loadMetadata C now db = .ok m := by
  rw [loadMetadata, h]
  show deserialized _ (C.deserializeMetadata _) = _
  rw [hcodec.readMetadata m _ (eq_ok_bytesOf (hcodec.metadata m))]
  rfl

theorem loadMetadata_congr {db db' : Database} (h : db'.lookup metadataKey = db.lookup metadataKey)
    (now : Timestamp) : loadMetadata C now db' = loadMetadata C now db := by
  rw [loadMetadata, h, loadMetadata]

/-- The metadata in the database after the first writes of `store_block`: those of before, until
the last write is done. -/
theorem loadMetadata_take {blocks : List Block} (hcodec : C.Exact blocks) {store : BlockchainStore}
    (hsaved : Saved C store) (b : Block) (n : Nat) (now : Timestamp) :
    ∃ m, loadMetadata C now (WriteLog.apply store.db
        ((storeBlockWrites C.toStoreCodec store.metadata b).take n)) = .ok m ∧
      m.undated = (if (storeBlockWrites C.toStoreCodec store.metadata b).length ≤ n
        then store.metadata.advance b else store.metadata).undated := by
  obtain ⟨m, hm, hsame⟩ := hsaved now
  have hold : ∀ ws, ws <+: blockWrites C.toStoreCodec b →
      loadMetadata C now (WriteLog.apply store.db ws) = .ok m := by
    intro ws hws
    rw [loadMetadata_congr (WriteLog.lookup_apply_of_not_mem ws _ ?_), hm]
    exact fun hmem => metadataKey_not_mem_blockWrites C.toStoreCodec b
      ((hws.sublist.map Prod.fst).mem hmem)
  by_cases hlt : store.metadata.chainHeight < b.height
  · rw [storeBlockWrites, if_pos hlt, List.length_append, List.length_singleton]
    by_cases hn : (blockWrites C.toStoreCodec b).length + 1 ≤ n
    · refine ⟨_, loadMetadata_of_lookup hcodec (m := store.metadata.advance b) ?_ now, ?_⟩
      · rw [List.take_of_length_le (by simpa using hn), WriteLog.apply_append]
        exact Finmap.lookup_insert _
      · rw [if_pos hn]
    · refine ⟨m, hold _ ?_, by rw [if_neg hn, hsame]⟩
      rw [List.take_append_of_le_length (by omega)]
      exact List.take_prefix n _
  · have hadvance : store.metadata.advance b = store.metadata := if_neg hlt
    rw [storeBlockWrites, if_neg hlt, List.append_nil, hadvance, ite_self]
    exact ⟨m, hold _ (List.take_prefix n _), hsame⟩

theorem Saved.storeBlock {blocks : List Block} (hcodec : C.Exact blocks) {store : BlockchainStore}
    (hsaved : Saved C store) (b : Block) :
    Saved C ⟨WriteLog.apply store.db (storeBlockWrites C.toStoreCodec store.metadata b),
      store.metadata.advance b⟩ := by
  intro now
  obtain ⟨m, hm, hsame⟩ := loadMetadata_take hcodec hsaved b
    (storeBlockWrites C.toStoreCodec store.metadata b).length now
  rw [List.take_length] at hm
  exact ⟨m, hm, by simpa using hsame⟩

end BlockchainStore

/-! ## Runs -/

/-- A store, the blocks whose first write was done, and the blocks whose last write was. -/
structure CrashHistory where
  store : BlockchainStore
  begun : List Block
  completed : List Block

/-- The last block of a height. -/
def lastOf (bs : List Block) (h : BlockHeight) : Option Block :=
  bs.reverse.find? fun b => b.height = h

theorem lastOf_concat (bs : List Block) (b : Block) (h : BlockHeight) :
    lastOf (bs ++ [b]) h = if b.height = h then some b else lastOf bs h := by
  rw [lastOf, List.reverse_append, List.reverse_singleton, List.singleton_append, List.find?_cons]
  by_cases hb : b.height = h
  · simp [hb]
  · simp [hb, lastOf]

theorem exists_lastOf {bs : List Block} {b : Block} (hb : b ∈ bs) :
    ∃ x, lastOf bs b.height = some x ∧ x.height = b.height := by
  have hsome : (lastOf bs b.height).isSome := by
    rw [lastOf, List.find?_isSome]
    exact ⟨b, List.mem_reverse.mpr hb, by simp⟩
  obtain ⟨x, hx⟩ := Option.isSome_iff_exists.mp hsome
  exact ⟨x, hx, by simpa using List.find?_some hx⟩

namespace CrashHistory

/-- After the first `n` writes of storing a block. -/
def after (C : StoreCodec) (s : CrashHistory) (b : Block) (n : Nat) (store : BlockchainStore) :
    CrashHistory where
  store := store
  begun := if n = 0 then s.begun else s.begun ++ [b]
  completed :=
    if (storeBlockWrites C s.store.metadata b).length ≤ n then s.completed ++ [b] else s.completed

/-- A store that was just made, on an empty database. -/
def Init (C : ReopenCodec) (s : CrashHistory) : Prop :=
  (∃ now, BlockchainStore.new C now ∅ = .ok s.store) ∧ s.begun = [] ∧ s.completed = []

/-- What can happen: a block is stored; the process dies after some of the writes of storing one,
and the store is opened again; the store is closed and opened again. -/
inductive Next (C : ReopenCodec) (blocks : List Block) : CrashHistory → CrashHistory → Prop
  | storeBlock {s : CrashHistory} {b : Block} {store : BlockchainStore} (hb : b ∈ blocks)
      (h : (BlockchainStore.storeBlock C.toStoreCodec b).exec s.store = (.ok (), store)) :
      Next C blocks s ⟨store, s.begun ++ [b], s.completed ++ [b]⟩
  | crash {s : CrashHistory} {b : Block} {store : BlockchainStore} (hb : b ∈ blocks) (n : Nat)
      (now : Timestamp) (h : BlockchainStore.new C now (WriteLog.apply s.store.db
        ((storeBlockWrites C.toStoreCodec s.store.metadata b).take n)) = .ok store) :
      Next C blocks s (s.after C.toStoreCodec b n store)
  | reopen {s : CrashHistory} {store : BlockchainStore} (now : Timestamp)
      (h : BlockchainStore.new C now s.store.db = .ok store) :
      Next C blocks s { s with store := store }

/-- What holds of a store that crashes. -/
structure Inv (C : ReopenCodec) (s : CrashHistory) : Prop where
  saved : s.store.Saved C
  byHeight : ∀ h, s.store.db.lookup (heightKey h) =
    (lastOf s.begun h).map fun b => bytesOf (C.serializeBlock b)
  completed : ∀ b ∈ s.completed, b ∈ s.begun ∧ b.height ≤ s.store.metadata.chainHeight
  tip : s.store.metadata.chainHeight ≠ 0 →
    ∃ b ∈ s.completed, b.height = s.store.metadata.chainHeight

variable {C : ReopenCodec} {blocks : List Block}

theorem inv_init {s : CrashHistory} (h : Init C s) : Inv C s := by
  obtain ⟨⟨now, hnew⟩, hbegun, hcompleted⟩ := h
  obtain ⟨hmetadata, hdb⟩ := BlockchainStore.new_eq_ok.mp hnew
  rw [BlockchainStore.loadMetadata, Finmap.lookup_empty, Except.ok.injEq] at hmetadata
  refine ⟨BlockchainStore.saved_of_new hnew, fun h => ?_, ?_, fun hne => ?_⟩
  · rw [hdb, hbegun, Finmap.lookup_empty]
    rfl
  · simp [hcompleted]
  · rw [← hmetadata] at hne
    exact absurd rfl hne

theorem Inv.after {s : CrashHistory} (h : Inv C s) (b : Block) (n : Nat) (store : BlockchainStore)
    (hdb : store.db = WriteLog.apply s.store.db
      ((storeBlockWrites C.toStoreCodec s.store.metadata b).take n)) (hsaved : store.Saved C)
    (hmetadata : store.metadata.undated =
      (if (storeBlockWrites C.toStoreCodec s.store.metadata b).length ≤ n
        then s.store.metadata.advance b else s.store.metadata).undated) :
    Inv C (s.after C.toStoreCodec b n store) := by
  have hheight := ChainMetadata.chainHeight_eq hmetadata
  refine ⟨hsaved, fun height => ?_, ?_, ?_⟩
  · show store.db.lookup _ = _
    rw [hdb, lookup_heightKey_take, CrashHistory.after]
    by_cases hn : n = 0
    · rw [if_neg fun hand => hand.1 hn]
      simp only [hn, if_true]
      exact h.byHeight height
    · simp only [hn, if_false, lastOf_concat, ne_eq, not_false_eq_true, true_and]
      split
      · rfl
      · exact h.byHeight height
  · have hlong : (storeBlockWrites C.toStoreCodec s.store.metadata b).length ≠ 0 := by
      simp [storeBlockWrites, blockWrites]
    obtain ⟨hold, hnew, -⟩ := s.store.metadata.chainHeight_advance b
    simp only [CrashHistory.after]
    rw [hheight]
    by_cases hall : (storeBlockWrites C.toStoreCodec s.store.metadata b).length ≤ n
    · have hn : n ≠ 0 := by omega
      simp only [hall, if_true, hn, if_false, List.forall_mem_append]
      refine ⟨fun x hx => ?_, ?_⟩
      · obtain ⟨hbegun, hle⟩ := h.completed x hx
        exact ⟨List.mem_append_left _ hbegun, UInt64.le_trans hle hold⟩
      · simpa using hnew
    · simp only [hall, if_false]
      intro x hx
      obtain ⟨hbegun, hle⟩ := h.completed x hx
      refine ⟨?_, hle⟩
      split
      · exact hbegun
      · exact List.mem_append_left _ hbegun
  · simp only [CrashHistory.after]
    rw [hheight]
    by_cases hall : (storeBlockWrites C.toStoreCodec s.store.metadata b).length ≤ n
    · simp only [hall, if_true]
      intro hne
      rcases (s.store.metadata.chainHeight_advance b).2.2 with heq | heq
      · exact ⟨b, by simp, heq.symm⟩
      · rw [heq] at hne ⊢
        obtain ⟨x, hx, hxh⟩ := h.tip hne
        exact ⟨x, List.mem_append_left _ hx, hxh⟩
    · simp only [hall, if_false]
      exact h.tip

theorem Inv.next {s s' : CrashHistory} (hcodec : C.Exact blocks) (h : Inv C s)
    (hstep : Next C blocks s s') : Inv C s' := by
  cases hstep with
  | @storeBlock b store hb hexec =>
      have hwrites := BlockchainStore.exec_storeBlock_eq hcodec.toExact hb s.store.db
        s.store.metadata
      obtain rfl := (Prod.mk.inj (hexec.symm.trans hwrites)).2
      -- all of the writes, and the store that did them goes on
      have hlong : (storeBlockWrites C.toStoreCodec s.store.metadata b).length ≠ 0 := by
        simp [storeBlockWrites, blockWrites]
      have hafter := h.after b (storeBlockWrites C.toStoreCodec s.store.metadata b).length
        ⟨WriteLog.apply s.store.db (storeBlockWrites C.toStoreCodec s.store.metadata b),
          s.store.metadata.advance b⟩ (by rw [List.take_length]) (h.saved.storeBlock hcodec b)
        (by simp)
      simpa [CrashHistory.after, hlong] using hafter
  | @crash b store hb n now hnew =>
      obtain ⟨m, hm, hsame⟩ := BlockchainStore.loadMetadata_take hcodec h.saved b n now
      obtain ⟨hmetadata, hdb⟩ := BlockchainStore.new_eq_ok.mp hnew
      rw [hm, Except.ok.injEq] at hmetadata
      exact h.after b n store hdb (BlockchainStore.saved_of_new hnew) (hmetadata ▸ hsame)
  | @reopen store now hnew =>
      obtain ⟨m, hm, hsame⟩ := h.saved now
      obtain ⟨hmetadata, hdb⟩ := BlockchainStore.new_eq_ok.mp hnew
      rw [hm, Except.ok.injEq] at hmetadata
      have hheight := ChainMetadata.chainHeight_eq (hmetadata ▸ hsame)
      refine ⟨BlockchainStore.saved_of_new hnew, ?_, ?_, ?_⟩
      · show ∀ h, store.db.lookup _ = _
        rw [hdb]
        exact h.byHeight
      · show ∀ b ∈ s.completed, _ ∧ b.height ≤ store.metadata.chainHeight
        rw [hheight]
        exact h.completed
      · show store.metadata.chainHeight ≠ 0 → ∃ b ∈ s.completed, _ = store.metadata.chainHeight
        rw [hheight]
        exact h.tip

theorem inv_reach (hcodec : C.Exact blocks) {s : CrashHistory}
    (hs : Runs.Reach (Init C) (Next C blocks) s) : Inv C s :=
  hs.invariant (fun _ => inv_init) fun _ _ h hstep => h.next hcodec hstep

theorem mem_of_mem_begun {s : CrashHistory} (hs : Runs.Reach (Init C) (Next C blocks) s) :
    ∀ b ∈ s.begun, b ∈ blocks := by
  induction hs with
  | start h =>
      obtain ⟨-, hbegun, -⟩ := h
      simp [hbegun]
  | step _ hstep ih =>
      cases hstep with
      | storeBlock hb hexec => exact List.forall_mem_append.mpr ⟨ih, by simpa using hb⟩
      | crash hb n now hnew =>
          simp only [after]
          split
          · exact ih
          · exact List.forall_mem_append.mpr ⟨ih, by simpa using hb⟩
      | reopen now hnew => exact ih

end CrashHistory

namespace BlockchainStore
open CrashHistory (Init Next)
variable {C : ReopenCodec} {blocks : List Block}

theorem collectBlocks_eq {C : StoreCodec} {store : BlockchainStore} {f : BlockHeight → Option Block}
    (h : ∀ height, store.getBlockByHeight C height = .ok (f height)) (heights : List BlockHeight) :
    collectBlocks C store heights = .ok (heights.filterMap f) := by
  induction heights with
  | nil => rfl
  | cons height heights ih =>
      rw [collectBlocks, h height, ih, List.filterMap_cons]
      cases f height with
      | none => rfl
      | some b => rfl

theorem getBlockByHeight_lastOf (hcodec : C.Exact blocks) {s : CrashHistory}
    (hs : Runs.Reach (Init C) (Next C blocks) s) (height : BlockHeight) :
    s.store.getBlockByHeight C.toStoreCodec height = .ok (lastOf s.begun height) := by
  have hlookup := (CrashHistory.inv_reach hcodec hs).byHeight height
  cases hlast : lastOf s.begun height with
  | none =>
      rw [hlast] at hlookup
      rw [getBlockByHeight, hlookup]
      rfl
  | some b =>
      have hb : b ∈ blocks :=
        CrashHistory.mem_of_mem_begun hs b (List.mem_reverse.mp (List.mem_of_find?_eq_some hlast))
      obtain ⟨data, hdata, hread⟩ := hcodec.block b hb
      rw [hlast, Option.map_some, hdata] at hlookup
      exact getBlockByHeight_of_lookup hlookup hread

/-- **A store that crashes.**  In every run of `store_block` on a new store in which the process
dies, again and again, after any number of the writes of a block, and the store is opened again:

* at every height is the last block of that height whose storing was begun, and a range is what
  is found at its heights;
* the chain height is that of the highest block that was stored to the end, and if it is not 0
  the latest block is found and has it;
* the store can be opened again, and then has the metadata it has now. -/
theorem runs_with_crashes (hcodec : C.Exact blocks) {s : CrashHistory}
    (hs : Runs.Reach (Init C) (Next C blocks) s) :
    (∀ height, s.store.getBlockByHeight C.toStoreCodec height = .ok (lastOf s.begun height)) ∧
    (∀ first last, s.store.getBlocksRange C.toStoreCodec first last =
      .ok ((heightsFrom first last).filterMap (lastOf s.begun))) ∧
    (∀ b ∈ s.completed, b ∈ s.begun ∧ b.height ≤ s.store.metadata.chainHeight) ∧
    (s.store.metadata.chainHeight ≠ 0 →
      (∃ b ∈ s.completed, b.height = s.store.metadata.chainHeight) ∧
      ∃ b, s.store.getLatestBlock C.toIndexCodec = .ok (some b) ∧
        b.height = s.store.metadata.chainHeight) ∧
    ∀ now, ∃ store, new C now s.store.db = .ok store ∧ store.db = s.store.db ∧
      store.metadata.undated = s.store.metadata.undated := by
  have hinv := CrashHistory.inv_reach hcodec hs
  have hget := getBlockByHeight_lastOf hcodec hs
  refine ⟨hget, fun first last => collectBlocks_eq hget _, hinv.completed, fun hne => ?_,
    fun now => ?_⟩
  · obtain ⟨b, hb, hheight⟩ := hinv.tip hne
    obtain ⟨x, hx, hxh⟩ := exists_lastOf (hinv.completed b hb).1
    refine ⟨⟨b, hb, hheight⟩, x, ?_, hxh.trans hheight⟩
    rw [getLatestBlock, if_neg fun hand => hne hand.1, hget, ← hheight, hx]
  · obtain ⟨m, hm, hsame⟩ := hinv.saved now
    exact ⟨⟨s.store.db, m⟩, new_eq_ok.mpr ⟨hm, rfl⟩, rfl, hsame⟩

end BlockchainStore

/-! ## A chain that is stored in several attempts -/

namespace ChainMetadata

theorem le_foldl_advance (bs : List Block) : ∀ m : ChainMetadata,
    m.chainHeight ≤ (bs.foldl advance m).chainHeight ∧
      ∀ b ∈ bs, b.height ≤ (bs.foldl advance m).chainHeight := by
  induction bs with
  | nil => exact fun m => ⟨UInt64.le_refl _, by simp⟩
  | cons b bs ih =>
      intro m
      obtain ⟨hold, hnew, -⟩ := m.chainHeight_advance b
      obtain ⟨hle, hall⟩ := ih (m.advance b)
      rw [List.foldl_cons]
      exact ⟨UInt64.le_trans hold hle,
        List.forall_mem_cons.mpr ⟨UInt64.le_trans hnew hle, hall⟩⟩

theorem foldl_advance_of_le (bs : List Block) (m : ChainMetadata)
    (h : ∀ b ∈ bs, b.height ≤ m.chainHeight) : bs.foldl advance m = m := by
  induction bs with
  | nil => rfl
  | cons b bs ih =>
      obtain ⟨hb, hbs⟩ := List.forall_mem_cons.mp h
      rw [List.foldl_cons, advance, if_neg (UInt64.not_lt.mpr hb), ih hbs]

theorem foldl_advance_take (bs : List Block) (m : ChainMetadata) (n : Nat) :
    bs.foldl advance ((bs.take n).foldl advance m) = bs.foldl advance m := by
  have hsplit : ∀ m, bs.foldl advance m =
      (bs.drop n).foldl advance ((bs.take n).foldl advance m) := by
    intro m
    rw [← List.foldl_append, List.take_append_drop]
  have hagain : (bs.take n).foldl advance ((bs.take n).foldl advance m) =
      (bs.take n).foldl advance m :=
    foldl_advance_of_le _ _ (le_foldl_advance _ m).2
  rw [hsplit, hagain, hsplit m]

theorem foldl_advance_seal (bs : List Block) (c : Blockchain) : ∀ m : ChainMetadata,
    bs.foldl advance (m.seal c) = (bs.foldl advance m).seal c := by
  induction bs with
  | nil => exact fun m => rfl
  | cons b bs ih =>
      intro m
      have hadvance : (m.seal c).advance b = (m.advance b).seal c := by
        rw [advance, advance]
        show (if m.chainHeight < b.height then _ else _) = _
        split
        · rfl
        · rfl
      rw [List.foldl_cons, List.foldl_cons, hadvance, ih]

end ChainMetadata

theorem filter_storeBlockchainWrites (C : StoreCodec) (m : ChainMetadata) (c : Blockchain) :
    (storeBlockchainWrites C m c).filter (fun w => decide (w.1 ≠ metadataKey)) =
      c.blocks.flatMap (blockWrites C) := by
  have hblock : ∀ b, (blockWrites C b).filter (fun w => decide (w.1 ≠ metadataKey)) =
      blockWrites C b := by
    intro b
    refine List.filter_eq_self.mpr fun w hw => decide_eq_true fun heq => ?_
    exact metadataKey_not_mem_blockWrites C b (heq ▸ List.mem_map_of_mem hw)
  have hblocks : ∀ (bs : List Block) (m : ChainMetadata),
      (blocksWrites C m bs).filter (fun w => decide (w.1 ≠ metadataKey)) =
        bs.flatMap (blockWrites C) := by
    intro bs
    induction bs with
    | nil => exact fun m => rfl
    | cons b bs ih =>
        intro m
        rw [blocksWrites, storeBlockWrites, List.filter_append, List.filter_append, hblock, ih,
          List.flatMap_cons]
        split
        · simp [metadataWrite]
        · simp
  rw [storeBlockchainWrites, List.filter_append, hblocks]
  simp [metadataWrite]

namespace BlockchainStore
variable {P : Primitives} {C : ReopenCodec}

/-- The metadata after some of the writes of one block after another: those of some of them. -/
theorem loadMetadata_blocksWrites {blocks : List Block} (hcodec : C.Exact blocks)
    (bs : List Block) (now : Timestamp) :
    ∀ (n : Nat) {store : BlockchainStore}, Saved C store →
      ∃ m k, loadMetadata C now (WriteLog.apply store.db
          ((blocksWrites C.toStoreCodec store.metadata bs).take n)) = .ok m ∧
        m.undated = ((bs.take k).foldl ChainMetadata.advance store.metadata).undated := by
  induction bs with
  | nil =>
      intro n store hsaved
      obtain ⟨m, hm, hsame⟩ := hsaved now
      exact ⟨m, 0, by simpa [blocksWrites] using hm, hsame⟩
  | cons b bs ih =>
      intro n store hsaved
      rw [blocksWrites, List.take_append, WriteLog.apply_append]
      by_cases hn : (storeBlockWrites C.toStoreCodec store.metadata b).length ≤ n
      · rw [List.take_of_length_le hn]
        obtain ⟨m, k, hm, hsame⟩ := ih (n - _) (hsaved.storeBlock hcodec b)
        exact ⟨m, k + 1, hm, hsame⟩
      · have hzero : n - (storeBlockWrites C.toStoreCodec store.metadata b).length = 0 := by omega
        obtain ⟨m, hm, hsame⟩ := loadMetadata_take hcodec hsaved b n now
        rw [if_neg hn] at hsame
        exact ⟨m, 0, by simpa [hzero] using hm, hsame⟩

/-- The metadata after some of the writes of `store_blockchain`: those of some of the blocks, or
those it ends with. -/
theorem loadMetadata_storeBlockchainWrites {c : Blockchain} (hcodec : C.Exact c.blocks)
    {store : BlockchainStore} (hsaved : Saved C store) (n : Nat) (now : Timestamp) :
    ∃ m, loadMetadata C now (WriteLog.apply store.db
        ((storeBlockchainWrites C.toStoreCodec store.metadata c).take n)) = .ok m ∧
      ((∃ k, m.undated = ((c.blocks.take k).foldl ChainMetadata.advance store.metadata).undated) ∨
        m = (c.blocks.foldl ChainMetadata.advance store.metadata).seal c) := by
  rw [storeBlockchainWrites]
  by_cases hn : (blocksWrites C.toStoreCodec store.metadata c.blocks).length + 1 ≤ n
  · refine ⟨_, loadMetadata_of_lookup hcodec ?_ now, Or.inr rfl⟩
    rw [List.take_of_length_le (by simpa using hn), WriteLog.apply_append]
    exact Finmap.lookup_insert _
  · rw [List.take_append_of_le_length (by omega)]
    obtain ⟨m, k, hm, hsame⟩ := loadMetadata_blocksWrites hcodec c.blocks now n hsaved
    exact ⟨m, hm, Or.inl ⟨k, hsame⟩⟩

/-- `store_blockchain` is begun, the process dies after some of its writes, and the store is
opened again. -/
inductive Cut (C : ReopenCodec) (c : Blockchain) : BlockchainStore → BlockchainStore → Prop
  | crash {store store' : BlockchainStore} (n : Nat) (now : Timestamp)
      (h : new C now (WriteLog.apply store.db
        ((storeBlockchainWrites C.toStoreCodec store.metadata c).take n)) = .ok store') :
      Cut C c store store'

/-- Storing the chain `c` in `store'` leaves what storing it in `store` leaves. -/
structure Resumes (C : ReopenCodec) (c : Blockchain) (store store' : BlockchainStore) : Prop where
  saved : Saved C store'
  entries : ∀ k, k ≠ metadataKey →
    (WriteLog.apply store'.db (c.blocks.flatMap (blockWrites C.toStoreCodec))).lookup k =
      (WriteLog.apply store.db (c.blocks.flatMap (blockWrites C.toStoreCodec))).lookup k
  metadata : ((c.blocks.foldl ChainMetadata.advance store'.metadata).seal c).undated =
    ((c.blocks.foldl ChainMetadata.advance store.metadata).seal c).undated

theorem Resumes.cut {c : Blockchain} (hcodec : C.Exact c.blocks)
    {store store' store'' : BlockchainStore} (h : Resumes C c store store')
    (hcut : Cut C c store' store'') : Resumes C c store store'' := by
  obtain ⟨n, now, hnew⟩ := hcut
  obtain ⟨hmetadata, hdb⟩ := new_eq_ok.mp hnew
  obtain ⟨m, hm, hcases⟩ := loadMetadata_storeBlockchainWrites hcodec h.saved n now
  rw [hm, Except.ok.injEq] at hmetadata
  subst hmetadata
  refine ⟨saved_of_new hnew, fun k hk => ?_, ?_⟩
  · rw [hdb, WriteLog.lookup_apply_apply, h.entries k hk]
    -- a key that was written is one of a block
    intro hmem
    obtain ⟨w, hw, rfl⟩ := List.mem_map.mp hmem
    rw [← filter_storeBlockchainWrites C.toStoreCodec store'.metadata c]
    exact List.mem_map_of_mem (List.mem_filter.mpr ⟨List.mem_of_mem_take hw, decide_eq_true hk⟩)
  · rw [← h.metadata]
    show ((c.blocks.foldl ChainMetadata.advance store''.metadata).undated).seal c =
      ((c.blocks.foldl ChainMetadata.advance store'.metadata).undated).seal c
    rcases hcases with ⟨k, hsame⟩ | hfinal
    · rw [ChainMetadata.undated_foldl_advance, hsame, ← ChainMetadata.undated_foldl_advance,
        ChainMetadata.foldl_advance_take]
    · have hagain := ChainMetadata.foldl_advance_of_le c.blocks _
        (ChainMetadata.le_foldl_advance c.blocks store'.metadata).2
      rw [hfinal, ChainMetadata.foldl_advance_seal, hagain]
      rfl

theorem loadHeights_congr [Hex] {C : StoreCodec} {store store' : BlockchainStore}
    (h : ∀ height, store'.getBlockByHeight C height = store.getBlockByHeight C height)
    (heights : List BlockHeight) : ∀ c : Blockchain,
      loadHeights P C store' heights c = loadHeights P C store heights c := by
  induction heights with
  | nil => exact fun c => rfl
  | cons height heights ih =>
      intro c
      rw [loadHeights, loadHeights, h]
      simp only [ih]

theorem loadBlockchain_congr [Hex] {C : StoreCodec} {store store' : BlockchainStore}
    (h : ∀ height, store'.getBlockByHeight C height = store.getBlockByHeight C height)
    (hheight : store'.metadata.chainHeight = store.metadata.chainHeight)
    (hgenesis : store'.metadata.genesisHash = store.metadata.genesisHash) (now : Timestamp) :
    loadBlockchain P C now store' = loadBlockchain P C now store := by
  simp only [loadBlockchain, h, hheight, hgenesis, loadHeights_congr h]

/-- **A chain that is stored in several attempts.**  Let a store be opened on any database, and
`store_blockchain` be begun in it any number of times with a chain that `add_block` built, the
process dying each time after any number of the writes.  The store can always be opened again,
and once `store_blockchain` has run to its end, every entry of the database and the metadata,
their date apart, are what they would be if it had done so at once, and the same chain is
loaded. -/
theorem store_blockchain_resumes [Hex] {made now : Timestamp} {g : GenesisBlock} {c₀ c : Blockchain}
    (hmade : Blockchain.new P made g = .ok c₀) {bs : List Block} (hc : c = c₀.addBlocks P bs)
    (hcodec : C.Exact c.blocks) {db : Database} {store store' : BlockchainStore}
    (hnew : new C now db = .ok store) (hcut : Relation.ReflTransGen (Cut C c) store store') :
    (∀ n now, ∃ store'', new C now (WriteLog.apply store'.db
      ((storeBlockchainWrites C.toStoreCodec store'.metadata c).take n)) = .ok store'') ∧
    ∃ done done', (storeBlockchain C.toStoreCodec c).exec store = (.ok (), done) ∧
      (storeBlockchain C.toStoreCodec c).exec store' = (.ok (), done') ∧
      (∀ k, k ≠ metadataKey → done'.db.lookup k = done.db.lookup k) ∧
      done'.metadata.undated = done.metadata.undated ∧
      ∀ now, loadBlockchain P C.toStoreCodec now done' =
        loadBlockchain P C.toStoreCodec now done := by
  have hshape : c.Shape P := hc ▸ Blockchain.shape_addBlocks hmade bs
  have hresumes : Resumes C c store store' := by
    induction hcut with
    | refl => exact ⟨saved_of_new hnew, fun _ _ => rfl, rfl⟩
    | tail _ hstep ih => exact ih.cut hcodec hstep
  have hentries : ∀ k, k ≠ metadataKey →
      (WriteLog.apply store'.db (storeBlockchainWrites C.toStoreCodec store'.metadata c)).lookup k =
        (WriteLog.apply store.db
          (storeBlockchainWrites C.toStoreCodec store.metadata c)).lookup k := by
    intro k hk
    have hfilter : ∀ (db : Database) (m : ChainMetadata),
        (WriteLog.apply db (storeBlockchainWrites C.toStoreCodec m c)).lookup k =
          (WriteLog.apply db (c.blocks.flatMap (blockWrites C.toStoreCodec))).lookup k := by
      intro db m
      rw [← filter_storeBlockchainWrites C.toStoreCodec m c]
      exact (WriteLog.lookup_apply_filter (p := fun k => decide (k ≠ metadataKey))
        (decide_eq_true hk) _ db).symm
    rw [hfilter, hfilter, hresumes.entries k hk]
  refine ⟨fun n now => ?_, _, _, exec_storeBlockchain_eq hshape hcodec.toExact _ _,
    exec_storeBlockchain_eq hshape hcodec.toExact _ _, hentries, hresumes.metadata, fun now => ?_⟩
  · obtain ⟨m, hm, -⟩ := loadMetadata_storeBlockchainWrites hcodec hresumes.saved n now
    exact ⟨⟨_, m⟩, new_eq_ok.mpr ⟨hm, rfl⟩⟩
  · refine loadBlockchain_congr (fun height => ?_) ?_ ?_ now
    · rw [getBlockByHeight, getBlockByHeight, hentries _ (heightKey_ne_metadataKey height)]
    · exact ChainMetadata.chainHeight_eq hresumes.metadata
    · have hgenesis := congrArg ChainMetadata.genesisHash hresumes.metadata
      exact hgenesis

end BlockchainStore

/-! ## A crash to try -/

namespace Reference

/-- How `bincode` writes the metadata. -/
def metadataFormat : Format ChainMetadata :=
  (Format.u64.pair ((Format.array 32).pair ((Format.array 32).pair (Format.u64.pair
    (Format.u64.pair Format.u64))))).comap
    (fun m => (m.chainHeight, m.genesisHash.bytes, m.latestBlockHash.bytes,
      m.latestBlockTimestamp, m.totalTransactions, m.lastUpdated))
    (fun (height, genesis, latest, time, total, updated) =>
      some ⟨height, ⟨genesis⟩, ⟨latest⟩, time, total, updated⟩) (fun _ => rfl)

/-- The serializer of the program, with a reader that knows the given blocks only. -/
def reopenCodec (blocks : List Block) : ReopenCodec :=
  { indexCodec blocks with deserializeMetadata := metadataFormat.decode }

theorem exact_reopenCodec {blocks : List Block} (h : (indexCodec blocks).Exact blocks) :
    (reopenCodec blocks).Exact blocks := by
  refine { toIndexExact := h, readMetadata := ?_ }
  intro m data hdata
  have hwrite : metadataFormat.write m = data := by
    refine Eq.trans ?_ (Except.ok.inj hdata)
    simp only [List.append_assoc]
    rfl
  show metadataFormat.decode data = .ok m
  rw [← hwrite]
  exact metadataFormat.decode_write m

end Reference

namespace BlockchainStore
open CrashHistory (Init Next)
open Reference (reopenCodec voteBlock)

/-- The process dies after the first write of a block: it is found, and it is not the latest. -/
theorem runs_with_crashes_voteBlock :
    ∃ s, Runs.Reach (Init (reopenCodec [voteBlock]))
        (Next (reopenCodec [voteBlock]) [voteBlock]) s ∧
      s.store.getBlockByHeight (reopenCodec [voteBlock]).toStoreCodec 1 = .ok (some voteBlock) ∧
      s.completed = [] := by
  have hcodec := Reference.exact_reopenCodec (Reference.exact_indexCodec_singleton voteBlock)
  have hinit : Init (reopenCodec [voteBlock]) ⟨newMemory 5000, [], []⟩ := ⟨⟨5000, rfl⟩, rfl, rfl⟩
  obtain ⟨m, hm, -⟩ := loadMetadata_take hcodec (CrashHistory.inv_init hinit).saved voteBlock 1 6000
  have hnew : new (reopenCodec [voteBlock]) 6000 (WriteLog.apply ∅
      ((storeBlockWrites (reopenCodec [voteBlock]).toStoreCodec (ChainMetadata.default 5000)
        voteBlock).take 1)) = .ok ⟨_, m⟩ := new_eq_ok.mpr ⟨hm, rfl⟩
  have hs := (Runs.Reach.start hinit).step
    (Next.crash (List.mem_singleton_self voteBlock) 1 6000 hnew)
  refine ⟨_, hs, ?_, rfl⟩
  rw [(runs_with_crashes hcodec hs).1]
  rfl

/-- A chain with a vote in it; the first attempt to store it ends after one write. -/
theorem store_blockchain_resumes_vote :
    ∃ (c : Blockchain) (store store' done done' : BlockchainStore),
      new (reopenCodec c.blocks) 5000 ∅ = .ok store ∧ Cut (reopenCodec c.blocks) c store store' ∧
      (storeBlockchain (reopenCodec c.blocks).toStoreCodec c).exec store = (.ok (), done) ∧
      (storeBlockchain (reopenCodec c.blocks).toStoreCodec c).exec store' = (.ok (), done') ∧
      ∀ now, loadBlockchain Reference.primitives (reopenCodec c.blocks).toStoreCodec now done' =
        loadBlockchain Reference.primitives (reopenCodec c.blocks).toStoreCodec now done := by
  obtain ⟨c, hc⟩ : ∃ c, c = Reference.chain.addBlocks Reference.primitives
    [Reference.chain.nextBlock Reference.primitives [Reference.vote 0] Reference.key] := ⟨_, rfl⟩
  have hmade := Reference.new_genesis 0
  have hshape : c.Shape Reference.primitives := hc ▸ Blockchain.shape_addBlocks hmade _
  have hcodec := Reference.exact_reopenCodec (Reference.exact_indexCodec
    fun b hb x hx heq => hshape.eq_of_height_eq hx hb (Reference.height_of_encodeBlock heq))
  have hnew : new (reopenCodec c.blocks) 5000 ∅ = .ok (newMemory 5000) := rfl
  obtain ⟨store', hstore'⟩ :=
    (store_blockchain_resumes hmade hc hcodec hnew .refl).1 1 6000
  have hcut := Cut.crash 1 6000 hstore'
  obtain ⟨-, done, done', hexec, hexec', -, -, hload⟩ :=
    store_blockchain_resumes hmade hc hcodec hnew (.single hcut)
  exact ⟨c, newMemory 5000, store', done, done', hnew, hcut, hexec, hexec', hload⟩

end BlockchainStore

end VotingChain
