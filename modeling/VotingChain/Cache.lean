/-
# `VotingChain.Cache` — the caches in front of the store

The model of `Cache` of `storage/src/cache.rs`.  Four maps of bounded size: blocks by hash,
block hashes by height, transactions, and state entries.  A block is found by its height
through two of them, the height's hash and the hash's block, which forget on their own: a
height may outlive its block, and a block its height.

What is found by height is nevertheless what was put (`getBlockByHeight_coherent`): the hash
is that of the last block put at the height, and the data are the last that were put under
that hash.

The methods are on `&self` and lock the maps they use; here each call is made when no other
is going on.  The maps are those of the crate `lru`, of which only `BoundedMap` is used.
-/
import VotingChain.Lib.Lru
import VotingChain.Lib.Runs
import VotingChain.Common

namespace VotingChain

/-- `LruCache`, for each type of keys and of values. -/
abbrev LruCrate := ∀ (α β : Type) [DecidableEq α], BoundedMap α β

/-- Cache for blockchain and transaction data. -/
structure Cache (L : LruCrate) where
  /-- Block cache by hash. -/
  blockCache : (L BlockHash Bytes).Map
  /-- Block cache by height. -/
  heightCache : (L BlockHeight BlockHash).Map
  txCache : (L TxId Bytes).Map
  /-- State data cache (arbitrary key-value). -/
  stateCache : (L Bytes Bytes).Map

/-- Cache statistics. -/
structure CacheStats where
  blockCount : Nat
  blockCapacity : Nat
  heightCount : Nat
  heightCapacity : Nat
  txCount : Nat
  txCapacity : Nat
  stateCount : Nat
  stateCapacity : Nat
  deriving DecidableEq

/-- No map has more entries than it may have. -/
structure CacheStats.WithinCapacity (s : CacheStats) : Prop where
  block : s.blockCount ≤ s.blockCapacity
  height : s.heightCount ≤ s.heightCapacity
  tx : s.txCount ≤ s.txCapacity
  state : s.stateCount ≤ s.stateCapacity

namespace Cache
open BoundedMap (within_new within_put within_get within_pop within_clear within_resize)

variable {L : LruCrate}

/-- `NonZeroUsize::new`, with the error for zero. -/
def nonZero (n : Nat) (msg : String) : Result Capacity :=
  if h : 0 < n then .ok ⟨n, h⟩ else fail (.storageError msg)

/-- Create a new cache with specified sizes. -/
def new (L : LruCrate) (blockCapacity txCapacity stateCapacity : Nat) : Result (Cache L) := do
  let blockSize ← nonZero blockCapacity "Block cache capacity must be > 0"
  let txSize ← nonZero txCapacity "TX cache capacity must be > 0"
  let stateSize ← nonZero stateCapacity "State cache capacity must be > 0"
  pure
    { blockCache := (L BlockHash Bytes).new blockSize
      heightCache := (L BlockHeight BlockHash).new blockSize
      txCache := (L TxId Bytes).new txSize
      stateCache := (L Bytes Bytes).new stateSize }

/-! ## Blocks -/

/-- Put a block in the cache. -/
def putBlock (c : Cache L) (hash : BlockHash) (height : BlockHeight) (data : Bytes) : Cache L :=
  { c with
    blockCache := (L BlockHash Bytes).put c.blockCache hash data
    heightCache := (L BlockHeight BlockHash).put c.heightCache height hash }

/-- Get a block by hash. -/
def getBlock (c : Cache L) (hash : BlockHash) : Option Bytes × Cache L :=
  let (data, blockCache) := (L BlockHash Bytes).get c.blockCache hash
  (data, { c with blockCache := blockCache })

/-- Get a block hash by height. -/
def getBlockHashByHeight (c : Cache L) (height : BlockHeight) : Option BlockHash × Cache L :=
  let (hash, heightCache) := (L BlockHeight BlockHash).get c.heightCache height
  (hash, { c with heightCache := heightCache })

/-- Get a block by height (combines height and hash lookups). -/
def getBlockByHeight (c : Cache L) (height : BlockHeight) : Option Bytes × Cache L :=
  match c.getBlockHashByHeight height with
  | (some hash, c) => c.getBlock hash
  | (none, c) => (none, c)

/-- Remove a block from the cache. -/
def removeBlock (c : Cache L) (hash : BlockHash) : Cache L :=
  { c with blockCache := (L BlockHash Bytes).pop c.blockCache hash }

/-- Remove a block by height from the cache. -/
def removeBlockByHeight (c : Cache L) (height : BlockHeight) : Cache L :=
  let popped := (L BlockHeight BlockHash).peek c.heightCache height
  let c := { c with heightCache := (L BlockHeight BlockHash).pop c.heightCache height }
  match popped with
  | some hash => c.removeBlock hash
  | none => c

/-- Clear block cache only. -/
def clearBlocks (c : Cache L) : Cache L :=
  { c with
    blockCache := (L BlockHash Bytes).clear c.blockCache
    heightCache := (L BlockHeight BlockHash).clear c.heightCache }

/-- Resize block cache. -/
def resizeBlockCache (newCapacity : Nat) : Exec (Cache L) Unit := do
  let newSize ← Exec.lift (nonZero newCapacity "Capacity must be > 0")
  modify fun c =>
    { c with
      blockCache := (L BlockHash Bytes).resize c.blockCache newSize
      heightCache := (L BlockHeight BlockHash).resize c.heightCache newSize }

/-! ## Transactions and state entries -/

/-- Put a transaction in the cache. -/
def putTransaction (c : Cache L) (txId : TxId) (data : Bytes) : Cache L :=
  { c with txCache := (L TxId Bytes).put c.txCache txId data }

/-- Get a transaction from the cache. -/
def getTransaction (c : Cache L) (txId : TxId) : Option Bytes × Cache L :=
  let (data, txCache) := (L TxId Bytes).get c.txCache txId
  (data, { c with txCache := txCache })

/-- Remove a transaction from the cache. -/
def removeTransaction (c : Cache L) (txId : TxId) : Cache L :=
  { c with txCache := (L TxId Bytes).pop c.txCache txId }

/-- Clear transaction cache only. -/
def clearTransactions (c : Cache L) : Cache L :=
  { c with txCache := (L TxId Bytes).clear c.txCache }

/-- Resize transaction cache. -/
def resizeTxCache (newCapacity : Nat) : Exec (Cache L) Unit := do
  let newSize ← Exec.lift (nonZero newCapacity "Capacity must be > 0")
  modify fun c => { c with txCache := (L TxId Bytes).resize c.txCache newSize }

/-- Put arbitrary state data in the cache. -/
def putState (c : Cache L) (key value : Bytes) : Cache L :=
  { c with stateCache := (L Bytes Bytes).put c.stateCache key value }

/-- Get arbitrary state data from the cache. -/
def getState (c : Cache L) (key : Bytes) : Option Bytes × Cache L :=
  let (value, stateCache) := (L Bytes Bytes).get c.stateCache key
  (value, { c with stateCache := stateCache })

/-- Remove state data from the cache. -/
def removeState (c : Cache L) (key : Bytes) : Cache L :=
  { c with stateCache := (L Bytes Bytes).pop c.stateCache key }

/-- Clear state cache only. -/
def clearState (c : Cache L) : Cache L :=
  { c with stateCache := (L Bytes Bytes).clear c.stateCache }

/-- Resize state cache. -/
def resizeStateCache (newCapacity : Nat) : Exec (Cache L) Unit := do
  let newSize ← Exec.lift (nonZero newCapacity "Capacity must be > 0")
  modify fun c => { c with stateCache := (L Bytes Bytes).resize c.stateCache newSize }

/-! ## All of them -/

/-- Clear all caches. -/
def clearAll (c : Cache L) : Cache L := c.clearBlocks.clearTransactions.clearState

/-- Get cache statistics. -/
def getStats (c : Cache L) : CacheStats where
  blockCount := (L BlockHash Bytes).len c.blockCache
  blockCapacity := (L BlockHash Bytes).cap c.blockCache
  heightCount := (L BlockHeight BlockHash).len c.heightCache
  heightCapacity := (L BlockHeight BlockHash).cap c.heightCache
  txCount := (L TxId Bytes).len c.txCache
  txCapacity := (L TxId Bytes).cap c.txCache
  stateCount := (L Bytes Bytes).len c.stateCache
  stateCapacity := (L Bytes Bytes).cap c.stateCache

/-- A call of a method that changes the cache. -/
inductive Call where
  | putBlock (hash : BlockHash) (height : BlockHeight) (data : Bytes)
  | getBlock (hash : BlockHash)
  | getBlockHashByHeight (height : BlockHeight)
  | getBlockByHeight (height : BlockHeight)
  | removeBlock (hash : BlockHash)
  | removeBlockByHeight (height : BlockHeight)
  | clearBlocks
  | resizeBlockCache (newCapacity : Nat)
  | putTransaction (txId : TxId) (data : Bytes)
  | getTransaction (txId : TxId)
  | removeTransaction (txId : TxId)
  | clearTransactions
  | resizeTxCache (newCapacity : Nat)
  | putState (key value : Bytes)
  | getState (key : Bytes)
  | removeState (key : Bytes)
  | clearState
  | resizeStateCache (newCapacity : Nat)
  | clearAll
  deriving DecidableEq

/-- The cache after a call. -/
def step (c : Cache L) : Call → Cache L
  | .putBlock hash height data => c.putBlock hash height data
  | .getBlock hash => (c.getBlock hash).2
  | .getBlockHashByHeight height => (c.getBlockHashByHeight height).2
  | .getBlockByHeight height => (c.getBlockByHeight height).2
  | .removeBlock hash => c.removeBlock hash
  | .removeBlockByHeight height => c.removeBlockByHeight height
  | .clearBlocks => c.clearBlocks
  | .resizeBlockCache newCapacity => (resizeBlockCache newCapacity).next c
  | .putTransaction txId data => c.putTransaction txId data
  | .getTransaction txId => (c.getTransaction txId).2
  | .removeTransaction txId => c.removeTransaction txId
  | .clearTransactions => c.clearTransactions
  | .resizeTxCache newCapacity => (resizeTxCache newCapacity).next c
  | .putState key value => c.putState key value
  | .getState key => (c.getState key).2
  | .removeState key => c.removeState key
  | .clearState => c.clearState
  | .resizeStateCache newCapacity => (resizeStateCache newCapacity).next c
  | .clearAll => c.clearAll

/-- The cache after so many calls. -/
def run (c : Cache L) (calls : List Call) : Cache L := Runs.run step c calls

/-! ## What is to be shown -/

/-- The hash in the height cache. -/
def hashAt (c : Cache L) (height : BlockHeight) : Option BlockHash :=
  (L BlockHeight BlockHash).peek c.heightCache height

/-- The data in the block cache. -/
def dataOf (c : Cache L) (hash : BlockHash) : Option Bytes :=
  (L BlockHash Bytes).peek c.blockCache hash

/-- The call puts a block at the height, removes what is there, or clears the blocks. -/
def Call.TouchesHeight (height : BlockHeight) : Call → Prop
  | .putBlock _ height' _ => height' = height
  | .removeBlockByHeight height' => height' = height
  | .clearBlocks => True
  | .clearAll => True
  | _ => False

/-- The call puts a block with the hash, removes it, by the hash or by a height that has it,
or clears the blocks. -/
def TouchesHash (hash : BlockHash) (c : Cache L) : Call → Prop
  | .putBlock hash' _ _ => hash' = hash
  | .removeBlock hash' => hash' = hash
  | .removeBlockByHeight height => c.hashAt height = some hash
  | .clearBlocks => True
  | .clearAll => True
  | _ => False

/-- The last block put at the height had this hash, and nothing at the height was removed or
cleared since. -/
def LastPutAt (height : BlockHeight) (hash : BlockHash) (c : Cache L) (calls : List Call) : Prop :=
  Runs.Since step (fun call => ∃ data, call = .putBlock hash height data)
    (fun _ call => ¬call.TouchesHeight height) c calls

/-- The last data put under the hash are these, and it was not removed or cleared since. -/
def LastPutUnder (hash : BlockHash) (data : Bytes) (c : Cache L) (calls : List Call) : Prop :=
  Runs.Since step (fun call => ∃ height, call = .putBlock hash height data)
    (fun c call => ¬c.TouchesHash hash call) c calls

/-! ## One call -/

theorem next_resize (newCapacity : Nat) (msg : String) (f : Capacity → Cache L → Cache L)
    (c : Cache L) :
    (Exec.lift (nonZero newCapacity msg) >>= fun newSize => modify (f newSize)).next c = c ∨
    ∃ newSize, (Exec.lift (nonZero newCapacity msg) >>= fun newSize =>
      modify (f newSize)).next c = f newSize c := by
  cases hsize : nonZero newCapacity msg with
  | error e => exact Or.inl (Exec.next_of_error rfl)
  | ok newSize => exact Or.inr ⟨newSize, Exec.next_of_ok rfl⟩

theorem next_resize_keeps {I : Cache L → Prop} {newCapacity : Nat} {msg : String}
    {f : Capacity → Cache L → Cache L} {c : Cache L} (h : I c)
    (hf : ∀ newSize, I (f newSize c)) :
    I ((Exec.lift (nonZero newCapacity msg) >>= fun newSize => modify (f newSize)).next c) := by
  rcases next_resize newCapacity msg f c with heq | ⟨newSize, heq⟩
  · rw [heq]
    exact h
  · rw [heq]
    exact hf newSize

theorem same_next_resize {γ : Type} (obs : Cache L → γ) {newCapacity : Nat} {msg : String}
    {f : Capacity → Cache L → Cache L} {c : Cache L}
    (hsame : ∀ newSize, obs (f newSize c) = obs c) :
    obs ((Exec.lift (nonZero newCapacity msg) >>= fun newSize => modify (f newSize)).next c) =
      obs c :=
  next_resize_keeps (I := fun c' => obs c' = obs c) rfl hsame

theorem getBlockByHeight_snd (c : Cache L) (height : BlockHeight) :
    (c.getBlockByHeight height).2 = (c.getBlockHashByHeight height).2 ∨
    ∃ hash, (c.getBlockByHeight height).2 =
      ((c.getBlockHashByHeight height).2.getBlock hash).2 := by
  rw [getBlockByHeight]
  rcases c.getBlockHashByHeight height with ⟨found, c'⟩
  cases found with
  | none => exact Or.inl rfl
  | some hash => exact Or.inr ⟨hash, rfl⟩

theorem getBlockByHeight_eq_some {c : Cache L} {height : BlockHeight} {data : Bytes}
    (h : (c.getBlockByHeight height).1 = some data) :
    ∃ hash, c.hashAt height = some hash ∧ c.dataOf hash = some data := by
  have hhash : (c.getBlockHashByHeight height).1 = c.hashAt height :=
    (L BlockHeight BlockHash).get_fst c.heightCache height
  have hblocks : (c.getBlockHashByHeight height).2.blockCache = c.blockCache := rfl
  rw [getBlockByHeight] at h
  rcases hfound : c.getBlockHashByHeight height with ⟨found, c'⟩
  rw [hfound] at h hhash hblocks
  cases found with
  | none => cases h
  | some hash =>
      refine ⟨hash, hhash.symm, ?_⟩
      rw [dataOf, ← hblocks, ← (L BlockHash Bytes).get_fst]
      exact h

/-- How a call comes to a hash at a height: it puts it there, or lets it be. -/
theorem hashAt_step {c : Cache L} {call : Call} {height : BlockHeight} {hash : BlockHash}
    (h : (c.step call).hashAt height = some hash) :
    (∃ data, call = .putBlock hash height data) ∨
    (c.hashAt height = some hash ∧ ¬call.TouchesHeight height) := by
  have hget : ∀ height', (c.getBlockHashByHeight height').2.hashAt height = c.hashAt height :=
    fun height' => (L BlockHeight BlockHash).peek_get c.heightCache height' height
  cases call with
  | putBlock hash' height' data =>
      rcases BoundedMap.of_peek_put h with ⟨rfl, rfl⟩ | ⟨hne, hold⟩
      · exact Or.inl ⟨data, rfl⟩
      · exact Or.inr ⟨hold, fun heq => hne heq.symm⟩
  | getBlock hash' => exact Or.inr ⟨h, id⟩
  | getBlockHashByHeight height' => exact Or.inr ⟨(hget height').symm.trans h, id⟩
  | getBlockByHeight height' =>
      refine Or.inr ⟨?_, id⟩
      rw [step] at h
      rcases c.getBlockByHeight_snd height' with heq | ⟨hash', heq⟩
      · rw [heq] at h
        exact (hget height').symm.trans h
      · rw [heq] at h
        exact (hget height').symm.trans h
  | removeBlock hash' => exact Or.inr ⟨h, id⟩
  | removeBlockByHeight height' =>
      have hpop : (L BlockHeight BlockHash).peek
          ((L BlockHeight BlockHash).pop c.heightCache height') height = some hash := by
        rw [step, removeBlockByHeight] at h
        cases hold : (L BlockHeight BlockHash).peek c.heightCache height' with
        | none =>
            rw [hold] at h
            exact h
        | some hash' =>
            rw [hold] at h
            exact h
      obtain ⟨hne, hold⟩ := BoundedMap.of_peek_pop hpop
      exact Or.inr ⟨hold, fun heq => hne heq.symm⟩
  | clearBlocks =>
      rw [hashAt, step, clearBlocks, (L BlockHeight BlockHash).peek_clear] at h
      cases h
  | resizeBlockCache newCapacity =>
      have hkept : (c.step (.resizeBlockCache newCapacity)).hashAt height = some hash →
          c.hashAt height = some hash :=
        next_resize_keeps
          (I := fun c' => c'.hashAt height = some hash → c.hashAt height = some hash) id
          fun _ => BoundedMap.of_peek_resize
      exact Or.inr ⟨hkept h, id⟩
  | putTransaction txId data => exact Or.inr ⟨h, id⟩
  | getTransaction txId => exact Or.inr ⟨h, id⟩
  | removeTransaction txId => exact Or.inr ⟨h, id⟩
  | clearTransactions => exact Or.inr ⟨h, id⟩
  | resizeTxCache newCapacity =>
      exact Or.inr ⟨(same_next_resize (hashAt · height) fun _ => rfl).symm.trans h, id⟩
  | putState key value => exact Or.inr ⟨h, id⟩
  | getState key => exact Or.inr ⟨h, id⟩
  | removeState key => exact Or.inr ⟨h, id⟩
  | clearState => exact Or.inr ⟨h, id⟩
  | resizeStateCache newCapacity =>
      exact Or.inr ⟨(same_next_resize (hashAt · height) fun _ => rfl).symm.trans h, id⟩
  | clearAll =>
      have hnone : (c.step .clearAll).hashAt height = none :=
        (L BlockHeight BlockHash).peek_clear c.heightCache height
      rw [hnone] at h
      cases h

/-- How a call comes to data under a hash: it puts them there, or lets them be. -/
theorem dataOf_step {c : Cache L} {call : Call} {hash : BlockHash} {data : Bytes}
    (h : (c.step call).dataOf hash = some data) :
    (∃ height, call = .putBlock hash height data) ∨
    (c.dataOf hash = some data ∧ ¬c.TouchesHash hash call) := by
  have hget : ∀ hash', (c.getBlock hash').2.dataOf hash = c.dataOf hash :=
    fun hash' => (L BlockHash Bytes).peek_get c.blockCache hash' hash
  cases call with
  | putBlock hash' height data' =>
      rcases BoundedMap.of_peek_put h with ⟨rfl, rfl⟩ | ⟨hne, hold⟩
      · exact Or.inl ⟨height, rfl⟩
      · exact Or.inr ⟨hold, fun heq => hne heq.symm⟩
  | getBlock hash' => exact Or.inr ⟨(hget hash').symm.trans h, id⟩
  | getBlockHashByHeight height => exact Or.inr ⟨h, id⟩
  | getBlockByHeight height =>
      refine Or.inr ⟨?_, id⟩
      rw [step] at h
      rcases c.getBlockByHeight_snd height with heq | ⟨hash', heq⟩
      · rw [heq] at h
        exact h
      · rw [heq] at h
        exact (hget hash').symm.trans h
  | removeBlock hash' =>
      obtain ⟨hne, hold⟩ := BoundedMap.of_peek_pop h
      exact Or.inr ⟨hold, fun heq => hne heq.symm⟩
  | removeBlockByHeight height =>
      rw [step, removeBlockByHeight] at h
      cases hpopped : (L BlockHeight BlockHash).peek c.heightCache height with
      | none =>
          rw [hpopped] at h
          refine Or.inr ⟨h, ?_⟩
          show ¬(L BlockHeight BlockHash).peek c.heightCache height = some hash
          rw [hpopped]
          exact fun heq => by cases heq
      | some hash' =>
          rw [hpopped] at h
          obtain ⟨hne, hold⟩ := BoundedMap.of_peek_pop h
          refine Or.inr ⟨hold, ?_⟩
          show ¬(L BlockHeight BlockHash).peek c.heightCache height = some hash
          rw [hpopped]
          exact fun heq => hne (Option.some.inj heq).symm
  | clearBlocks =>
      rw [dataOf, step, clearBlocks, (L BlockHash Bytes).peek_clear] at h
      cases h
  | resizeBlockCache newCapacity =>
      have hkept : (c.step (.resizeBlockCache newCapacity)).dataOf hash = some data →
          c.dataOf hash = some data :=
        next_resize_keeps
          (I := fun c' => c'.dataOf hash = some data → c.dataOf hash = some data) id
          fun _ => BoundedMap.of_peek_resize
      exact Or.inr ⟨hkept h, id⟩
  | putTransaction txId data => exact Or.inr ⟨h, id⟩
  | getTransaction txId => exact Or.inr ⟨h, id⟩
  | removeTransaction txId => exact Or.inr ⟨h, id⟩
  | clearTransactions => exact Or.inr ⟨h, id⟩
  | resizeTxCache newCapacity =>
      exact Or.inr ⟨(same_next_resize (dataOf · hash) fun _ => rfl).symm.trans h, id⟩
  | putState key value => exact Or.inr ⟨h, id⟩
  | getState key => exact Or.inr ⟨h, id⟩
  | removeState key => exact Or.inr ⟨h, id⟩
  | clearState => exact Or.inr ⟨h, id⟩
  | resizeStateCache newCapacity =>
      exact Or.inr ⟨(same_next_resize (dataOf · hash) fun _ => rfl).symm.trans h, id⟩
  | clearAll =>
      have hnone : (c.step .clearAll).dataOf hash = none :=
        (L BlockHash Bytes).peek_clear c.blockCache hash
      rw [hnone] at h
      cases h

theorem withinCapacity_step {c : Cache L} (h : c.getStats.WithinCapacity) (call : Call) :
    (c.step call).getStats.WithinCapacity := by
  obtain ⟨hblock, hheight, htx, hstate⟩ := h
  have hpopped : ∀ height, (L BlockHeight BlockHash).Within
      ((L BlockHeight BlockHash).pop c.heightCache height) :=
    fun height => within_pop hheight height
  have hresized : ∀ (newCapacity : Nat) (msg : String) (f : Capacity → Cache L → Cache L),
      (∀ newSize, (f newSize c).getStats.WithinCapacity) →
      ((Exec.lift (nonZero newCapacity msg) >>= fun newSize =>
        modify (f newSize)).next c).getStats.WithinCapacity :=
    fun newCapacity msg f => next_resize_keeps (I := fun c => c.getStats.WithinCapacity)
      ⟨hblock, hheight, htx, hstate⟩
  cases call with
  | putBlock hash height data =>
      exact ⟨within_put hblock hash data, within_put hheight height hash, htx, hstate⟩
  | getBlock hash => exact ⟨within_get hblock hash, hheight, htx, hstate⟩
  | getBlockHashByHeight height => exact ⟨hblock, within_get hheight height, htx, hstate⟩
  | getBlockByHeight height =>
      rw [step]
      rcases c.getBlockByHeight_snd height with heq | ⟨hash, heq⟩
      · rw [heq]
        exact ⟨hblock, within_get hheight height, htx, hstate⟩
      · rw [heq]
        exact ⟨within_get hblock hash, within_get hheight height, htx, hstate⟩
  | removeBlock hash => exact ⟨within_pop hblock hash, hheight, htx, hstate⟩
  | removeBlockByHeight height =>
      rw [step, removeBlockByHeight]
      cases (L BlockHeight BlockHash).peek c.heightCache height with
      | none => exact ⟨hblock, hpopped height, htx, hstate⟩
      | some hash => exact ⟨within_pop hblock hash, hpopped height, htx, hstate⟩
  | clearBlocks => exact ⟨within_clear _, within_clear _, htx, hstate⟩
  | resizeBlockCache newCapacity =>
      refine hresized newCapacity _ _ fun newSize => ?_
      exact ⟨within_resize _ newSize, within_resize _ newSize, htx, hstate⟩
  | putTransaction txId data => exact ⟨hblock, hheight, within_put htx txId data, hstate⟩
  | getTransaction txId => exact ⟨hblock, hheight, within_get htx txId, hstate⟩
  | removeTransaction txId => exact ⟨hblock, hheight, within_pop htx txId, hstate⟩
  | clearTransactions => exact ⟨hblock, hheight, within_clear _, hstate⟩
  | resizeTxCache newCapacity =>
      refine hresized newCapacity _ _ fun newSize => ?_
      exact ⟨hblock, hheight, within_resize _ newSize, hstate⟩
  | putState key value => exact ⟨hblock, hheight, htx, within_put hstate key value⟩
  | getState key => exact ⟨hblock, hheight, htx, within_get hstate key⟩
  | removeState key => exact ⟨hblock, hheight, htx, within_pop hstate key⟩
  | clearState => exact ⟨hblock, hheight, htx, within_clear _⟩
  | resizeStateCache newCapacity =>
      refine hresized newCapacity _ _ fun newSize => ?_
      exact ⟨hblock, hheight, htx, within_resize _ newSize⟩
  | clearAll => exact ⟨within_clear _, within_clear _, within_clear _, within_clear _⟩

/-! ## Every run -/

theorem new_eq_ok {blockCapacity txCapacity stateCapacity : Nat} {c : Cache L}
    (h : new L blockCapacity txCapacity stateCapacity = .ok c) :
    (∀ height, c.hashAt height = none) ∧ (∀ hash, c.dataOf hash = none) ∧
    c.getStats.WithinCapacity := by
  simp only [new, bind_eq_ok] at h
  obtain ⟨blockSize, -, txSize, -, stateSize, -, h⟩ := h
  cases h
  refine ⟨fun height => (L BlockHeight BlockHash).peek_new blockSize height,
    fun hash => (L BlockHash Bytes).peek_new blockSize hash, ?_⟩
  exact ⟨within_new _, within_new _, within_new _, within_new _⟩

/-- **Coherence.**  Whatever calls are made on a new cache: if a block is found by its height,
then it is under the hash of the last block put at that height, which was not removed or
cleared since, and its data are the last put under that hash, which was not removed or cleared
since either.  And no map is ever reported to hold more than it may. -/
theorem getBlockByHeight_coherent (L : LruCrate) (blockCapacity txCapacity stateCapacity : Nat)
    (cache : Cache L) (hnew : new L blockCapacity txCapacity stateCapacity = .ok cache)
    (calls : List Call) :
    (∀ height data, ((cache.run calls).getBlockByHeight height).1 = some data →
      ∃ hash, LastPutAt height hash cache calls ∧ LastPutUnder hash data cache calls) ∧
    (cache.run calls).getStats.WithinCapacity := by
  obtain ⟨hheights, hblocks, hstats⟩ := new_eq_ok hnew
  constructor
  · intro height data hget
    obtain ⟨hash, hhash, hdata⟩ := getBlockByHeight_eq_some hget
    refine ⟨hash, ?_, ?_⟩
    · refine Runs.since_of_step (P := fun c => c.hashAt height = some hash) ?_ ?_ hhash
      · rw [hheights]
        exact fun heq => by cases heq
      · exact fun c call h => hashAt_step h
    · refine Runs.since_of_step (P := fun c => c.dataOf hash = some data) ?_ ?_ hdata
      · rw [hblocks]
        exact fun heq => by cases heq
      · exact fun c call h => dataOf_step h
  · exact Runs.run_preserves (I := fun c : Cache L => c.getStats.WithinCapacity)
      (fun c call h => withinCapacity_step h call) hstats calls

/-! ## A cache to try things on -/

/-- The maps that drop the least recently used entry. -/
def lruCrate : LruCrate := fun α β _ => lru α β

/-- Room for two blocks, one transaction and one state entry. -/
def smallCache : Cache lruCrate where
  blockCache := (lru BlockHash Bytes).new ⟨2, by decide⟩
  heightCache := (lru BlockHeight BlockHash).new ⟨2, by decide⟩
  txCache := (lru TxId Bytes).new ⟨1, by decide⟩
  stateCache := (lru Bytes Bytes).new ⟨1, by decide⟩

/-- One hash at two heights: the data are those of the second. -/
theorem getBlockByHeight_coherent_sample :
    ∃ hash, LastPutAt 5 hash smallCache [.putBlock .zero 5 [1], .putBlock .zero 6 [2]] ∧
      LastPutUnder hash [2] smallCache [.putBlock .zero 5 [1], .putBlock .zero 6 [2]] := by
  refine (getBlockByHeight_coherent lruCrate 2 1 1 smallCache rfl
    [.putBlock .zero 5 [1], .putBlock .zero 6 [2]]).1 5 [2] ?_
  rfl

end Cache

end VotingChain
