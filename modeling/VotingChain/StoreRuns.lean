/-
# `VotingChain.StoreRuns` — runs of the block store

What `store_block` and `prune_before` do to a store over a whole run, from an empty one.

The tip in the metadata is written when a block is higher than all before it, and only
then.  A genesis block alone is not higher than an empty chain, a second block at the tip
replaces the first without the metadata, and pruning does not spare the tip; in a run
without these three the latest block is what the metadata says (`tip_iff`).

A block that is stored replaces what was found at its height, under its hash and under its
transactions.  If what it replaces is not the same block all three times, something is left
that leads nowhere (`lookups_agree_iff`).  `prune_before` deletes all three entries of a
block together, and never does that.
-/
import Mathlib.Order.Bounds.Defs
import VotingChain.Lib.Format
import VotingChain.StoreIndex

namespace VotingChain

/-- A call of the store. -/
inductive StoreCall
  | storeBlock (block : Block)
  | pruneBefore (cutoff : Timestamp)

/-- The block that is stored. -/
def StoreCall.block? : StoreCall → Option Block
  | .storeBlock block => some block
  | .pruneBefore _ => none

namespace BlockchainStore
variable (C : IndexCodec)

/-- The store after a call. -/
def call (store : BlockchainStore) : StoreCall → BlockchainStore
  | .storeBlock block => (storeBlock C.toStoreCodec block).next store
  | .pruneBefore cutoff => (pruneBefore C cutoff).next store

end BlockchainStore

/-- The index after a call. -/
noncomputable def Index.call (index : Index) : StoreCall → Index
  | .storeBlock block => index.storeBlock block
  | .pruneBefore cutoff => index.pruneBefore cutoff

namespace BlockchainStore
variable {C : IndexCodec}

theorem Shows.call {store : BlockchainStore} {index : Index} (h : Shows C store index)
    {blocks : List Block} (hcodec : C.Exact blocks) {o : StoreCall}
    (ho : ∀ b, o.block? = some b → b ∈ blocks) : Shows C (store.call C o) (index.call o) := by
  cases o with
  | storeBlock b =>
      obtain ⟨store', hexec, hshows⟩ := h.storeBlock hcodec (ho b rfl)
      rw [BlockchainStore.call, Exec.next_of_ok hexec]
      exact hshows
  | pruneBefore cutoff =>
      obtain ⟨n, store', hexec, hshows⟩ := h.pruneBefore cutoff
      rw [BlockchainStore.call, Exec.next_of_ok hexec]
      exact hshows

theorem forall_mem_blocks (calls : List StoreCall) :
    ∀ o ∈ calls, ∀ b, o.block? = some b → b ∈ calls.filterMap StoreCall.block? :=
  fun o ho _ hb => List.mem_filterMap.mpr ⟨o, ho, hb⟩

end BlockchainStore

/-! ## The latest block -/

/-- What the tip says about the blocks that were stored. -/
structure Index.TipInv (index : Index) (stored : List Block) : Prop where
  placed : ∀ h b, index.byHeight h = some b → b.height = h ∧ b ∈ stored
  empty : index.chainHeight = 0 → index.latestBlockHash = BlockHash.zero ∧ stored = []
  tip : index.chainHeight ≠ 0 →
    ∃ b, index.byHeight index.chainHeight = some b ∧ b.hash = index.latestBlockHash
  greatest : index.chainHeight ≠ 0 →
    IsGreatest {h | ∃ b ∈ stored, b.height = h} index.chainHeight

namespace Index
variable {index : Index} {stored : List Block}

theorem tipInv_empty : Index.empty.TipInv [] where
  placed _ _ h := by cases h
  empty _ := ⟨rfl, rfl⟩
  tip h := absurd rfl h
  greatest h := absurd rfl h

/-- The latest block is found, and it is the highest of those that were stored. -/
def LatestIsTip (index : Index) (stored : List Block) : Prop :=
  stored ≠ [] → ∃ b, index.latest = some b ∧ b.height = index.chainHeight ∧
    IsGreatest {h | ∃ b ∈ stored, b.height = h} index.chainHeight ∧
    b.hash = index.latestBlockHash

theorem latest_of_ne_zero (h : index.chainHeight ≠ 0) :
    index.latest = index.byHeight index.chainHeight :=
  if_neg fun hzero => h hzero.1

theorem TipInv.latestIsTip (h : index.TipInv stored) : index.LatestIsTip stored := by
  intro hstored
  have hne : index.chainHeight ≠ 0 := fun hzero => hstored (h.empty hzero).2
  obtain ⟨b, hb, hhash⟩ := h.tip hne
  refine ⟨b, ?_, (h.placed _ b hb).1, h.greatest hne, hhash⟩
  rw [latest_of_ne_zero hne]
  exact hb

theorem placed_storeBlock (h : index.TipInv stored) (b : Block) :
    ∀ h x, (index.storeBlock b).byHeight h = some x → x.height = h ∧ x ∈ stored ++ [b] := by
  intro height x hx
  rw [Index.storeBlock] at hx
  simp only at hx
  split at hx
  · next heq =>
      cases hx
      exact ⟨heq.symm, List.mem_append_right _ (List.mem_singleton_self _)⟩
  · obtain ⟨hheight, hmem⟩ := h.placed height x hx
    exact ⟨hheight, List.mem_append_left _ hmem⟩

theorem TipInv.storeBlock_above (h : index.TipInv stored) {b : Block}
    (hlt : index.chainHeight < b.height) : (index.storeBlock b).TipInv (stored ++ [b]) := by
  have hheight : (index.storeBlock b).chainHeight = b.height := if_pos hlt
  have hne : b.height ≠ 0 := by
    intro hzero
    rw [hzero] at hlt
    exact absurd hlt (UInt64.not_lt_zero)
  refine ⟨placed_storeBlock h b, ?_, ?_, ?_⟩
  · intro hzero
    exact absurd (hheight.symm.trans hzero) hne
  · intro _
    refine ⟨b, ?_, (if_pos hlt).symm⟩
    rw [hheight]
    exact if_pos rfl
  · intro _
    rw [hheight]
    refine ⟨⟨b, List.mem_append_right _ (List.mem_singleton_self _), rfl⟩, ?_⟩
    rintro _ ⟨x, hx, rfl⟩
    rcases List.mem_append.mp hx with hx | hx
    · by_cases hzero : index.chainHeight = 0
      · rw [(h.empty hzero).2] at hx
        cases hx
      · exact UInt64.le_of_lt (UInt64.lt_of_le_of_lt ((h.greatest hzero).2 ⟨x, hx, rfl⟩) hlt)
    · rw [List.mem_singleton.mp hx]
      exact UInt64.le_refl _

theorem TipInv.storeBlock_below (h : index.TipInv stored) {b : Block}
    (hle : ¬index.chainHeight < b.height) (hne : index.chainHeight ≠ 0)
    (hsame : b.height = index.chainHeight → b.hash = index.latestBlockHash) :
    (index.storeBlock b).TipInv (stored ++ [b]) := by
  have hheight : (index.storeBlock b).chainHeight = index.chainHeight := if_neg hle
  refine ⟨placed_storeBlock h b, ?_, ?_, ?_⟩
  · intro hzero
    exact absurd (hheight.symm.trans hzero) hne
  · intro _
    rw [hheight]
    have hhash : (index.storeBlock b).latestBlockHash = index.latestBlockHash := if_neg hle
    rw [hhash]
    by_cases heq : b.height = index.chainHeight
    · exact ⟨b, if_pos heq.symm, hsame heq⟩
    · obtain ⟨x, hx, hxhash⟩ := h.tip hne
      exact ⟨x, (if_neg (Ne.symm heq)).trans hx, hxhash⟩
  · intro _
    rw [hheight]
    obtain ⟨⟨x, hx, hxheight⟩, hmax⟩ := h.greatest hne
    refine ⟨⟨x, List.mem_append_left _ hx, hxheight⟩, ?_⟩
    rintro _ ⟨y, hy, rfl⟩
    rcases List.mem_append.mp hy with hy | hy
    · exact hmax ⟨y, hy, rfl⟩
    · rw [List.mem_singleton.mp hy]
      exact UInt64.not_lt.mp hle

theorem byHeight_pruneBefore {cutoff : Timestamp} {h : BlockHeight} {b : Block} :
    (index.pruneBefore cutoff).byHeight h = some b ↔
      index.byHeight h = some b ∧ ¬index.Stale cutoff h b := by
  rw [Index.pruneBefore]
  simp only
  split
  · next hstale =>
      constructor
      · intro hnone
        cases hnone
      · rintro ⟨hb, hnot⟩
        obtain ⟨x, hx⟩ := hstale
        obtain rfl : x = b := Option.some.inj (hx.2.2.1.symm.trans hb)
        exact absurd hx hnot
  · next hfresh => exact ⟨fun hb => ⟨hb, fun hs => hfresh (Exists.intro b hs)⟩, And.left⟩

theorem TipInv.pruneBefore (h : index.TipInv stored) {cutoff : Timestamp}
    (hnew : ∀ b, index.byHeight index.chainHeight = some b → cutoff ≤ b.timestamp) :
    (index.pruneBefore cutoff).TipInv stored := by
  refine ⟨?_, h.empty, ?_, h.greatest⟩
  · intro height b hb
    exact h.placed height b (byHeight_pruneBefore.mp hb).1
  · intro hne
    obtain ⟨b, hb, hhash⟩ := h.tip hne
    refine ⟨b, byHeight_pruneBefore.mpr ⟨hb, ?_⟩, hhash⟩
    intro hstale
    exact UInt64.not_lt.mpr (hnew b hb) hstale.2.2.2

/-- The calls that leave the tip where the metadata says. -/
def KeepsTip (index : Index) : StoreCall → Prop
  | .storeBlock b => ¬(index.chainHeight = 0 ∧ b.height = 0) ∧
      (b.height = index.chainHeight → b.hash = index.latestBlockHash)
  | .pruneBefore cutoff => ∀ b, index.byHeight index.chainHeight = some b → cutoff ≤ b.timestamp

theorem TipInv.call (h : index.TipInv stored) {o : StoreCall} (hkeeps : index.KeepsTip o) :
    (index.call o).TipInv (stored ++ o.block?.toList) := by
  cases o with
  | storeBlock b =>
      obtain ⟨hgenesis, hsame⟩ := hkeeps
      by_cases hlt : index.chainHeight < b.height
      · exact h.storeBlock_above hlt
      · refine h.storeBlock_below hlt ?_ hsame
        intro hzero
        rw [hzero] at hlt
        exact hgenesis ⟨hzero, UInt64.le_zero_iff.mp (UInt64.not_lt.mp hlt)⟩
  | pruneBefore cutoff =>
      rw [StoreCall.block?, Option.toList_none, List.append_nil]
      exact h.pruneBefore hkeeps

theorem TipInv.keepsTip (h : index.TipInv stored) {o : StoreCall}
    (hlatest : (index.call o).LatestIsTip (stored ++ o.block?.toList)) : index.KeepsTip o := by
  cases o with
  | storeBlock b =>
      obtain ⟨x, hx, -, -, hhash⟩ := hlatest (List.append_ne_nil_of_right_ne_nil _
        (List.cons_ne_nil b []))
      have hgenesis : ¬(index.chainHeight = 0 ∧ b.height = 0) := by
        rintro ⟨hzero, hbzero⟩
        have hle : ¬index.chainHeight < b.height := by
          rw [hzero, hbzero]
          exact UInt64.lt_irrefl 0
        have hnone : (index.storeBlock b).latest = none :=
          if_pos ⟨(if_neg hle).trans hzero, (if_neg hle).trans (h.empty hzero).1⟩
        cases hnone.symm.trans hx
      refine ⟨hgenesis, ?_⟩
      intro heq
      have hle : ¬index.chainHeight < b.height := by
        rw [heq]
        exact UInt64.lt_irrefl _
      have htip : (index.storeBlock b).chainHeight = index.chainHeight := if_neg hle
      have hne : (index.storeBlock b).chainHeight ≠ 0 := by
        rw [htip]
        exact fun hzero => hgenesis ⟨hzero, heq.trans hzero⟩
      have hb : (index.storeBlock b).latest = some b := by
        rw [latest_of_ne_zero hne, htip]
        exact if_pos heq.symm
      obtain rfl : b = x := Option.some.inj (hb.symm.trans hx)
      exact hhash.trans (if_neg hle)
  | pruneBefore cutoff =>
      intro b hb
      have hmem := (h.placed _ b hb).2
      have hne : index.chainHeight ≠ 0 := by
        intro hzero
        rw [(h.empty hzero).2] at hmem
        cases hmem
      obtain ⟨x, hx, -⟩ := hlatest (List.append_ne_nil_of_left_ne_nil (List.ne_nil_of_mem hmem) _)
      have hlast : (index.pruneBefore cutoff).latest =
          (index.pruneBefore cutoff).byHeight index.chainHeight := latest_of_ne_zero hne
      have hx' : (index.pruneBefore cutoff).byHeight index.chainHeight = some x :=
        hlast.symm.trans hx
      obtain ⟨hfound, hfresh⟩ := byHeight_pruneBefore.mp hx'
      obtain rfl : b = x := Option.some.inj (hb.symm.trans hfound)
      by_contra hold
      refine hfresh ⟨?_, UInt64.le_refl _, hb, UInt64.not_le.mp hold⟩
      rw [UInt64.le_iff_toNat_le]
      exact Nat.one_le_iff_ne_zero.mpr fun hzero => hne (UInt64.toNat_inj.mp hzero)

end Index

/-- A store, and the blocks that were given to it. -/
structure StoreHistory where
  store : BlockchainStore
  stored : List Block

namespace StoreHistory
variable (C : IndexCodec)

def start (now : Timestamp) : StoreHistory := ⟨BlockchainStore.newMemory now, []⟩

def step (s : StoreHistory) (o : StoreCall) : StoreHistory :=
  ⟨s.store.call C o, s.stored ++ o.block?.toList⟩

/-- Once something has been stored, `get_latest_block` finds a block; its height is the height
in the metadata, which is the greatest that was stored, and its hash is the hash there. -/
def LatestIsTip (s : StoreHistory) : Prop :=
  s.stored ≠ [] → ∃ b, s.store.getLatestBlock C = .ok (some b) ∧
    b.height = s.store.metadata.chainHeight ∧
    IsGreatest {h | ∃ b ∈ s.stored, b.height = h} s.store.metadata.chainHeight ∧
    b.hash = s.store.metadata.latestBlockHash

/-- The call is not the first block of a chain at height zero, not another block at the height
of the tip, and does not prune the block there. -/
def KeepsTip (s : StoreHistory) : StoreCall → Prop
  | .storeBlock b => ¬(s.store.metadata.chainHeight = 0 ∧ b.height = 0) ∧
      (b.height = s.store.metadata.chainHeight → b.hash = s.store.metadata.latestBlockHash)
  | .pruneBefore cutoff => ∀ b,
      s.store.getBlockByHeight C.toStoreCodec s.store.metadata.chainHeight = .ok (some b) →
        cutoff ≤ b.timestamp

variable {C} {s : StoreHistory} {index : Index}

theorem latestIsTip_iff (h : BlockchainStore.Shows C s.store index) :
    s.LatestIsTip C ↔ index.LatestIsTip s.stored := by
  simp only [LatestIsTip, Index.LatestIsTip, h.getLatestBlock, h.chainHeight, h.latestBlockHash,
    Except.ok.injEq]

theorem keepsTip_iff (h : BlockchainStore.Shows C s.store index) (o : StoreCall) :
    s.KeepsTip C o ↔ index.KeepsTip o := by
  cases o with
  | storeBlock b =>
      simp only [KeepsTip, Index.KeepsTip, h.chainHeight, h.latestBlockHash]
  | pruneBefore cutoff =>
      simp only [KeepsTip, Index.KeepsTip, h.chainHeight, h.getBlockByHeight, Except.ok.injEq]

/-- **When the latest block is what the metadata says.**  In every state of a run from an
empty store, exactly if no call of the run stores a block of height zero while the chain has
that height, or a block of another hash at the height of the tip, or prunes the tip. -/
theorem tip_iff {calls : List StoreCall}
    (hcodec : C.Exact (calls.filterMap StoreCall.block?)) (now : Timestamp) :
    Runs.Visits (step C) (LatestIsTip C) (start now) calls ↔
      Runs.Along (step C) (KeepsTip C) (start now) calls := by
  refine Runs.visits_iff_along_of_forall
    (A := fun o => ∀ b, o.block? = some b → b ∈ calls.filterMap StoreCall.block?)
    (I := fun s => ∃ index, BlockchainStore.Shows C s.store index ∧ index.TipInv s.stored)
    ?_ ?_ ?_ (BlockchainStore.forall_mem_blocks calls)
    ⟨Index.empty, BlockchainStore.shows_newMemory now, Index.tipInv_empty⟩
  · rintro s ⟨index, hshows, hinv⟩
    exact (latestIsTip_iff hshows).mpr hinv.latestIsTip
  · rintro s o ho ⟨index, hshows, hinv⟩ hkeeps
    exact ⟨_, hshows.call hcodec ho, hinv.call ((keepsTip_iff hshows o).mp hkeeps)⟩
  · rintro s o ho ⟨index, hshows, hinv⟩ hlatest
    have hnext : BlockchainStore.Shows C (step C s o).store (index.call o) :=
      hshows.call hcodec ho
    exact (keepsTip_iff hshows o).mpr (hinv.keepsTip ((latestIsTip_iff hnext).mp hlatest))

end StoreHistory

/-! ## Three ways to a block -/

namespace Index

/-- An indexed transaction is in the block at its place, and a block is found under its hash
if it is found at its height. -/
structure Agrees (index : Index) : Prop where
  transaction : ∀ t loc, index.location t = some loc →
    ∃ b, index.byHeight loc.blockHeight = some b ∧ t ∈ b.txIds
  byHash : ∀ x b, index.byHash x = some b ↔ index.byHeight b.height = some b ∧ b.hash = x

/-- Blocks are found at their own heights. -/
def Placed (index : Index) : Prop := ∀ h b, index.byHeight h = some b → b.height = h

variable {index : Index}

theorem placed_empty : Index.empty.Placed := by
  intro h b hb
  cases hb

theorem agrees_empty : Index.empty.Agrees := by
  refine ⟨?_, ?_⟩
  · intro t loc hloc
    cases hloc
  · intro x b
    constructor
    · intro hb
      cases hb
    · rintro ⟨hb, -⟩
      cases hb

theorem Placed.call (h : index.Placed) (o : StoreCall) : (index.call o).Placed := by
  intro height x hx
  cases o with
  | storeBlock b =>
      rw [Index.call, Index.storeBlock] at hx
      simp only at hx
      split at hx
      · next heq =>
          cases hx
          exact heq.symm
      · exact h height x hx
  | pruneBefore cutoff => exact h height x (byHeight_pruneBefore.mp hx).1

theorem Agrees.pruneBefore (h : index.Agrees) (hplaced : index.Placed) (cutoff : Timestamp) :
    (index.pruneBefore cutoff).Agrees := by
  constructor
  · intro t loc hloc
    rw [Index.pruneBefore] at hloc
    simp only at hloc
    split at hloc
    · cases hloc
    · next hkept =>
        obtain ⟨b, hb, ht⟩ := h.transaction t loc hloc
        refine ⟨b, byHeight_pruneBefore.mpr ⟨hb, ?_⟩, ht⟩
        intro hstale
        exact hkept (Exists.intro _ ⟨b, hstale, ht⟩)
  · intro x b
    rw [byHeight_pruneBefore, Index.pruneBefore]
    simp only
    split
    · next hgone =>
        obtain ⟨height, y, hstale, hy⟩ := hgone
        constructor
        · intro hnone
          cases hnone
        · rintro ⟨⟨hb, hfresh⟩, hx⟩
          -- the stale block of this hash is found under it, so it is `b`
          have hyheight := hplaced height y hstale.2.2.1
          rw [← hyheight] at hstale
          have hby := (h.byHash x y).mpr ⟨hstale.2.2.1, hy⟩
          obtain rfl : y = b := Option.some.inj (hby.symm.trans ((h.byHash x b).mpr ⟨hb, hx⟩))
          exact absurd hstale hfresh
    · next hkept =>
        rw [h.byHash]
        constructor
        · rintro ⟨hb, hx⟩
          exact ⟨⟨hb, fun hstale => hkept (Exists.intro _ ⟨b, hstale, hx⟩)⟩, hx⟩
        · rintro ⟨⟨hb, -⟩, hx⟩
          exact ⟨hb, hx⟩

/-- What the block replaces is the same block by height and by hash, and has no other
transactions that are indexed. -/
structure Replaces (index : Index) (b : Block) : Prop where
  height : ∀ old, index.byHeight b.height = some old → old.hash = b.hash
  hash : ∀ old, index.byHash b.hash = some old → old.height = b.height
  transactions : ∀ t loc, index.location t = some loc → loc.blockHeight = b.height → t ∈ b.txIds

theorem Agrees.storeBlock (h : index.Agrees) {b : Block} (hreplaces : index.Replaces b) :
    (index.storeBlock b).Agrees := by
  constructor
  · intro t loc hloc
    rw [Index.storeBlock] at hloc ⊢
    simp only at hloc ⊢
    split at hloc
    · next ht =>
        cases hloc
        exact ⟨b, if_pos rfl, ht⟩
    · next ht =>
        have hne : loc.blockHeight ≠ b.height :=
          fun heq => ht (hreplaces.transactions t loc hloc heq)
        obtain ⟨x, hx, htx⟩ := h.transaction t loc hloc
        exact ⟨x, (if_neg hne).trans hx, htx⟩
  · intro x y
    rw [Index.storeBlock]
    simp only
    by_cases hheight : y.height = b.height
    · rw [if_pos hheight]
      by_cases hx : x = b.hash
      · rw [if_pos hx, hx, Option.some.injEq]
        exact ⟨fun heq => ⟨heq, by rw [heq]⟩, And.left⟩
      · rw [if_neg hx, h.byHash, hheight]
        constructor
        · rintro ⟨hy, hyx⟩
          exact absurd (hyx.symm.trans (hreplaces.height y hy)) hx
        · rintro ⟨hb, hyx⟩
          cases hb
          exact absurd hyx.symm hx
    · rw [if_neg hheight]
      by_cases hx : x = b.hash
      · rw [if_pos hx, hx, Option.some.injEq]
        constructor
        · rintro rfl
          exact absurd rfl hheight
        · intro hy
          exact absurd (hreplaces.hash y ((h.byHash _ y).mpr hy)) hheight
      · rw [if_neg hx]
        exact h.byHash x y

theorem location_storeBlock {b : Block} {t : TxId} (ht : t ∈ b.txIds) :
    (index.storeBlock b).location t = some ⟨b.height, b.hash⟩ := if_pos ht

theorem Agrees.replaces (h : index.Agrees) (hplaced : index.Placed) {b : Block}
    (hnext : (index.storeBlock b).Agrees) : index.Replaces b := by
  have hstored : (index.storeBlock b).byHeight b.height = some b := if_pos rfl
  refine ⟨?_, ?_, ?_⟩
  · intro old hold
    by_contra hne
    have hheight : old.height = b.height := hplaced _ old hold
    have hbefore : index.byHash old.hash = some old := by
      refine (h.byHash _ _).mpr ⟨?_, rfl⟩
      rw [hheight]
      exact hold
    obtain ⟨hafter, -⟩ := (hnext.byHash old.hash old).mp ((if_neg hne).trans hbefore)
    rw [hheight] at hafter
    obtain rfl : b = old := Option.some.inj (hstored.symm.trans hafter)
    exact hne rfl
  · intro old hold
    by_contra hne
    obtain ⟨hbefore, hhash⟩ := (h.byHash _ old).mp hold
    have hafter := (hnext.byHash b.hash old).mpr ⟨(if_neg hne).trans hbefore, hhash⟩
    obtain rfl : b = old := Option.some.inj ((if_pos rfl).symm.trans hafter)
    exact hne rfl
  · intro t loc hloc hheight
    by_contra ht
    obtain ⟨x, hx, htx⟩ := hnext.transaction t loc ((if_neg ht).trans hloc)
    rw [hheight] at hx
    obtain rfl : b = x := Option.some.inj (hstored.symm.trans hx)
    exact ht htx

theorem transaction_eq_some {t : TxId} {tx : Transaction} :
    index.transaction t = some tx ↔ ∃ loc b, index.location t = some loc ∧
      index.byHeight loc.blockHeight = some b ∧
      (b.transactions.find? fun x => decide (x.id = t)) = some tx := by
  rw [Index.transaction]
  simp only [bind, Option.bind_eq_some_iff, exists_and_left]

theorem exists_transaction_iff {t : TxId} :
    (∃ tx, index.transaction t = some tx ∧ tx.id = t) ↔
      ∃ loc b, index.location t = some loc ∧ index.byHeight loc.blockHeight = some b ∧
        t ∈ b.txIds := by
  simp only [transaction_eq_some]
  constructor
  · rintro ⟨tx, ⟨loc, b, hloc, hb, hfind⟩, hid⟩
    exact ⟨loc, b, hloc, hb, hid ▸ List.mem_map_of_mem (List.mem_of_find?_eq_some hfind)⟩
  · rintro ⟨loc, b, hloc, hb, ht⟩
    obtain ⟨tx, htx, rfl⟩ := List.mem_map.mp ht
    cases hfind : b.transactions.find? fun x => decide (x.id = tx.id) with
    | none => exact absurd (decide_eq_true rfl) (List.find?_eq_none.mp hfind tx htx)
    | some found =>
        have hid := List.find?_some hfind
        exact ⟨found, ⟨loc, b, hloc, hb, hfind⟩, of_decide_eq_true hid⟩

end Index

namespace BlockchainStore
variable (C : IndexCodec)

/-- A transaction is reported as present exactly if it is found, and a block is found under
its hash exactly if it is found at its height. -/
def LookupsAgree (store : BlockchainStore) : Prop :=
  (∀ t, store.containsTransaction t = .ok true ↔
    ∃ tx, store.getTransaction C t = .ok (some tx) ∧ tx.id = t) ∧
  ∀ x b, store.getBlockByHash C x = .ok (some b) ↔
    store.getBlockByHeight C.toStoreCodec b.height = .ok (some b) ∧ b.hash = x

/-- The place that is noted for a transaction. -/
def Locates (store : BlockchainStore) (t : TxId) (loc : TxLocation) : Prop :=
  ∃ data, store.db.lookup (txKey t) = some data ∧ C.deserializeLocation data = .ok loc

/-- A block that is stored has the hash of the block at its height and the height of the
block under its hash, if there are such, and has every transaction whose place is noted as
that height.  Pruning is not restricted. -/
def ReplacesSame (store : BlockchainStore) : StoreCall → Prop
  | .storeBlock b =>
      (∀ old, store.getBlockByHeight C.toStoreCodec b.height = .ok (some old) →
        old.hash = b.hash) ∧
      (∀ old, store.getBlockByHash C b.hash = .ok (some old) → old.height = b.height) ∧
      ∀ t loc, Locates C store t loc → loc.blockHeight = b.height → t ∈ b.txIds
  | .pruneBefore _ => True

variable {C} {store : BlockchainStore} {index : Index}

theorem Shows.locates_iff (h : Shows C store index) {t : TxId} {loc : TxLocation} :
    Locates C store t loc ↔ index.location t = some loc := by
  rcases map_eq_map_ok (h.location t) with ⟨hcell, hfound⟩ | ⟨data, x, hcell, hread, hfound⟩
  · rw [hfound]
    constructor
    · rintro ⟨data, hdata, -⟩
      cases hcell.symm.trans hdata
    · intro hnone
      cases hnone
  · rw [hfound, Option.some.injEq]
    constructor
    · rintro ⟨data', hdata', hread'⟩
      obtain rfl : data = data' := Option.some.inj (hcell.symm.trans hdata')
      exact Except.ok.inj (hread.symm.trans hread')
    · rintro rfl
      exact ⟨data, hcell, hread⟩

theorem Shows.lookupsAgree_iff (h : Shows C store index) : LookupsAgree C store ↔ index.Agrees := by
  simp only [LookupsAgree, h.containsTransaction, h.getTransaction, h.getBlockByHash,
    h.getBlockByHeight, Except.ok.injEq, Index.exists_transaction_iff]
  constructor
  · rintro ⟨htx, hhash⟩
    refine ⟨?_, hhash⟩
    intro t loc hloc
    obtain ⟨loc', b, hloc', hb, ht⟩ := (htx t).mp (Option.isSome_iff_exists.mpr ⟨loc, hloc⟩)
    obtain rfl : loc = loc' := Option.some.inj (hloc.symm.trans hloc')
    exact ⟨b, hb, ht⟩
  · intro hagrees
    refine ⟨?_, hagrees.byHash⟩
    intro t
    constructor
    · intro hsome
      obtain ⟨loc, hloc⟩ := Option.isSome_iff_exists.mp hsome
      obtain ⟨b, hb, ht⟩ := hagrees.transaction t loc hloc
      exact ⟨loc, b, hloc, hb, ht⟩
    · rintro ⟨loc, b, hloc, -⟩
      exact Option.isSome_iff_exists.mpr ⟨loc, hloc⟩

theorem Shows.replacesSame_iff (h : Shows C store index) (b : Block) :
    ReplacesSame C store (.storeBlock b) ↔ index.Replaces b := by
  simp only [ReplacesSame, h.getBlockByHeight, h.getBlockByHash, h.locates_iff, Except.ok.injEq]
  exact ⟨fun ⟨hheight, hhash, htxs⟩ => ⟨hheight, hhash, htxs⟩,
    fun hreplaces => ⟨hreplaces.height, hreplaces.hash, hreplaces.transactions⟩⟩

/-- **When the lookups agree with each other.**  In every state of a run from an empty store,
exactly if no call of the run stores a block over a different one. -/
theorem lookups_agree_iff {calls : List StoreCall}
    (hcodec : C.Exact (calls.filterMap StoreCall.block?)) (now : Timestamp) :
    Runs.Visits (call C) (LookupsAgree C) (newMemory now) calls ↔
      Runs.Along (call C) (ReplacesSame C) (newMemory now) calls := by
  refine Runs.visits_iff_along_of_forall
    (A := fun o => ∀ b, o.block? = some b → b ∈ calls.filterMap StoreCall.block?)
    (I := fun store => ∃ index, Shows C store index ∧ index.Placed ∧ index.Agrees)
    ?_ ?_ ?_ (forall_mem_blocks calls)
    ⟨Index.empty, shows_newMemory now, Index.placed_empty, Index.agrees_empty⟩
  · rintro store ⟨index, hshows, -, hagrees⟩
    exact hshows.lookupsAgree_iff.mpr hagrees
  · rintro store o ho ⟨index, hshows, hplaced, hagrees⟩ hsame
    refine ⟨_, hshows.call hcodec ho, hplaced.call o, ?_⟩
    cases o with
    | storeBlock b => exact hagrees.storeBlock ((hshows.replacesSame_iff b).mp hsame)
    | pruneBefore cutoff => exact hagrees.pruneBefore hplaced cutoff
  · rintro store o ho ⟨index, hshows, hplaced, hagrees⟩ hnext
    cases o with
    | storeBlock b =>
        refine (hshows.replacesSame_iff b).mpr (hagrees.replaces hplaced ?_)
        exact (hshows.call hcodec ho).lookupsAgree_iff.mp hnext
    | pruneBefore cutoff => trivial

end BlockchainStore

/-! ## Blocks to store -/

namespace Reference

/-- How `bincode` writes a location. -/
def locationFormat : Format TxLocation :=
  (Format.u64.pair (Format.array 32)).comap (fun loc => (loc.blockHeight, loc.blockHash.bytes))
    (fun (height, hash) => some ⟨height, ⟨hash⟩⟩) (fun _ => rfl)

/-- The serializer of the program, with a reader that knows the given blocks only. -/
def indexCodec (blocks : List Block) : IndexCodec :=
  { storeCodec blocks with deserializeLocation := locationFormat.decode }

theorem write_locationFormat (loc : TxLocation) :
    locationFormat.write loc = encodeU64 loc.blockHeight ++ loc.blockHash.asBytes := by
  show Format.u64.write loc.blockHeight ++ _ = _
  rw [Format.write_u64]
  rfl

theorem exact_indexCodec {blocks : List Block}
    (h : ∀ b ∈ blocks, ∀ x ∈ blocks, encodeBlock x = encodeBlock b → x = b) :
    (indexCodec blocks).Exact blocks := by
  refine { toExact := exact_storeCodec_of_injOn h, readLocation := ?_ }
  intro loc data hdata
  have hwrite := (write_locationFormat loc).trans (Except.ok.inj hdata)
  show locationFormat.decode data = .ok loc
  rw [← hwrite]
  exact locationFormat.decode_write loc

theorem exact_indexCodec_singleton (b : Block) : (indexCodec [b]).Exact [b] := by
  refine exact_indexCodec ?_
  intro x hx y hy _
  rw [List.mem_singleton.mp hx, List.mem_singleton.mp hy]

/-- Another block at the height of `voteBlock`, without transactions. -/
def emptyBlock : Block := Block.new primitives 1001 1 BlockHash.zero [] key

theorem transactions_of_encodeBlock {b b' : Block} (h : encodeBlock b = encodeBlock b') :
    Codec.leBytes 8 b.transactions.length = Codec.leBytes 8 b'.transactions.length := by
  have hheader : ∀ x : BlockHeader, (encodeHeader x).length = 148 := by
    intro x
    simp only [encodeHeader, encodeU64, List.length_append, Codec.length_leBytes,
      length_blockHash_asBytes, PublicKey.asBytes, List.Vector.toList_length]
  have hrest := (List.append_inj h ((hheader _).trans (hheader _).symm)).2
  simp only [encodeSeq, List.append_assoc] at hrest
  exact (List.append_inj hrest ((Codec.length_leBytes 8 _).trans (Codec.length_leBytes 8 _).symm)).1

theorem exact_competing : (indexCodec [voteBlock, emptyBlock]).Exact [voteBlock, emptyBlock] := by
  refine exact_indexCodec ?_
  intro b hb x hx heq
  have hcount := transactions_of_encodeBlock heq
  have hone : voteBlock.transactions.length = 1 := rfl
  have hnone : emptyBlock.transactions.length = 0 := rfl
  simp only [List.mem_cons, List.not_mem_nil, or_false] at hb hx
  rcases hb with rfl | rfl
  · rcases hx with rfl | rfl
    · rfl
    · rw [hone, hnone] at hcount
      cases hcount
  · rcases hx with rfl | rfl
    · rw [hone, hnone] at hcount
      cases hcount
    · rfl

end Reference

namespace StoreHistory
open Reference (indexCodec voteBlock genesisBlock)

/-- A block above an empty chain, and a cutoff before it. -/
theorem tip_iff_voteBlock :
    Runs.Visits (step (indexCodec [voteBlock])) (LatestIsTip (indexCodec [voteBlock])) (start 5000)
      [.storeBlock voteBlock, .pruneBefore 500] := by
  have hcodec := Reference.exact_indexCodec_singleton voteBlock
  have hshows := BlockchainStore.shows_newMemory (C := indexCodec [voteBlock]) 5000
  refine (@tip_iff _ [.storeBlock voteBlock, .pruneBefore 500] hcodec 5000).mpr
    ⟨?_, ?_, trivial⟩
  · refine (keepsTip_iff (s := start 5000) hshows _).mpr ⟨?_, ?_⟩
    · rintro ⟨-, hzero⟩
      cases hzero
    · intro hzero
      cases hzero
  · have hnext : BlockchainStore.Shows (indexCodec [voteBlock])
        (step (indexCodec [voteBlock]) (start 5000) (.storeBlock voteBlock)).store
        (Index.empty.storeBlock voteBlock) :=
      hshows.call (o := .storeBlock voteBlock) hcodec fun b hb =>
        Option.some.inj hb ▸ List.mem_singleton_self _
    refine (keepsTip_iff hnext _).mpr ?_
    intro b hb
    obtain rfl : voteBlock = b := Option.some.inj hb
    decide

/-- A genesis block alone is not found as the latest block. -/
theorem genesis_not_latest :
    (indexCodec [genesisBlock]).Exact [genesisBlock] ∧
    ¬Runs.Visits (step (indexCodec [genesisBlock])) (LatestIsTip (indexCodec [genesisBlock]))
      (start 5000) [.storeBlock genesisBlock] := by
  have hcodec := Reference.exact_indexCodec_singleton genesisBlock
  refine ⟨hcodec, ?_⟩
  rintro ⟨-, hlatest⟩
  have hshows : BlockchainStore.Shows (indexCodec [genesisBlock])
      (step (indexCodec [genesisBlock]) (start 5000) (.storeBlock genesisBlock)).store
      (Index.empty.storeBlock genesisBlock) :=
    (BlockchainStore.shows_newMemory 5000).call (o := .storeBlock genesisBlock) hcodec fun b hb =>
      Option.some.inj hb ▸ List.mem_singleton_self _
  have hkeeps : Index.empty.KeepsTip (.storeBlock genesisBlock) :=
    Index.tipInv_empty.keepsTip ((latestIsTip_iff hshows).mp hlatest)
  exact hkeeps.1 ⟨rfl, rfl⟩

end StoreHistory

namespace BlockchainStore
open Reference (indexCodec voteBlock emptyBlock)

/-- A block is stored and pruned again. -/
theorem lookups_agree_iff_voteBlock :
    Runs.Visits (call (indexCodec [voteBlock])) (LookupsAgree (indexCodec [voteBlock]))
      (newMemory 5000) [.storeBlock voteBlock, .pruneBefore 2000] := by
  refine (@lookups_agree_iff _ [.storeBlock voteBlock, .pruneBefore 2000]
    (Reference.exact_indexCodec_singleton voteBlock) 5000).mpr ⟨?_, trivial, trivial⟩
  refine ((shows_newMemory 5000).replacesSame_iff voteBlock).mpr ⟨?_, ?_, ?_⟩
  · intro old hold
    cases hold
  · intro old hold
    cases hold
  · intro t loc hloc
    cases hloc

/-- A second block at the height of the first takes its place there, but the transaction of
the first is still noted. -/
theorem competing_blocks_disagree :
    (indexCodec [voteBlock, emptyBlock]).Exact [voteBlock, emptyBlock] ∧
    ¬Runs.Visits (call (indexCodec [voteBlock, emptyBlock]))
      (LookupsAgree (indexCodec [voteBlock, emptyBlock])) (newMemory 5000)
      [.storeBlock voteBlock, .storeBlock emptyBlock] := by
  have hcodec := Reference.exact_competing
  refine ⟨hcodec, ?_⟩
  rintro ⟨-, hfirst, hsecond⟩
  have hmem : ∀ o ∈ [StoreCall.storeBlock voteBlock, .storeBlock emptyBlock],
      ∀ b, o.block? = some b → b ∈ [voteBlock, emptyBlock] :=
    forall_mem_blocks [.storeBlock voteBlock, .storeBlock emptyBlock]
  have hshows := (shows_newMemory 5000).call hcodec (hmem _ List.mem_cons_self)
  have hagrees := hshows.lookupsAgree_iff.mp hfirst
  have hnext := (hshows.call hcodec
    (hmem _ (List.mem_cons_of_mem _ List.mem_cons_self))).lookupsAgree_iff.mp hsecond
  have hreplaces := hagrees.replaces (Index.placed_empty.call _) hnext
  have hvote : (Reference.vote 0).id ∈ voteBlock.txIds := by
    have htxs : voteBlock.transactions = [Reference.vote 0] := rfl
    rw [Block.txIds, htxs, List.map_singleton]
    exact List.mem_singleton_self _
  have hlocated : (Index.empty.call (.storeBlock voteBlock)).location (Reference.vote 0).id =
      some ⟨voteBlock.height, voteBlock.hash⟩ := Index.location_storeBlock hvote
  have hmissing := hreplaces.transactions _ _ hlocated rfl
  cases hmissing

end BlockchainStore

end VotingChain
