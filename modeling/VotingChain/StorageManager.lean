/-
# `VotingChain.StorageManager` — pruning by age

The model of `StorageManager::prune` of `storage/src/lib.rs`, over the store of blocks.  The
blocks older than the retention period are to go: their timestamp is before the current time
minus so many days.  Both the number of seconds and the difference are words, and nothing is
checked, so a period that is longer than the current time, or than a word can say, leads to
another cutoff.  What `prune` deletes is old if the period is not longer than the current
time, or if no block happens to be before that other cutoff (`deletesOnlyOld_iff`).
-/
import VotingChain.StoreRuns

namespace VotingChain

/-- Storage configuration: what is read by `prune`. -/
structure StorageConfig where
  /-- Enable pruning. -/
  enablePruning : Bool
  /-- Pruning retention (days). -/
  pruningRetentionDays : UInt64
  deriving DecidableEq

/-- `StorageConfig::default`. -/
def StorageConfig.default : StorageConfig := ⟨false, 365⟩

structure PruneStats where
  prunedBlocks : UInt64
  prunedTransactions : UInt64
  prunedState : UInt64
  bytesFreed : UInt64
  deriving DecidableEq

/-- Storage manager that coordinates all storage components. -/
structure StorageManager where
  config : StorageConfig
  blockchainStore : BlockchainStore

namespace StorageManager
variable (C : IndexCodec)

/-- The cutoff of `prune` at the time `now`. -/
def cutoff (config : StorageConfig) (now : Timestamp) : Timestamp :=
  let retentionSeconds := config.pruningRetentionDays * 24 * 3600
  now - retentionSeconds

/-- Prune old data based on configuration, at the time `now`. -/
def prune (now : Timestamp) : Exec StorageManager PruneStats := do
  let m ← get
  Exec.lift (ensure m.config.enablePruning (.invalidInput "Pruning is not enabled"))
  let prunedBlocks ← Exec.on m.blockchainStore (fun store m => { m with blockchainStore := store })
    (BlockchainStore.pruneBefore C (cutoff m.config now))
  pure ⟨UInt64.ofNat prunedBlocks, 0, 0, 0⟩

/-! ## What is to be shown -/

/-- The seconds of a day. -/
def daySeconds : Nat := 24 * 3600

/-- The block is older than the current time minus the retention period. -/
def Old (config : StorageConfig) (now : Timestamp) (b : Block) : Prop :=
  b.timestamp.toNat + config.pruningRetentionDays.toNat * daySeconds < now.toNat

/-- A block that is found before and not afterwards is old; and a hash that leads to a block
no longer is that of an old one. -/
structure DeletesOnlyOld (config : StorageConfig) (now : Timestamp)
    (before after : BlockchainStore) : Prop where
  byHeight : ∀ h b, before.getBlockByHeight C.toStoreCodec h = .ok (some b) →
    after.getBlockByHeight C.toStoreCodec h ≠ .ok (some b) → Old config now b
  byHash : ∀ x b, before.getBlockByHash C x = .ok (some b) →
    after.getBlockByHash C x ≠ .ok (some b) →
    ∃ h b', before.getBlockByHeight C.toStoreCodec h = .ok (some b') ∧ b'.hash = x ∧
      Old config now b'

/-- The current time minus the retention period, modulo `2 ^ 64`. -/
def wrappedCutoff (config : StorageConfig) (now : Timestamp) : Nat :=
  (2 ^ 64 - config.pruningRetentionDays.toNat * daySeconds % 2 ^ 64 + now.toNat) % 2 ^ 64

/-- The retention period is not longer than the current time, or no block above the genesis
block has a timestamp before the wrapped difference of the two. -/
def PrunesSafely (m : StorageManager) (now : Timestamp) : Prop :=
  m.config.pruningRetentionDays.toNat * daySeconds ≤ now.toNat ∨
  ∀ h b, 1 ≤ h → h ≤ m.blockchainStore.metadata.chainHeight →
    m.blockchainStore.getBlockByHeight C.toStoreCodec h = .ok (some b) →
    wrappedCutoff m.config now ≤ b.timestamp.toNat

/-! ## The cutoff -/

theorem toNat_cutoff (config : StorageConfig) (now : Timestamp) :
    (cutoff config now).toNat = wrappedCutoff config now := by
  have hseconds : (config.pruningRetentionDays * 24 * 3600).toNat =
      config.pruningRetentionDays.toNat * daySeconds % 2 ^ 64 := by
    rw [UInt64.toNat_mul, UInt64.toNat_mul, Nat.mod_mul_mod, Nat.mul_assoc]
    rfl
  rw [cutoff, UInt64.toNat_sub, hseconds, wrappedCutoff]

theorem wrappedCutoff_of_le {config : StorageConfig} {now : Timestamp}
    (h : config.pruningRetentionDays.toNat * daySeconds ≤ now.toNat) :
    wrappedCutoff config now = now.toNat - config.pruningRetentionDays.toNat * daySeconds := by
  have hnow := now.toNat_lt
  rw [wrappedCutoff, Nat.mod_eq_of_lt (a := _ * daySeconds) (by omega)]
  omega

theorem lt_cutoff_iff {config : StorageConfig} {now : Timestamp} {b : Block} :
    b.timestamp < cutoff config now ↔ b.timestamp.toNat < wrappedCutoff config now := by
  rw [UInt64.lt_iff_toNat_lt, toNat_cutoff]

/-! ## What is deleted -/

variable {C}

theorem next_prune {m : StorageManager} {index : Index}
    (hshows : BlockchainStore.Shows C m.blockchainStore index)
    (h : m.config.enablePruning = true) (now : Timestamp) :
    BlockchainStore.Shows C ((prune C now).next m).blockchainStore
      (index.pruneBefore (cutoff m.config now)) := by
  obtain ⟨n, store, hexec, hshows'⟩ := hshows.pruneBefore (cutoff m.config now)
  have hprune : (prune C now).exec m =
      (.ok ⟨UInt64.ofNat n, 0, 0, 0⟩, { m with blockchainStore := store }) := by
    rw [prune, Exec.exec_get_bind, Exec.exec_ensure_bind h, Exec.exec_on_bind, hexec]
    rfl
  rw [Exec.next_of_ok hprune]
  exact hshows'

/-- **Pruning by age.**  With pruning enabled, whatever the retention period, the time and the
stored blocks: `prune` deletes old blocks only, if and only if the period is not longer than
the current time or no block is before the wrapped cutoff. -/
theorem deletesOnlyOld_iff (C : IndexCodec) (m : StorageManager) (index : Index)
    (hshows : BlockchainStore.Shows C m.blockchainStore index)
    (henabled : m.config.enablePruning = true) (now : Timestamp) :
    DeletesOnlyOld C m.config now m.blockchainStore ((prune C now).next m).blockchainStore ↔
      PrunesSafely C m now := by
  have hafter := next_prune hshows henabled now
  have hstale : ∀ {h : BlockHeight} {b : Block}, index.Stale (cutoff m.config now) h b →
      m.blockchainStore.getBlockByHeight C.toStoreCodec h = .ok (some b) := by
    rintro h b ⟨-, -, hfound, -⟩
    rw [hshows.getBlockByHeight, hfound]
  constructor
  · intro hold
    by_cases hfits : m.config.pruningRetentionDays.toNat * daySeconds ≤ now.toNat
    · exact Or.inl hfits
    · refine Or.inr ?_
      intro h b hone hheight hfound
      by_contra hlt
      -- the block goes, and no block is older than a period that is longer than the time
      have hbefore : b.timestamp < cutoff m.config now := lt_cutoff_iff.mpr (Nat.lt_of_not_le hlt)
      rw [hshows.getBlockByHeight] at hfound
      have hindex : index.byHeight h = some b := Except.ok.inj hfound
      have hprunes : index.Stale (cutoff m.config now) h b :=
        ⟨hone, hshows.chainHeight ▸ hheight, hindex, hbefore⟩
      have hgone : ((prune C now).next m).blockchainStore.getBlockByHeight C.toStoreCodec h =
          .ok none := by
        rw [hafter.getBlockByHeight, Index.pruneBefore]
        simp only
        rw [if_pos ⟨b, hprunes⟩]
      have hage := hold.byHeight h b (hstale hprunes) (by rw [hgone]; exact fun heq => by cases heq)
      rw [Old] at hage
      omega
  · intro hsafe
    have hage : ∀ {h : BlockHeight} {b : Block}, index.Stale (cutoff m.config now) h b →
        Old m.config now b := by
      intro h b hprunes
      have hlt := lt_cutoff_iff.mp hprunes.2.2.2
      rcases hsafe with hfits | hnone
      · rw [wrappedCutoff_of_le hfits] at hlt
        rw [Old]
        omega
      · have hle := hnone h b hprunes.1 (hshows.chainHeight ▸ hprunes.2.1) (hstale hprunes)
        omega
    constructor
    · intro h b hfound hgone
      rw [hshows.getBlockByHeight] at hfound
      rw [hafter.getBlockByHeight, Index.pruneBefore] at hgone
      simp only at hgone
      split at hgone
      · next hprunes =>
          obtain ⟨b', hprunes⟩ := hprunes
          have hsame : some b' = some b := hprunes.2.2.1.symm.trans (Except.ok.inj hfound)
          cases hsame
          exact hage hprunes
      · exact absurd hfound hgone
    · intro x b hfound hgone
      rw [hshows.getBlockByHash] at hfound
      rw [hafter.getBlockByHash, Index.pruneBefore] at hgone
      simp only at hgone
      split at hgone
      · next hprunes =>
          obtain ⟨h, b', hprunes, hhash⟩ := hprunes
          exact ⟨h, b', hstale hprunes, hhash, hage hprunes⟩
      · exact absurd hfound hgone

/-! ## A store to try things on -/

section
open Reference (indexCodec voteBlock)

/-- A store with one block of height 1, made at the time 1000. -/
def oneBlock (config : StorageConfig) : StorageManager where
  config := config
  blockchainStore :=
    (BlockchainStore.newMemory 5000).call (indexCodec [voteBlock]) (.storeBlock voteBlock)

theorem shows_oneBlock (config : StorageConfig) :
    BlockchainStore.Shows (indexCodec [voteBlock]) (oneBlock config).blockchainStore
      (Index.empty.storeBlock voteBlock) :=
  (BlockchainStore.shows_newMemory 5000).call (o := .storeBlock voteBlock)
    (Reference.exact_indexCodec_singleton voteBlock) fun _ hb =>
      Option.some.inj hb ▸ List.mem_singleton_self _

/-- A day is kept, and the block is older. -/
theorem deletesOnlyOld_oneBlock :
    DeletesOnlyOld (indexCodec [voteBlock]) ⟨true, 1⟩ 100000 (oneBlock ⟨true, 1⟩).blockchainStore
      ((prune (indexCodec [voteBlock]) 100000).next (oneBlock ⟨true, 1⟩)).blockchainStore := by
  refine (deletesOnlyOld_iff (indexCodec [voteBlock]) (oneBlock ⟨true, 1⟩) _
    (shows_oneBlock ⟨true, 1⟩) rfl 100000).mpr (Or.inl ?_)
  decide

/-- Everything of 20400 days is to be kept, which is longer than the clock runs, and the block
is gone. -/
theorem not_deletesOnlyOld_oneBlock :
    ¬DeletesOnlyOld (indexCodec [voteBlock]) ⟨true, 20400⟩ 1760000000
      (oneBlock ⟨true, 20400⟩).blockchainStore
      ((prune (indexCodec [voteBlock]) 1760000000).next
        (oneBlock ⟨true, 20400⟩)).blockchainStore := by
  have hshows := shows_oneBlock ⟨true, 20400⟩
  have hafter := next_prune hshows rfl 1760000000
  have hfound : (Index.empty.storeBlock voteBlock).byHeight 1 = some voteBlock := rfl
  have hprunes : (Index.empty.storeBlock voteBlock).Stale
      (cutoff ⟨true, 20400⟩ 1760000000) 1 voteBlock :=
    ⟨by decide, by decide, hfound, by decide⟩
  intro hold
  have hage := hold.byHeight 1 voteBlock (by rw [hshows.getBlockByHeight, hfound]) ?_
  · have hlt : 1000 + 20400 * daySeconds < 1760000000 := hage
    exact absurd hlt (by decide)
  · rw [hafter.getBlockByHeight, Index.pruneBefore]
    simp only
    rw [if_pos ⟨voteBlock, hprunes⟩]
    exact fun heq => by cases heq

end

end StorageManager

end VotingChain
