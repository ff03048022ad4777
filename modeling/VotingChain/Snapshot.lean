/-
# `VotingChain.Snapshot` — what a snapshot holds, written and read back

The model of `write_snapshot_data` and `read_snapshot_data` of `storage/src/snapshot.rs`.
A snapshot is

    version ‖ block_count ‖ chunk of block 0 ‖ chunk of block 1 ‖ … ‖ chunk of the state
      4          8

with a chunk being a byte string behind its length, in four bytes.  The length is cast to
those four bytes and not checked.  What is read is what was written as long as it fits
(`readSnapshotData_writeSnapshotData`); a string of `2 ^ 32` bytes or more is written whole,
behind a length that is not its own.

**The provider** of the data and the **restorer** that takes them are traits.  Each call of
the provider returns something, and does not change it; a method of the restorer is a
computation on whatever object it is.  **The file** takes what is written to it or reports an
error.
-/
import Mathlib.Algebra.GroupWithZero.Nat
import VotingChain.Lib.Format
import VotingChain.Lib.Runs
import VotingChain.Common

namespace VotingChain

/-- Trait for providing data to be included in a snapshot: what its methods return. -/
structure SnapshotDataProvider where
  getBlocksForSnapshot : Result (Vec Bytes)
  getTransactionCountForBlock : Bytes → Result UInt64
  getStateForSnapshot : Result Bytes

/-- Trait for restoring data from a snapshot. -/
structure SnapshotDataRestorer (ρ : Type) where
  restoreBlock : Bytes → Exec ρ Unit
  restoreState : Bytes → Exec ρ Unit

/-- How a file answers a write, by what it holds: it takes the data, or only so many bytes of
them and reports an error. -/
abbrev Disk := Bytes → Bytes → Option (Nat × String)

/-- A snapshot that is read: the bytes that are left, and the object of the restorer. -/
structure Restoring (ρ : Type) where
  unread : Bytes
  restorer : ρ

structure SnapshotManager where
  version : UInt32

namespace SnapshotManager

/-- Current snapshot format version. -/
def currentVersion : UInt32 := 1

def new : SnapshotManager := ⟨currentVersion⟩

/-! ## Writing -/

/-- `u32::to_le_bytes`. -/
def u32Bytes (n : UInt32) : Bytes := Codec.leBytes 4 n.toNat

section Writing
variable (disk : Disk) (P : SnapshotDataProvider)

/-- `write_all`. -/
def writeAll (data : Bytes) : Exec Bytes Unit := do
  let written ← get
  match disk written data with
  | none => modify (· ++ data)
  | some (taken, e) => do
      modify (· ++ data.take taken)
      Exec.lift (fail (.ioError e))

/-- The length of the data as a `u32`, and the data. -/
def writeChunk (data : Bytes) : Exec Bytes Unit := do
  writeAll disk (u32Bytes (UInt32.ofNat data.length))
  writeAll disk data

/-- The loop over the blocks, with `total_tx_count`. -/
def writeBlocks : List Bytes → UInt64 → Exec Bytes UInt64
  | [], totalTxCount => pure totalTxCount
  | blockData :: blocks, totalTxCount => do
      writeChunk disk blockData
      let txCount ← Exec.lift (P.getTransactionCountForBlock blockData)
      writeBlocks blocks (totalTxCount + txCount)

/-- Write snapshot data to file. -/
def writeSnapshotData (m : SnapshotManager) : Exec Bytes (UInt64 × UInt64) := do
  writeAll disk (u32Bytes m.version)
  let blocks ← Exec.lift P.getBlocksForSnapshot
  let blockCount := UInt64.ofNat blocks.val.length
  writeAll disk (u64Bytes blockCount)
  let totalTxCount ← writeBlocks disk P blocks.val 0
  let stateData ← Exec.lift P.getStateForSnapshot
  writeChunk disk stateData
  pure (blockCount, totalTxCount)

end Writing

/-! ## Reading -/

section Reading
variable {ρ : Type} (R : SnapshotDataRestorer ρ)

/-- `read_exact` of so many bytes. -/
def readExact (n : Nat) : Exec (Restoring ρ) Bytes := do
  let s ← get
  if n ≤ s.unread.length then
    modify fun s => { s with unread := s.unread.drop n }
    pure (s.unread.take n)
  else
    modify fun s => { s with unread := [] }
    Exec.lift (fail (.ioError "failed to fill whole buffer"))

/-- A length, as a `u32`, and so many bytes. -/
def readChunk : Exec (Restoring ρ) Bytes := do
  let lenBytes ← readExact 4
  let len := UInt32.ofNat (Codec.ofLeBytes lenBytes)
  readExact len.toNat

/-- A method of the restorer. -/
def restore (method : Exec ρ Unit) : Exec (Restoring ρ) Unit := do
  let s ← get
  Exec.on s.restorer (fun r s => { s with restorer := r }) method

/-- The loop `for _ in 0..block_count`. -/
def readBlocks : Nat → Exec (Restoring ρ) Unit
  | 0 => pure ()
  | n + 1 => do
      let blockData ← readChunk
      restore (R.restoreBlock blockData)
      readBlocks n

/-- Read snapshot data from file. -/
def readSnapshotData (m : SnapshotManager) : Exec (Restoring ρ) Unit := do
  let versionBytes ← readExact 4
  let version := UInt32.ofNat (Codec.ofLeBytes versionBytes)
  Exec.lift (ensure (decide (version = m.version))
    (.storageError ("Snapshot version mismatch: expected " ++ toString m.version ++ ", got " ++
      toString version)))
  let blockCountBytes ← readExact 8
  let blockCount := UInt64.ofNat (Codec.ofLeBytes blockCountBytes)
  readBlocks R blockCount.toNat
  let stateData ← readChunk
  restore (R.restoreState stateData)

end Reading

/-! ## What is to be delivered -/

/-- What the calls of the provider return: these blocks, so many transactions in each of
them, and this state. -/
structure Provides (P : SnapshotDataProvider) (blocks : Vec Bytes) (txCounts : List UInt64)
    (state : Bytes) : Prop where
  blocks_eq : P.getBlocksForSnapshot = .ok blocks
  txCounts_eq : List.Forall₂ (fun block n => P.getTransactionCountForBlock block = .ok n)
    blocks.val txCounts
  state_eq : P.getStateForSnapshot = .ok state

/-- A restorer that never fails. -/
def NeverFails {ρ : Type} (R : SnapshotDataRestorer ρ) : Prop :=
  (∀ data r, ((R.restoreBlock data).exec r).1 = .ok ()) ∧
  ∀ data r, ((R.restoreState data).exec r).1 = .ok ()

/-- The object of the restorer after exactly these blocks, in order, and then the state. -/
def delivered {ρ : Type} (R : SnapshotDataRestorer ρ) (blocks : List Bytes) (state : Bytes)
    (r : ρ) : ρ :=
  (R.restoreState state).next (Runs.run (fun r block => (R.restoreBlock block).next r) r blocks)

/-- From these bytes every restorer that never fails gets exactly these blocks, in order, and
then exactly this state. -/
def Restores (m : SnapshotManager) (written : Bytes) (blocks : List Bytes) (state : Bytes) :
    Prop :=
  ∀ (ρ : Type) (R : SnapshotDataRestorer ρ), NeverFails R → ∀ r : ρ,
    ∃ unread, (m.readSnapshotData R).exec ⟨written, r⟩ =
      (.ok (), ⟨unread, delivered R blocks state r⟩)

/-- The length of the data fits into a `u32`. -/
def Fits (data : Bytes) : Prop := data.length < 2 ^ 32

/-- The bytes of the data in a snapshot. -/
def chunk (data : Bytes) : Bytes := u32Bytes (UInt32.ofNat data.length) ++ data

/-- The bytes of a snapshot. -/
def snapshotBytes (m : SnapshotManager) (blocks : List Bytes) (state : Bytes) : Bytes :=
  u32Bytes m.version ++ u64Bytes (UInt64.ofNat blocks.length) ++ blocks.flatMap chunk ++ chunk state

/-! ## What is written -/

theorem exec_lift_eq_ok {σ α : Type} {r : Result α} {s s' : σ} {a : α} :
    (Exec.lift r).exec s = (.ok a, s') ↔ r = .ok a ∧ s = s' := by
  rw [Exec.exec_lift, Prod.mk.injEq]

section Written
variable {disk : Disk} {P : SnapshotDataProvider}

theorem written_of_writeAll {data written written' : Bytes}
    (h : (writeAll disk data).exec written = (.ok (), written')) : written' = written ++ data := by
  rw [writeAll, Exec.exec_get_bind] at h
  split at h
  · cases h
    rfl
  · rw [Exec.exec_modify_bind, Exec.exec_lift] at h
    cases h

theorem written_of_writeChunk {data written written' : Bytes}
    (h : (writeChunk disk data).exec written = (.ok (), written')) :
    written' = written ++ chunk data := by
  obtain ⟨⟨⟩, t, hlength, hdata⟩ := Exec.exec_bind_eq_ok.mp h
  rw [written_of_writeAll hdata, written_of_writeAll hlength, chunk, List.append_assoc]

/-- The number of transactions, counted without wrapping. -/
def totalTxs (txCounts : List UInt64) : Nat := (txCounts.map UInt64.toNat).sum

theorem written_of_writeBlocks {blocks : List Bytes} {total total' : UInt64}
    {written written' : Bytes}
    (h : (writeBlocks disk P blocks total).exec written = (.ok total', written')) :
    written' = written ++ blocks.flatMap chunk ∧
    ∃ txCounts, List.Forall₂ (fun block n => P.getTransactionCountForBlock block = .ok n)
        blocks txCounts ∧
      total' = txCounts.foldl (· + ·) total := by
  induction blocks generalizing total written with
  | nil =>
      cases h
      exact ⟨(List.append_nil _).symm, [], .nil, rfl⟩
  | cons block blocks ih =>
      obtain ⟨⟨⟩, t, hchunk, h⟩ := Exec.exec_bind_eq_ok.mp h
      obtain ⟨n, t', hlift, h⟩ := Exec.exec_bind_eq_ok.mp h
      obtain ⟨hcount, rfl⟩ := exec_lift_eq_ok.mp hlift
      obtain ⟨hwritten, txCounts, hcounts, htotal⟩ := ih h
      refine ⟨?_, n :: txCounts, .cons hcount hcounts, htotal⟩
      rw [hwritten, written_of_writeChunk hchunk, List.flatMap_cons, List.append_assoc]

/-- If writing returns `Ok`, every call of the provider did, and the bytes are those of a
snapshot of what it returned. -/
theorem provides_of_write {m : SnapshotManager} {n total : UInt64} {written written' : Bytes}
    (h : (m.writeSnapshotData disk P).exec written = (.ok (n, total), written')) :
    ∃ blocks txCounts state, Provides P blocks txCounts state ∧
      n = UInt64.ofNat blocks.val.length ∧ total = txCounts.foldl (· + ·) 0 ∧
      written' = written ++ m.snapshotBytes blocks.val state := by
  obtain ⟨⟨⟩, t, hversion, h⟩ := Exec.exec_bind_eq_ok.mp h
  obtain ⟨blocks, t, hlift, h⟩ := Exec.exec_bind_eq_ok.mp h
  obtain ⟨hblocks, rfl⟩ := exec_lift_eq_ok.mp hlift
  obtain ⟨⟨⟩, t, hcount, h⟩ := Exec.exec_bind_eq_ok.mp h
  obtain ⟨total', t, hloop, h⟩ := Exec.exec_bind_eq_ok.mp h
  obtain ⟨state, t, hlift, h⟩ := Exec.exec_bind_eq_ok.mp h
  obtain ⟨hstate, rfl⟩ := exec_lift_eq_ok.mp hlift
  obtain ⟨⟨⟩, t, hchunk, h⟩ := Exec.exec_bind_eq_ok.mp h
  rw [Exec.exec_pure] at h
  cases h
  obtain ⟨hwritten, txCounts, hcounts, htotal⟩ := written_of_writeBlocks hloop
  refine ⟨blocks, txCounts, state, ⟨hblocks, hcounts, hstate⟩, rfl, htotal, ?_⟩
  rw [written_of_writeChunk hchunk, hwritten, written_of_writeAll hcount,
    written_of_writeAll hversion, snapshotBytes]
  simp only [List.append_assoc]

theorem Provides.unique {blocks blocks' : Vec Bytes} {txCounts txCounts' : List UInt64}
    {state state' : Bytes} (h : Provides P blocks txCounts state)
    (h' : Provides P blocks' txCounts' state') :
    blocks = blocks' ∧ txCounts = txCounts' ∧ state = state' := by
  obtain rfl : blocks = blocks' := Except.ok.inj (h.blocks_eq.symm.trans h'.blocks_eq)
  refine ⟨rfl, ?_, Except.ok.inj (h.state_eq.symm.trans h'.state_eq)⟩
  exact List.right_unique_forall₂' (fun _ _ _ hn hn' => Except.ok.inj (hn.symm.trans hn'))
    h.txCounts_eq h'.txCounts_eq

end Written

/-! ## What is read -/

section Read
variable {ρ : Type}

theorem exec_readExact_append (data rest : Bytes) (r : ρ) :
    (readExact data.length).exec ⟨data ++ rest, r⟩ = (.ok data, ⟨rest, r⟩) := by
  have hle : data.length ≤ (data ++ rest).length := by
    rw [List.length_append]
    exact Nat.le_add_right _ _
  rw [readExact, Exec.exec_get_bind, if_pos hle, Exec.exec_modify_bind, Exec.exec_pure,
    List.take_left, List.drop_left]

theorem exec_readExact_leBytes (w n : Nat) (rest : Bytes) (r : ρ) :
    (readExact w).exec ⟨Codec.leBytes w n ++ rest, r⟩ =
      (.ok (Codec.leBytes w n), ⟨rest, r⟩) := by
  have h := exec_readExact_append (Codec.leBytes w n) rest r
  rwa [Codec.length_leBytes] at h

theorem length_of_readExact {n : Nat} {s s' : Restoring ρ} {data : Bytes}
    (h : (readExact n).exec s = (.ok data, s')) :
    data.length = n ∧ s'.restorer = s.restorer := by
  rw [readExact, Exec.exec_get_bind] at h
  split at h
  · next hle =>
      rw [Exec.exec_modify_bind, Exec.exec_pure] at h
      cases h
      exact ⟨List.length_take_of_le hle, rfl⟩
  · rw [Exec.exec_modify_bind, Exec.exec_lift] at h
    cases h

theorem exec_readChunk {data : Bytes} (hfits : Fits data) (rest : Bytes) (r : ρ) :
    readChunk.exec ⟨chunk data ++ rest, r⟩ = (.ok data, ⟨rest, r⟩) := by
  have hword : (UInt32.ofNat data.length).toNat = data.length := UInt32.toNat_ofNat_of_lt' hfits
  have hread : Codec.ofLeBytes (Codec.leBytes 4 data.length) = data.length :=
    Codec.ofLeBytes_leBytes (w := 4) hfits
  rw [readChunk, chunk, u32Bytes, List.append_assoc, hword, Exec.exec_bind, exec_readExact_leBytes]
  simp only []
  rw [hread, hword, exec_readExact_append]

theorem fits_of_readChunk {s s' : Restoring ρ} {data : Bytes}
    (h : readChunk.exec s = (.ok data, s')) : Fits data ∧ s'.restorer = s.restorer := by
  obtain ⟨lenBytes, t, hlength, hdata⟩ := Exec.exec_bind_eq_ok.mp h
  obtain ⟨-, hkept⟩ := length_of_readExact hlength
  obtain ⟨hlen, hkept'⟩ := length_of_readExact hdata
  refine ⟨?_, hkept'.trans hkept⟩
  rw [Fits, hlen]
  exact UInt32.toNat_lt _

theorem exec_restore {method : Exec ρ Unit} {r : ρ} (h : (method.exec r).1 = .ok ())
    (unread : Bytes) :
    (restore method).exec ⟨unread, r⟩ = (.ok (), ⟨unread, method.next r⟩) := by
  rcases hm : method.exec r with ⟨result, r'⟩
  rw [hm] at h
  obtain rfl : result = .ok () := h
  rw [restore, Exec.exec_get_bind, Exec.exec_on, hm, Exec.next_of_ok hm]

theorem exec_readBlocks {R : SnapshotDataRestorer ρ} (hR : NeverFails R) {blocks : List Bytes}
    (hfits : ∀ block ∈ blocks, Fits block) (rest : Bytes) (r : ρ) :
    (readBlocks R blocks.length).exec ⟨blocks.flatMap chunk ++ rest, r⟩ =
      (.ok (), ⟨rest, Runs.run (fun r block => (R.restoreBlock block).next r) r blocks⟩) := by
  induction blocks generalizing r with
  | nil => rfl
  | cons block blocks ih =>
      rw [List.forall_mem_cons] at hfits
      rw [List.length_cons, readBlocks, List.flatMap_cons, List.append_assoc, Exec.exec_bind,
        exec_readChunk hfits.1]
      simp only []
      rw [Exec.exec_bind, exec_restore (hR.1 block r)]
      exact ih hfits.2 _

theorem exec_readSnapshotData (m : SnapshotManager) {R : SnapshotDataRestorer ρ}
    (hR : NeverFails R) {blocks : List Bytes} (hcount : blocks.length < 2 ^ 64)
    (hblocks : ∀ block ∈ blocks, Fits block) {state : Bytes} (hstate : Fits state)
    (rest : Bytes) (r : ρ) :
    (m.readSnapshotData R).exec ⟨m.snapshotBytes blocks state ++ rest, r⟩ =
      (.ok (), ⟨rest, delivered R blocks state r⟩) := by
  have hversion : Codec.ofLeBytes (u32Bytes m.version) = m.version.toNat :=
    Codec.ofLeBytes_leBytes (w := 4) m.version.toNat_lt
  have hword : (UInt64.ofNat blocks.length).toNat = blocks.length :=
    UInt64.toNat_ofNat_of_lt' hcount
  have hread : Codec.ofLeBytes (u64Bytes (UInt64.ofNat blocks.length)) = blocks.length := by
    rw [u64Bytes, hword]
    exact Codec.ofLeBytes_leBytes (w := 8) hcount
  rw [readSnapshotData, snapshotBytes]
  simp only [List.append_assoc]
  rw [u32Bytes, Exec.exec_bind, exec_readExact_leBytes, ← u32Bytes]
  simp only []
  rw [hversion, Exec.exec_ensure_bind (decide_eq_true UInt32.ofNat_toNat), Exec.exec_bind, u64Bytes,
    exec_readExact_leBytes, ← u64Bytes]
  simp only []
  rw [hread, hword, Exec.exec_bind, exec_readBlocks hR hblocks]
  simp only []
  rw [Exec.exec_bind, exec_readChunk hstate]
  exact exec_restore (hR.2 state _) rest

end Read

/-! ## A restorer that writes down what it gets -/

structure Recorder where
  blocks : List Bytes
  state : Option Bytes

def recorder : SnapshotDataRestorer Recorder where
  restoreBlock data := modify fun r => { r with blocks := r.blocks ++ [data] }
  restoreState data := modify fun r => { r with state := some data }

theorem neverFails_recorder : NeverFails recorder := ⟨fun _ _ => rfl, fun _ _ => rfl⟩

theorem delivered_recorder (blocks : List Bytes) (state : Bytes) :
    delivered recorder blocks state ⟨[], none⟩ = ⟨blocks, some state⟩ := by
  have hrun : ∀ recorded, Runs.run (fun r block => (recorder.restoreBlock block).next r)
      ⟨recorded, none⟩ blocks = ⟨recorded ++ blocks, none⟩ := by
    induction blocks with
    | nil =>
        intro recorded
        rw [List.append_nil]
        rfl
    | cons block blocks ih =>
        intro recorded
        rw [Runs.run_cons, List.append_cons]
        exact ih (recorded ++ [block])
  rw [delivered, hrun []]
  rfl

/-- Everything written down fits. -/
structure Recorder.AllFit (r : Recorder) : Prop where
  blocks : ∀ block ∈ r.blocks, Fits block
  state : ∀ state ∈ r.state, Fits state

theorem allFit_of_readBlocks {n : Nat} {s s' : Restoring Recorder}
    (h : (readBlocks recorder n).exec s = (.ok (), s')) (hs : s.restorer.AllFit) :
    s'.restorer.AllFit := by
  induction n generalizing s with
  | zero =>
      cases h
      exact hs
  | succ n ih =>
      obtain ⟨data, t, hchunk, h⟩ := Exec.exec_bind_eq_ok.mp h
      obtain ⟨⟨⟩, t', hrestore, h⟩ := Exec.exec_bind_eq_ok.mp h
      obtain ⟨hfits, hkept⟩ := fits_of_readChunk hchunk
      cases hrestore
      refine ih h ⟨?_, ?_⟩
      · show ∀ block ∈ t.restorer.blocks ++ [data], Fits block
        rw [hkept, List.forall_mem_append, List.forall_mem_singleton]
        exact ⟨hs.blocks, hfits⟩
      · show ∀ state ∈ t.restorer.state, Fits state
        rw [hkept]
        exact hs.state

theorem allFit_of_readSnapshotData {m : SnapshotManager} {s s' : Restoring Recorder}
    (h : (m.readSnapshotData recorder).exec s = (.ok (), s')) (hs : s.restorer.AllFit) :
    s'.restorer.AllFit := by
  obtain ⟨versionBytes, t₁, hversion, h⟩ := Exec.exec_bind_eq_ok.mp h
  obtain ⟨⟨⟩, t₂, hensure, h⟩ := Exec.exec_bind_eq_ok.mp h
  obtain ⟨countBytes, t₃, hcount, h⟩ := Exec.exec_bind_eq_ok.mp h
  obtain ⟨⟨⟩, t₄, hloop, h⟩ := Exec.exec_bind_eq_ok.mp h
  obtain ⟨data, t₅, hchunk, hrestore⟩ := Exec.exec_bind_eq_ok.mp h
  obtain ⟨-, rfl⟩ := exec_lift_eq_ok.mp hensure
  have hstart : t₃.restorer.AllFit := by
    rw [(length_of_readExact hcount).2, (length_of_readExact hversion).2]
    exact hs
  obtain ⟨hfits, hkept⟩ := fits_of_readChunk hchunk
  have hblocks := allFit_of_readBlocks hloop hstart
  cases hrestore
  refine ⟨?_, ?_⟩
  · show ∀ block ∈ t₅.restorer.blocks, Fits block
    rw [hkept]
    exact hblocks.blocks
  · show ∀ state ∈ some data, Fits state
    intro state hstate
    cases hstate
    exact hfits

/-! ## The round trip -/

theorem toNat_foldl_add {txCounts : List UInt64} {total : UInt64}
    (h : total.toNat + totalTxs txCounts < 2 ^ 64) :
    (txCounts.foldl (· + ·) total).toNat = total.toNat + totalTxs txCounts := by
  induction txCounts generalizing total with
  | nil => rfl
  | cons n txCounts ih =>
      rw [totalTxs, List.map_cons, List.sum_cons, ← totalTxs] at h ⊢
      have hadd : (total + n).toNat = total.toNat + n.toNat := by
        rw [UInt64.toNat_add, Nat.mod_eq_of_lt (by omega)]
      rw [List.foldl_cons, ih (by omega), hadd, Nat.add_assoc]

theorem restores_iff (m : SnapshotManager) (blocks : Vec Bytes) (state : Bytes) :
    m.Restores (m.snapshotBytes blocks.val state) blocks.val state ↔
      (∀ block ∈ blocks.val, Fits block) ∧ Fits state := by
  constructor
  · intro hrestores
    obtain ⟨unread, hread⟩ := hrestores Recorder recorder neverFails_recorder ⟨[], none⟩
    have hall := allFit_of_readSnapshotData hread
      ⟨fun _ h => absurd h List.not_mem_nil, fun _ h => by cases h⟩
    rw [delivered_recorder] at hall
    exact ⟨hall.blocks, hall.state state rfl⟩
  · rintro ⟨hblocks, hstate⟩ ρ R hR r
    have hcount : blocks.val.length < 2 ^ 64 :=
      blocks.property.trans_lt (show maxVecLength < 2 ^ 64 by decide)
    have hread := exec_readSnapshotData m hR hcount hblocks hstate [] r
    rw [List.append_nil] at hread
    exact ⟨[], hread⟩

/-- **Round trip.**  Let `write_snapshot_data` return `Ok((n, t))` on what the provider gives.
Then `n` and `t` are its numbers of blocks and of transactions, and every restorer that never
fails gets exactly these blocks and this state back, if and only if each of them is shorter
than `2 ^ 32` bytes. -/
theorem readSnapshotData_writeSnapshotData (m : SnapshotManager) (disk : Disk)
    (P : SnapshotDataProvider) (blocks : Vec Bytes) (txCounts : List UInt64) (state : Bytes)
    (hP : Provides P blocks txCounts state) (hsum : totalTxs txCounts < 2 ^ 64) (n t : UInt64)
    (written : Bytes) (hwrite : (m.writeSnapshotData disk P).exec [] = (.ok (n, t), written)) :
    (n.toNat = blocks.val.length ∧ t.toNat = totalTxs txCounts ∧
        m.Restores written blocks.val state) ↔
      (∀ block ∈ blocks.val, Fits block) ∧ Fits state := by
  obtain ⟨blocks', txCounts', state', hP', hn, ht, hbytes⟩ := provides_of_write hwrite
  obtain ⟨rfl, rfl, rfl⟩ := hP.unique hP'
  have hcount : blocks.val.length < 2 ^ 64 :=
    blocks.property.trans_lt (show maxVecLength < 2 ^ 64 by decide)
  have hnum : n.toNat = blocks.val.length := by
    rw [hn]
    exact UInt64.toNat_ofNat_of_lt' hcount
  have htotal : t.toNat = totalTxs txCounts := by
    have hzero : (0 : UInt64).toNat + totalTxs txCounts < 2 ^ 64 := by
      rw [UInt64.toNat_zero, Nat.zero_add]
      exact hsum
    rw [ht, toNat_foldl_add hzero, UInt64.toNat_zero, Nat.zero_add]
  obtain rfl : written = m.snapshotBytes blocks.val state := hbytes
  rw [← restores_iff]
  exact ⟨fun h => h.2.2, fun h => ⟨hnum, htotal, h⟩⟩

/-! ## A snapshot to try things on -/

/-- A file that takes everything. -/
def wideDisk : Disk := fun _ _ => none

def singleBlock (data : Bytes) : Vec Bytes := ⟨[data], show 1 ≤ maxVecLength by decide⟩

/-- Five transactions in every block. -/
def plainProvider (blocks : Vec Bytes) (state : Bytes) : SnapshotDataProvider where
  getBlocksForSnapshot := .ok blocks
  getTransactionCountForBlock _ := .ok 5
  getStateForSnapshot := .ok state

/-- Two blocks of three bytes, and a state of three. -/
theorem readSnapshotData_writeSnapshotData_sample :
    new.Restores (new.snapshotBytes [[1, 2, 3], [4, 5, 6]] [7, 8, 9]) [[1, 2, 3], [4, 5, 6]]
      [7, 8, 9] := by
  have hwrite : (new.writeSnapshotData wideDisk
      (plainProvider ⟨[[1, 2, 3], [4, 5, 6]], by decide⟩ [7, 8, 9])).exec [] =
      (.ok (2, 10), new.snapshotBytes [[1, 2, 3], [4, 5, 6]] [7, 8, 9]) := rfl
  have hfits : (∀ block ∈ [[1, 2, 3], [4, 5, 6]], Fits block) ∧ Fits [7, 8, 9] := by
    simp [Fits]
  have hround := readSnapshotData_writeSnapshotData new wideDisk _
    ⟨[[1, 2, 3], [4, 5, 6]], by decide⟩ [5, 5] [7, 8, 9]
    ⟨rfl, .cons rfl (.cons rfl .nil), rfl⟩ (by decide) 2 10 _ hwrite
  exact (hround.mpr hfits).2.2

/-- One block, of any length: the file is written without an error. -/
theorem exec_writeSnapshotData_single (data : Bytes) :
    (new.writeSnapshotData wideDisk (plainProvider (singleBlock data) [])).exec [] =
      (.ok (1, 5), new.snapshotBytes [data] []) := by
  have hok : ∃ written, (new.writeSnapshotData wideDisk
      (plainProvider (singleBlock data) [])).exec [] = (.ok (1, 5), written) := ⟨_, rfl⟩
  obtain ⟨written, hwrite⟩ := hok
  obtain ⟨blocks, _, state, hP, -, -, hbytes⟩ := provides_of_write hwrite
  obtain rfl : singleBlock data = blocks := Except.ok.inj hP.blocks_eq
  obtain rfl : [] = state := Except.ok.inj hP.state_eq
  rw [hwrite, hbytes]
  rfl

theorem not_restores_single {data : Bytes} (hlong : ¬Fits data) :
    ¬new.Restores (new.snapshotBytes [data] []) [data] [] := by
  intro hrestores
  exact hlong (((restores_iff new (singleBlock data) []).mp hrestores).1 data List.mem_cons_self)

/-- A block of `2 ^ 32` bytes is written without an error, and lost. -/
theorem not_restores_longBlock :
    (new.writeSnapshotData wideDisk
        (plainProvider (singleBlock (List.replicate (2 ^ 32) 0)) [])).exec [] =
      (.ok (1, 5), new.snapshotBytes [List.replicate (2 ^ 32) 0] []) ∧
    ¬new.Restores (new.snapshotBytes [List.replicate (2 ^ 32) 0] [])
      [List.replicate (2 ^ 32) 0] [] := by
  refine ⟨exec_writeSnapshotData_single _, not_restores_single ?_⟩
  rw [Fits, List.length_replicate]
  exact Nat.lt_irrefl _

end SnapshotManager

end VotingChain
