/-
# `VotingChain.SnapshotFiles` — a directory of snapshots

The rest of `storage/src/snapshot.rs`: snapshots are made, listed, restored and deleted in a
directory.  A snapshot is two files of one name,

    snapshot_‹height›_‹time›.snapshot    what `Snapshot` is about
    snapshot_‹height›_‹time›.meta        the metadata, in JSON, with the hash of the other file

and it is listed if the second can be read and the first is there.

A snapshot that was tampered with is not restored: as long as its metadata file is what it
was, what is handed over is what was put in, or nothing (`restoreSnapshot_of_created`).

The directory is a map from file names to bytes; names are as `Path` reads them, a stem and an
extension.  In every call the file system may refuse to create or to remove a file, and a file
may take only a part of what is written to it (`Volume`).  The metadata go through a buffer
that is dropped and not flushed, so their file may be cut off while the call returns `Ok`.
What is there can be read; in what order a directory is read is open.
-/
import VotingChain.Lib.Maps
import VotingChain.Reference
import VotingChain.Snapshot

namespace VotingChain

/-- The name of a file: `file_stem` and `extension`. -/
structure FileName where
  stem : String
  extension : Option String
  deriving DecidableEq

def FileName.withExtension (path : FileName) (e : String) : FileName := ⟨path.stem, some e⟩

/-- The files of a directory. -/
abbrev Directory := Finmap fun _ : FileName => Bytes

/-- Snapshot metadata. -/
structure SnapshotMetadata where
  version : UInt32
  blockHeight : BlockHeight
  blockHash : BlockHash
  createdAt : Timestamp
  sizeBytes : UInt64
  blockCount : UInt64
  transactionCount : UInt64
  checksum : Hash
  chainId : String
  deriving DecidableEq

/-- Information about a snapshot. -/
structure SnapshotInfo where
  metadata : SnapshotMetadata
  snapshotPath : FileName
  metadataPath : FileName
  deriving DecidableEq

/-- `serde_json` on the metadata. -/
structure SnapshotCodec where
  toWriterPretty : SnapshotMetadata → Bytes
  fromReader : Bytes → Except String SnapshotMetadata

/-- These metadata come back as they were, and not at all from less than all of their text. -/
structure SnapshotCodec.Exact (J : SnapshotCodec) (tried : List SnapshotMetadata) : Prop where
  whole : ∀ metadata ∈ tried, J.fromReader (J.toWriterPretty metadata) = .ok metadata
  part : ∀ metadata ∈ tried, ∀ n,
    ∃ e, J.fromReader ((J.toWriterPretty metadata).dropLast.take n) = .error e

theorem SnapshotCodec.Exact.mono {J : SnapshotCodec} {tried tried' : List SnapshotMetadata}
    (h : J.Exact tried) (hsub : ∀ metadata ∈ tried', metadata ∈ tried) : J.Exact tried' where
  whole metadata hmem := h.whole metadata (hsub metadata hmem)
  part metadata hmem := h.part metadata (hsub metadata hmem)

/-- What the file system answers in a call. -/
structure Volume where
  /-- `File::create`. -/
  create : FileName → Option String
  /-- A write to the file of the data. -/
  disk : Disk
  /-- `flush` of the data. -/
  flush : Bytes → Option String
  /-- `serde_json` on the metadata: an error, after so many bytes. -/
  metadata : Bytes → Option (Nat × String)
  /-- How many bytes of what was written are in a file whose buffer was dropped. -/
  dropped : FileName → Bytes → Nat
  /-- `fs::remove_file` of a file that is there. -/
  remove : FileName → Option String

/-- What of these bytes is in a file whose buffer was dropped. -/
def Volume.left (V : Volume) (path : FileName) (data : Bytes) : Bytes :=
  data.take (V.dropped path data)

theorem Volume.left_cases (V : Volume) (path : FileName) (data : Bytes) :
    V.left path data = data ∨ ∃ n, V.left path data = data.dropLast.take n := by
  by_cases hle : data.length ≤ V.dropped path data
  · exact Or.inl (List.take_of_length_le hle)
  · refine Or.inr ⟨V.dropped path data, ?_⟩
    rw [left, List.dropLast_eq_take, List.take_take, Nat.min_eq_left (by omega)]

namespace SnapshotManager

/-- Snapshot file extension. -/
def snapshotExtension : String := "snapshot"

/-- Metadata file extension. -/
def metadataExtension : String := "meta"

/-- The file of the data. -/
def snapshotFile (name : String) : FileName := ⟨name, some snapshotExtension⟩

/-- The file of the metadata. -/
def metadataFile (name : String) : FileName := ⟨name, some metadataExtension⟩

/-- The name of a snapshot. -/
def snapshotName (blockHeight : BlockHeight) (timestamp : Timestamp) : String :=
  "snapshot_" ++ toString blockHeight ++ "_" ++ toString timestamp

/-! ## Files -/

/-- `File::open`, and all that is in the file. -/
def openFile (dir : Directory) (path : FileName) : Result Bytes :=
  match dir.lookup path with
  | some data => .ok data
  | none => fail (.ioError "No such file or directory (os error 2)")

/-- `File::create`: a file with nothing in it. -/
def createFile (V : Volume) (path : FileName) (error : String → VotingError) :
    Exec Directory Unit :=
  match V.create path with
  | none => modify fun dir => dir.insert path []
  | some e => Exec.lift (fail (error e))

/-- What is written to a buffer, with `flush` at its end.  After an error the buffer is
dropped, with the rest of what was written. -/
def writeFile {α : Type} (V : Volume) (path : FileName) (write : Exec Bytes α) :
    Exec Directory α :=
  ExceptT.mk fun dir =>
    match write.exec [] with
    | (.ok a, data) => (.ok a, dir.insert path data)
    | (.error e, data) => (.error e, dir.insert path (V.left path data))

def flush (V : Volume) : Exec Bytes Unit := do
  match V.flush (← get) with
  | none => return ()
  | some e => Exec.lift (fail (.ioError e))

/-- `fs::remove_file`. -/
def removeFile (V : Volume) (path : FileName) : Exec Directory Unit := do
  let _ ← Exec.lift (openFile (← get) path)
  match V.remove path with
  | none => modify fun dir => dir.erase path
  | some e => Exec.lift (fail (.ioError e))

section
variable (V : Volume) (P : Primitives) (J : SnapshotCodec) (order : MapOrder FileName Bytes)

/-- Calculate checksum of snapshot file. -/
def calculateChecksum (dir : Directory) (path : FileName) : Result Hash := do
  let buffer ← openFile dir path
  return hashData P buffer

/-- Save snapshot metadata to file.  The buffer is dropped; an error comes before the last
byte. -/
def saveMetadata (path : FileName) (metadata : SnapshotMetadata) : Exec Directory Unit := do
  createFile V path .ioError
  let text := J.toWriterPretty metadata
  match V.metadata text with
  | none => modify fun dir => dir.insert path (V.left path text)
  | some (taken, e) => do
      modify fun dir => dir.insert path (text.dropLast.take taken)
      Exec.lift (fail (.serializationError e))

/-- Load snapshot metadata from file. -/
def loadMetadata (dir : Directory) (path : FileName) : Result SnapshotMetadata := do
  let data ← openFile dir path
  match J.fromReader data with
  | .ok metadata => .ok metadata
  | .error e => fail (.serializationError e)

/-- Create a snapshot of the current blockchain state, at the time `timestamp`. -/
def createSnapshot (m : SnapshotManager) (timestamp : Timestamp) (blockHeight : BlockHeight)
    (blockHash : BlockHash) (chainId : String) (provider : SnapshotDataProvider) :
    Exec Directory SnapshotMetadata := do
  let name := snapshotName blockHeight timestamp
  let snapshotPath := snapshotFile name
  let metadataPath := metadataFile name
  createFile V snapshotPath fun e => .storageError ("Failed to create snapshot file: " ++ e)
  let (blockCount, txCount) ← writeFile V snapshotPath do
    let counts ← m.writeSnapshotData V.disk provider
    flush V
    return counts
  let data ← Exec.lift (openFile (← get) snapshotPath)
  let checksum ← Exec.lift (calculateChecksum P (← get) snapshotPath)
  let metadata : SnapshotMetadata :=
    { version := m.version
      blockHeight
      blockHash
      createdAt := timestamp
      sizeBytes := UInt64.ofNat data.length
      blockCount
      transactionCount := txCount
      checksum
      chainId }
  saveMetadata V J metadataPath metadata
  return metadata

/-- Restore blockchain state from a snapshot. -/
def restoreSnapshot {ρ : Type} (m : SnapshotManager) (R : SnapshotDataRestorer ρ) (dir : Directory)
    (snapshotPath : FileName) : Exec ρ SnapshotMetadata := do
  let metadata ← Exec.lift (loadMetadata J dir (snapshotPath.withExtension metadataExtension))
  let checksum ← Exec.lift (calculateChecksum P dir snapshotPath)
  Exec.lift (ensure (decide (checksum = metadata.checksum))
    (.storageError "Snapshot checksum verification failed"))
  let data ← Exec.lift (openFile dir snapshotPath)
  let r ← get
  Exec.on (⟨data, r⟩ : Restoring ρ) (fun s _ => s.restorer) (m.readSnapshotData R)
  return metadata

/-- The snapshot of a file in the directory, if it is one that is listed. -/
def snapshotInfo (dir : Directory) (path : FileName) : Option SnapshotInfo :=
  if path.extension = some metadataExtension then
    match loadMetadata J dir path with
    | .ok metadata =>
      let snapshotPath := path.withExtension snapshotExtension
      if (dir.lookup snapshotPath).isSome then some ⟨metadata, snapshotPath, path⟩ else none
    | .error _ => none
  else none

/-- List all available snapshots, the highest first. -/
def listSnapshots (dir : Directory) : List SnapshotInfo :=
  ((order.keys dir).filterMap (snapshotInfo J dir)).mergeSort fun a b =>
    decide (b.metadata.blockHeight ≤ a.metadata.blockHeight)

/-- Get the latest snapshot. -/
def getLatestSnapshot (dir : Directory) : Option SnapshotInfo := (listSnapshots J order dir).head?

/-- Delete a snapshot. -/
def deleteSnapshot (info : SnapshotInfo) : Exec Directory Unit := do
  removeFile V info.snapshotPath
  removeFile V info.metadataPath

/-- Delete snapshots, one after another. -/
def deleteSnapshots : List SnapshotInfo → Exec Directory Unit
  | [] => return ()
  | info :: infos => do
      deleteSnapshot V info
      deleteSnapshots infos

/-- Delete old snapshots, keeping only the most recent N. -/
def pruneOldSnapshots (keepCount : Nat) : Exec Directory Nat := do
  let snapshots := listSnapshots J order (← get)
  if snapshots.length ≤ keepCount then return 0
  else
    let toDelete := snapshots.drop keepCount
    deleteSnapshots V toDelete
    return toDelete.length

/-- The loop of `prune_snapshots_before`. -/
def deleteBefore (beforeTimestamp : Timestamp) : List SnapshotInfo → Nat → Exec Directory Nat
  | [], deleted => return deleted
  | info :: infos, deleted =>
      if info.metadata.createdAt < beforeTimestamp then do
        deleteSnapshot V info
        deleteBefore beforeTimestamp infos (deleted + 1)
      else deleteBefore beforeTimestamp infos deleted

/-- Delete snapshots older than specified timestamp. -/
def pruneSnapshotsBefore (beforeTimestamp : Timestamp) : Exec Directory Nat := do
  let snapshots := listSnapshots J order (← get)
  deleteBefore V beforeTimestamp snapshots 0

/-- Verify snapshot integrity. -/
def verifySnapshot (dir : Directory) (info : SnapshotInfo) : Result Bool := do
  let checksum ← calculateChecksum P dir info.snapshotPath
  return decide (checksum = info.metadata.checksum)

end

variable {P : Primitives} {J : SnapshotCodec}

/-! ## A snapshot that is made -/

@[simp] theorem snapshotFile_ne {name name' : String} : snapshotFile name ≠ metadataFile name' := by
  simp [snapshotFile, metadataFile, snapshotExtension, metadataExtension]

@[simp] theorem metadataFile_ne {name name' : String} : metadataFile name ≠ snapshotFile name' :=
  snapshotFile_ne.symm

@[simp] theorem snapshotFile_inj {name name' : String} :
    snapshotFile name = snapshotFile name' ↔ name = name' := by
  simp [snapshotFile]

@[simp] theorem metadataFile_inj {name name' : String} :
    metadataFile name = metadataFile name' ↔ name = name' := by
  simp [metadataFile]

theorem withExtension_snapshotFile {name : String} :
    (snapshotFile name).withExtension metadataExtension = metadataFile name := rfl

theorem lookup_openFile {dir : Directory} {path : FileName} {data : Bytes} :
    openFile dir path = .ok data ↔ dir.lookup path = some data := by
  rw [openFile]
  cases dir.lookup path with
  | none => simp [fail]
  | some _ => simp

theorem openFile_congr {dir dir' : Directory} {path : FileName}
    (h : dir'.lookup path = dir.lookup path) : openFile dir' path = openFile dir path := by
  rw [openFile, h, openFile]

theorem loadMetadata_congr {dir dir' : Directory} {path : FileName}
    (h : dir'.lookup path = dir.lookup path) :
    loadMetadata J dir' path = loadMetadata J dir path := by
  rw [loadMetadata, openFile_congr h, loadMetadata]

theorem loadMetadata_eq_ok {dir : Directory} {path : FileName} {metadata : SnapshotMetadata} :
    loadMetadata J dir path = .ok metadata ↔
      ∃ data, dir.lookup path = some data ∧ J.fromReader data = .ok metadata := by
  rw [loadMetadata, bind_eq_ok]
  simp only [lookup_openFile]
  refine exists_congr fun data => and_congr_right fun _ => ?_
  cases J.fromReader data with
  | ok _ => simp
  | error _ => simp [fail]

theorem calculateChecksum_eq {dir : Directory} {path : FileName} {data : Bytes}
    (h : dir.lookup path = some data) : calculateChecksum P dir path = .ok (hashData P data) := by
  rw [calculateChecksum, lookup_openFile.mpr h]
  rfl

/-- The metadata of a snapshot, once its data are written. -/
def createdMetadata (P : Primitives) (m : SnapshotManager) (timestamp : Timestamp)
    (blockHeight : BlockHeight) (blockHash : BlockHash) (chainId : String)
    (counts : UInt64 × UInt64) (written : Bytes) : SnapshotMetadata where
  version := m.version
  blockHeight := blockHeight
  blockHash := blockHash
  createdAt := timestamp
  sizeBytes := UInt64.ofNat written.length
  blockCount := counts.1
  transactionCount := counts.2
  checksum := hashData P written
  chainId := chainId

section Created
variable {V : Volume} {m : SnapshotManager} {timestamp : Timestamp} {blockHeight : BlockHeight}
  {blockHash : BlockHash} {chainId : String} {provider : SnapshotDataProvider}

/-- All files but the two of this name are what they were. -/
def OthersSame (name : String) (dir dir' : Directory) : Prop :=
  ∀ path, path ≠ snapshotFile name → path ≠ metadataFile name →
    dir'.lookup path = dir.lookup path

theorem OthersSame.refl (name : String) (dir : Directory) : OthersSame name dir dir :=
  fun _ _ _ => rfl

theorem OthersSame.insert_snapshot {name : String} {dir dir' : Directory}
    (h : OthersSame name dir dir') (data : Bytes) :
    OthersSame name dir (dir'.insert (snapshotFile name) data) := by
  intro path hsnapshot hmetadata
  rw [Finmap.lookup_insert_of_ne _ hsnapshot, h path hsnapshot hmetadata]

theorem exec_createFile_bind {β : Type} (V : Volume) (path : FileName)
    (error : String → VotingError) (f : Unit → Exec Directory β) (dir : Directory) :
    (createFile V path error >>= f).exec dir =
      match V.create path with
      | none => (f ()).exec (dir.insert path [])
      | some e => (fail (error e), dir) := by
  rw [createFile]
  cases V.create path with
  | none => rfl
  | some e => rfl

theorem exec_writeFile {α : Type} (V : Volume) (path : FileName) {write : Exec Bytes α}
    {result : Result α} {data : Bytes} (h : write.exec [] = (result, data)) (dir : Directory) :
    ∃ data', (writeFile V path write).exec dir = (result, dir.insert path data') ∧
      ((∃ a, result = .ok a) → data' = data) := by
  have hrun : (writeFile V path write).exec dir = (match write.exec [] with
    | (.ok a, data) => (.ok a, dir.insert path data)
    | (.error e, data) => (.error e, dir.insert path (V.left path data))) := by
    rw [Exec.exec, writeFile]
    rfl
  rw [hrun, h]
  cases result with
  | ok a => exact ⟨data, rfl, fun _ => rfl⟩
  | error e => exact ⟨_, rfl, nofun⟩

/-- How the data get into their file: all of them, or an error is returned. -/
theorem exec_writeFile_data {path : FileName} {dir dir' : Directory}
    {result : Result (UInt64 × UInt64)}
    (h : (writeFile V path (do
        let counts ← m.writeSnapshotData V.disk provider
        flush V
        return counts)).exec dir = (result, dir')) :
    ∃ data, dir' = dir.insert path data ∧
      ((∃ e, result = .error e) ∨
        ∃ counts, result = .ok counts ∧
          (m.writeSnapshotData V.disk provider).exec [] = (.ok counts, data)) := by
  rcases hwrite : (do
      let counts ← m.writeSnapshotData V.disk provider
      flush V
      return counts : Exec Bytes (UInt64 × UInt64)).exec [] with ⟨result', written⟩
  obtain ⟨data, hfile, hwhole⟩ := exec_writeFile V path hwrite dir
  rw [hfile] at h
  cases h
  refine ⟨data, rfl, ?_⟩
  cases result with
  | error e => exact Or.inl ⟨e, rfl⟩
  | ok counts =>
      obtain ⟨counts', written', hdata, hrest⟩ := Exec.exec_bind_eq_ok.mp hwrite
      obtain ⟨⟨⟩, written'', hflush, hreturn⟩ := Exec.exec_bind_eq_ok.mp hrest
      rw [flush, Exec.exec_get_bind] at hflush
      cases hanswer : V.flush written' with
      | some e =>
          rw [hanswer] at hflush
          cases hflush
      | none =>
          rw [hanswer] at hflush
          cases hflush
          cases hreturn
          rw [hwhole ⟨_, rfl⟩]
          exact Or.inr ⟨_, rfl, hdata⟩

/-- Saving the metadata changes their file only: it has some of their text, all of it only if
no error is returned. -/
theorem saveMetadata_cases {metadata : SnapshotMetadata} {name : String} {dir dir' : Directory}
    {result : Result Unit}
    (h : (saveMetadata V J (metadataFile name) metadata).exec dir = (result, dir')) :
    (∀ path, path ≠ metadataFile name → dir'.lookup path = dir.lookup path) ∧
    ((result = .ok () ∧ dir'.lookup (metadataFile name) =
        some (V.left (metadataFile name) (J.toWriterPretty metadata))) ∨
      (∃ e, result = .error e) ∧
        (dir'.lookup (metadataFile name) = dir.lookup (metadataFile name) ∨
          ∃ taken, dir'.lookup (metadataFile name) =
            some ((J.toWriterPretty metadata).dropLast.take taken))) := by
  rw [saveMetadata, exec_createFile_bind] at h
  cases hcreate : V.create (metadataFile name) with
  | some e =>
      rw [hcreate] at h
      cases h
      exact ⟨fun _ _ => rfl, Or.inr ⟨⟨_, rfl⟩, Or.inl rfl⟩⟩
  | none =>
      rw [hcreate] at h
      dsimp only at h
      cases htext : V.metadata (J.toWriterPretty metadata) with
      | none =>
          rw [htext, Exec.exec_modify] at h
          cases h
          refine ⟨?_, Or.inl ⟨rfl, Finmap.lookup_insert _⟩⟩
          intro path hpath
          rw [Finmap.lookup_insert_of_ne _ hpath, Finmap.lookup_insert_of_ne _ hpath]
      | some answer =>
          obtain ⟨taken, e⟩ := answer
          rw [htext] at h
          dsimp only at h
          rw [Exec.exec_modify_bind, Exec.exec_lift] at h
          cases h
          refine ⟨?_, Or.inr ⟨⟨_, rfl⟩, Or.inr ⟨taken, Finmap.lookup_insert _⟩⟩⟩
          intro path hpath
          rw [Finmap.lookup_insert_of_ne _ hpath, Finmap.lookup_insert_of_ne _ hpath]

variable (P V m timestamp blockHeight blockHash chainId provider) in
/-- The metadata that a call writes to their file, if it comes to that. -/
def triedMetadata : Option SnapshotMetadata :=
  match (m.writeSnapshotData V.disk provider).exec [] with
  | (.ok counts, written) =>
    some (createdMetadata P m timestamp blockHeight blockHash chainId counts written)
  | (.error _, _) => none

/-- Up to the metadata: the data are in their file, or an error is returned. -/
theorem exec_createSnapshot_cases {name : String}
    (hname : snapshotName blockHeight timestamp = name) (dir : Directory) :
    ∃ dir₁, OthersSame name dir dir₁ ∧
      dir₁.lookup (metadataFile name) = dir.lookup (metadataFile name) ∧
      ((∃ e, (createSnapshot V P J m timestamp blockHeight blockHash chainId provider).exec dir =
          (.error e, dir₁)) ∨
        ∃ counts data metadata,
          metadata = createdMetadata P m timestamp blockHeight blockHash chainId counts data ∧
          (m.writeSnapshotData V.disk provider).exec [] = (.ok counts, data) ∧
          dir₁.lookup (snapshotFile name) = some data ∧
          (createSnapshot V P J m timestamp blockHeight blockHash chainId provider).exec dir =
            (saveMetadata V J (metadataFile name) metadata >>= fun _ => pure metadata).exec
              dir₁) := by
  rw [createSnapshot, hname]
  dsimp only
  rw [exec_createFile_bind]
  cases V.create (snapshotFile name) with
  | some e => exact ⟨dir, OthersSame.refl name dir, rfl, Or.inl ⟨_, rfl⟩⟩
  | none =>
      dsimp only
      rw [Exec.exec_bind]
      rcases hfile : (writeFile V (snapshotFile name) (do
          let counts ← m.writeSnapshotData V.disk provider
          flush V
          return counts)).exec (dir.insert (snapshotFile name) []) with ⟨answer, dir₁⟩
      obtain ⟨data, rfl, hdata⟩ := exec_writeFile_data hfile
      refine ⟨_, ((OthersSame.refl name dir).insert_snapshot []).insert_snapshot data, ?_, ?_⟩
      · rw [Finmap.lookup_insert_of_ne _ metadataFile_ne,
          Finmap.lookup_insert_of_ne _ metadataFile_ne]
      rcases hdata with ⟨e, rfl⟩ | ⟨counts, rfl, hwrite⟩
      · exact Or.inl ⟨e, rfl⟩
      · have hlookup : ((dir.insert (snapshotFile name) []).insert (snapshotFile name)
            data).lookup (snapshotFile name) = some data := Finmap.lookup_insert _
        refine Or.inr ⟨counts, data, _, rfl, hwrite, hlookup, ?_⟩
        simp only [Exec.exec_get_bind, Exec.exec_lift_bind, lookup_openFile.mpr hlookup,
          calculateChecksum_eq hlookup]
        rfl

/-- **What `create_snapshot` does**: it writes to the two files of one name.  The data are
whole if `Ok` is returned; the metadata may be cut off, and are if an error is. -/
theorem createSnapshot_cases {dir dir' : Directory} {result : Result SnapshotMetadata}
    (h : (createSnapshot V P J m timestamp blockHeight blockHash chainId provider).exec dir =
      (result, dir')) :
    OthersSame (snapshotName blockHeight timestamp) dir dir' ∧
    ((∃ metadata blocks state, result = .ok metadata ∧
        triedMetadata P V m timestamp blockHeight blockHash chainId provider = some metadata ∧
        provider.getBlocksForSnapshot = .ok blocks ∧ provider.getStateForSnapshot = .ok state ∧
        metadata.checksum = hashData P (m.snapshotBytes blocks.val state) ∧
        dir'.lookup (snapshotFile (snapshotName blockHeight timestamp)) =
          some (m.snapshotBytes blocks.val state) ∧
        dir'.lookup (metadataFile (snapshotName blockHeight timestamp)) =
          some (V.left (metadataFile (snapshotName blockHeight timestamp))
            (J.toWriterPretty metadata))) ∨
      (∃ e, result = .error e) ∧
        (dir'.lookup (metadataFile (snapshotName blockHeight timestamp)) =
            dir.lookup (metadataFile (snapshotName blockHeight timestamp)) ∨
          ∃ metadata taken,
            triedMetadata P V m timestamp blockHeight blockHash chainId provider =
              some metadata ∧
            dir'.lookup (metadataFile (snapshotName blockHeight timestamp)) =
              some ((J.toWriterPretty metadata).dropLast.take taken))) := by
  generalize hname : snapshotName blockHeight timestamp = name
  obtain ⟨dir₁, hsame, hmetadata,
    ⟨e, hexec⟩ | ⟨counts, data, made, hmade, hwrite, hlookup, hexec⟩⟩ :=
    exec_createSnapshot_cases hname dir
  · cases hexec.symm.trans h
    exact ⟨hsame, Or.inr ⟨⟨e, rfl⟩, Or.inl hmetadata⟩⟩
  · have hlast := hexec.symm.trans h
    obtain ⟨blocks, txCounts, state, hprovides, -, -, hbytes⟩ := provides_of_write hwrite
    rw [List.nil_append] at hbytes
    subst hbytes
    have htried : triedMetadata P V m timestamp blockHeight blockHash chainId provider =
        some made := by
      rw [triedMetadata, hwrite, hmade]
    have hsum : made.checksum = hashData P (m.snapshotBytes blocks.val state) := by
      rw [hmade]
      rfl
    rw [Exec.exec_bind] at hlast
    rcases hsave : (saveMetadata V J (metadataFile name) made).exec dir₁ with ⟨saved, dir₂⟩
    obtain ⟨hothers, houtcome⟩ := saveMetadata_cases hsave
    rw [hmetadata] at houtcome
    have hsame₂ : OthersSame name dir dir₂ := fun path hsnapshot hmeta =>
      (hothers path hmeta).trans (hsame path hsnapshot hmeta)
    rw [hsave] at hlast
    rcases houtcome with ⟨rfl, hkept⟩ | ⟨⟨e, rfl⟩, hcut⟩
    · cases hlast
      refine ⟨hsame₂, Or.inl ⟨made, blocks, state, rfl, htried, hprovides.blocks_eq,
        hprovides.state_eq, hsum, ?_, hkept⟩⟩
      rw [hothers _ snapshotFile_ne, hlookup]
    · cases hlast
      refine ⟨hsame₂, Or.inr ⟨⟨e, rfl⟩, hcut.imp_right ?_⟩⟩
      rintro ⟨taken, hcut⟩
      exact ⟨made, taken, htried, hcut⟩

theorem fst_createSnapshot {counts : UInt64 × UInt64} {written : Bytes}
    (hcreate : ∀ path, V.create path = none) (hflush : V.flush written = none)
    (hwrite : (m.writeSnapshotData V.disk provider).exec [] = (.ok counts, written))
    {made : SnapshotMetadata}
    (hmade : made = createdMetadata P m timestamp blockHeight blockHash chainId counts written)
    (dir : Directory) :
    ((createSnapshot V P J m timestamp blockHeight blockHash chainId provider).exec dir).1 =
      (V.metadata (J.toWriterPretty made)).elim (.ok made)
        fun answer => fail (.serializationError answer.2) := by
  have hdata : (do
      let counts ← m.writeSnapshotData V.disk provider
      flush V
      return counts : Exec Bytes (UInt64 × UInt64)).exec [] = (.ok counts, written) := by
    rw [Exec.exec_bind, hwrite]
    simp only [flush, Exec.exec_bind, Exec.exec_get, hflush, Exec.exec_pure]
  rw [createSnapshot]
  dsimp only
  rw [exec_createFile_bind, hcreate]
  dsimp only
  obtain ⟨data, hfile, hwhole⟩ := exec_writeFile V
    (snapshotFile (snapshotName blockHeight timestamp)) hdata
    (dir.insert (snapshotFile (snapshotName blockHeight timestamp)) [])
  rw [hwhole ⟨_, rfl⟩] at hfile
  rw [Exec.exec_bind, hfile]
  have hlookup : ((dir.insert (snapshotFile (snapshotName blockHeight timestamp)) []).insert
      (snapshotFile (snapshotName blockHeight timestamp)) written).lookup
        (snapshotFile (snapshotName blockHeight timestamp)) = some written :=
    Finmap.lookup_insert _
  simp only [Exec.exec_get_bind, Exec.exec_lift_bind, lookup_openFile.mpr hlookup,
    calculateChecksum_eq hlookup]
  have hsave : ∀ dir, ((saveMetadata V J (metadataFile (snapshotName blockHeight timestamp))
      made >>= fun _ => pure made).exec dir).1 =
        (V.metadata (J.toWriterPretty made)).elim (.ok made)
          fun answer => fail (.serializationError answer.2) := by
    intro dir
    rw [Exec.exec_bind, saveMetadata, exec_createFile_bind, hcreate]
    dsimp only
    cases hanswer : V.metadata (J.toWriterPretty made) with
    | none => rfl
    | some answer => rfl
  rw [← hsave ((dir.insert (snapshotFile (snapshotName blockHeight timestamp)) []).insert
    (snapshotFile (snapshotName blockHeight timestamp)) written), hmade]
  rfl

/-- **What `restore_snapshot` does** with the files of a snapshot. -/
theorem exec_restoreSnapshot {ρ : Type} {R : SnapshotDataRestorer ρ} {dir : Directory}
    {path : FileName} {metadata : SnapshotMetadata} {data : Bytes}
    (hmetadata : loadMetadata J dir (path.withExtension metadataExtension) = .ok metadata)
    (hdata : dir.lookup path = some data) (r : ρ) :
    (restoreSnapshot P J m R dir path).exec r =
      if hashData P data = metadata.checksum then
        match (m.readSnapshotData R).exec ⟨data, r⟩ with
        | (.ok _, s) => (.ok metadata, s.restorer)
        | (.error e, s) => (.error e, s.restorer)
      else (fail (.storageError "Snapshot checksum verification failed"), r) := by
  rw [restoreSnapshot, hmetadata, Exec.exec_lift_ok_bind, calculateChecksum_eq hdata,
    Exec.exec_lift_ok_bind, Exec.exec_lift_bind]
  by_cases hsum : hashData P data = metadata.checksum
  · rw [ensure, if_pos (decide_eq_true hsum), if_pos hsum]
    simp only [lookup_openFile.mpr hdata, Exec.exec_lift_bind, Exec.exec_get_bind,
      Exec.exec_on_bind]
    rcases (m.readSnapshotData R).exec ⟨data, r⟩ with ⟨result, s⟩
    cases result with
    | ok => rfl
    | error => rfl
  · rw [ensure, if_neg (by simpa using hsum), if_neg hsum]
    rfl

end Created

end SnapshotManager

/-! ## A snapshot to try things on -/

namespace Reference
open SnapshotManager (createSnapshot fst_createSnapshot createdMetadata snapshotBytes triedMetadata
  writeSnapshotData wideDisk plainProvider)

/-- Bytes in JSON, in a record: each in a line of its own. -/
def jsonBytes (data : Bytes) : String :=
  "[\n" ++ ",\n".intercalate (data.map fun b => "    " ++ toString b) ++ "\n  ]"

/-- The metadata as `to_writer_pretty` writes them, if nothing in the chain id is escaped. -/
def metadataJson (metadata : SnapshotMetadata) : String :=
  "\x7b\n  \"version\": " ++ toString metadata.version ++
    ",\n  \"block_height\": " ++ toString metadata.blockHeight ++
    ",\n  \"block_hash\": " ++ jsonBytes metadata.blockHash.asBytes ++
    ",\n  \"created_at\": " ++ toString metadata.createdAt ++
    ",\n  \"size_bytes\": " ++ toString metadata.sizeBytes ++
    ",\n  \"block_count\": " ++ toString metadata.blockCount ++
    ",\n  \"transaction_count\": " ++ toString metadata.transactionCount ++
    ",\n  \"checksum\": " ++ jsonBytes metadata.checksum.toList ++
    ",\n  \"chain_id\": \"" ++ metadata.chainId ++ "\"\n\x7d"

/-- The serializer of the program, with a reader that knows these metadata only. -/
def snapshotCodec (known : SnapshotMetadata) : SnapshotCodec where
  toWriterPretty metadata := strBytes (metadataJson metadata)
  fromReader data :=
    if data = strBytes (metadataJson known) then .ok known
    else .error "expected value at line 1 column 1"

theorem strBytes_append_ne_nil {a b : String} (h : strBytes a ≠ []) : strBytes (a ++ b) ≠ [] := by
  rw [strBytes_append]
  exact List.append_ne_nil_of_left_ne_nil h _

theorem metadataJson_ne_nil (metadata : SnapshotMetadata) :
    strBytes (metadataJson metadata) ≠ [] := by
  have hhead : strBytes "\x7b\n  \"version\": " ≠ [] := by decide +kernel
  unfold metadataJson
  iterate 18 apply strBytes_append_ne_nil
  exact hhead

theorem exact_snapshotCodec {known : SnapshotMetadata} {tried : List SnapshotMetadata}
    (htried : ∀ metadata ∈ tried, metadata = known) : (snapshotCodec known).Exact tried := by
  constructor
  · intro metadata hmem
    rw [htried metadata hmem]
    simp only [snapshotCodec, if_true]
  · intro metadata hmem n
    rw [htried metadata hmem]
    refine ⟨_, if_neg fun heq => ?_⟩
    have hpos := List.length_pos_of_ne_nil (metadataJson_ne_nil known)
    have hlen := congrArg List.length heq
    rw [List.length_take, List.length_dropLast, snapshotCodec] at hlen
    generalize (strBytes (metadataJson known)).length = size at hpos hlen
    omega

/-- A file system that does what it is asked to. -/
def volume : Volume where
  create _ := none
  disk := wideDisk
  flush _ := none
  metadata _ := none
  dropped _ data := data.length
  remove _ := none

/-- The disk is full after the data and ten bytes of the metadata. -/
def fullVolume : Volume :=
  { volume with metadata := fun _ => some (10, "No space left on device (os error 28)") }

/-- Two blocks and a state. -/
def snapshotProvider : SnapshotDataProvider :=
  plainProvider ⟨[[1, 2, 3], [4, 5, 6]], by decide⟩ [7, 8, 9]

/-- The metadata of a snapshot of them. -/
def snapshotMetadata : SnapshotMetadata :=
  createdMetadata primitives SnapshotManager.new 1000 5 BlockHash.zero "voting-chain" (2, 10)
    (SnapshotManager.new.snapshotBytes [[1, 2, 3], [4, 5, 6]] [7, 8, 9])

theorem exec_writeSnapshotData_sample :
    (SnapshotManager.new.writeSnapshotData wideDisk snapshotProvider).exec [] =
      (.ok (2, 10), SnapshotManager.new.snapshotBytes [[1, 2, 3], [4, 5, 6]] [7, 8, 9]) := rfl

theorem triedMetadata_sample (V : Volume) (hdisk : V.disk = wideDisk) :
    triedMetadata primitives V SnapshotManager.new 1000 5 BlockHash.zero "voting-chain"
      snapshotProvider = some snapshotMetadata := by
  rw [triedMetadata, hdisk, exec_writeSnapshotData_sample, snapshotMetadata]

theorem exec_createSnapshot_sample (J : SnapshotCodec) (dir : Directory) :
    ((createSnapshot volume primitives J SnapshotManager.new 1000 5 BlockHash.zero
      "voting-chain" snapshotProvider).exec dir).1 = .ok snapshotMetadata := by
  have hmade : snapshotMetadata = createdMetadata primitives SnapshotManager.new 1000 5
      BlockHash.zero "voting-chain" (2, 10)
      (SnapshotManager.new.snapshotBytes [[1, 2, 3], [4, 5, 6]] [7, 8, 9]) := by
    rw [snapshotMetadata]
  exact fst_createSnapshot (V := volume) (fun _ => rfl) rfl exec_writeSnapshotData_sample hmade dir

theorem exec_createSnapshot_full (J : SnapshotCodec) (dir : Directory) :
    ((createSnapshot fullVolume primitives J SnapshotManager.new 1000 5 BlockHash.zero
      "voting-chain" snapshotProvider).exec dir).1 =
        fail (.serializationError "No space left on device (os error 28)") := by
  exact fst_createSnapshot (V := fullVolume) (fun _ => rfl) rfl exec_writeSnapshotData_sample rfl
    dir

end Reference

namespace SnapshotManager
open Reference (primitives snapshotCodec exact_snapshotCodec snapshotProvider snapshotMetadata
  volume exec_createSnapshot_sample)
variable {P : Primitives} {J : SnapshotCodec}

/-! ## A snapshot that is restored -/

theorem length_lt_of_vec (blocks : Vec Bytes) : blocks.val.length < 2 ^ 64 :=
  blocks.property.trans_lt (show maxVecLength < 2 ^ 64 by decide)

theorem exec_restoreSnapshot_written {ρ : Type} {R : SnapshotDataRestorer ρ} {dir : Directory}
    {path : FileName} {metadata : SnapshotMetadata} {blocks : Vec Bytes} {state : Bytes}
    (hmetadata : loadMetadata J dir (path.withExtension metadataExtension) = .ok metadata)
    (hdata : dir.lookup path = some (m.snapshotBytes blocks.val state))
    (hsum : metadata.checksum = hashData P (m.snapshotBytes blocks.val state))
    (hblocks : ∀ block ∈ blocks.val, Fits block) (hstate : Fits state) (hR : NeverFails R)
    (r : ρ) :
    (restoreSnapshot P J m R dir path).exec r =
      (.ok metadata, delivered R blocks.val state r) := by
  have hread := exec_readSnapshotData m hR (length_lt_of_vec blocks) hblocks hstate [] r
  rw [List.append_nil] at hread
  rw [exec_restoreSnapshot hmetadata hdata, if_pos hsum.symm, hread]

theorem exec_restoreSnapshot_unread {ρ : Type} {R : SnapshotDataRestorer ρ} {dir : Directory}
    {path : FileName} {text : Bytes} {e : String}
    (htext : dir.lookup (path.withExtension metadataExtension) = some text)
    (hread : J.fromReader text = .error e) (m : SnapshotManager) (r : ρ) :
    (restoreSnapshot P J m R dir path).exec r = (fail (.serializationError e), r) := by
  rw [restoreSnapshot, loadMetadata, lookup_openFile.mpr htext]
  dsimp only [bind, Except.bind]
  rw [hread]
  rfl

/-- **A snapshot is restored as it was, or not at all.**  Let `create_snapshot` return the
metadata of a snapshot of blocks and a state that fit, whatever the file system did meanwhile,
and let anything happen to the directory afterwards, except to the metadata file.  If that
file is whole and the other is what it was, restoring it hands over exactly these blocks and
this state.  If not, and the other file has not got another content of the same hash, `Err` is
returned and nothing is handed over. -/
theorem restoreSnapshot_of_created (V : Volume) (m : SnapshotManager) (timestamp : Timestamp)
    (blockHeight : BlockHeight) (blockHash : BlockHash) (chainId : String)
    (provider : SnapshotDataProvider) (blocks : Vec Bytes) (state : Bytes)
    (hblocks : provider.getBlocksForSnapshot = .ok blocks)
    (hstate : provider.getStateForSnapshot = .ok state)
    (hfits : (∀ block ∈ blocks.val, Fits block) ∧ Fits state) (name : String)
    (hname : name = snapshotName blockHeight timestamp) (dir dir₁ dir₂ : Directory)
    (metadata : SnapshotMetadata) (hJ : J.Exact [metadata])
    (hcreate : (createSnapshot V P J m timestamp blockHeight blockHash chainId provider).exec
      dir = (.ok metadata, dir₁))
    (hmetadata : dir₂.lookup (metadataFile name) = dir₁.lookup (metadataFile name))
    (hhash : ∀ data data', dir₁.lookup (snapshotFile name) = some data →
      dir₂.lookup (snapshotFile name) = some data' →
      hashData P data' = hashData P data → data' = data) {ρ : Type} (R : SnapshotDataRestorer ρ)
    (hR : NeverFails R) (r : ρ) :
    ((dir₁.lookup (metadataFile name) = some (J.toWriterPretty metadata) ∧
        dir₂.lookup (snapshotFile name) = dir₁.lookup (snapshotFile name)) ∧
      (restoreSnapshot P J m R dir₂ (snapshotFile name)).exec r =
        (.ok metadata, delivered R blocks.val state r)) ∨
    ¬(dir₁.lookup (metadataFile name) = some (J.toWriterPretty metadata) ∧
        dir₂.lookup (snapshotFile name) = dir₁.lookup (snapshotFile name)) ∧
      ∃ e, (restoreSnapshot P J m R dir₂ (snapshotFile name)).exec r = (fail e, r) := by
  obtain ⟨-, ⟨metadata', blocks', state', hok, -, hblocks', hstate', hsum, hdata₁, htext₁⟩ |
    ⟨⟨e, herror⟩, -⟩⟩ := createSnapshot_cases hcreate
  swap
  · cases herror
  obtain rfl : metadata = metadata' := Except.ok.inj hok
  obtain rfl : blocks = blocks' := Except.ok.inj (hblocks.symm.trans hblocks')
  obtain rfl : state = state' := Except.ok.inj (hstate.symm.trans hstate')
  rw [← hname] at hdata₁ htext₁
  rw [hdata₁] at hhash ⊢
  rw [htext₁] at hmetadata ⊢
  rw [Option.some.injEq]
  rcases V.left_cases (metadataFile name) (J.toWriterPretty metadata) with hwhole | ⟨n, hcut⟩
  swap
  · -- the metadata were cut off when their buffer was dropped
    obtain ⟨e, hread⟩ := hJ.part metadata List.mem_cons_self n
    rw [hcut] at hmetadata ⊢
    rw [← withExtension_snapshotFile] at hmetadata
    refine Or.inr ⟨fun h => ?_, _, exec_restoreSnapshot_unread hmetadata hread m r⟩
    rw [h.1, hJ.whole metadata List.mem_cons_self] at hread
    cases hread
  rw [hwhole] at hmetadata ⊢
  have hload : loadMetadata J dir₂ (metadataFile name) = .ok metadata :=
    loadMetadata_eq_ok.mpr ⟨_, hmetadata, hJ.whole metadata List.mem_cons_self⟩
  cases hdata : dir₂.lookup (snapshotFile name) with
  | none =>
      refine Or.inr ⟨by simp, .ioError "No such file or directory (os error 2)", ?_⟩
      rw [restoreSnapshot, withExtension_snapshotFile, hload, Exec.exec_lift_ok_bind,
        calculateChecksum, openFile, hdata]
      rfl
  | some data =>
      by_cases hsame : data = m.snapshotBytes blocks.val state
      · rw [hsame] at hdata ⊢
        exact Or.inl ⟨⟨rfl, rfl⟩,
          exec_restoreSnapshot_written hload hdata hsum hfits.1 hfits.2 hR r⟩
      · refine Or.inr ⟨by simpa using hsame,
          .storageError "Snapshot checksum verification failed", ?_⟩
        have hother : hashData P data ≠ metadata.checksum := by
          rw [hsum]
          exact mt (hhash _ _ rfl hdata) hsame
        rw [exec_restoreSnapshot hload hdata, if_neg hother]

/-- Another file in the place of the data is not restored. -/
theorem restoreSnapshot_of_created_replaced :
    ∃ dir₁, (createSnapshot volume primitives (snapshotCodec snapshotMetadata) new 1000 5
        BlockHash.zero "voting-chain" snapshotProvider).exec ∅ = (.ok snapshotMetadata, dir₁) ∧
      ∃ e, (restoreSnapshot primitives (snapshotCodec snapshotMetadata) new recorder
          (dir₁.insert (snapshotFile (snapshotName 5 1000)) [1, 2, 3])
          (snapshotFile (snapshotName 5 1000))).exec ⟨[], none⟩ = (fail e, ⟨[], none⟩) := by
  have hresult := exec_createSnapshot_sample (snapshotCodec snapshotMetadata) ∅
  rcases hcreate : (createSnapshot volume primitives (snapshotCodec snapshotMetadata) new 1000 5
    BlockHash.zero "voting-chain" snapshotProvider).exec ∅ with ⟨result, dir₁⟩
  rw [hcreate] at hresult
  obtain rfl : result = .ok snapshotMetadata := hresult
  refine ⟨dir₁, rfl, ?_⟩
  obtain ⟨-, ⟨_, blocks, state, -, -, hblocks, hstate, -, hold, -⟩ | ⟨⟨e, herror⟩, -⟩⟩ :=
    createSnapshot_cases hcreate
  swap
  · cases herror
  cases hblocks
  cases hstate
  have hother : hashData primitives [1, 2, 3] ≠
      hashData primitives (new.snapshotBytes [[1, 2, 3], [4, 5, 6]] [7, 8, 9]) := by decide +kernel
  have hfits : (∀ block ∈ [[1, 2, 3], [4, 5, 6]], Fits block) ∧ Fits [7, 8, 9] := by simp [Fits]
  have hhash : ∀ data data', dir₁.lookup (snapshotFile (snapshotName 5 1000)) = some data →
      (dir₁.insert (snapshotFile (snapshotName 5 1000)) [1, 2, 3]).lookup
        (snapshotFile (snapshotName 5 1000)) = some data' →
      hashData primitives data' = hashData primitives data → data' = data := by
    intro data data' hdata hdata' hsame
    rw [hold] at hdata
    rw [Finmap.lookup_insert] at hdata'
    cases hdata
    cases hdata'
    exact absurd hsame hother
  rcases restoreSnapshot_of_created volume new 1000 5 BlockHash.zero "voting-chain"
    snapshotProvider ⟨[[1, 2, 3], [4, 5, 6]], by decide⟩ [7, 8, 9] rfl rfl hfits
    (snapshotName 5 1000) rfl ∅ dir₁
    (dir₁.insert (snapshotFile (snapshotName 5 1000)) [1, 2, 3]) snapshotMetadata
    (exact_snapshotCodec fun _ => List.mem_singleton.mp) hcreate
    (Finmap.lookup_insert_of_ne _ metadataFile_ne) hhash recorder neverFails_recorder ⟨[], none⟩
    with ⟨⟨-, hsame⟩, -⟩ | ⟨-, herror⟩
  · rw [Finmap.lookup_insert, hold] at hsame
    exact absurd hsame (by decide)
  · exact herror

end SnapshotManager

end VotingChain
