/-
# `VotingChain.SnapshotRuns` — what is listed, and what is pruned

A snapshot is listed if its metadata can be read and the file of its data is there; the
highest come first.  Pruning deletes the end of the list (`pruneOldSnapshots_keeps`), or what
is older than a time (`pruneSnapshotsBefore_keeps`); where the file system refuses to remove a
file it stops, and the snapshots after it are still listed.

Whatever is created and deleted, and whatever the file system refuses, every snapshot that is
listed can be restored (`listed_snapshots_restore`), as long as no call that failed wrote over
one: a name is a height and a second, and the data are written before it is known whether all
can be.
-/
import VotingChain.SnapshotFiles

namespace VotingChain

namespace SnapshotManager
open Reference (primitives snapshotCodec exact_snapshotCodec snapshotProvider snapshotMetadata
  volume fullVolume exec_createSnapshot_sample exec_createSnapshot_full triedMetadata_sample)
variable {P : Primitives} {J : SnapshotCodec}

/-! ## What is listed -/

theorem snapshotInfo_eq_some {dir : Directory} {path : FileName} {info : SnapshotInfo} :
    snapshotInfo J dir path = some info ↔
      ∃ name, path = metadataFile name ∧ info.metadataPath = metadataFile name ∧
        info.snapshotPath = snapshotFile name ∧
        loadMetadata J dir (metadataFile name) = .ok info.metadata ∧
        (dir.lookup (snapshotFile name)).isSome := by
  obtain ⟨name, extension⟩ := path
  constructor
  · intro h
    rw [snapshotInfo] at h
    split at h
    · next hext =>
        obtain rfl : extension = some metadataExtension := hext
        split at h
        · next metadata hload =>
            dsimp only at h
            split at h
            · next hdata =>
                cases h
                exact ⟨name, rfl, rfl, rfl, hload, hdata⟩
            · cases h
        · cases h
    · cases h
  · rintro ⟨name', hpath, hmetadata, hsnapshot, hload, hdata⟩
    obtain ⟨metadata, snapshotPath, metadataPath⟩ := info
    cases hpath
    obtain rfl : snapshotPath = snapshotFile name := hsnapshot
    obtain rfl : metadataPath = metadataFile name := hmetadata
    have hload' : loadMetadata J dir ⟨name, some metadataExtension⟩ = .ok metadata := hload
    rw [snapshotInfo, if_pos rfl, hload']
    exact if_pos hdata

theorem mem_listSnapshots {order : MapOrder FileName Bytes} {dir : Directory}
    {info : SnapshotInfo} :
    info ∈ listSnapshots J order dir ↔ snapshotInfo J dir info.metadataPath = some info := by
  rw [listSnapshots, List.mem_mergeSort, List.mem_filterMap]
  constructor
  · rintro ⟨path, -, h⟩
    obtain ⟨name, rfl, hmetadata, -⟩ := snapshotInfo_eq_some.mp h
    rwa [hmetadata]
  · intro h
    obtain ⟨name, -, hmetadata, -, hload, -⟩ := snapshotInfo_eq_some.mp h
    obtain ⟨data, hdata, -⟩ := loadMetadata_eq_ok.mp hload
    refine ⟨info.metadataPath, order.mem_keys.mpr ?_, h⟩
    rw [hmetadata]
    exact Finmap.mem_of_lookup_eq_some hdata

theorem nodup_listSnapshots {order : MapOrder FileName Bytes} {dir : Directory} :
    (listSnapshots J order dir).Nodup := by
  have hnodup : ((order.keys dir).filterMap (snapshotInfo J dir)).Nodup := by
    refine (order.nodup_keys dir).filterMap ?_
    intro path path' info hpath hpath'
    obtain ⟨name, rfl, hmetadata, -⟩ := snapshotInfo_eq_some.mp hpath
    obtain ⟨name', rfl, hmetadata', -⟩ := snapshotInfo_eq_some.mp hpath'
    exact hmetadata.symm.trans hmetadata'
  exact (List.mergeSort_perm _ _).nodup_iff.mpr hnodup

theorem pairwise_listSnapshots {order : MapOrder FileName Bytes} {dir : Directory} :
    (listSnapshots J order dir).Pairwise fun a b =>
      b.metadata.blockHeight ≤ a.metadata.blockHeight := by
  rw [listSnapshots]
  generalize (order.keys dir).filterMap (snapshotInfo J dir) = infos
  refine (List.pairwise_mergeSort ?_ ?_ infos).imp of_decide_eq_true
  · intro a b c hab hbc
    exact decide_eq_true (UInt64.le_trans (of_decide_eq_true hbc) (of_decide_eq_true hab))
  · intro a b
    rw [Bool.or_eq_true, decide_eq_true_eq, decide_eq_true_eq]
    exact UInt64.le_total _ _

/-! ## What is deleted -/

/-- The files of the first directory are files of the second. -/
def Fewer (dir' dir : Directory) : Prop :=
  ∀ path data, dir'.lookup path = some data → dir.lookup path = some data

theorem Fewer.refl (dir : Directory) : Fewer dir dir := fun _ _ h => h

theorem Fewer.trans {dir dir' dir'' : Directory} (h : Fewer dir'' dir') (h' : Fewer dir' dir) :
    Fewer dir'' dir := fun path data hdata => h' path data (h path data hdata)

theorem Fewer.lookup_eq_none {dir dir' : Directory} {path : FileName} (h : Fewer dir' dir)
    (hnone : dir.lookup path = none) : dir'.lookup path = none := by
  cases hdata : dir'.lookup path with
  | none => rfl
  | some data =>
      rw [h path data hdata] at hnone
      cases hnone

theorem fewer_erase {dir : Directory} {path : FileName} : Fewer (dir.erase path) dir := by
  intro path' data hdata
  by_cases hsame : path' = path
  · rw [hsame, Finmap.lookup_erase] at hdata
    cases hdata
  · rwa [Finmap.lookup_erase_ne hsame] at hdata

/-- The data of these snapshots are gone, and maybe their metadata; no other file has changed. -/
structure Gone (infos : List SnapshotInfo) (dir dir' : Directory) : Prop where
  data : ∀ info ∈ infos, dir'.lookup info.snapshotPath = none
  same : ∀ path, (∀ info ∈ infos, path ≠ info.snapshotPath ∧ path ≠ info.metadataPath) →
    dir'.lookup path = dir.lookup path
  fewer : Fewer dir' dir

theorem Gone.nil (dir : Directory) : Gone [] dir dir := ⟨nofun, fun _ _ => rfl, .refl dir⟩

theorem Gone.append {infos infos' : List SnapshotInfo} {dir dir' dir'' : Directory}
    (h : Gone infos dir dir') (h' : Gone infos' dir' dir'') : Gone (infos ++ infos') dir dir'' where
  data info hmem := by
    rcases List.mem_append.mp hmem with hmem | hmem
    · exact h'.fewer.lookup_eq_none (h.data info hmem)
    · exact h'.data info hmem
  same path hpath := by
    rw [h'.same path fun info hmem => hpath info (List.mem_append_right _ hmem),
      h.same path fun info hmem => hpath info (List.mem_append_left _ hmem)]
  fewer := h'.fewer.trans h.fewer

/-- No removal of a file of these snapshots is refused. -/
def Removes (V : Volume) (infos : List SnapshotInfo) : Prop :=
  ∀ info ∈ infos, V.remove info.snapshotPath = none ∧ V.remove info.metadataPath = none

theorem exec_removeFile (V : Volume) {dir : Directory} {path : FileName}
    (h : (dir.lookup path).isSome) :
    (V.remove path = none ∧ (removeFile V path).exec dir = (.ok (), dir.erase path)) ∨
    ∃ e, V.remove path = some e ∧ (removeFile V path).exec dir = (fail (.ioError e), dir) := by
  obtain ⟨data, hdata⟩ := Option.isSome_iff_exists.mp h
  rw [removeFile, Exec.exec_get_bind, lookup_openFile.mpr hdata, Exec.exec_lift_ok_bind]
  cases V.remove path with
  | none => exact Or.inl ⟨rfl, rfl⟩
  | some e => exact Or.inr ⟨e, rfl, rfl⟩

/-- Both files of a snapshot that is listed are there; the data go first. -/
theorem exec_deleteSnapshot (V : Volume) {dir : Directory} {info : SnapshotInfo}
    (h : snapshotInfo J dir info.metadataPath = some info) :
    ∃ result dir', (deleteSnapshot V info).exec dir = (result, dir') ∧
      ((result = .ok () ∧ Removes V [info] ∧ Gone [info] dir dir' ∧
          dir'.lookup info.metadataPath = none) ∨
        (∃ e, result = fail (.ioError e)) ∧ ¬Removes V [info] ∧
          (dir' = dir ∨ Gone [info] dir dir')) := by
  obtain ⟨name, -, hmetadata, hsnapshot, hload, hdata⟩ := snapshotInfo_eq_some.mp h
  obtain ⟨data, hlookup, -⟩ := loadMetadata_eq_ok.mp hload
  rw [deleteSnapshot, Exec.exec_bind, hsnapshot, hmetadata]
  rcases exec_removeFile V hdata with ⟨hfirst, hexec⟩ | ⟨e, hfirst, hexec⟩
  swap
  · refine ⟨_, _, by rw [hexec]; rfl, Or.inr ⟨⟨e, rfl⟩, fun hremoves => ?_, Or.inl rfl⟩⟩
    have hnone := (hremoves info List.mem_cons_self).1
    rw [hsnapshot, hfirst] at hnone
    cases hnone
  have hthere : ((dir.erase (snapshotFile name)).lookup (metadataFile name)).isSome := by
    rw [Finmap.lookup_erase_ne metadataFile_ne, hlookup]
    rfl
  have hsame : ∀ path, (∀ info' ∈ [info], path ≠ info'.snapshotPath ∧ path ≠ info'.metadataPath) →
      path ≠ snapshotFile name ∧ path ≠ metadataFile name := by
    intro path hpath
    have hboth := hpath info List.mem_cons_self
    rwa [hsnapshot, hmetadata] at hboth
  rw [hexec]
  dsimp only
  rcases exec_removeFile V hthere with ⟨hsecond, hexec'⟩ | ⟨e, hsecond, hexec'⟩
  · refine ⟨_, _, hexec', Or.inl ⟨rfl, ?_, ⟨?_, ?_, fewer_erase.trans fewer_erase⟩, ?_⟩⟩
    · rw [Removes, List.forall_mem_singleton, hsnapshot, hmetadata]
      exact ⟨hfirst, hsecond⟩
    · rw [List.forall_mem_singleton, hsnapshot, Finmap.lookup_erase_ne snapshotFile_ne,
        Finmap.lookup_erase]
    · intro path hpath
      rw [Finmap.lookup_erase_ne (hsame path hpath).2, Finmap.lookup_erase_ne (hsame path hpath).1]
    · rw [Finmap.lookup_erase]
  · refine ⟨_, _, hexec', Or.inr ⟨⟨e, rfl⟩, fun hremoves => ?_, Or.inr ⟨?_, ?_, fewer_erase⟩⟩⟩
    · have hnone := (hremoves info List.mem_cons_self).2
      rw [hmetadata, hsecond] at hnone
      cases hnone
    · rw [List.forall_mem_singleton, hsnapshot, Finmap.lookup_erase]
    · intro path hpath
      rw [Finmap.lookup_erase_ne (hsame path hpath).1]

/-- A name belongs to one snapshot, so its data are gone or both its files are as they were. -/
theorem Gone.files {dir dir' : Directory} {infos : List SnapshotInfo}
    (hlisted : ∀ info ∈ infos, snapshotInfo J dir info.metadataPath = some info)
    (hgone : Gone infos dir dir') (name : String) :
    (∃ deleted ∈ infos, deleted.metadataPath = metadataFile name) ∧
        dir'.lookup (snapshotFile name) = none ∨
      (¬∃ deleted ∈ infos, deleted.metadataPath = metadataFile name) ∧
        dir'.lookup (metadataFile name) = dir.lookup (metadataFile name) ∧
        dir'.lookup (snapshotFile name) = dir.lookup (snapshotFile name) := by
  have hname : ∀ deleted ∈ infos, ∃ name', deleted.metadataPath = metadataFile name' ∧
      deleted.snapshotPath = snapshotFile name' := by
    intro deleted hmem
    obtain ⟨name', -, hmetadata, hsnapshot, -⟩ := snapshotInfo_eq_some.mp (hlisted _ hmem)
    exact ⟨name', hmetadata, hsnapshot⟩
  by_cases hthere : ∃ deleted ∈ infos, deleted.metadataPath = metadataFile name
  · refine Or.inl ⟨hthere, ?_⟩
    obtain ⟨deleted, hmem, hpath⟩ := hthere
    obtain ⟨name', hmetadata, hsnapshot⟩ := hname deleted hmem
    obtain rfl : name' = name := metadataFile_inj.mp (hmetadata.symm.trans hpath)
    rw [← hsnapshot, hgone.data deleted hmem]
  · refine Or.inr ⟨hthere, hgone.same _ ?_, hgone.same _ ?_⟩
    · intro deleted hmem
      obtain ⟨name', hmetadata, hsnapshot⟩ := hname deleted hmem
      rw [hsnapshot]
      exact ⟨metadataFile_ne, fun h => hthere ⟨deleted, hmem, h.symm⟩⟩
    · intro deleted hmem
      obtain ⟨name', hmetadata, hsnapshot⟩ := hname deleted hmem
      rw [hsnapshot, hmetadata]
      refine ⟨fun h => hthere ⟨deleted, hmem, ?_⟩, snapshotFile_ne⟩
      rw [hmetadata, snapshotFile_inj.mp h]

/-- What is listed once the data of some of the listed snapshots are gone: the others. -/
theorem snapshotInfo_gone {dir dir' : Directory} {infos : List SnapshotInfo}
    (hlisted : ∀ info ∈ infos, snapshotInfo J dir info.metadataPath = some info)
    (hgone : Gone infos dir dir') {info : SnapshotInfo} :
    snapshotInfo J dir' info.metadataPath = some info ↔
      snapshotInfo J dir info.metadataPath = some info ∧ info ∉ infos := by
  simp only [snapshotInfo_eq_some]
  constructor
  · rintro ⟨name, hpath, hmetadata, hsnapshot, hload, hdata⟩
    rcases hgone.files hlisted name with ⟨-, hnone⟩ | ⟨hkept, hsame, hsame'⟩
    · rw [hnone] at hdata
      cases hdata
    · rw [loadMetadata_congr hsame] at hload
      rw [hsame'] at hdata
      exact ⟨⟨name, hpath, hmetadata, hsnapshot, hload, hdata⟩,
        fun hmem => hkept ⟨info, hmem, hmetadata⟩⟩
  · rintro ⟨⟨name, hpath, hmetadata, hsnapshot, hload, hdata⟩, hkept⟩
    rcases hgone.files hlisted name with ⟨⟨deleted, hmem, hdeleted⟩, -⟩ | ⟨-, hsame, hsame'⟩
    · have hinfo := snapshotInfo_eq_some.mpr ⟨name, hpath, hmetadata, hsnapshot, hload, hdata⟩
      have hother := hlisted deleted hmem
      rw [hdeleted, ← hmetadata, hinfo] at hother
      cases hother
      exact absurd hmem hkept
    · rw [← loadMetadata_congr hsame] at hload
      rw [← hsame'] at hdata
      exact ⟨name, hpath, hmetadata, hsnapshot, hload, hdata⟩

theorem listed_gone {dir dir' : Directory} {info : SnapshotInfo} {infos : List SnapshotInfo}
    (hnodup : (info :: infos).Nodup)
    (hlisted : ∀ later ∈ info :: infos, snapshotInfo J dir later.metadataPath = some later)
    (hgone : Gone [info] dir dir') :
    ∀ later ∈ infos, snapshotInfo J dir' later.metadataPath = some later := by
  intro later hmem
  rw [snapshotInfo_gone (List.forall_mem_singleton.mpr (hlisted info List.mem_cons_self)) hgone]
  refine ⟨hlisted later (List.mem_cons_of_mem _ hmem), ?_⟩
  rw [List.mem_singleton]
  rintro rfl
  exact (List.nodup_cons.mp hnodup).1 hmem

/-- How far deleting gets: to the end, or to a file that is not removed. -/
theorem exec_deleteSnapshots (V : Volume) {dir : Directory} {infos : List SnapshotInfo}
    (hnodup : infos.Nodup)
    (hlisted : ∀ info ∈ infos, snapshotInfo J dir info.metadataPath = some info) :
    ∃ result dir' gone, (deleteSnapshots V infos).exec dir = (result, dir') ∧
      gone ≤ infos.length ∧ Gone (infos.take gone) dir dir' ∧
      ((result = .ok () ∧ gone = infos.length ∧ Removes V infos ∧
          ∀ info ∈ infos, dir'.lookup info.metadataPath = none) ∨
        (∃ e, result = fail (.ioError e)) ∧ ¬Removes V infos) := by
  induction infos generalizing dir with
  | nil => exact ⟨_, dir, 0, rfl, le_refl _, .nil dir, Or.inl ⟨rfl, rfl, nofun, nofun⟩⟩
  | cons info infos ih =>
      rw [deleteSnapshots, Exec.exec_bind]
      obtain ⟨result, dir₁, hexec, hfirst⟩ :=
        exec_deleteSnapshot V (hlisted info List.mem_cons_self)
      rw [hexec]
      rcases hfirst with ⟨rfl, hremoves, hgone, hnone⟩ | ⟨⟨e, rfl⟩, hnot, hsame⟩
      · obtain ⟨result, dir', gone, hrest, hle, hgone', hend⟩ :=
          ih (List.nodup_cons.mp hnodup).2 (listed_gone hnodup hlisted hgone)
        refine ⟨result, dir', gone + 1, hrest, Nat.succ_le_succ hle, hgone.append hgone', ?_⟩
        have hall : Removes V (info :: infos) ↔ Removes V infos := by
          rw [Removes, List.forall_mem_cons]
          exact and_iff_right (hremoves info List.mem_cons_self)
        rw [hall]
        rcases hend with ⟨hok, rfl, hremoves', hnone'⟩ | herror
        · refine Or.inl ⟨hok, rfl, hremoves', List.forall_mem_cons.mpr ⟨?_, hnone'⟩⟩
          exact hgone'.fewer.lookup_eq_none hnone
        · exact Or.inr herror
      · have hnot' : ¬Removes V (info :: infos) := fun h =>
          hnot (List.forall_mem_singleton.mpr (h info List.mem_cons_self))
        rcases hsame with rfl | hgone
        · exact ⟨_, dir₁, 0, rfl, Nat.zero_le _, .nil dir₁, Or.inr ⟨⟨e, rfl⟩, hnot'⟩⟩
        · exact ⟨_, dir₁, 1, rfl, Nat.succ_le_succ (Nat.zero_le _), hgone,
            Or.inr ⟨⟨e, rfl⟩, hnot'⟩⟩

/-- The snapshots that are older. -/
def olderThan (beforeTimestamp : Timestamp) (infos : List SnapshotInfo) : List SnapshotInfo :=
  infos.filter fun info => decide (info.metadata.createdAt < beforeTimestamp)

theorem exec_deleteBefore {V : Volume} {beforeTimestamp : Timestamp} {dir dir' : Directory}
    {infos : List SnapshotInfo} {deleted : Nat} {result : Result Unit}
    (h : (deleteSnapshots V (olderThan beforeTimestamp infos)).exec dir = (result, dir')) :
    (deleteBefore V beforeTimestamp infos deleted).exec dir =
      (result.map fun _ => deleted + (olderThan beforeTimestamp infos).length, dir') := by
  induction infos generalizing dir deleted with
  | nil =>
      cases h
      rfl
  | cons info infos ih =>
      by_cases hold : info.metadata.createdAt < beforeTimestamp
      · have holder : olderThan beforeTimestamp (info :: infos) =
            info :: olderThan beforeTimestamp infos := by simp [olderThan, hold]
        rw [holder, deleteSnapshots, Exec.exec_bind] at h
        rw [deleteBefore, if_pos hold, holder, Exec.exec_bind]
        rcases hfirst : (deleteSnapshot V info).exec dir with ⟨first, dir₁⟩
        rw [hfirst] at h
        cases first with
        | error e =>
            cases h
            rfl
        | ok =>
            dsimp only
            rw [ih h, List.length_cons, Nat.add_assoc, Nat.add_comm 1]
      · have holder : olderThan beforeTimestamp (info :: infos) =
            olderThan beforeTimestamp infos := by simp [olderThan, hold]
        rw [holder] at h ⊢
        rw [deleteBefore, if_neg hold]
        exact ih h

/-- What is listed after some of the listed snapshots are gone, in whatever order the directory
is read then. -/
theorem listSnapshots_gone {order order' : MapOrder FileName Bytes} {dir dir' : Directory}
    {deleted kept : List SnapshotInfo} (h : (kept ++ deleted).Perm (listSnapshots J order dir))
    {gone : Nat} (hgone : Gone (deleted.take gone) dir dir') :
    (listSnapshots J order' dir').Perm (kept ++ deleted.drop gone) := by
  have hnodup : (kept ++ deleted).Nodup := h.nodup_iff.mpr nodup_listSnapshots
  have hsplit : (kept ++ deleted).Perm (deleted.take gone ++ (kept ++ deleted.drop gone)) := by
    calc (kept ++ deleted).Perm (kept ++ (deleted.take gone ++ deleted.drop gone)) := by
          rw [List.take_append_drop]
      _ = (kept ++ deleted.take gone) ++ deleted.drop gone := (List.append_assoc ..).symm
      List.Perm _ ((deleted.take gone ++ kept) ++ deleted.drop gone) :=
          List.perm_append_comm.append_right _
      _ = deleted.take gone ++ (kept ++ deleted.drop gone) := List.append_assoc ..
  obtain ⟨-, hkept, hdisjoint⟩ := List.nodup_append'.mp (hsplit.nodup_iff.mp hnodup)
  refine (List.perm_ext_iff_of_nodup nodup_listSnapshots hkept).mpr ?_
  intro info
  have hlisted : ∀ info ∈ deleted.take gone, snapshotInfo J dir info.metadataPath = some info := by
    intro info hmem
    refine mem_listSnapshots.mp (h.mem_iff.mp ?_)
    exact List.mem_append_right kept (List.mem_of_mem_take hmem)
  have hbefore : info ∈ listSnapshots J order dir ↔
      snapshotInfo J dir info.metadataPath = some info := mem_listSnapshots
  rw [mem_listSnapshots, snapshotInfo_gone hlisted hgone, ← hbefore, ← h.mem_iff,
    hsplit.mem_iff, List.mem_append]
  constructor
  · rintro ⟨hmem | hmem, hnot⟩
    · exact absurd hmem hnot
    · exact hmem
  · intro hmem
    exact ⟨Or.inr hmem, fun hmem' => hdisjoint hmem' hmem⟩

theorem getLatestSnapshot_ge {order : MapOrder FileName Bytes} {dir : Directory}
    {latest : SnapshotInfo} (h : getLatestSnapshot J order dir = some latest) :
    latest ∈ listSnapshots J order dir ∧ ∀ info ∈ listSnapshots J order dir,
      info.metadata.blockHeight ≤ latest.metadata.blockHeight := by
  have hsorted : (listSnapshots J order dir).Pairwise fun a b =>
      b.metadata.blockHeight ≤ a.metadata.blockHeight := pairwise_listSnapshots
  rw [getLatestSnapshot] at h
  cases hlist : listSnapshots J order dir with
  | nil =>
      rw [hlist] at h
      cases h
  | cons first rest =>
      rw [hlist] at h hsorted
      cases h
      refine ⟨List.mem_cons_self, List.forall_mem_cons.mpr ⟨UInt64.le_refl _, ?_⟩⟩
      exact (List.pairwise_cons.mp hsorted).1

theorem height_getLatestSnapshot {order order' : MapOrder FileName Bytes} {dir dir' : Directory}
    (hsub : ∀ info ∈ listSnapshots J order' dir', info ∈ listSnapshots J order dir)
    (hlatest : ∀ latest ∈ getLatestSnapshot J order dir, latest ∈ listSnapshots J order' dir') :
    (getLatestSnapshot J order' dir').map (fun info => info.metadata.blockHeight) =
      (getLatestSnapshot J order dir).map fun info => info.metadata.blockHeight := by
  cases hold : getLatestSnapshot J order dir with
  | none =>
      rw [getLatestSnapshot, List.head?_eq_none_iff] at hold
      have hnone : getLatestSnapshot J order' dir' = none := by
        rw [getLatestSnapshot, List.head?_eq_none_iff, List.eq_nil_iff_forall_not_mem]
        intro info hmem
        have hbefore := hsub info hmem
        rw [hold] at hbefore
        exact absurd hbefore List.not_mem_nil
      rw [hnone]
  | some latest =>
      have hthere := hlatest latest hold
      cases hnew : getLatestSnapshot J order' dir' with
      | none =>
          rw [getLatestSnapshot, List.head?_eq_none_iff] at hnew
          rw [hnew] at hthere
          exact absurd hthere List.not_mem_nil
      | some latest' =>
          obtain ⟨hmem', hmost'⟩ := getLatestSnapshot_ge hnew
          have hle := hmost' latest hthere
          have hge := (getLatestSnapshot_ge hold).2 latest' (hsub latest' hmem')
          exact congrArg some (UInt64.le_antisymm hge hle)

/-- A list of listed snapshots, and some of them deleted: what is left in the directory, and
what is listed then. -/
theorem deleteSnapshots_listed (V : Volume) {order : MapOrder FileName Bytes} {dir : Directory}
    {kept deleted : List SnapshotInfo} (h : (kept ++ deleted).Perm (listSnapshots J order dir)) :
    ∃ result dir' gone, (deleteSnapshots V deleted).exec dir = (result, dir') ∧
      gone ≤ deleted.length ∧ Gone (deleted.take gone) dir dir' ∧
      ((result = .ok () ∧ gone = deleted.length ∧ Removes V deleted ∧
          ∀ info ∈ deleted, dir'.lookup info.metadataPath = none) ∨
        (∃ e, result = fail (.ioError e)) ∧ ¬Removes V deleted) ∧
      ∀ order', (listSnapshots J order' dir').Perm (kept ++ deleted.drop gone) := by
  have hnodup : (kept ++ deleted).Nodup := h.nodup_iff.mpr nodup_listSnapshots
  have hlisted : ∀ info ∈ deleted, snapshotInfo J dir info.metadataPath = some info := by
    intro info hmem
    exact mem_listSnapshots.mp (h.mem_iff.mp (List.mem_append_right kept hmem))
  obtain ⟨result, dir', gone, hexec, hle, hgone, hend⟩ :=
    exec_deleteSnapshots V (List.nodup_append'.mp hnodup).2.1 hlisted
  exact ⟨result, dir', gone, hexec, hle, hgone, hend, fun _ => listSnapshots_gone h hgone⟩

theorem Gone.lookup_eq {infos : List SnapshotInfo} {dir dir' : Directory}
    (h : Gone infos dir dir') (hmetadata : ∀ info ∈ infos, dir'.lookup info.metadataPath = none)
    (path : FileName) :
    dir'.lookup path =
      if ∃ info ∈ infos, path = info.snapshotPath ∨ path = info.metadataPath then none
      else dir.lookup path := by
  split
  · next hthere =>
      obtain ⟨info, hmem, rfl | rfl⟩ := hthere
      · exact h.data info hmem
      · exact hmetadata info hmem
  · next hnot =>
      refine h.same path fun info hmem => ⟨?_, ?_⟩
      · exact fun hpath => hnot ⟨info, hmem, Or.inl hpath⟩
      · exact fun hpath => hnot ⟨info, hmem, Or.inr hpath⟩

theorem exec_pruneOldSnapshots {V : Volume} {order : MapOrder FileName Bytes} {keepCount : Nat}
    {dir dir' : Directory} {result : Result Unit}
    (h : (deleteSnapshots V ((listSnapshots J order dir).drop keepCount)).exec dir =
      (result, dir')) :
    (pruneOldSnapshots V J order keepCount).exec dir =
      (result.map fun _ => ((listSnapshots J order dir).drop keepCount).length, dir') := by
  rw [pruneOldSnapshots, Exec.exec_get_bind]
  dsimp only
  split
  · next hshort =>
      rw [List.drop_eq_nil_of_le hshort] at h ⊢
      cases h
      rfl
  · rw [Exec.exec_bind, h]
    cases result with
    | ok => rfl
    | error e => rfl

/-- **Pruning keeps the highest snapshots.**  `prune_old_snapshots` keeps the first
`keep_count` snapshots that are listed, which are the highest, with both their files, and
touches no file of any other name.  If the file system removes the files of the others, `Ok`
is returned with their number and both files of each are gone; if it refuses one, `Err` is
returned, and a first part of the others has lost its data.  In whatever order the directory
is read afterwards, exactly the snapshots that have their data are listed, and the latest is
as high as before. -/
theorem pruneOldSnapshots_keeps (V : Volume) (J : SnapshotCodec)
    (order : MapOrder FileName Bytes) (keepCount : Nat) (dir : Directory) :
    ∃ kept deleted gone result dir', listSnapshots J order dir = kept ++ deleted ∧
      kept.length = min keepCount (listSnapshots J order dir).length ∧
      (∀ info ∈ kept, ∀ info' ∈ deleted,
        info'.metadata.blockHeight ≤ info.metadata.blockHeight) ∧
      (pruneOldSnapshots V J order keepCount).exec dir = (result, dir') ∧
      gone ≤ deleted.length ∧
      ((result = .ok deleted.length ∧ gone = deleted.length ∧ Removes V deleted ∧
          ∀ path, dir'.lookup path =
            if ∃ info ∈ deleted, path = info.snapshotPath ∨ path = info.metadataPath then none
            else dir.lookup path) ∨
        (∃ e, result = fail (.ioError e)) ∧ ¬Removes V deleted) ∧
      Gone (deleted.take gone) dir dir' ∧
      ∀ order', (listSnapshots J order' dir').Perm (kept ++ deleted.drop gone) ∧
        (0 < keepCount →
          (getLatestSnapshot J order' dir').map (fun info => info.metadata.blockHeight) =
            (getLatestSnapshot J order dir).map fun info => info.metadata.blockHeight) := by
  have hsplit := List.take_append_drop keepCount (listSnapshots J order dir)
  generalize hkept : (listSnapshots J order dir).take keepCount = kept at *
  generalize hdeleted : (listSnapshots J order dir).drop keepCount = deleted at *
  have hsorted : (kept ++ deleted).Pairwise fun a b =>
      b.metadata.blockHeight ≤ a.metadata.blockHeight := hsplit ▸ pairwise_listSnapshots
  obtain ⟨result, dir', gone, hexec, hle, hgone, hend, hlist⟩ :=
    deleteSnapshots_listed V (List.Perm.of_eq hsplit)
  have hprune : (pruneOldSnapshots V J order keepCount).exec dir =
      (result.map fun _ => deleted.length, dir') := by
    subst hdeleted
    exact exec_pruneOldSnapshots hexec
  refine ⟨kept, deleted, gone, _, dir', hsplit.symm, ?_, ?_, hprune, hle, ?_, hgone,
    fun order' => ⟨hlist order', fun hpos => height_getLatestSnapshot ?_ ?_⟩⟩
  · rw [← hkept, List.length_take]
  · exact (List.pairwise_append.mp hsorted).2.2
  · rcases hend with ⟨rfl, rfl, hremoves, hnone⟩ | ⟨⟨e, rfl⟩, hnot⟩
    · rw [List.take_length] at hgone
      exact Or.inl ⟨rfl, rfl, hremoves, hgone.lookup_eq hnone⟩
    · exact Or.inr ⟨⟨e, rfl⟩, hnot⟩
  · intro info hmem
    rw [← hsplit]
    rcases List.mem_append.mp ((hlist order').mem_iff.mp hmem) with hmem | hmem
    · exact List.mem_append_left deleted hmem
    · exact List.mem_append_right kept (List.mem_of_mem_drop hmem)
  · intro latest hlatest
    have hhead : ((listSnapshots J order dir).take keepCount).head? = some latest := by
      rw [List.head?_take, if_neg hpos.ne']
      exact hlatest
    rw [hkept] at hhead
    exact (hlist order').mem_iff.mpr (List.mem_append_left _ (List.mem_of_mem_head? hhead))

/-- What is left by `prune_snapshots_before`: the snapshots that are not older, and of the
others those that come after a file that is not removed. -/
theorem pruneSnapshotsBefore_keeps (V : Volume) (J : SnapshotCodec)
    (order : MapOrder FileName Bytes) (beforeTimestamp : Timestamp) (dir : Directory) :
    ∃ kept deleted gone result dir', kept = (listSnapshots J order dir).filter (fun info =>
        !decide (info.metadata.createdAt < beforeTimestamp)) ∧
      deleted = olderThan beforeTimestamp (listSnapshots J order dir) ∧
      (pruneSnapshotsBefore V J order beforeTimestamp).exec dir = (result, dir') ∧
      ((result = .ok deleted.length ∧ gone = deleted.length ∧ Removes V deleted) ∨
        (∃ e, result = fail (.ioError e)) ∧ ¬Removes V deleted) ∧
      ∀ order', (listSnapshots J order' dir').Perm (kept ++ deleted.drop gone) := by
  have hperm := List.filter_append_perm
    (fun info : SnapshotInfo => decide (info.metadata.createdAt < beforeTimestamp))
    (listSnapshots J order dir)
  obtain ⟨result, dir', gone, hexec, -, -, hend, hlist⟩ :=
    deleteSnapshots_listed V (List.perm_append_comm.trans hperm)
  have hprune : (pruneSnapshotsBefore V J order beforeTimestamp).exec dir =
      (result.map fun _ => 0 + (olderThan beforeTimestamp (listSnapshots J order dir)).length,
        dir') := by
    rw [pruneSnapshotsBefore, Exec.exec_get_bind]
    exact exec_deleteBefore hexec
  rw [Nat.zero_add] at hprune
  refine ⟨_, olderThan beforeTimestamp (listSnapshots J order dir), gone, _, dir', rfl, rfl,
    hprune, ?_, hlist⟩
  rcases hend with ⟨rfl, hgone, hremoves, -⟩ | ⟨⟨e, rfl⟩, hnot⟩
  · exact Or.inl ⟨rfl, hgone, hremoves⟩
  · exact Or.inr ⟨⟨e, rfl⟩, hnot⟩

/-! ## Whatever is created and deleted -/

/-- A call that changes the directory, with what the file system answers in it. -/
inductive SnapshotCall where
  | create (V : Volume) (timestamp : Timestamp) (blockHeight : BlockHeight)
      (blockHash : BlockHash) (chainId : String) (provider : SnapshotDataProvider)
  | delete (V : Volume) (info : SnapshotInfo)
  | pruneOld (V : Volume) (order : MapOrder FileName Bytes) (keepCount : Nat)
  | pruneBefore (V : Volume) (order : MapOrder FileName Bytes) (beforeTimestamp : Timestamp)

section Runs
variable (P : Primitives) (J : SnapshotCodec) (m : SnapshotManager)

/-- The directory after a call, whatever it returns. -/
def step (dir : Directory) : SnapshotCall → Directory
  | .create V timestamp blockHeight blockHash chainId provider =>
      ((createSnapshot V P J m timestamp blockHeight blockHash chainId provider).exec dir).2
  | .delete V info => ((deleteSnapshot V info).exec dir).2
  | .pruneOld V order keepCount => ((pruneOldSnapshots V J order keepCount).exec dir).2
  | .pruneBefore V order beforeTimestamp =>
      ((pruneSnapshotsBefore V J order beforeTimestamp).exec dir).2

/-- The metadata that a call to make a snapshot returns, with where the data came from. -/
def made (dir : Directory) : SnapshotCall → List (SnapshotMetadata × SnapshotDataProvider)
  | .create V timestamp blockHeight blockHash chainId provider =>
      match ((createSnapshot V P J m timestamp blockHeight blockHash chainId provider).exec
          dir).1 with
      | .ok metadata => [(metadata, provider)]
      | .error _ => []
  | .delete .. => []
  | .pruneOld .. => []
  | .pruneBefore .. => []

/-- The metadata that a call writes, if it comes to that. -/
def tried : SnapshotCall → List SnapshotMetadata
  | .create V timestamp blockHeight blockHash chainId provider =>
      (triedMetadata P V m timestamp blockHeight blockHash chainId provider).toList
  | .delete .. => []
  | .pruneOld .. => []
  | .pruneBefore .. => []

/-- A call to make a snapshot returns `Ok`, or there is none of its name. -/
def Harmless (dir : Directory) : SnapshotCall → Prop
  | .create V timestamp blockHeight blockHash chainId provider =>
      (∃ metadata, ((createSnapshot V P J m timestamp blockHeight blockHash chainId
        provider).exec dir).1 = .ok metadata) ∨
      dir.lookup (metadataFile (snapshotName blockHeight timestamp)) = none
  | .delete .. => True
  | .pruneOld .. => True
  | .pruneBefore .. => True

/-- The data of a snapshot that was made are in the file. -/
def Holds (dir : Directory) (created : List (SnapshotMetadata × SnapshotDataProvider))
    (info : SnapshotInfo) : Prop :=
  ∃ provider blocks state, (info.metadata, provider) ∈ created ∧
    provider.getBlocksForSnapshot = .ok blocks ∧ provider.getStateForSnapshot = .ok state ∧
    info.metadata.checksum = hashData P (m.snapshotBytes blocks.val state) ∧
    dir.lookup info.snapshotPath = some (m.snapshotBytes blocks.val state)

/-- What is listed in the directory is what was made. -/
def Backed (dir : Directory) (created : List (SnapshotMetadata × SnapshotDataProvider)) : Prop :=
  ∀ info, snapshotInfo J dir info.metadataPath = some info → Holds P m dir created info

end Runs

/-- A computation that at most deletes files. -/
def Deletes {α : Type} (c : Exec Directory α) : Prop := ∀ dir, Fewer (c.exec dir).2 dir

theorem Deletes.bind {α β : Type} {c : Exec Directory α} {f : α → Exec Directory β}
    (hc : Deletes c) (hf : ∀ a, Deletes (f a)) : Deletes (c >>= f) := by
  intro dir
  have hfirst := hc dir
  rw [Exec.exec_bind]
  rcases hexec : c.exec dir with ⟨result, dir'⟩
  rw [hexec] at hfirst
  cases result with
  | error e => exact hfirst
  | ok a => exact (hf a dir').trans hfirst

theorem deletes_pure {α : Type} (a : α) : Deletes (pure a) := fun dir => .refl dir

theorem deletes_removeFile (V : Volume) (path : FileName) : Deletes (removeFile V path) := by
  intro dir
  rw [removeFile, Exec.exec_get_bind]
  cases openFile dir path with
  | error e => exact .refl dir
  | ok data =>
      rw [Exec.exec_lift_ok_bind]
      cases V.remove path with
      | none => exact fewer_erase
      | some e => exact .refl dir

theorem deletes_deleteSnapshot (V : Volume) (info : SnapshotInfo) :
    Deletes (deleteSnapshot V info) :=
  (deletes_removeFile V info.snapshotPath).bind fun _ => deletes_removeFile V info.metadataPath

theorem deletes_deleteSnapshots (V : Volume) (infos : List SnapshotInfo) :
    Deletes (deleteSnapshots V infos) := by
  induction infos with
  | nil => exact deletes_pure ()
  | cons info infos ih => exact (deletes_deleteSnapshot V info).bind fun _ => ih

theorem deletes_deleteBefore (V : Volume) (beforeTimestamp : Timestamp)
    (infos : List SnapshotInfo) (deleted : Nat) :
    Deletes (deleteBefore V beforeTimestamp infos deleted) := by
  induction infos generalizing deleted with
  | nil => exact deletes_pure deleted
  | cons info infos ih =>
      rw [deleteBefore]
      split
      · exact (deletes_deleteSnapshot V info).bind fun _ => ih (deleted + 1)
      · exact ih deleted

section Kept
variable {m : SnapshotManager} {dir dir' : Directory}
  {created : List (SnapshotMetadata × SnapshotDataProvider)}

theorem Backed.fewer (h : Backed P J m dir created) (hfewer : Fewer dir' dir) :
    Backed P J m dir' created := by
  intro info hinfo
  obtain ⟨name, hpath, hmetadata, hsnapshot, hload, hdata⟩ := snapshotInfo_eq_some.mp hinfo
  obtain ⟨text, htext, hread⟩ := loadMetadata_eq_ok.mp hload
  obtain ⟨data, hdata⟩ := Option.isSome_iff_exists.mp hdata
  have hbefore := hfewer _ _ hdata
  obtain ⟨provider, blocks, state, hmade, hblocks, hstate, hsum, hwritten⟩ := h info
    (snapshotInfo_eq_some.mpr ⟨name, hpath, hmetadata, hsnapshot,
      loadMetadata_eq_ok.mpr ⟨text, hfewer _ _ htext, hread⟩,
      Option.isSome_iff_exists.mpr ⟨data, hbefore⟩⟩)
  refine ⟨provider, blocks, state, hmade, hblocks, hstate, hsum, ?_⟩
  rw [hsnapshot] at hwritten ⊢
  rw [hdata, ← hwritten, hbefore]

theorem Backed.write {made : List (SnapshotMetadata × SnapshotDataProvider)}
    (h : Backed P J m dir created) (written : String)
    (hother : ∀ name ≠ written, dir'.lookup (metadataFile name) = dir.lookup (metadataFile name) ∧
      dir'.lookup (snapshotFile name) = dir.lookup (snapshotFile name))
    (hwritten : ∀ info, info.metadataPath = metadataFile written →
      snapshotInfo J dir' info.metadataPath = some info → Holds P m dir' (created ++ made) info) :
    Backed P J m dir' (created ++ made) := by
  intro info hinfo
  obtain ⟨name, hpath, hmetadata, hsnapshot, hload, hdata⟩ := snapshotInfo_eq_some.mp hinfo
  by_cases hname : name = written
  · subst hname
    exact hwritten info hmetadata hinfo
  · obtain ⟨hsame, hsame'⟩ := hother name hname
    rw [loadMetadata_congr hsame] at hload
    rw [hsame'] at hdata
    obtain ⟨provider, blocks, state, hmade, hblocks, hstate, hsum, hbefore⟩ := h info
      (snapshotInfo_eq_some.mpr ⟨name, hpath, hmetadata, hsnapshot, hload, hdata⟩)
    refine ⟨provider, blocks, state, List.mem_append_left made hmade, hblocks, hstate, hsum, ?_⟩
    rw [hsnapshot] at hbefore ⊢
    rw [hsame', hbefore]

/-- What a call that returns an error leaves is not listed: there are no metadata of its name,
or they are cut off. -/
theorem Backed.create_error {V : Volume} {timestamp : Timestamp} {blockHeight : BlockHeight}
    {blockHash : BlockHash} {chainId : String} {provider : SnapshotDataProvider} {e : Fault}
    (h : Backed P J m dir created)
    (hcall : Harmless P J m dir (.create V timestamp blockHeight blockHash chainId provider))
    (hJ : J.Exact (tried P m (.create V timestamp blockHeight blockHash chainId provider)))
    (hexec : (createSnapshot V P J m timestamp blockHeight blockHash chainId provider).exec dir =
      (.error e, dir')) :
    Backed P J m dir' (created ++ []) := by
  have hnone : dir.lookup (metadataFile (snapshotName blockHeight timestamp)) = none := by
    rcases hcall with ⟨metadata, hok⟩ | hnone
    · rw [hexec] at hok
      cases hok
    · exact hnone
  obtain ⟨hothers, ⟨_, _, _, hok, -⟩ | ⟨-, hmetadata⟩⟩ := createSnapshot_cases hexec
  · cases hok
  refine h.write (snapshotName blockHeight timestamp) (fun name hname => ⟨?_, ?_⟩) ?_
  · exact hothers _ metadataFile_ne (by simpa using hname)
  · exact hothers _ (by simpa using hname) snapshotFile_ne
  · intro info hpath hinfo
    obtain ⟨name, -, hpath', -, hload, -⟩ := snapshotInfo_eq_some.mp hinfo
    obtain ⟨text, htext, hread⟩ := loadMetadata_eq_ok.mp hload
    rw [← hpath', hpath] at htext
    rcases hmetadata with hsame | ⟨metadata, taken, htried, hcut⟩
    · rw [hsame, hnone] at htext
      cases htext
    · have hmem : metadata ∈
          tried P m (.create V timestamp blockHeight blockHash chainId provider) := by
        rw [tried, htried]
        exact List.mem_cons_self
      obtain ⟨e, hunread⟩ := hJ.part metadata hmem taken
      rw [hcut] at htext
      cases htext
      rw [hunread] at hread
      cases hread

theorem Backed.create_ok {V : Volume} {timestamp : Timestamp} {blockHeight : BlockHeight}
    {blockHash : BlockHash} {chainId : String} {provider : SnapshotDataProvider}
    {metadata : SnapshotMetadata} (h : Backed P J m dir created)
    (hJ : J.Exact (tried P m (.create V timestamp blockHeight blockHash chainId provider)))
    (hexec : (createSnapshot V P J m timestamp blockHeight blockHash chainId provider).exec dir =
      (.ok metadata, dir')) :
    Backed P J m dir' (created ++ [(metadata, provider)]) := by
  obtain ⟨hothers, ⟨metadata', blocks, state, hok, htried, hblocks, hstate, hsum, hdata,
    hmetadata⟩ | ⟨⟨_, herror⟩, -⟩⟩ := createSnapshot_cases hexec
  swap
  · cases herror
  obtain rfl : metadata = metadata' := Except.ok.inj hok
  have hmem : metadata ∈
      tried P m (.create V timestamp blockHeight blockHash chainId provider) := by
    rw [tried, htried]
    exact List.mem_cons_self
  refine h.write (snapshotName blockHeight timestamp) (fun name hname => ⟨?_, ?_⟩) ?_
  · exact hothers _ metadataFile_ne (by simpa using hname)
  · exact hothers _ (by simpa using hname) snapshotFile_ne
  · intro info hpath hinfo
    obtain ⟨name, -, hpath', hsnapshot, hload, -⟩ := snapshotInfo_eq_some.mp hinfo
    obtain rfl : name = snapshotName blockHeight timestamp := by
      rw [hpath'] at hpath
      simpa using hpath
    obtain ⟨text, htext, hread⟩ := loadMetadata_eq_ok.mp hload
    rw [hmetadata] at htext
    obtain rfl : metadata = info.metadata := by
      rcases V.left_cases (metadataFile (snapshotName blockHeight timestamp))
        (J.toWriterPretty metadata) with hwhole | ⟨n, hcut⟩
      · rw [hwhole] at htext
        cases htext
        rw [hJ.whole metadata hmem] at hread
        exact Except.ok.inj hread
      · obtain ⟨e, hunread⟩ := hJ.part metadata hmem n
        rw [hcut] at htext
        cases htext
        rw [hunread] at hread
        cases hread
    refine ⟨provider, blocks, state, List.mem_append_right created List.mem_cons_self, hblocks,
      hstate, hsum, ?_⟩
    rw [hsnapshot, hdata]

/-- The step lemma: one case for each call. -/
theorem Backed.step {call : SnapshotCall} (h : Backed P J m dir created)
    (hcall : Harmless P J m dir call) (hJ : J.Exact (tried P m call)) :
    Backed P J m (step P J m dir call) (created ++ made P J m dir call) := by
  cases call with
  | create V timestamp blockHeight blockHash chainId provider =>
      rcases hexec : (createSnapshot V P J m timestamp blockHeight blockHash chainId
        provider).exec dir with ⟨result, dir'⟩
      rw [made, SnapshotManager.step, hexec]
      cases result with
      | error e => exact h.create_error hcall hJ hexec
      | ok metadata => exact h.create_ok hJ hexec
  | delete V info =>
      rw [made, List.append_nil]
      exact h.fewer (deletes_deleteSnapshot V info dir)
  | pruneOld V order keepCount =>
      rw [made, List.append_nil]
      refine h.fewer ?_
      rw [SnapshotManager.step, pruneOldSnapshots, Exec.exec_get_bind]
      dsimp only
      split
      · exact .refl dir
      · exact ((deletes_deleteSnapshots V _).bind fun _ => deletes_pure _) dir
  | pruneBefore V order beforeTimestamp =>
      rw [made, List.append_nil]
      refine h.fewer ?_
      rw [SnapshotManager.step, pruneSnapshotsBefore, Exec.exec_get_bind]
      exact deletes_deleteBefore V beforeTimestamp _ 0 dir

theorem backed_run {calls : List SnapshotCall} {dir₀ : Directory}
    (hstart : ∀ path, snapshotInfo J dir₀ path = none)
    (hharmless : Runs.Along (step P J m) (Harmless P J m) dir₀ calls)
    (hJ : J.Exact (calls.flatMap (tried P m))) :
    Backed P J m (Runs.run (step P J m) dir₀ calls)
      (Runs.trace (step P J m) (made P J m) dir₀ calls) := by
  induction calls using List.reverseRecOn with
  | nil =>
      intro info hinfo
      rw [Runs.run_nil, hstart] at hinfo
      cases hinfo
  | append_singleton calls call ih =>
      rw [Runs.along_concat] at hharmless
      rw [List.flatMap_append, List.flatMap_singleton] at hJ
      rw [Runs.run_concat, Runs.trace_concat]
      refine (ih hharmless.1 (hJ.mono ?_)).step hharmless.2 (hJ.mono ?_)
      · exact fun metadata hmem => List.mem_append_left _ hmem
      · exact fun metadata hmem => List.mem_append_right _ hmem

theorem listed_of_createSnapshot {V : Volume} {timestamp : Timestamp}
    {blockHeight : BlockHeight} {blockHash : BlockHash} {chainId : String}
    {provider : SnapshotDataProvider} {metadata : SnapshotMetadata} (hJ : J.Exact [metadata])
    (hwhole : ∀ path data, V.left path data = data)
    (hexec : (createSnapshot V P J m timestamp blockHeight blockHash chainId provider).exec dir =
      (.ok metadata, dir')) (order : MapOrder FileName Bytes) :
    ⟨metadata, snapshotFile (snapshotName blockHeight timestamp),
      metadataFile (snapshotName blockHeight timestamp)⟩ ∈ listSnapshots J order dir' := by
  obtain ⟨-, ⟨metadata', blocks, state, hok, -, -, -, -, hdata, hmetadata⟩ |
    ⟨⟨_, herror⟩, -⟩⟩ := createSnapshot_cases hexec
  swap
  · cases herror
  obtain rfl : metadata = metadata' := Except.ok.inj hok
  rw [hwhole] at hmetadata
  refine mem_listSnapshots.mpr (snapshotInfo_eq_some.mpr ⟨_, rfl, rfl, rfl, ?_, ?_⟩)
  · exact loadMetadata_eq_ok.mpr ⟨_, hmetadata, hJ.whole metadata List.mem_cons_self⟩
  · rw [hdata]
    rfl

/-- **What is listed can be restored.**  From a directory with no snapshot, let snapshots be
made, deleted and pruned, with any results and whatever the file system does; a call to make a
snapshot that returns `Err` does not meet one of its name.  Then every snapshot that is listed
passes its check, is one that was made, and hands over what the provider gave for it, if that
fits. -/
theorem listed_snapshots_restore (m : SnapshotManager) (dir₀ : Directory)
    (hstart : ∀ path, snapshotInfo J dir₀ path = none) (calls : List SnapshotCall)
    (hharmless : Runs.Along (step P J m) (Harmless P J m) dir₀ calls)
    (hJ : J.Exact (calls.flatMap (tried P m)))
    (order : MapOrder FileName Bytes) (info : SnapshotInfo)
    (hmem : info ∈ listSnapshots J order (Runs.run (step P J m) dir₀ calls)) :
    verifySnapshot P (Runs.run (step P J m) dir₀ calls) info = .ok true ∧
    ∃ provider blocks state,
      (info.metadata, provider) ∈ Runs.trace (step P J m) (made P J m) dir₀ calls ∧
      provider.getBlocksForSnapshot = .ok blocks ∧ provider.getStateForSnapshot = .ok state ∧
      ((∀ block ∈ blocks.val, Fits block) → Fits state →
        ∀ (ρ : Type) (R : SnapshotDataRestorer ρ), NeverFails R → ∀ r,
          (restoreSnapshot P J m R (Runs.run (step P J m) dir₀ calls) info.snapshotPath).exec r =
            (.ok info.metadata, delivered R blocks.val state r)) := by
  have hbacked := backed_run hstart hharmless hJ
  generalize Runs.run (step P J m) dir₀ calls = dir at *
  have hinfo := mem_listSnapshots.mp hmem
  obtain ⟨provider, blocks, state, hmade, hblocks, hstate, hsum, hdata⟩ := hbacked info hinfo
  constructor
  · rw [verifySnapshot, calculateChecksum_eq hdata, hsum]
    exact congrArg Except.ok (decide_eq_true rfl)
  · refine ⟨provider, blocks, state, hmade, hblocks, hstate, ?_⟩
    intro hfits hfits' ρ R hR r
    obtain ⟨name, -, -, hsnapshot, hload, -⟩ := snapshotInfo_eq_some.mp hinfo
    rw [hsnapshot] at hdata ⊢
    exact exec_restoreSnapshot_written hload hdata hsum hfits hfits' hR r

/-- The disk is full while the metadata are saved; the second attempt succeeds, and only its
snapshot is listed. -/
theorem listed_snapshots_restore_again :
    ∃ dir, dir = Runs.run (step primitives (snapshotCodec snapshotMetadata) new) ∅
        [.create fullVolume 1000 5 BlockHash.zero "voting-chain" snapshotProvider,
          .create volume 1000 5 BlockHash.zero "voting-chain" snapshotProvider] ∧
      verifySnapshot primitives dir ⟨snapshotMetadata, snapshotFile (snapshotName 5 1000),
        metadataFile (snapshotName 5 1000)⟩ = .ok true ∧
      (restoreSnapshot primitives (snapshotCodec snapshotMetadata) new recorder dir
          (snapshotFile (snapshotName 5 1000))).exec ⟨[], none⟩ =
        (.ok snapshotMetadata, ⟨[[1, 2, 3], [4, 5, 6]], some [7, 8, 9]⟩) := by
  obtain ⟨dir₁, hdir₁⟩ : ∃ dir₁, dir₁ = step primitives (snapshotCodec snapshotMetadata) new ∅
    (.create fullVolume 1000 5 BlockHash.zero "voting-chain" snapshotProvider) := ⟨_, rfl⟩
  have hresult := exec_createSnapshot_sample (snapshotCodec snapshotMetadata) dir₁
  rcases hcreate : (createSnapshot volume primitives (snapshotCodec snapshotMetadata) new 1000 5
    BlockHash.zero "voting-chain" snapshotProvider).exec dir₁ with ⟨result, dir₂⟩
  rw [hcreate] at hresult
  obtain rfl : result = .ok snapshotMetadata := hresult
  have hfailed : made primitives (snapshotCodec snapshotMetadata) new ∅
      (.create fullVolume 1000 5 BlockHash.zero "voting-chain" snapshotProvider) = [] := by
    rw [made, exec_createSnapshot_full]
    rfl
  have hmade : made primitives (snapshotCodec snapshotMetadata) new dir₁
      (.create volume 1000 5 BlockHash.zero "voting-chain" snapshotProvider) =
      [(snapshotMetadata, snapshotProvider)] := by rw [made, hcreate]
  have hrun : step primitives (snapshotCodec snapshotMetadata) new dir₁
      (.create volume 1000 5 BlockHash.zero "voting-chain" snapshotProvider) = dir₂ := by
    rw [step, hcreate]
  have hstart : ∀ path, snapshotInfo (snapshotCodec snapshotMetadata) ∅ path = none := by
    intro path
    refine Option.eq_none_iff_forall_not_mem.mpr fun info hinfo => ?_
    obtain ⟨name, -, -, -, -, hdata⟩ := snapshotInfo_eq_some.mp hinfo
    rw [Finmap.lookup_empty] at hdata
    cases hdata
  have hwhole : ∀ path data, volume.left path data = data := fun _ _ => List.take_length
  have hlisted := listed_of_createSnapshot (exact_snapshotCodec fun _ => List.mem_singleton.mp)
    hwhole hcreate default
  have htried : ∀ metadata ∈ [SnapshotCall.create fullVolume 1000 5 BlockHash.zero "voting-chain"
        snapshotProvider, .create volume 1000 5 BlockHash.zero "voting-chain"
        snapshotProvider].flatMap (tried primitives new), metadata = snapshotMetadata := by
    simp [tried, triedMetadata_sample fullVolume rfl, triedMetadata_sample volume rfl]
  obtain ⟨hverify, provider, blocks, state, hmem, hblocks, hstate, hrestore⟩ :=
    listed_snapshots_restore new ∅ hstart
      [.create fullVolume 1000 5 BlockHash.zero "voting-chain" snapshotProvider,
        .create volume 1000 5 BlockHash.zero "voting-chain" snapshotProvider]
      ⟨Or.inr (Finmap.lookup_empty _), Or.inl ⟨_, by rw [← hdir₁, hcreate]⟩, trivial⟩
      (exact_snapshotCodec htried)
      default _ (by rw [Runs.run_cons, Runs.run_cons, Runs.run_nil, ← hdir₁, hrun]; exact hlisted)
  rw [Runs.trace, Runs.trace, Runs.trace, hfailed, ← hdir₁, hmade] at hmem
  simp at hmem
  obtain rfl := hmem
  cases hblocks
  cases hstate
  refine ⟨_, rfl, hverify, ?_⟩
  rw [← delivered_recorder]
  exact hrestore (by simp [Fits]) (by simp [Fits]) Recorder recorder neverFails_recorder ⟨[], none⟩

end Kept

end SnapshotManager

end VotingChain
