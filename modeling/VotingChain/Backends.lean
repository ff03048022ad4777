/-
# `VotingChain.Backends` — two databases that cannot be told apart

The model of two implementations of the trait `Database` in `storage/src/database.rs`, with
the counters they keep: `MemoryDatabase`, which is a hash map, and `RocksDBDatabase`, which
calls another crate.  Of that crate it is assumed what its manual says of a store that does
not fail (`RocksDB.Sorted`), and a finite map with sorted keys is such a store (`sortedStore`).

The two differ in how they find the keys with a prefix.  The one looks at every entry, in no
order; the other goes to the first key that is not before the prefix and stops at the first
that does not begin with it.  That is enough, since keys are sorted byte by byte
(`RocksDBDatabase.mem_iterPrefix`).  Whatever a program does, it gets the same from both, up to
the order of what it lists (`backends_agree`).
-/
import Mathlib.Data.Finset.Sort
import VotingChain.Database
import VotingChain.Lib.RangeScan
import VotingChain.Lib.Runs

namespace VotingChain

/-- Database statistics. -/
structure DatabaseStats where
  totalKeys : UInt64
  totalSize : UInt64
  readCount : UInt64
  writeCount : UInt64
  deleteCount : UInt64
  deriving DecidableEq

namespace DatabaseStats

def default : DatabaseStats := ⟨0, 0, 0, 0, 0⟩

def read (stats : DatabaseStats) : DatabaseStats := { stats with readCount := stats.readCount + 1 }

def write (stats : DatabaseStats) : DatabaseStats :=
  { stats with writeCount := stats.writeCount + 1 }

def delete (stats : DatabaseStats) : DatabaseStats :=
  { stats with deleteCount := stats.deleteCount + 1 }

end DatabaseStats

/-! ## In memory -/

structure MemoryDatabase where
  data : Database
  stats : DatabaseStats

namespace MemoryDatabase

def new : MemoryDatabase := ⟨∅, .default⟩

def get (key : Bytes) (memory : MemoryDatabase) : Option Bytes × MemoryDatabase :=
  (memory.data.lookup key, { memory with stats := memory.stats.read })

def put (key value : Bytes) (memory : MemoryDatabase) : MemoryDatabase :=
  { data := memory.data.insert key value, stats := memory.stats.write }

def delete (key : Bytes) (memory : MemoryDatabase) : MemoryDatabase :=
  { data := memory.data.erase key, stats := memory.stats.delete }

def contains (key : Bytes) (memory : MemoryDatabase) : Bool := memory.data.contains key

/-- Iterate over all keys with a prefix, in the order of the hash map. -/
def iterPrefix (order : MapOrder Bytes Bytes) (start : Bytes) (memory : MemoryDatabase) :
    List (Bytes × Bytes) :=
  ((order.list memory.data).filter fun entry => start.isPrefixOf entry.1).map fun entry =>
    (entry.1, entry.2)

def keysWithPrefix (order : MapOrder Bytes Bytes) (start : Bytes) (memory : MemoryDatabase) :
    List Bytes :=
  memory.data.keysWithPrefix order start

def writeBatch (operations : List WriteOperation) (memory : MemoryDatabase) : MemoryDatabase :=
  { memory with data := memory.data.writeBatch operations }

/-- Get database size in bytes. -/
def size (order : MapOrder Bytes Bytes) (memory : MemoryDatabase) : UInt64 :=
  (order.list memory.data).foldl
    (fun total entry => total + UInt64.ofNat (entry.1.length + entry.2.length)) 0

def getStats (order : MapOrder Bytes Bytes) (memory : MemoryDatabase) : DatabaseStats :=
  { memory.stats with
    totalKeys := UInt64.ofNat (order.list memory.data).length
    totalSize := memory.size order }

end MemoryDatabase

/-! ## RocksDB -/

/-- The order of keys: byte by byte. -/
def Before (k k' : Bytes) : Prop := k.map UInt8.toNat ≤ k'.map UInt8.toNat

instance : DecidableRel Before := fun _ _ => inferInstanceAs (Decidable (_ ≤ _))

/-- The crate `rocksdb` as far as it is called, with stores of type `σ`. -/
structure RocksDB (σ : Type) where
  opened : σ
  get : Bytes → σ → Option Bytes
  put : Bytes → Bytes → σ → σ
  delete : Bytes → σ → σ
  write : List WriteOperation → σ → σ
  /-- What a raw iterator goes through after `seek`. -/
  seek : Bytes → σ → List (Bytes × Bytes)
  /-- The property `rocksdb.total-sst-files-size`, or 0. -/
  size : σ → UInt64

namespace RocksDB
variable {σ : Type}

def apply (crate : RocksDB σ) (db : σ) : WriteOperation → σ
  | .put key value => crate.put key value db
  | .delete key => crate.delete key db

/-- What the manual says: what is put is got, a batch is applied in its order, and an iterator
goes through the entries from its place on, by their keys. -/
structure Sorted (crate : RocksDB σ) : Prop where
  get_opened : ∀ k, crate.get k crate.opened = none
  get_put : ∀ k key value db, crate.get k (crate.put key value db) =
    if k = key then some value else crate.get k db
  get_delete : ∀ k key db, crate.get k (crate.delete key db) =
    if k = key then none else crate.get k db
  get_write : ∀ k operations db, crate.get k (crate.write operations db) =
    crate.get k (operations.foldl crate.apply db)
  mem_seek : ∀ start db k v, (k, v) ∈ crate.seek start db ↔
    Before start k ∧ crate.get k db = some v
  sorted_seek : ∀ start db, ((crate.seek start db).map Prod.fst).Pairwise fun k k' =>
    Before k k' ∧ k ≠ k'

end RocksDB

structure RocksDBDatabase (σ : Type) where
  db : σ
  stats : DatabaseStats

namespace RocksDBDatabase
variable {σ : Type} (crate : RocksDB σ)

/-- `open`, on a path where there is nothing yet. -/
def openNew : RocksDBDatabase σ := ⟨crate.opened, .default⟩

def get (key : Bytes) (rocks : RocksDBDatabase σ) : Option Bytes × RocksDBDatabase σ :=
  (crate.get key rocks.db, { rocks with stats := rocks.stats.read })

def put (key value : Bytes) (rocks : RocksDBDatabase σ) : RocksDBDatabase σ :=
  { db := crate.put key value rocks.db, stats := rocks.stats.write }

def delete (key : Bytes) (rocks : RocksDBDatabase σ) : RocksDBDatabase σ :=
  { db := crate.delete key rocks.db, stats := rocks.stats.delete }

def contains (key : Bytes) (rocks : RocksDBDatabase σ) : Bool := (crate.get key rocks.db).isSome

/-- The loop `while iter.valid()`. -/
def walk (start : Bytes) : List (Bytes × Bytes) → List (Bytes × Bytes)
  | [] => []
  | entry :: rest => if start.isPrefixOf entry.1 then entry :: walk start rest else []

/-- Iterate over all keys with a prefix. -/
def iterPrefix (start : Bytes) (rocks : RocksDBDatabase σ) : List (Bytes × Bytes) :=
  walk start (crate.seek start rocks.db)

/-- The loop of `keys_with_prefix`, which leaves out the values. -/
def walkKeys (start : Bytes) : List (Bytes × Bytes) → List Bytes
  | [] => []
  | entry :: rest => if start.isPrefixOf entry.1 then entry.1 :: walkKeys start rest else []

def keysWithPrefix (start : Bytes) (rocks : RocksDBDatabase σ) : List Bytes :=
  walkKeys start (crate.seek start rocks.db)

def writeBatch (operations : List WriteOperation) (rocks : RocksDBDatabase σ) :
    RocksDBDatabase σ :=
  { rocks with db := crate.write operations rocks.db }

/-- The keys are not counted. -/
def getStats (rocks : RocksDBDatabase σ) : DatabaseStats :=
  { rocks.stats with totalSize := crate.size rocks.db }

end RocksDBDatabase

/-! ## What a program does with a database -/

/-- The calls of the trait. -/
inductive DatabaseCall
  | get (key : Bytes)
  | put (key value : Bytes)
  | delete (key : Bytes)
  | contains (key : Bytes)
  | iterPrefix (start : Bytes)
  | keysWithPrefix (start : Bytes)
  | writeBatch (operations : List WriteOperation)
  | stats

/-- What they return. -/
inductive DatabaseAnswer
  | done
  | value (v : Option Bytes)
  | found (b : Bool)
  | entries (entries : List (Bytes × Bytes))
  | keys (keys : List Bytes)
  | stats (stats : DatabaseStats)

/-- A call, at a time when the hash map is in some order. -/
abbrev OrderedCall := MapOrder Bytes Bytes × DatabaseCall

def MemoryDatabase.answer (memory : MemoryDatabase) : OrderedCall → DatabaseAnswer
  | (_, .get key) => .value (memory.get key).1
  | (_, .put _ _) => .done
  | (_, .delete _) => .done
  | (_, .contains key) => .found (memory.contains key)
  | (order, .iterPrefix start) => .entries (memory.iterPrefix order start)
  | (order, .keysWithPrefix start) => .keys (memory.keysWithPrefix order start)
  | (_, .writeBatch _) => .done
  | (order, .stats) => .stats (memory.getStats order)

def MemoryDatabase.step (memory : MemoryDatabase) : OrderedCall → MemoryDatabase
  | (_, .get key) => (memory.get key).2
  | (_, .put key value) => memory.put key value
  | (_, .delete key) => memory.delete key
  | (_, .writeBatch operations) => memory.writeBatch operations
  | (_, .contains _) | (_, .iterPrefix _) | (_, .keysWithPrefix _) | (_, .stats) => memory

section
variable {σ : Type} (crate : RocksDB σ)

def RocksDBDatabase.answer (rocks : RocksDBDatabase σ) : OrderedCall → DatabaseAnswer
  | (_, .get key) => .value (rocks.get crate key).1
  | (_, .put _ _) => .done
  | (_, .delete _) => .done
  | (_, .contains key) => .found (rocks.contains crate key)
  | (_, .iterPrefix start) => .entries (rocks.iterPrefix crate start)
  | (_, .keysWithPrefix start) => .keys (rocks.keysWithPrefix crate start)
  | (_, .writeBatch _) => .done
  | (_, .stats) => .stats (rocks.getStats crate)

def RocksDBDatabase.step (rocks : RocksDBDatabase σ) : OrderedCall → RocksDBDatabase σ
  | (_, .get key) => (rocks.get crate key).2
  | (_, .put key value) => rocks.put crate key value
  | (_, .delete key) => rocks.delete crate key
  | (_, .writeBatch operations) => rocks.writeBatch crate operations
  | (_, .contains _) | (_, .iterPrefix _) | (_, .keysWithPrefix _) | (_, .stats) => rocks

end

/-- Two answers are alike: what is listed is the same, and sorted in the second. -/
inductive DatabaseAnswer.Alike : DatabaseAnswer → DatabaseAnswer → Prop
  | done : Alike .done .done
  | value (v : Option Bytes) : Alike (.value v) (.value v)
  | found (b : Bool) : Alike (.found b) (.found b)
  | entries {listed sorted : List (Bytes × Bytes)} : listed.Perm sorted →
      ((sorted.map Prod.fst).Pairwise fun k k' => Before k k' ∧ k ≠ k') →
      Alike (.entries listed) (.entries sorted)
  | keys {listed sorted : List Bytes} : listed.Perm sorted →
      (sorted.Pairwise fun k k' => Before k k' ∧ k ≠ k') → Alike (.keys listed) (.keys sorted)
  | stats {stats stats' : DatabaseStats} : stats.readCount = stats'.readCount →
      stats.writeCount = stats'.writeCount → stats.deleteCount = stats'.deleteCount →
      Alike (.stats stats) (.stats stats')

/-! ## A hash map, looked through -/

namespace MemoryDatabase

theorem mem_iterPrefix {order : MapOrder Bytes Bytes} {start : Bytes} {memory : MemoryDatabase}
    {k v : Bytes} :
    (k, v) ∈ memory.iterPrefix order start ↔ start <+: k ∧ memory.data.lookup k = some v := by
  rw [iterPrefix, List.mem_map]
  constructor
  · rintro ⟨⟨k', v'⟩, hmem, heq⟩
    cases heq
    rw [List.mem_filter, ← Multiset.mem_coe, order.perm, List.isPrefixOf_iff_prefix] at hmem
    exact ⟨hmem.2, Finmap.mem_lookup_iff.mpr hmem.1⟩
  · rintro ⟨hstart, hlookup⟩
    refine ⟨⟨k, v⟩, ?_, rfl⟩
    rw [List.mem_filter, ← Multiset.mem_coe, order.perm, List.isPrefixOf_iff_prefix]
    exact ⟨Finmap.mem_lookup_iff.mp hlookup, hstart⟩

theorem map_fst_iterPrefix {order : MapOrder Bytes Bytes} {start : Bytes}
    {memory : MemoryDatabase} :
    (memory.iterPrefix order start).map Prod.fst = memory.keysWithPrefix order start := by
  rw [iterPrefix, keysWithPrefix, Database.keysWithPrefix, MapOrder.keys, List.filter_map,
    List.map_map]
  rfl

theorem nodup_keysWithPrefix {order : MapOrder Bytes Bytes} {start : Bytes}
    {memory : MemoryDatabase} : (memory.keysWithPrefix order start).Nodup :=
  (order.nodup_keys memory.data).filter _

end MemoryDatabase

/-! ## A sorted store, read from a place on -/

theorem injective_toNat : Function.Injective (List.map UInt8.toNat) :=
  List.map_injective_iff.mpr fun _ _ => UInt8.toNat_inj.mp

theorem prefix_iff_toNat {start k : Bytes} :
    start.map UInt8.toNat <+: k.map UInt8.toNat ↔ start <+: k :=
  List.prefix_map_iff_of_injective fun _ _ => UInt8.toNat_inj.mp

theorem before_of_prefixed {start k : Bytes} (h : start <+: k) : Before start k :=
  RangeScan.le_of_prefix (prefix_iff_toNat.mpr h)

namespace RocksDBDatabase
variable {σ : Type} {crate : RocksDB σ} {rocks : RocksDBDatabase σ} {start : Bytes}

theorem walk_eq_takeWhile (start : Bytes) (entries : List (Bytes × Bytes)) :
    walk start entries = entries.takeWhile fun entry =>
      decide (start.map UInt8.toNat <+: entry.1.map UInt8.toNat) := by
  induction entries with
  | nil => rfl
  | cons entry entries ih =>
      rw [walk, List.takeWhile_cons, ← ih]
      by_cases h : start <+: entry.1
      · simp [h, prefix_iff_toNat]
      · simp [h, prefix_iff_toNat]

theorem map_fst_walk (start : Bytes) (entries : List (Bytes × Bytes)) :
    (walk start entries).map Prod.fst = walkKeys start entries := by
  induction entries with
  | nil => rfl
  | cons entry entries ih =>
      rw [walk, walkKeys]
      split
      · rw [List.map_cons, ih]
      · rfl

theorem iterPrefix_eq_filter (h : crate.Sorted) :
    rocks.iterPrefix crate start = (crate.seek start rocks.db).filter fun entry =>
      decide (start.map UInt8.toNat <+: entry.1.map UInt8.toNat) := by
  have hsorted : ((crate.seek start rocks.db).map fun e => e.1.map UInt8.toNat).Pairwise
      (· ≤ ·) := by
    have hpair := h.sorted_seek start rocks.db
    rw [List.pairwise_map] at hpair ⊢
    exact hpair.imp And.left
  have hlo : ∀ e ∈ crate.seek start rocks.db, start.map UInt8.toNat ≤ e.1.map UInt8.toNat :=
    fun e he => ((h.mem_seek start rocks.db e.1 e.2).mp he).1
  rw [iterPrefix, walk_eq_takeWhile]
  exact RangeScan.takeWhile_eq_filter (RangeScan.interval_prefix _) hsorted hlo

theorem mem_iterPrefix (h : crate.Sorted) {k v : Bytes} :
    (k, v) ∈ rocks.iterPrefix crate start ↔ start <+: k ∧ crate.get k rocks.db = some v := by
  rw [iterPrefix_eq_filter h, List.mem_filter, h.mem_seek, decide_eq_true_iff, prefix_iff_toNat]
  constructor
  · rintro ⟨⟨-, hget⟩, hstart⟩
    exact ⟨hstart, hget⟩
  · rintro ⟨hstart, hget⟩
    exact ⟨⟨before_of_prefixed hstart, hget⟩, hstart⟩

theorem map_fst_iterPrefix :
    (rocks.iterPrefix crate start).map Prod.fst = rocks.keysWithPrefix crate start :=
  map_fst_walk start _

theorem sorted_iterPrefix (h : crate.Sorted) :
    ((rocks.iterPrefix crate start).map Prod.fst).Pairwise fun k k' => Before k k' ∧ k ≠ k' := by
  rw [iterPrefix_eq_filter h]
  exact (h.sorted_seek start rocks.db).sublist (List.filter_sublist.map Prod.fst)

end RocksDBDatabase

/-! ## Whatever a program does -/

/-- The same entries, and the same counters. -/
structure SameContents {σ : Type} (crate : RocksDB σ) (memory : MemoryDatabase)
    (rocks : RocksDBDatabase σ) : Prop where
  get_eq : ∀ k, crate.get k rocks.db = memory.data.lookup k
  stats_eq : rocks.stats = memory.stats

namespace SameContents
variable {σ : Type} {crate : RocksDB σ} {memory : MemoryDatabase} {rocks : RocksDBDatabase σ}

theorem get_apply (h : crate.Sorted) {db : σ} {data : Database}
    (heq : ∀ k, crate.get k db = data.lookup k) (operation : WriteOperation) (k : Bytes) :
    crate.get k (crate.apply db operation) = (data.apply operation).lookup k := by
  cases operation with
  | put key value =>
      refine (h.get_put k key value db).trans ?_
      by_cases hk : k = key
      · subst hk
        simp [Database.apply]
      · simp [Database.apply, hk, heq]
  | delete key =>
      refine (h.get_delete k key db).trans ?_
      by_cases hk : k = key
      · subst hk
        simp [Database.apply]
      · simp [Database.apply, hk, heq]

theorem get_foldl (h : crate.Sorted) (operations : List WriteOperation) {db : σ}
    {data : Database} (heq : ∀ k, crate.get k db = data.lookup k) (k : Bytes) :
    crate.get k (operations.foldl crate.apply db) =
      (operations.foldl Database.apply data).lookup k := by
  induction operations generalizing db data with
  | nil => exact heq k
  | cons operation operations ih => exact ih (get_apply h heq operation)

theorem perm_iterPrefix (h : crate.Sorted) (hsame : SameContents crate memory rocks)
    (order : MapOrder Bytes Bytes) (start : Bytes) :
    (memory.iterPrefix order start).Perm (rocks.iterPrefix crate start) := by
  have hmemory : (memory.iterPrefix order start).Nodup :=
    List.Nodup.of_map Prod.fst
      (MemoryDatabase.map_fst_iterPrefix ▸ MemoryDatabase.nodup_keysWithPrefix)
  have hrocks : (rocks.iterPrefix crate start).Nodup :=
    List.Nodup.of_map Prod.fst
      ((RocksDBDatabase.sorted_iterPrefix h).imp fun hpair => hpair.2)
  refine (List.perm_ext_iff_of_nodup hmemory hrocks).mpr ?_
  rintro ⟨k, v⟩
  rw [MemoryDatabase.mem_iterPrefix, RocksDBDatabase.mem_iterPrefix h, hsame.get_eq]

theorem alike (h : crate.Sorted) (hsame : SameContents crate memory rocks) (call : OrderedCall) :
    (memory.answer call).Alike (rocks.answer crate call) := by
  obtain ⟨order, call⟩ := call
  cases call with
  | get key =>
      have hget : (rocks.get crate key).1 = (memory.get key).1 := hsame.get_eq key
      simp only [MemoryDatabase.answer, RocksDBDatabase.answer, hget]
      exact .value _
  | put key value => exact .done
  | delete key => exact .done
  | contains key =>
      have hcontains : rocks.contains crate key = memory.contains key := by
        rw [RocksDBDatabase.contains, hsame.get_eq]
        rfl
      simp only [MemoryDatabase.answer, RocksDBDatabase.answer, hcontains]
      exact .found _
  | iterPrefix start =>
      exact .entries (hsame.perm_iterPrefix h order start) (RocksDBDatabase.sorted_iterPrefix h)
  | keysWithPrefix start =>
      have hperm := (hsame.perm_iterPrefix h order start).map Prod.fst
      have hsorted : ((rocks.iterPrefix crate start).map Prod.fst).Pairwise fun k k' =>
          Before k k' ∧ k ≠ k' := RocksDBDatabase.sorted_iterPrefix h
      rw [RocksDBDatabase.map_fst_iterPrefix] at hperm hsorted
      rw [MemoryDatabase.map_fst_iterPrefix] at hperm
      exact .keys hperm hsorted
  | writeBatch operations => exact .done
  | stats =>
      have hstats := hsame.stats_eq
      refine .stats ?_ ?_ ?_ <;>
        simp [MemoryDatabase.getStats, RocksDBDatabase.getStats, hstats]

theorem step (h : crate.Sorted) (hsame : SameContents crate memory rocks) (call : OrderedCall) :
    SameContents crate (memory.step call) (rocks.step crate call) := by
  obtain ⟨order, call⟩ := call
  have hread : rocks.stats.read = memory.stats.read := by rw [hsame.stats_eq]
  have hwrite : rocks.stats.write = memory.stats.write := by rw [hsame.stats_eq]
  have hdelete : rocks.stats.delete = memory.stats.delete := by rw [hsame.stats_eq]
  cases call with
  | get key => exact ⟨hsame.get_eq, hread⟩
  | put key value => exact ⟨get_apply h hsame.get_eq (.put key value), hwrite⟩
  | delete key => exact ⟨get_apply h hsame.get_eq (.delete key), hdelete⟩
  | writeBatch operations =>
      refine ⟨fun k => ?_, hsame.stats_eq⟩
      exact (h.get_write k operations rocks.db).trans (get_foldl h operations hsame.get_eq k)
  | contains key => exact hsame
  | iterPrefix start => exact hsame
  | keysWithPrefix start => exact hsame
  | stats => exact hsame

end SameContents

/-! ## A sorted store -/

instance : IsTrans Bytes Before := ⟨fun _ _ _ => le_trans⟩

instance : Std.Antisymm Before := ⟨fun _ _ h h' => injective_toNat (le_antisymm h h')⟩

instance : Std.Total Before := ⟨fun _ _ => le_total _ _⟩

/-- The entries by their keys. -/
def sortedEntries (db : Database) : List (Bytes × Bytes) :=
  (db.keys.sort Before).filterMap fun k => (db.lookup k).map (Prod.mk k)

/-- A finite map, read in the order of its keys. -/
def sortedStore : RocksDB Database where
  opened := ∅
  get key db := db.lookup key
  put key value db := db.insert key value
  delete key db := db.erase key
  write operations db := operations.foldl Database.apply db
  seek start db := (sortedEntries db).dropWhile fun entry => !decide (Before start entry.1)
  size _ := 0

theorem keys_sortedEntries (db : Database) :
    (sortedEntries db).map Prod.fst = db.keys.sort Before := by
  have hall : ∀ ks : List Bytes, (∀ k ∈ ks, k ∈ db) →
      (ks.filterMap fun k => (db.lookup k).map (Prod.mk k)).map Prod.fst = ks := by
    intro ks hks
    induction ks with
    | nil => rfl
    | cons k ks ih =>
        rw [List.forall_mem_cons] at hks
        obtain ⟨v, hv⟩ := Finmap.mem_iff.mp hks.1
        simp [hv, ih hks.2]
  refine hall _ fun k hk => ?_
  exact Finmap.mem_keys.mp ((Finset.mem_sort Before).mp hk)

theorem mem_sortedEntries {db : Database} {k v : Bytes} :
    (k, v) ∈ sortedEntries db ↔ db.lookup k = some v := by
  rw [sortedEntries, List.mem_filterMap]
  constructor
  · rintro ⟨k', -, h⟩
    rw [Option.map_eq_some_iff] at h
    obtain ⟨v', hv', heq⟩ := h
    cases heq
    exact hv'
  · intro h
    refine ⟨k, ?_, by rw [h]; rfl⟩
    exact (Finset.mem_sort Before).mpr (Finmap.mem_keys.mpr (Finmap.mem_of_lookup_eq_some h))

theorem sorted_sortedEntries (db : Database) :
    ((sortedEntries db).map Prod.fst).Pairwise fun k k' => Before k k' ∧ k ≠ k' := by
  rw [keys_sortedEntries]
  exact (Finset.pairwise_sort db.keys Before).and (Finset.sort_nodup db.keys Before)

theorem seek_eq_filter (start : Bytes) (db : Database) :
    sortedStore.seek start db =
      (sortedEntries db).filter fun entry => decide (Before start entry.1) := by
  have hsorted := sorted_sortedEntries db
  rw [List.pairwise_map] at hsorted
  refine RangeScan.dropWhile_eq_filter (hsorted.imp fun {e e'} hpair hstart => ?_)
  exact decide_eq_true (le_trans (of_decide_eq_true hstart) hpair.1)

theorem sorted_sortedStore : sortedStore.Sorted where
  get_opened k := by simp [sortedStore]
  get_put k key value db := by
    by_cases hk : k = key
    · subst hk
      simp [sortedStore]
    · simp [sortedStore, hk]
  get_delete k key db := by
    by_cases hk : k = key
    · subst hk
      simp [sortedStore]
    · simp [sortedStore, hk]
  get_write k operations db := by
    have happly : sortedStore.apply = Database.apply := by
      funext db operation
      cases operation <;> rfl
    rw [happly]
    rfl
  mem_seek start db k v := by
    rw [seek_eq_filter, List.mem_filter, mem_sortedEntries, decide_eq_true_iff, and_comm]
    rfl
  sorted_seek start db := by
    rw [seek_eq_filter]
    exact (sorted_sortedEntries db).sublist (List.filter_sublist.map Prod.fst)

/-- **The backends agree.**  Whatever a program calls, in whatever order the hash map is each
time: the answers are alike, and so are the databases. -/
theorem backends_agree {σ : Type} {crate : RocksDB σ} (h : crate.Sorted)
    (calls : List OrderedCall) :
    List.Forall₂ DatabaseAnswer.Alike
      (Runs.trace MemoryDatabase.step (fun memory call => [memory.answer call]) .new calls)
      (Runs.trace (RocksDBDatabase.step crate) (fun rocks call => [rocks.answer crate call])
        (.openNew crate) calls) ∧
    SameContents crate (Runs.run MemoryDatabase.step .new calls)
      (Runs.run (RocksDBDatabase.step crate) (.openNew crate) calls) := by
  have hnew : SameContents crate .new (.openNew crate) := by
    refine ⟨fun k => ?_, rfl⟩
    exact (h.get_opened k).trans (by simp [MemoryDatabase.new])
  refine Runs.simulate_forall₂ ?_ hnew calls
  intro memory rocks call hsame
  exact ⟨hsame.alike h call, hsame.step h call⟩

theorem backends_agree_prefix :
    List.Forall₂ DatabaseAnswer.Alike
      (Runs.trace MemoryDatabase.step (fun memory call => [memory.answer call]) .new
        [(default, .put [1, 255] [7]), (default, .put [2] [8]), (default, .iterPrefix [1])])
      (Runs.trace (RocksDBDatabase.step sortedStore)
        (fun rocks call => [rocks.answer sortedStore call]) (.openNew sortedStore)
        [(default, .put [1, 255] [7]), (default, .put [2] [8]), (default, .iterPrefix [1])]) ∧
    SameContents sortedStore
      (Runs.run MemoryDatabase.step .new
        [(default, .put [1, 255] [7]), (default, .put [2] [8]), (default, .iterPrefix [1])])
      (Runs.run (RocksDBDatabase.step sortedStore) (.openNew sortedStore)
        [(default, .put [1, 255] [7]), (default, .put [2] [8]), (default, .iterPrefix [1])]) :=
  backends_agree sorted_sortedStore _

end VotingChain
