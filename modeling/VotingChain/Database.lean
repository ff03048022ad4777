/-
# `VotingChain.Database` — key-value databases

The model of the trait `Database` in `storage/src/database.rs`, as far as the stores use it,
for a database that does not fail: a finite map from byte strings to byte strings.  `get` is
`lookup`, `put` is `insert`, `delete` is `erase`, and `contains` asks whether there is
anything under the key.
-/
import VotingChain.Common
import VotingChain.Lib.Maps

namespace VotingChain

/-- A database that does not fail: `get` is `lookup`, `put` is `insert`. -/
abbrev Database := Finmap fun _ : Bytes => Bytes

/-- Write operation for batch writes. -/
inductive WriteOperation
  | put (key value : Bytes)
  | delete (key : Bytes)
  deriving DecidableEq

namespace Database

def apply (db : Database) : WriteOperation → Database
  | .put key value => db.insert key value
  | .delete key => db.erase key

/-- Batch write operations: one after another, as far as anyone can tell. -/
def writeBatch (operations : List WriteOperation) (db : Database) : Database :=
  operations.foldl apply db

/-- Check if key exists. -/
def contains (db : Database) (key : Bytes) : Bool := (db.lookup key).isSome

/-- Get all keys with a prefix, in the order of the backend. -/
def keysWithPrefix (order : MapOrder Bytes Bytes) (start : Bytes) (db : Database) : List Bytes :=
  (order.keys db).filter start.isPrefixOf

theorem lookup_writeBatch_delete (keys : List Bytes) (db : Database) (k : Bytes) :
    (writeBatch (keys.map .delete) db).lookup k = if k ∈ keys then none else db.lookup k := by
  have h := Finmap.lookup_foldl_erase id k keys db
  rw [List.map_id] at h
  rw [writeBatch, List.foldl_map]
  refine h.trans ?_
  congr

theorem mem_keysWithPrefix {order : MapOrder Bytes Bytes} {start : Bytes} {db : Database}
    {k : Bytes} : k ∈ keysWithPrefix order start db ↔ k ∈ db ∧ start <+: k := by
  rw [keysWithPrefix, List.mem_filter, order.mem_keys, List.isPrefixOf_iff_prefix]

end Database

end VotingChain
