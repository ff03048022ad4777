/-
# `VotingChain.Hashing` — hashing at once and in pieces

The model of the hash functions of `crypto/src/hash.rs`, of `HashAlgorithm`, of
`IncrementalHasher` and of `hash_file`.

**Two ways to a digest.**  `HashAlgorithm::hash` takes the whole message, an incremental
hasher takes it in pieces, and so does `hash_file`, in the pieces the system reads.  Each
chooses its hash function by itself, and for one algorithm they do not choose the same:

| | `hash` | `IncrementalHasher` |
| :-- | :-- | :-- |
| `Blake2b256` | Blake2b, 32 bytes | Blake2s |
| `Blake2b512` | Blake2b, 64 bytes | the same |
| `Sha3_256`, `Sha3_512` | SHA3 | the same |

So the two agree exactly on the other three algorithms, and on the first for the messages
whose digests under the two functions coincide (`HashAlgorithm.agrees_iff`).
-/
import VotingChain.Crypto
import VotingChain.Lib.Blake2
import VotingChain.Lib.Digest
import VotingChain.Lib.Sha3

namespace VotingChain

/-- The hash functions `hash.rs` is built on. -/
structure HashFunctions where
  blake2b256 : Digest 32
  blake2b512 : Digest 64
  blake2s256 : Digest 32
  sha3_256 : Digest 32
  sha3_512 : Digest 64

/-- Each of them concatenates what it is fed. -/
structure HashFunctions.Concatenate (H : HashFunctions) : Prop where
  blake2b256 : H.blake2b256.Concatenates
  blake2b512 : H.blake2b512.Concatenates
  blake2s256 : H.blake2s256.Concatenates
  sha3_256 : H.sha3_256.Concatenates
  sha3_512 : H.sha3_512.Concatenates

/-- Hash algorithm selection. -/
inductive HashAlgorithm where
  | blake2b256
  | blake2b512
  | sha3_256
  | sha3_512
  deriving DecidableEq

namespace HashAlgorithm
variable (H : HashFunctions)

/-- Hash data with this algorithm. -/
def hash (algorithm : HashAlgorithm) (data : Bytes) : Bytes :=
  match algorithm with
  | .blake2b256 => (H.blake2b256.hash data).toList
  | .blake2b512 => (H.blake2b512.hash data).toList
  | .sha3_256 => (H.sha3_256.hash data).toList
  | .sha3_512 => (H.sha3_512.hash data).toList

variable {H}

end HashAlgorithm

/-! ## Hashing in pieces -/

/-- Incremental hasher for streaming data. -/
structure IncrementalHasher (H : HashFunctions) where
  algorithm : HashAlgorithm
  blake2b256 : Option H.blake2s256.State
  blake2b512 : Option H.blake2b512.State
  sha3_256 : Option H.sha3_256.State
  sha3_512 : Option H.sha3_512.State

/-- What `expect` makes of what is not there. -/
def expectSome {α : Type} : Option α → Result α
  | some x => .ok x
  | none => .error .panicked

namespace IncrementalHasher
variable (H : HashFunctions)

/-- Create a new incremental hasher. -/
def new (algorithm : HashAlgorithm) : IncrementalHasher H :=
  match algorithm with
  | .blake2b256 => ⟨algorithm, some H.blake2s256.init, none, none, none⟩
  | .blake2b512 => ⟨algorithm, none, some H.blake2b512.init, none, none⟩
  | .sha3_256 => ⟨algorithm, none, none, some H.sha3_256.init, none⟩
  | .sha3_512 => ⟨algorithm, none, none, none, some H.sha3_512.init⟩

/-- Create a Blake2b-256 hasher (most common). -/
def blake2b : IncrementalHasher H := new H .blake2b256

variable {H}

/-- Update the hasher with more data. -/
def update (hasher : IncrementalHasher H) (data : Bytes) : IncrementalHasher H :=
  match hasher.algorithm with
  | .blake2b256 =>
      { hasher with blake2b256 := hasher.blake2b256.map (H.blake2s256.update · data) }
  | .blake2b512 =>
      { hasher with blake2b512 := hasher.blake2b512.map (H.blake2b512.update · data) }
  | .sha3_256 => { hasher with sha3_256 := hasher.sha3_256.map (H.sha3_256.update · data) }
  | .sha3_512 => { hasher with sha3_512 := hasher.sha3_512.map (H.sha3_512.update · data) }

/-- Finalize the hash and return the result. -/
def finalize (hasher : IncrementalHasher H) : Result Bytes :=
  match hasher.algorithm with
  | .blake2b256 => do
      let state ← expectSome hasher.blake2b256
      return (H.blake2s256.finalize state).toList
  | .blake2b512 => do
      let state ← expectSome hasher.blake2b512
      return (H.blake2b512.finalize state).toList
  | .sha3_256 => do
      let state ← expectSome hasher.sha3_256
      return (H.sha3_256.finalize state).toList
  | .sha3_512 => do
      let state ← expectSome hasher.sha3_512
      return (H.sha3_512.finalize state).toList

end IncrementalHasher

/-- The buffer a file is read into. -/
def readBufferSize : Nat := 8192

/-- The loop of `hash_file`, over what `read` returns.  The file is at its end when a read
brings nothing, or when there are no more. -/
def hashReads {H : HashFunctions} (hasher : IncrementalHasher H) :
    List (Except String Bytes) → Result (IncrementalHasher H)
  | [] => .ok hasher
  | .error e :: _ => fail (.ioError e)
  | .ok bytesRead :: reads =>
      if bytesRead.length = 0 then .ok hasher else hashReads (hasher.update bytesRead) reads

/-- Hash a file; `file` is what opening it and reading it returns. -/
def hashFile (H : HashFunctions) (file : Except String (List (Except String Bytes)))
    (algorithm : HashAlgorithm) : Result Bytes :=
  match file with
  | .error e => fail (.ioError e)
  | .ok reads => do
      let hasher ← hashReads (IncrementalHasher.new H algorithm) reads
      hasher.finalize

/-- What reading a file to its end can return: reads that bring something and no more than
the buffer holds, and together the content. -/
structure ReadsOf (content : Bytes) (chunks : List Bytes) : Prop where
  flatten : chunks.flatten = content
  chunk : ∀ chunk ∈ chunks, chunk ≠ [] ∧ chunk.length ≤ readBufferSize

/-! ## What has been fed -/

namespace IncrementalHasher
variable (H : HashFunctions)

/-- The hasher of an algorithm that has been fed `data`, all in one. -/
def fed (algorithm : HashAlgorithm) (data : Bytes) : IncrementalHasher H :=
  (new H algorithm).update data

/-- The digest a hasher comes to: not that of the algorithm, in the first case. -/
def digest (algorithm : HashAlgorithm) (data : Bytes) : Bytes :=
  match algorithm with
  | .blake2b256 => (H.blake2s256.hash data).toList
  | .blake2b512 => (H.blake2b512.hash data).toList
  | .sha3_256 => (H.sha3_256.hash data).toList
  | .sha3_512 => (H.sha3_512.hash data).toList

variable {H}

theorem fed_nil (hconcat : H.Concatenate) (algorithm : HashAlgorithm) :
    fed H algorithm [] = new H algorithm := by
  cases algorithm with
  | blake2b256 => simp [fed, new, update, hconcat.blake2s256.update_nil]
  | blake2b512 => simp [fed, new, update, hconcat.blake2b512.update_nil]
  | sha3_256 => simp [fed, new, update, hconcat.sha3_256.update_nil]
  | sha3_512 => simp [fed, new, update, hconcat.sha3_512.update_nil]

theorem update_fed (hconcat : H.Concatenate) (algorithm : HashAlgorithm) (data chunk : Bytes) :
    (fed H algorithm data).update chunk = fed H algorithm (data ++ chunk) := by
  cases algorithm with
  | blake2b256 => simp [fed, new, update, hconcat.blake2s256.update_append]
  | blake2b512 => simp [fed, new, update, hconcat.blake2b512.update_append]
  | sha3_256 => simp [fed, new, update, hconcat.sha3_256.update_append]
  | sha3_512 => simp [fed, new, update, hconcat.sha3_512.update_append]

theorem foldl_update_fed (hconcat : H.Concatenate) (algorithm : HashAlgorithm) (data : Bytes)
    (chunks : List Bytes) :
    chunks.foldl update (fed H algorithm data) = fed H algorithm (data ++ chunks.flatten) := by
  induction chunks generalizing data with
  | nil => simp
  | cons chunk chunks ih =>
      rw [List.foldl_cons, update_fed hconcat, ih, List.flatten_cons, List.append_assoc]

theorem finalize_fed (algorithm : HashAlgorithm) (data : Bytes) :
    (fed H algorithm data).finalize = .ok (digest H algorithm data) := by
  cases algorithm with
  | blake2b256 => rfl
  | blake2b512 => rfl
  | sha3_256 => rfl
  | sha3_512 => rfl

theorem finalize_foldl_update (hconcat : H.Concatenate) (algorithm : HashAlgorithm)
    (chunks : List Bytes) :
    (chunks.foldl update (new H algorithm)).finalize =
      .ok (digest H algorithm chunks.flatten) := by
  rw [← fed_nil hconcat, foldl_update_fed hconcat, List.nil_append, finalize_fed]

end IncrementalHasher

theorem hashReads_map_ok {H : HashFunctions} {chunks : List Bytes}
    (h : ∀ chunk ∈ chunks, chunk ≠ []) (hasher : IncrementalHasher H) :
    hashReads hasher (chunks.map .ok) = .ok (chunks.foldl IncrementalHasher.update hasher) := by
  induction chunks generalizing hasher with
  | nil => rfl
  | cons chunk chunks ih =>
      obtain ⟨hchunk, hchunks⟩ := List.forall_mem_cons.mp h
      have hlen : chunk.length ≠ 0 := fun h => hchunk (List.length_eq_zero_iff.mp h)
      rw [List.map_cons, hashReads, if_neg hlen, ih hchunks, List.foldl_cons]

theorem hashFile_readsOf {H : HashFunctions} (hconcat : H.Concatenate)
    (algorithm : HashAlgorithm) {content : Bytes} {chunks : List Bytes}
    (h : ReadsOf content chunks) :
    hashFile H (.ok (chunks.map .ok)) algorithm =
      .ok (IncrementalHasher.digest H algorithm content) := by
  have hloop := hashReads_map_ok (fun chunk hchunk => (h.chunk chunk hchunk).1)
    (IncrementalHasher.new H algorithm)
  simp only [hashFile, hloop]
  rw [← h.flatten]
  exact IncrementalHasher.finalize_foldl_update hconcat algorithm chunks

/-! ## The two ways -/

namespace HashAlgorithm
variable (H : HashFunctions)

/-- Fed `chunks`, or from a file read in `chunks`, the hasher of an algorithm comes to the
algorithm's hash of them all. -/
def Agrees (algorithm : HashAlgorithm) (chunks : List Bytes) : Prop :=
  (chunks.foldl IncrementalHasher.update (IncrementalHasher.new H algorithm)).finalize =
      .ok (algorithm.hash H chunks.flatten) ∧
    ∀ content reads, ReadsOf content reads → content = chunks.flatten →
      hashFile H (.ok (reads.map .ok)) algorithm = .ok (algorithm.hash H content)

variable {H}

theorem digest_eq_hash_iff (algorithm : HashAlgorithm) (data : Bytes) :
    IncrementalHasher.digest H algorithm data = algorithm.hash H data ↔
      algorithm ≠ .blake2b256 ∨ H.blake2s256.hash data = H.blake2b256.hash data := by
  cases algorithm with
  | blake2b256 =>
      rw [or_iff_right (not_not.mpr rfl)]
      constructor
      · intro h
        exact List.Vector.eq _ _ h
      · intro h
        exact congrArg List.Vector.toList h
  | blake2b512 => exact iff_of_true rfl (Or.inl (by decide))
  | sha3_256 => exact iff_of_true rfl (Or.inl (by decide))
  | sha3_512 => exact iff_of_true rfl (Or.inl (by decide))

theorem agrees_iff_digest (hconcat : H.Concatenate) (algorithm : HashAlgorithm)
    (chunks : List Bytes) :
    Agrees H algorithm chunks ↔
      IncrementalHasher.digest H algorithm chunks.flatten =
        algorithm.hash H chunks.flatten := by
  rw [Agrees, IncrementalHasher.finalize_foldl_update hconcat, Except.ok.injEq]
  constructor
  · intro h
    exact h.1
  · intro h
    refine ⟨h, ?_⟩
    rintro content reads hreads rfl
    rw [hashFile_readsOf hconcat algorithm hreads, h]

/-- **Where hashing in pieces is hashing.**  On a message, exactly if the algorithm is not
Blake2b-256 or the message has one digest under Blake2s and Blake2b.  On all messages, if the
two functions are not the same, exactly if it is not Blake2b-256. -/
theorem agrees_iff (hconcat : H.Concatenate)
    (hdiffer : ∃ data, H.blake2s256.hash data ≠ H.blake2b256.hash data)
    (algorithm : HashAlgorithm) :
    (∀ chunks, Agrees H algorithm chunks ↔ algorithm ≠ .blake2b256 ∨
      H.blake2s256.hash chunks.flatten = H.blake2b256.hash chunks.flatten) ∧
    ((∀ chunks, Agrees H algorithm chunks) ↔ algorithm ≠ .blake2b256) := by
  have hone : ∀ chunks, Agrees H algorithm chunks ↔ algorithm ≠ .blake2b256 ∨
      H.blake2s256.hash chunks.flatten = H.blake2b256.hash chunks.flatten := by
    intro chunks
    rw [agrees_iff_digest hconcat, digest_eq_hash_iff]
  refine ⟨hone, ?_⟩
  constructor
  · intro h halg
    obtain ⟨data, hdata⟩ := hdiffer
    rcases (hone [data]).mp (h [data]) with hne | heq
    · exact hne halg
    · rw [List.flatten_singleton] at heq
      exact hdata heq
  · intro halg chunks
    exact (hone chunks).mpr (Or.inl halg)

end HashAlgorithm

namespace Reference

/-- The hash functions of the program. -/
def hashFunctions : HashFunctions where
  blake2b256 := Digest.ofHash Blake2b.hash256
  blake2b512 := Digest.ofHash Blake2b.hash512
  blake2s256 := Digest.ofHash Blake2s.hash256
  sha3_256 := Digest.ofHash Sha3.hash256
  sha3_512 := Digest.ofHash Sha3.hash512

theorem concatenate_hashFunctions : hashFunctions.Concatenate where
  blake2b256 := Digest.concatenates_ofHash _
  blake2b512 := Digest.concatenates_ofHash _
  blake2s256 := Digest.concatenates_ofHash _
  sha3_256 := Digest.concatenates_ofHash _
  sha3_512 := Digest.concatenates_ofHash _

/-- The two pieces of a message. -/
def parts : List Bytes := [strBytes "part1", strBytes "part2"]

theorem blake2_parts :
    hashFunctions.blake2s256.hash parts.flatten ≠ hashFunctions.blake2b256.hash parts.flatten := by
  decide +kernel

end Reference

namespace HashAlgorithm
open Reference (hashFunctions concatenate_hashFunctions parts blake2_parts)

theorem agrees_iff_parts :
    ¬Agrees hashFunctions .blake2b256 parts ∧ Agrees hashFunctions .sha3_256 parts := by
  have hblake := agrees_iff concatenate_hashFunctions ⟨_, blake2_parts⟩ .blake2b256
  have hsha := agrees_iff concatenate_hashFunctions ⟨_, blake2_parts⟩ .sha3_256
  refine ⟨?_, hsha.2.mpr (by decide) parts⟩
  rw [hblake.1]
  rintro (hne | heq)
  · exact hne rfl
  · exact blake2_parts heq

/-- The two pieces, fed to the hasher that is most common. -/
theorem pieces_hashed_otherwise :
    hashFunctions.Concatenate ∧
    ∃ digest, (parts.foldl IncrementalHasher.update
        (IncrementalHasher.blake2b hashFunctions)).finalize = .ok digest ∧
      digest ≠ hash hashFunctions .blake2b256 parts.flatten := by
  refine ⟨concatenate_hashFunctions, _,
    IncrementalHasher.finalize_foldl_update concatenate_hashFunctions _ _, fun heq => ?_⟩
  rcases (digest_eq_hash_iff _ _).mp heq with hne | heq
  · exact hne rfl
  · exact blake2_parts heq

end HashAlgorithm

end VotingChain
