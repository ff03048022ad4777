/-
# `VotingChain.Common` — the types and errors every crate shares

The model of `common/src/types.rs` and of the part of `common/src/errors.rs`
that the modelled functions use.

**Results and panics.**  A Rust function that returns `Result<T>` can do three
things: return `Ok`, return `Err`, or panic (index a vector outside its bounds,
divide by zero).  `Result T` has all three: `.error (.err e)` is a returned
error, `.error .panicked` a panic.  A function that cannot panic never produces
the latter; that it cannot is a theorem where it matters and not a convention.

**Mutation.**  A method on `&mut self` is a computation in `Exec`: it reads and
writes the object and, unlike in a transaction, what it has written before an
error *stays written*.  That a rejected call changes nothing is therefore
something to prove.  A run of calls goes on from `Exec.next`.

**Vectors** are lists.  What is left of their memory is that they cannot outgrow
it: `Vec::push` panics beyond `isize::MAX` bytes (`reserveOne`).

**Machine integers** are `UInt64` and `UInt32`, with the wrapping arithmetic of
the release profile.

**Other crates** are parameters.  Hexadecimal text goes into keys of the database,
into answers and into the texts of errors, so the crate `hex` is a class (`Hex`)
and whatever calls it, directly or not, is about any instance; that of the
samples is `Reference.hex`.
-/
import Mathlib.Data.Vector.Basic
import VotingChain.Lib.Codec
import VotingChain.Lib.Hexadecimal

namespace VotingChain

theorem injOn_of_nodup_map {α β : Type} {f : α → β} {xs : List α} (h : (xs.map f).Nodup)
    {s : Set α} (hs : ∀ x ∈ s, x ∈ xs) : Set.InjOn f s :=
  fun x hx y hy => List.inj_on_of_nodup_map h (hs x hx) (hs y hy)

/-! ## Bytes and keys -/

abbrev Bytes := List UInt8

/-- `[u8; n]`. -/
abbrev ByteArr (n : Nat) := List.Vector UInt8 n

/-- 32-byte hash output. -/
abbrev Hash := ByteArr 32

/-- Block height in the blockchain (`u64`). -/
abbrev BlockHeight := UInt64

/-- Unix timestamp in seconds (`u64`). -/
abbrev Timestamp := UInt64

@[ext] structure BlockHash where
  bytes : Hash
  deriving DecidableEq

@[ext] structure TxId where
  bytes : Hash
  deriving DecidableEq

/-- Public key (32 bytes for Ed25519). -/
@[ext] structure PublicKey where
  bytes : ByteArr 32
  deriving DecidableEq

/-- Cryptographic signature (64 bytes for Ed25519). -/
structure Signature where
  bytes : ByteArr 64
  deriving DecidableEq

structure KeyPair where
  privateKey : ByteArr 32
  publicKey : PublicKey
  deriving DecidableEq

structure ElectionId where
  bytes : ByteArr 16
  deriving DecidableEq

def BlockHash.asBytes (h : BlockHash) : Bytes := h.bytes.toList
def TxId.asBytes (t : TxId) : Bytes := t.bytes.toList
def PublicKey.asBytes (k : PublicKey) : Bytes := k.bytes.toList
def ElectionId.asBytes (e : ElectionId) : Bytes := e.bytes.toList

/-- Special hash representing "no previous block" (genesis). -/
def BlockHash.zero : BlockHash := ⟨List.Vector.replicate 32 0⟩

/-- The `hex` crate: `hex::encode` and `hex::decode`, an error being what it is printed as.
What is asked of it is that it reads what it wrote, and that a byte is two characters. -/
class Hex where
  encode : Bytes → String
  decode : String → Except String Bytes
  decode_encode : ∀ data, decode (encode data) = .ok data
  utf8ByteSize_encode : ∀ data, (encode data).utf8ByteSize = 2 * data.length

theorem Hex.encode_injective [Hex] : Function.Injective Hex.encode := by
  intro data data' h
  have hdata := Hex.decode_encode data
  rw [h, Hex.decode_encode] at hdata
  exact (Except.ok.inj hdata).symm

def BlockHash.toHex [Hex] (h : BlockHash) : String := Hex.encode h.asBytes
def TxId.toHex [Hex] (t : TxId) : String := Hex.encode t.asBytes
def PublicKey.toHex [Hex] (k : PublicKey) : String := Hex.encode k.asBytes
def ElectionId.toHex [Hex] (e : ElectionId) : String := Hex.encode e.asBytes
def Signature.toHex [Hex] (s : Signature) : String := Hex.encode s.bytes.toList

theorem length_blockHash_asBytes (h : BlockHash) : h.asBytes.length = 32 := h.bytes.toList_length

theorem selfDelimiting_blockHash : Codec.SelfDelimiting BlockHash.asBytes :=
  (Codec.selfDelimiting_vector 32).comap fun _ _ h => BlockHash.ext h

theorem selfDelimiting_publicKey : Codec.SelfDelimiting PublicKey.asBytes :=
  (Codec.selfDelimiting_vector 32).comap fun _ _ h => PublicKey.ext h

theorem selfDelimiting_electionId : Codec.SelfDelimiting ElectionId.asBytes :=
  (Codec.selfDelimiting_vector 16).comap (f := ElectionId.bytes) fun ⟨_⟩ ⟨_⟩ h =>
    congrArg ElectionId.mk h

/-- `str::as_bytes`: the UTF-8 form. -/
def strBytes (s : String) : Bytes := s.toByteArray.data.toList

theorem strBytes_injective : Function.Injective strBytes := by
  intro s t h
  exact String.toByteArray_inj.mp (ByteArray.ext (Array.toList_inj.mp h))

theorem strBytes_append (s t : String) : strBytes (s ++ t) = strBytes s ++ strBytes t := by
  simp [strBytes]

theorem length_strBytes (s : String) : (strBytes s).length = s.utf8ByteSize := rfl

/-- The crate as the program is built with it: digits in lower case, and errors with their text. -/
instance Reference.hex : Hex where
  encode := Hexadecimal.encode
  decode s := (Hexadecimal.decode (strBytes s)).mapError Hexadecimal.DecodeError.display
  decode_encode data := by
    rw [strBytes, ← Hexadecimal.bytes, Hexadecimal.decode_encode]
    rfl
  utf8ByteSize_encode := Hexadecimal.utf8ByteSize_encode

/-- `u64::to_le_bytes`. -/
def u64Bytes (n : UInt64) : Bytes := Codec.leBytes 8 n.toNat

theorem append_u64Bytes_inj {x y : Bytes} {m n : UInt64} (h : x ++ u64Bytes m = y ++ u64Bytes n) :
    x = y ∧ m = n := by
  have hlen : (u64Bytes m).length = (u64Bytes n).length :=
    (Codec.length_leBytes 8 _).trans (Codec.length_leBytes 8 _).symm
  obtain ⟨hxy, hmn⟩ := List.append_inj' h hlen
  exact ⟨hxy, Codec.selfDelimiting_u64.injective hmn⟩

theorem pairwise_mergeSort_key {α : Type} (key : α → UInt64) (xs : List α) :
    (xs.mergeSort fun x y => decide (key x ≤ key y)).Pairwise fun x y => key x ≤ key y := by
  have htrans : ∀ a b c : α, decide (key a ≤ key b) = true → decide (key b ≤ key c) = true →
      decide (key a ≤ key c) = true := by
    intro a b c hab hbc
    exact decide_eq_true (UInt64.le_trans (of_decide_eq_true hab) (of_decide_eq_true hbc))
  have htotal : ∀ a b : α, (decide (key a ≤ key b) || decide (key b ≤ key a)) = true := by
    intro a b
    rw [Bool.or_eq_true, decide_eq_true_eq, decide_eq_true_eq]
    exact UInt64.le_total (key a) (key b)
  have hsorted := List.pairwise_mergeSort htrans htotal xs
  exact hsorted.imp of_decide_eq_true

/-! ## Errors -/

/-- The errors of `VotingError` that the modelled functions return. -/
inductive VotingError where
  | invalidBlock (msg : String)
  | invalidBlockHash (expected actual : String)
  | invalidPreviousHash (msg : String)
  | blockHeightMismatch (expected actual : UInt64)
  | genesisError (msg : String)
  | invalidTransaction (msg : String)
  | duplicateTransaction (msg : String)
  | invalidVote (msg : String)
  | blockNotFound (msg : String)
  | consensusError (msg : String)
  | invalidValidator (msg : String)
  | nodeNotInitialized
  | cryptoError (msg : String)
  | signatureVerificationFailed
  | voterNotEligible (msg : String)
  | electionNotActive
  | alreadyVoted
  | invalidBallot (msg : String)
  | invalidInput (msg : String)
  | serializationError (msg : String)
  | deserializationError (msg : String)
  | insufficientValidators
  | storageError (msg : String)
  | networkError (msg : String)
  | ioError (msg : String)
  | insufficientData (msg : String)
  deriving DecidableEq

/-- `Display`, as `thiserror` derives it. -/
def VotingError.display : VotingError → String
  | .invalidBlock msg => "Invalid block: " ++ msg
  | .invalidBlockHash expected actual =>
      "Invalid block hash: expected " ++ expected ++ ", got " ++ actual
  | .invalidPreviousHash msg => "Invalid previous hash: " ++ msg
  | .blockHeightMismatch expected actual =>
      "Block height mismatch: expected " ++ toString expected ++ ", got " ++ toString actual
  | .genesisError msg => "Genesis block error: " ++ msg
  | .invalidTransaction msg => "Invalid transaction: " ++ msg
  | .duplicateTransaction msg => "Transaction already exists: " ++ msg
  | .invalidVote msg => "Invalid vote: " ++ msg
  | .blockNotFound msg => "Block not found: " ++ msg
  | .consensusError msg => "Consensus error: " ++ msg
  | .invalidValidator msg => "Invalid validator: " ++ msg
  | .nodeNotInitialized => "Node not initialized"
  | .cryptoError msg => "Cryptographic error: " ++ msg
  | .signatureVerificationFailed => "Signature verification failed"
  | .voterNotEligible msg => "Voter not eligible: " ++ msg
  | .electionNotActive => "Election not active"
  | .alreadyVoted => "Voter already voted"
  | .invalidBallot msg => "Invalid ballot: " ++ msg
  | .invalidInput msg => "Invalid input: " ++ msg
  | .serializationError msg => "Serialization error: " ++ msg
  | .deserializationError msg => "Deserialization error: " ++ msg
  | .insufficientValidators => "Insufficient validator signatures"
  | .storageError msg => "Storage error: " ++ msg
  | .networkError msg => "Network error: " ++ msg
  | .ioError msg => "IO error: " ++ msg
  | .insufficientData msg => "Insufficient data: " ++ msg

/-- How a call can fail to return `Ok`. -/
inductive Fault where
  | err (e : VotingError)
  | panicked
  deriving DecidableEq

abbrev Result (α : Type) := Except Fault α

/-- Return an error. -/
def fail {α : Type} (e : VotingError) : Result α := .error (.err e)

/-- `xs[i]` of a vector: panics outside the bounds. -/
def indexVec {α : Type} (xs : List α) (i : Nat) : Result α :=
  match xs[i]? with
  | some x => .ok x
  | none => .error .panicked

/-- `xs[first..last]` of a slice: panics outside the bounds. -/
def sliceVec {α : Type} (xs : List α) (first last : Nat) : Result (List α) :=
  if first ≤ last ∧ last ≤ xs.length then .ok ((xs.take last).drop first) else .error .panicked

theorem sliceVec_take {α : Type} {xs : List α} {n : Nat} (h : n ≤ xs.length) :
    sliceVec xs 0 n = .ok (xs.take n) := by
  rw [sliceVec, if_pos ⟨Nat.zero_le n, h⟩, List.drop_zero]

theorem sliceVec_drop {α : Type} {xs : List α} {n : Nat} (h : n ≤ xs.length) :
    sliceVec xs n xs.length = .ok (xs.drop n) := by
  rw [sliceVec, if_pos ⟨h, Nat.le_refl _⟩, List.take_length]

/-- `copy_from_slice` into an array of `n` bytes: panics if there are not as many. -/
def copyFromSlice (n : Nat) (data : Bytes) : Result (ByteArr n) :=
  if h : data.length = n then .ok (⟨data, h⟩ : ByteArr n) else .error .panicked

theorem copyFromSlice_of_length {n : Nat} {data : Bytes} (h : data.length = n) :
    copyFromSlice n data = .ok (⟨data, h⟩ : ByteArr n) :=
  dif_pos h

/-- `isize::MAX`: no vector has more bytes than this, nor more elements of a type
that takes up space. -/
def maxVecLength : Nat := 2 ^ 63 - 1

/-- `Vec<T>` as an argument: a list that fits into memory. -/
abbrev Vec (α : Type) := { xs : List α // xs.length ≤ maxVecLength }

/-- Room for one more element, or the panic of `Vec::push`. -/
def reserveOne {α : Type} (xs : List α) : Result Unit :=
  if xs.length < maxVecLength then .ok () else .error .panicked

/-! ## Results, in sequence -/

@[simp] theorem bind_eq_ok {α β : Type} {x : Result α} {f : α → Result β} {b : β} :
    (x >>= f) = .ok b ↔ ∃ a, x = .ok a ∧ f a = .ok b := by
  cases x with
  | error e => simp [bind, Except.bind]
  | ok a => simp [bind, Except.bind]

/-- `if bad { return Err(e) }`, then `Ok(())`. -/
def ensure (ok : Bool) (e : VotingError) : Result Unit := if ok then .ok () else fail e

@[simp] theorem ensure_eq_ok {ok : Bool} {e : VotingError} {u : Unit} :
    ensure ok e = .ok u ↔ ok = true := by
  cases ok <;> simp [ensure, fail]

theorem ensure_cases (ok : Bool) (e : VotingError) :
    ensure ok e = .ok () ∨ ensure ok e = fail e := by
  cases ok with
  | false => exact Or.inr rfl
  | true => exact Or.inl rfl

/-- A check made on every element of a list, in order, up to the first failure. -/
def forEach {α : Type} (check : α → Result Unit) : List α → Result Unit
  | [] => .ok ()
  | x :: xs => do
      check x
      forEach check xs

@[simp] theorem forEach_eq_ok {α : Type} {check : α → Result Unit} {u : Unit} {xs : List α} :
    forEach check xs = .ok u ↔ ∀ x ∈ xs, check x = .ok () := by
  induction xs with
  | nil => simp [forEach]
  | cons x xs ih =>
      simp only [forEach, bind_eq_ok, ih, List.forall_mem_cons]
      exact ⟨fun ⟨_, h, hxs⟩ => ⟨h, hxs⟩, fun ⟨h, hxs⟩ => ⟨(), h, hxs⟩⟩

/-- A result of `bincode`, with its error as one of the program. -/
def ofBincode {α : Type} (r : Except String α) : Result α :=
  match r with
  | .ok a => .ok a
  | .error e => fail (.serializationError e)

@[simp] theorem ofBincode_eq_ok {α : Type} {r : Except String α} {a : α} :
    ofBincode r = .ok a ↔ r = .ok a := by
  cases r with
  | ok b =>
      simp only [ofBincode]
      exact ⟨fun h => by cases h; rfl, fun h => by cases h; rfl⟩
  | error e =>
      constructor
      · intro h
        cases h
      · intro h
        cases h

/-- What `bincode` has read, with its error as one of the program. -/
def ofBincodeRead {α : Type} (r : Except String α) : Result α :=
  match r with
  | .ok a => .ok a
  | .error e => fail (.deserializationError e)

@[simp] theorem ofBincodeRead_eq_ok {α : Type} {r : Except String α} {a : α} :
    ofBincodeRead r = .ok a ↔ r = .ok a := by
  cases r with
  | ok b =>
      simp only [ofBincodeRead]
      exact ⟨fun h => by cases h; rfl, fun h => by cases h; rfl⟩
  | error e =>
      constructor
      · intro h
        cases h
      · intro h
        cases h

/-! ## Methods on `&mut self` -/

/-- A computation on an object of type `σ`.  State written before a fault is kept. -/
abbrev Exec (σ α : Type) := ExceptT Fault (StateM σ) α

namespace Exec
variable {σ α β : Type}

/-- What a method returns, and the object after the call. -/
def exec (m : Exec σ α) (s : σ) : Result α × σ := StateT.run (ExceptT.run m) s

/-- The object a run goes on with after a call.  There is no state after a panic,
which takes the process down; the run stays where it was. -/
def next (m : Exec σ α) (s : σ) : σ :=
  match exec m s with
  | (.error .panicked, _) => s
  | (_, s') => s'

/-- A function on `&self` called from a method. -/
def lift (r : Result α) : Exec σ α := ExceptT.mk (pure r)

/-- `is_ok()` on what a method returns. -/
def isOk (m : Exec σ α) : Exec σ Bool :=
  ExceptT.mk fun s =>
    match exec m s with
    | (.ok _, s') => (.ok true, s')
    | (.error (.err _), s') => (.ok false, s')
    | (.error .panicked, s') => (.error .panicked, s')

/-- A method of a part of the object.  The part is put back with what the method
has written, whether it returned or failed. -/
def on {τ : Type} (part : τ) (put : τ → σ → σ) (m : Exec τ α) : Exec σ α :=
  ExceptT.mk fun s => ((exec m part).1, put (exec m part).2 s)

@[simp] theorem exec_pure (a : α) (s : σ) : exec (pure a : Exec σ α) s = (.ok a, s) := rfl

@[simp] theorem exec_lift (r : Result α) (s : σ) : exec (lift r : Exec σ α) s = (r, s) := rfl

theorem exec_isOk (m : Exec σ α) (s : σ) :
    exec (isOk m) s =
      match exec m s with
      | (.ok _, s') => (.ok true, s')
      | (.error (.err _), s') => (.ok false, s')
      | (.error .panicked, s') => (.error .panicked, s') := rfl

@[simp] theorem exec_get (s : σ) : exec (get : Exec σ σ) s = (.ok s, s) := rfl

@[simp] theorem exec_modify (f : σ → σ) (s : σ) :
    exec (modify f : Exec σ PUnit) s = (.ok ⟨⟩, f s) := rfl

theorem exec_bind (m : Exec σ α) (f : α → Exec σ β) (s : σ) :
    exec (m >>= f) s =
      match exec m s with
      | (.ok a, s') => exec (f a) s'
      | (.error e, s') => (.error e, s') := by
  show StateT.bind m (ExceptT.bindCont f) s = _
  rcases h : exec m s with ⟨r, s'⟩
  have hm : m s = (r, s') := h
  cases r with
  | error e => simp only [StateT.bind, hm]; rfl
  | ok a => simp only [StateT.bind, hm]; rfl

theorem exec_bind_eq_ok {m : Exec σ α} {f : α → Exec σ β} {s s' : σ} {b : β} :
    exec (m >>= f) s = (.ok b, s') ↔
      ∃ a t, exec m s = (.ok a, t) ∧ exec (f a) t = (.ok b, s') := by
  rw [exec_bind]
  rcases exec m s with ⟨r, t⟩
  cases r with
  | error e => simp
  | ok a => simp

@[simp] theorem exec_lift_bind (r : Result α) (f : α → Exec σ β) (s : σ) :
    exec (lift r >>= f) s =
      match r with
      | .ok a => exec (f a) s
      | .error e => (.error e, s) := by
  rw [exec_bind, exec_lift]
  cases r <;> rfl

theorem exec_lift_ok_bind (a : α) (f : α → Exec σ β) (s : σ) :
    exec (lift (.ok a) >>= f) s = exec (f a) s := by
  rw [exec_lift_bind]

theorem exec_ensure_bind {ok : Bool} (h : ok = true) (e : VotingError) (f : Unit → Exec σ β)
    (s : σ) : exec (lift (ensure ok e) >>= f) s = exec (f ()) s := by
  rw [exec_lift_bind, ensure, if_pos h]

@[simp] theorem exec_get_bind (f : σ → Exec σ β) (s : σ) :
    exec (get >>= f) s = exec (f s) s := by
  rw [exec_bind, exec_get]

@[simp] theorem exec_modify_bind (g : σ → σ) (f : PUnit → Exec σ β) (s : σ) :
    exec (modify g >>= f) s = exec (f ⟨⟩) (g s) := by
  rw [exec_bind, exec_modify]

theorem exec_on {τ : Type} (part : τ) (put : τ → σ → σ) (m : Exec τ α) (s : σ) :
    exec (on part put m) s = ((exec m part).1, put (exec m part).2 s) := rfl

@[simp] theorem exec_on_bind {τ : Type} (part : τ) (put : τ → σ → σ) (m : Exec τ α)
    (f : α → Exec σ β) (s : σ) :
    exec (on part put m >>= f) s =
      match exec m part with
      | (.ok a, t) => exec (f a) (put t s)
      | (.error e, t) => (.error e, put t s) := by
  rw [exec_bind]
  show (match ((exec m part).1, put (exec m part).2 s) with
      | (.ok a, s') => exec (f a) s'
      | (.error e, s') => (.error e, s')) = _
  rcases exec m part with ⟨r, t⟩
  cases r <;> rfl

theorem next_of_ok {m : Exec σ α} {s s' : σ} {a : α} (h : exec m s = (.ok a, s')) :
    next m s = s' := by
  rw [next, h]

theorem next_of_error {m : Exec σ α} {s : σ} {e : Fault} (h : exec m s = (.error e, s)) :
    next m s = s := by
  rw [next, h]
  cases e <;> rfl

theorem next_of_unchanged {m : Exec σ α} {s : σ} {r : Result α} (h : exec m s = (r, s)) :
    next m s = s := by
  cases r with
  | ok a => exact next_of_ok h
  | error e => exact next_of_error h

/-- What a panicking call has written is lost with the process. -/
theorem next_of_panicked {m : Exec σ α} {s : σ} (h : (exec m s).1 = .error .panicked) :
    next m s = s := by
  rcases hm : exec m s with ⟨r, s'⟩
  rw [hm] at h
  obtain rfl : r = .error .panicked := h
  rw [next, hm]

end Exec

end VotingChain
