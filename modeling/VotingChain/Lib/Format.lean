/-
# `VotingChain.Lib.Format` — byte formats that can be read back

A `Format` writes values as byte strings and reads them from the front of a string.  That
what was written is read again, and that the reader stops where the writer did, is part of
it, so formats are built from smaller ones and there is nothing left to prove about the
result.

The formats here are words, booleans, arrays of bytes, options, pairs, vectors behind their
length and strings behind the length of their UTF-8 form: enough for the records of a
program that serialises its state.
-/
import Mathlib.Data.Vector.Basic
import VotingChain.Lib.Codec

namespace Codec

/-- The number with these bytes, least significant first. -/
def ofLeBytes : List UInt8 → Nat
  | [] => 0
  | b :: bs => b.toNat + 256 * ofLeBytes bs

theorem ofLeBytes_leBytes : ∀ {w n : Nat}, n < 256 ^ w → ofLeBytes (leBytes w n) = n
  | 0, n, hn => by
      simp only [Nat.pow_zero, Nat.lt_one_iff] at hn
      rw [hn]
      rfl
  | w + 1, n, hn => by
      have hhigh : n / 256 < 256 ^ w := by
        rw [Nat.pow_succ] at hn
        omega
      rw [leBytes, ofLeBytes, ofLeBytes_leBytes hhigh, UInt8.toNat_ofNat']
      omega

theorem ofLeBytes_lt (bs : List UInt8) : ofLeBytes bs < 256 ^ bs.length := by
  induction bs with
  | nil => exact Nat.one_pos
  | cons b bs ih =>
      have hb := b.toNat_lt
      rw [ofLeBytes, List.length_cons, Nat.pow_succ]
      omega

theorem leBytes_ofLeBytes (bs : List UInt8) : leBytes bs.length (ofLeBytes bs) = bs := by
  induction bs with
  | nil => rfl
  | cons b bs ih =>
      have hb := b.toNat_lt
      have hlow : UInt8.ofNat (b.toNat + 256 * ofLeBytes bs) = b := by
        rw [← UInt8.toNat_inj, UInt8.toNat_ofNat']
        omega
      have hhigh : (b.toNat + 256 * ofLeBytes bs) / 256 = ofLeBytes bs := by
        omega
      rw [ofLeBytes, List.length_cons, leBytes, hlow, hhigh, ih]

/-- The low `w` bytes of `n`, most significant first. -/
def beBytes (w n : Nat) : List UInt8 := (leBytes w n).reverse

/-- The number with these bytes, most significant first. -/
def ofBeBytes (bs : List UInt8) : Nat := ofLeBytes bs.reverse

@[simp] theorem length_beBytes (w n : Nat) : (beBytes w n).length = w := by
  rw [beBytes, List.length_reverse, length_leBytes]

theorem ofBeBytes_beBytes {w n : Nat} (hn : n < 256 ^ w) : ofBeBytes (beBytes w n) = n := by
  rw [ofBeBytes, beBytes, List.reverse_reverse, ofLeBytes_leBytes hn]

theorem ofBeBytes_lt (bs : List UInt8) : ofBeBytes bs < 256 ^ bs.length := by
  have hlt := ofLeBytes_lt bs.reverse
  rw [List.length_reverse] at hlt
  exact hlt

theorem beBytes_ofBeBytes (bs : List UInt8) : beBytes bs.length (ofBeBytes bs) = bs := by
  have hbytes := leBytes_ofLeBytes bs.reverse
  rw [List.length_reverse] at hbytes
  rw [beBytes, ofBeBytes, hbytes, List.reverse_reverse]

end Codec

/-- How values are written, and read from the front of a string. -/
structure Format (α : Type) where
  write : α → List UInt8
  read : List UInt8 → Option (α × List UInt8)
  read_write : ∀ a rest, read (write a ++ rest) = some (a, rest)

namespace Format
variable {α β : Type}

/-- The value at the front of a string, whatever follows. -/
def decode (F : Format α) (data : List UInt8) : Except String α :=
  match F.read data with
  | some (a, _) => .ok a
  | none => .error "invalid data"

theorem decode_write (F : Format α) (a : α) : F.decode (F.write a) = .ok a := by
  have h := F.read_write a []
  rw [List.append_nil] at h
  rw [decode, h]

/-- Values that are written as other values.  Not all of those need to stand for one. -/
def comap (F : Format β) (f : α → β) (g : β → Option α) (h : ∀ a, g (f a) = some a) : Format α where
  write a := F.write (f a)
  read data := do
    let (b, rest) ← F.read data
    let a ← g b
    return (a, rest)
  read_write a rest := by simp only [F.read_write, bind, Option.bind, h, pure]

/-- One value after another. -/
def pair (F : Format α) (G : Format β) : Format (α × β) where
  write p := F.write p.1 ++ G.write p.2
  read data := do
    let (a, rest) ← F.read data
    let (b, rest) ← G.read rest
    return ((a, b), rest)
  read_write p rest := by
    simp only [List.append_assoc, F.read_write, bind, Option.bind, G.read_write, pure]

/-- An array of bytes, bare. -/
def array (n : Nat) : Format (List.Vector UInt8 n) where
  write v := v.toList
  read data :=
    if h : (data.take n).length = n then some (⟨data.take n, h⟩, data.drop n) else none
  read_write v rest := by
    obtain ⟨bytes, rfl⟩ := v
    simp only [List.Vector.toList_mk, List.take_left, List.drop_left, dif_pos]

/-- A number of `w` bytes. -/
def word (w : Nat) : Format (Fin (256 ^ w)) :=
  (array w).comap (fun n => ⟨Codec.leBytes w n, Codec.length_leBytes w n⟩)
    (fun v => if h : Codec.ofLeBytes v.toList < 256 ^ w then some ⟨_, h⟩ else none)
    (fun n => by
      have hread : Codec.ofLeBytes (Codec.leBytes w n) = n := Codec.ofLeBytes_leBytes n.isLt
      simp only [List.Vector.toList_mk, hread, n.isLt, dif_pos])

def u64 : Format UInt64 :=
  (word 8).comap (fun n => ⟨n.toNat, n.toNat_lt⟩) (fun n => some (UInt64.ofNat n))
    (fun _ => congrArg some UInt64.ofNat_toNat)

theorem write_u64 (n : UInt64) : u64.write n = Codec.leBytes 8 n.toNat := rfl

/-- A byte that is zero or one. -/
def bool : Format Bool where
  write b := [if b then 1 else 0]
  read
    | 0 :: rest => some (false, rest)
    | 1 :: rest => some (true, rest)
    | _ => none
  read_write b rest := by cases b <;> rfl

/-- A byte that says whether there is a value, and the value. -/
def option (F : Format α) : Format (Option α) where
  write
    | none => [0]
    | some a => 1 :: F.write a
  read
    | 0 :: rest => some (none, rest)
    | 1 :: rest => (F.read rest).map fun (a, rest) => (some a, rest)
    | _ => none
  read_write a rest := by
    cases a with
    | none => rfl
    | some a =>
        show (F.read (F.write a ++ rest)).map _ = _
        rw [F.read_write]
        rfl

/-- So many values, one after another. -/
def readMany (F : Format α) : Nat → List UInt8 → Option (List α × List UInt8)
  | 0, data => some ([], data)
  | n + 1, data => do
      let (a, rest) ← F.read data
      let (as, rest) ← readMany F n rest
      return (a :: as, rest)

theorem readMany_write (F : Format α) (as : List α) (rest : List UInt8) :
    F.readMany as.length (as.flatMap F.write ++ rest) = some (as, rest) := by
  induction as with
  | nil => rfl
  | cons a as ih =>
      simp only [List.length_cons, List.flatMap_cons, List.append_assoc, readMany, F.read_write,
        bind, Option.bind, ih, pure]

/-- A vector behind its length, if that fits into a word. -/
def vec (F : Format α) {bound : Nat} (hbound : bound < 256 ^ 8) :
    Format { as : List α // as.length ≤ bound } where
  write as := (word 8).write ⟨as.val.length, as.property.trans_lt hbound⟩ ++ as.val.flatMap F.write
  read data := do
    let (n, rest) ← (word 8).read data
    let (as, rest) ← F.readMany n rest
    if h : as.length ≤ bound then some (⟨as, h⟩, rest) else none
  read_write as rest := by
    simp only [List.append_assoc, (word 8).read_write, bind, Option.bind, readMany_write,
      as.property, dif_pos]

/-- A single byte. -/
def byte : Format UInt8 where
  write b := [b]
  read
    | b :: rest => some (b, rest)
    | [] => none
  read_write _ _ := rfl

/-- The UTF-8 form of a string, behind its length. -/
def string {bound : Nat} (hbound : bound < 256 ^ 8) :
    Format { s : String // s.utf8ByteSize ≤ bound } :=
  (vec byte hbound).comap (fun s => ⟨s.val.toByteArray.data.toList, s.property⟩)
    (fun bytes => do
      let s ← String.fromUTF8? ⟨bytes.val.toArray⟩
      if h : s.utf8ByteSize ≤ bound then some ⟨s, h⟩ else none)
    (fun s => by
      have hread : String.fromUTF8? ⟨s.val.toByteArray.data.toList.toArray⟩ = some s.val := by
        rw [Array.toArray_toList]
        exact dif_pos s.val.isValidUTF8
      simp only [hread, bind, Option.bind, s.property, dif_pos])

end Format
