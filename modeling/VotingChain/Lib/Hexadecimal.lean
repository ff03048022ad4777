/-
# `VotingChain.Lib.Hexadecimal` — bytes as hexadecimal digits, executable

A byte is two digits, the high half first, in lower case; a reader takes the digits of
either case:

    b   ↦   (b / 16)₁₆ (b % 16)₁₆

It refuses an odd number of digits, and what is not a digit with its place.  What was encoded
it decodes (`decode_encode`), and an encoding has two characters for each byte
(`utf8ByteSize_encode`).
-/
import Mathlib.Data.List.Basic

namespace Hexadecimal

/-- The digits of a byte. -/
def digits (b : UInt8) : List Char := [Nat.digitChar (b.toNat / 16), Nat.digitChar (b.toNat % 16)]

def encode (data : List UInt8) : String := String.ofList (data.flatMap digits)

inductive DecodeError where
  | invalidCharacter (c : Char) (index : Nat)
  | oddLength
  deriving DecidableEq

def DecodeError.display : DecodeError → String
  | .invalidCharacter c index =>
      "Invalid character '" ++ String.singleton c ++ "' at position " ++ toString index
  | .oddLength => "Odd number of digits"

/-- The value of a digit, in either case. -/
def digitVal (c : UInt8) : Option UInt8 :=
  if 65 ≤ c ∧ c ≤ 70 then some (c - 65 + 10)
  else if 97 ≤ c ∧ c ≤ 102 then some (c - 97 + 10)
  else if 48 ≤ c ∧ c ≤ 57 then some (c - 48)
  else none

/-- The value of the digit at a place. -/
def value (c : UInt8) (index : Nat) : Except DecodeError UInt8 :=
  match digitVal c with
  | some v => .ok v
  | none => .error (.invalidCharacter (Char.ofNat c.toNat) index)

def pairs (index : Nat) : List UInt8 → Except DecodeError (List UInt8)
  | high :: low :: rest => do
      let h ← value high index
      let l ← value low (index + 1)
      let bytes ← pairs (index + 2) rest
      return ((h <<< 4) ||| l) :: bytes
  | _ => .ok []

/-- The bytes that the UTF-8 form of a text stands for. -/
def decode (text : List UInt8) : Except DecodeError (List UInt8) :=
  if text.length % 2 ≠ 0 then .error .oddLength else pairs 0 text

/-- The UTF-8 form of a text. -/
def bytes (text : String) : List UInt8 := text.toByteArray.data.toList

theorem bytes_append (s t : String) : bytes (s ++ t) = bytes s ++ bytes t := by
  simp [bytes]

theorem bytes_digitChar {n : Nat} (hn : n < 16) :
    bytes (String.singleton (Nat.digitChar n)) = [UInt8.ofNat (Nat.digitChar n).toNat] := by
  have h : ∀ a : Fin 16, bytes (String.singleton (Nat.digitChar a)) =
      [UInt8.ofNat (Nat.digitChar a).toNat] := by
    decide
  exact h ⟨n, hn⟩

theorem value_digitChar {n : Nat} (hn : n < 16) (index : Nat) :
    value (UInt8.ofNat (Nat.digitChar n).toNat) index = .ok (UInt8.ofNat n) := by
  have h : ∀ a : Fin 16, digitVal (UInt8.ofNat (Nat.digitChar a).toNat) =
      some (UInt8.ofNat a) := by
    decide
  rw [value, h ⟨n, hn⟩]

theorem shiftLeft_or (b : UInt8) :
    ((UInt8.ofNat (b.toNat / 16) <<< 4) ||| UInt8.ofNat (b.toNat % 16)) = b := by
  have h : ∀ a : Fin 256, ((UInt8.ofNat (a.val / 16) <<< 4) ||| UInt8.ofNat (a.val % 16)) =
      UInt8.ofNat a := by
    decide +kernel
  have hb := h ⟨b.toNat, b.toNat_lt⟩
  rwa [UInt8.ofNat_toNat] at hb

theorem encode_cons (b : UInt8) (data : List UInt8) :
    encode (b :: data) = String.singleton (Nat.digitChar (b.toNat / 16)) ++
      String.singleton (Nat.digitChar (b.toNat % 16)) ++ encode data := by
  rw [encode, List.flatMap_cons, String.ofList_append]
  congr 1
  rw [String.singleton_eq_ofList, String.singleton_eq_ofList, ← String.ofList_append]
  rfl

theorem bytes_encode_cons (b : UInt8) (data : List UInt8) :
    bytes (encode (b :: data)) = UInt8.ofNat (Nat.digitChar (b.toNat / 16)).toNat ::
      UInt8.ofNat (Nat.digitChar (b.toNat % 16)).toNat :: bytes (encode data) := by
  have hb := b.toNat_lt
  rw [encode_cons, bytes_append, bytes_append, bytes_digitChar (by omega),
    bytes_digitChar (by omega)]
  rfl

theorem utf8ByteSize_encode (data : List UInt8) :
    (encode data).utf8ByteSize = 2 * data.length := by
  show (bytes (encode data)).length = _
  induction data with
  | nil => rfl
  | cons b data ih =>
      rw [bytes_encode_cons, List.length_cons, List.length_cons, ih, List.length_cons]
      omega

theorem pairs_encode (data : List UInt8) (index : Nat) :
    pairs index (bytes (encode data)) = .ok data := by
  induction data generalizing index with
  | nil => rfl
  | cons b data ih =>
      have hb := b.toNat_lt
      rw [bytes_encode_cons, pairs, value_digitChar (by omega), value_digitChar (by omega), ih]
      show Except.ok (_ :: data) = _
      rw [shiftLeft_or]

theorem decode_encode (data : List UInt8) : decode (bytes (encode data)) = .ok data := by
  have hlen : (bytes (encode data)).length = 2 * data.length := utf8ByteSize_encode data
  have heven : (bytes (encode data)).length % 2 = 0 := by omega
  rw [decode, if_neg (not_not.mpr heven), pairs_encode]

end Hexadecimal
