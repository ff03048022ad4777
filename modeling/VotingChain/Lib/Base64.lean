/-
# `VotingChain.Lib.Base64` — base64 with padding, executable

Three bytes are four digits of six bits; a last group of one or two bytes is filled up
with `=`:

    a b c   ↦   a₆ (a₂ b₄) (b₄ c₂) c₆
    a b     ↦   a₆ (a₂ b₄) b₄ =
    a       ↦   a₆ a₂ = =

The decoder wants the padding, and nothing in the bits that are filled up.  What was encoded
it decodes (`decode_encode`).
-/
import Mathlib.Data.List.Basic

namespace Base64

def alphabet : List Char :=
  "ABCDEFGHIJKLMNOPQRSTUVWXYZabcdefghijklmnopqrstuvwxyz0123456789+/".toList

def digit (n : Nat) : Char := alphabet.getD n 'A'

def encode : List UInt8 → List Char
  | [] => []
  | [a] => [digit (a.toNat / 4), digit (a.toNat % 4 * 16), '=', '=']
  | [a, b] =>
      [digit (a.toNat / 4), digit (a.toNat % 4 * 16 + b.toNat / 16), digit (b.toNat % 16 * 4), '=']
  | a :: b :: c :: rest =>
      digit (a.toNat / 4) :: digit (a.toNat % 4 * 16 + b.toNat / 16) ::
        digit (b.toNat % 16 * 4 + c.toNat / 64) :: digit (c.toNat % 64) :: encode rest

/-- The value of a digit. -/
def value (c : Char) : Option Nat := alphabet.idxOf? c

/-- The two bytes of three digits, if no bit is left. -/
def decodeTwo (a b c : Char) : Option (List UInt8) := do
  let x ← value a
  let y ← value b
  let z ← value c
  if z % 4 = 0 then some [UInt8.ofNat (x * 4 + y / 16), UInt8.ofNat (y % 16 * 16 + z / 4)]
  else none

/-- The byte of two digits, if no bit is left. -/
def decodeOne (a b : Char) : Option (List UInt8) := do
  let x ← value a
  let y ← value b
  if y % 16 = 0 then some [UInt8.ofNat (x * 4 + y / 16)] else none

/-- The three bytes of four digits. -/
def decodeThree (a b c d : Char) : Option (List UInt8) := do
  let x ← value a
  let y ← value b
  let z ← value c
  let w ← value d
  some [UInt8.ofNat (x * 4 + y / 16), UInt8.ofNat (y % 16 * 16 + z / 4),
    UInt8.ofNat (z % 4 * 64 + w)]

def decode : List Char → Option (List UInt8)
  | [] => some []
  | a :: b :: c :: d :: rest =>
      if d = '=' ∧ rest = [] then if c = '=' then decodeOne a b else decodeTwo a b c
      else do
        let bytes ← decodeThree a b c d
        let more ← decode rest
        some (bytes ++ more)
  | _ => none

/-! ## Digits -/

theorem value_digit {n : Nat} (hn : n < 64) : value (digit n) = some n := by
  have h : ∀ a : Fin 64, value (digit a) = some a.val := by decide +kernel
  exact h ⟨n, hn⟩

theorem digit_mem (n : Nat) : digit n ∈ alphabet := by
  rw [digit, List.getD_eq_getElem?_getD]
  cases h : alphabet[n]? with
  | none =>
      rw [Option.getD_none]
      decide
  | some c => exact List.mem_of_getElem? h

theorem digit_ne_pad (n : Nat) : digit n ≠ '=' := by
  intro h
  have hmem := digit_mem n
  rw [h] at hmem
  revert hmem
  decide

/-! ## The round trip -/

theorem decodeOne_digit {a : UInt8} :
    decodeOne (digit (a.toNat / 4)) (digit (a.toNat % 4 * 16)) = some [a] := by
  have ha := a.toNat_lt
  have hx : a.toNat / 4 < 64 := by omega
  have hy : a.toNat % 4 * 16 < 64 := by omega
  have hbyte : a.toNat / 4 * 4 + a.toNat % 4 * 16 / 16 = a.toNat := by omega
  have hrest : a.toNat % 4 * 16 % 16 = 0 := by omega
  simp only [decodeOne, value_digit hx, value_digit hy, hbyte, hrest, Option.bind_eq_bind,
    Option.bind_some, if_true, UInt8.ofNat_toNat]

theorem decodeTwo_digit {a b : UInt8} :
    decodeTwo (digit (a.toNat / 4)) (digit (a.toNat % 4 * 16 + b.toNat / 16))
      (digit (b.toNat % 16 * 4)) = some [a, b] := by
  have ha := a.toNat_lt
  have hb := b.toNat_lt
  have hx : a.toNat / 4 < 64 := by omega
  have hy : a.toNat % 4 * 16 + b.toNat / 16 < 64 := by omega
  have hz : b.toNat % 16 * 4 < 64 := by omega
  have hfirst : a.toNat / 4 * 4 + (a.toNat % 4 * 16 + b.toNat / 16) / 16 = a.toNat := by omega
  have hsecond : (a.toNat % 4 * 16 + b.toNat / 16) % 16 * 16 + b.toNat % 16 * 4 / 4 =
      b.toNat := by omega
  have hrest : b.toNat % 16 * 4 % 4 = 0 := by omega
  simp only [decodeTwo, value_digit hx, value_digit hy, value_digit hz, hfirst, hsecond, hrest,
    Option.bind_eq_bind, Option.bind_some, if_true, UInt8.ofNat_toNat]

theorem decodeThree_digit {a b c : UInt8} :
    decodeThree (digit (a.toNat / 4)) (digit (a.toNat % 4 * 16 + b.toNat / 16))
      (digit (b.toNat % 16 * 4 + c.toNat / 64)) (digit (c.toNat % 64)) = some [a, b, c] := by
  have ha := a.toNat_lt
  have hb := b.toNat_lt
  have hc := c.toNat_lt
  have hx : a.toNat / 4 < 64 := by omega
  have hy : a.toNat % 4 * 16 + b.toNat / 16 < 64 := by omega
  have hz : b.toNat % 16 * 4 + c.toNat / 64 < 64 := by omega
  have hw : c.toNat % 64 < 64 := by omega
  have hfirst : a.toNat / 4 * 4 + (a.toNat % 4 * 16 + b.toNat / 16) / 16 = a.toNat := by omega
  have hsecond : (a.toNat % 4 * 16 + b.toNat / 16) % 16 * 16 +
      (b.toNat % 16 * 4 + c.toNat / 64) / 4 = b.toNat := by omega
  have hthird : (b.toNat % 16 * 4 + c.toNat / 64) % 4 * 64 + c.toNat % 64 = c.toNat := by omega
  simp only [decodeThree, value_digit hx, value_digit hy, value_digit hz, value_digit hw, hfirst,
    hsecond, hthird, Option.bind_eq_bind, Option.bind_some, UInt8.ofNat_toNat]

theorem decode_encode (data : List UInt8) : decode (encode data) = some data := by
  induction data using encode.induct with
  | case1 => rfl
  | case2 a =>
      rw [encode, decode, if_pos ⟨rfl, rfl⟩, if_pos rfl, decodeOne_digit]
  | case3 a b =>
      rw [encode, decode, if_pos ⟨rfl, rfl⟩, if_neg (digit_ne_pad _), decodeTwo_digit]
  | case4 a b c rest ih =>
      rw [encode, decode, if_neg (fun h => digit_ne_pad _ h.1), decodeThree_digit, ih]
      rfl

theorem mem_encode {data : List UInt8} {c : Char} (h : c ∈ encode data) :
    c ∈ alphabet ∨ c = '=' := by
  induction data using encode.induct with
  | case1 => cases h
  | case2 a =>
      simp only [encode, List.mem_cons, List.not_mem_nil, or_false] at h
      rcases h with rfl | rfl | rfl | rfl
      · exact Or.inl (digit_mem _)
      · exact Or.inl (digit_mem _)
      · exact Or.inr rfl
      · exact Or.inr rfl
  | case3 a b =>
      simp only [encode, List.mem_cons, List.not_mem_nil, or_false] at h
      rcases h with rfl | rfl | rfl | rfl
      · exact Or.inl (digit_mem _)
      · exact Or.inl (digit_mem _)
      · exact Or.inl (digit_mem _)
      · exact Or.inr rfl
  | case4 a b c rest ih =>
      simp only [encode, List.mem_cons] at h
      rcases h with rfl | rfl | rfl | rfl | h
      · exact Or.inl (digit_mem _)
      · exact Or.inl (digit_mem _)
      · exact Or.inl (digit_mem _)
      · exact Or.inl (digit_mem _)
      · exact ih h

-- Groups of three, of two and of one.
example : String.ofList (encode [77, 97, 110, 77, 97, 77]) = "TWFuTWFN" := by decide
example : String.ofList (encode [77, 97]) = "TWE=" := by decide
example : String.ofList (encode [77]) = "TQ==" := by decide

end Base64
