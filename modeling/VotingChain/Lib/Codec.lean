/-
# `VotingChain.Lib.Codec` — byte encodings that can be cut apart again

An encoder is *self-delimiting* when a reader who sees its output followed by
anything else knows where the output ends:

    enc a ++ r = enc a' ++ r'   ⟹   a = a'  and  r = r'

Self-delimiting encoders are injective, and they compose by concatenation,
which is what a hash preimage or a serialised record is made of.  Injectivity
alone does not compose: `[1] ++ [2, 3]` and `[1, 2] ++ [3]` are two splits of
one string.

The words and byte arrays of fixed width are self-delimiting because their
length is known (`SelfDelimiting.of_length`); `prod` and `comap` build the rest.
-/
import Mathlib.Data.List.Basic
import Mathlib.Data.Vector.Basic

namespace Codec

/-! ## Little-endian words -/

/-- The low `w` bytes of `n`, least significant first. -/
def leBytes : Nat → Nat → List UInt8
  | 0, _ => []
  | w + 1, n => UInt8.ofNat n :: leBytes w (n / 256)

@[simp] theorem length_leBytes : ∀ (w n : Nat), (leBytes w n).length = w
  | 0, _ => rfl
  | w + 1, n => by simp [leBytes, length_leBytes w]

theorem leBytes_inj : ∀ {w m n : Nat}, m < 256 ^ w → n < 256 ^ w →
    leBytes w m = leBytes w n → m = n
  | 0, m, n, hm, hn, _ => by
      simp only [Nat.pow_zero, Nat.lt_one_iff] at hm hn
      rw [hm, hn]
  | w + 1, m, n, hm, hn, h => by
      simp only [leBytes, List.cons.injEq] at h
      have hlow : m % 256 = n % 256 := by
        have := congrArg UInt8.toNat h.1
        simpa [UInt8.toNat_ofNat'] using this
      have hhigh : m / 256 = n / 256 :=
        leBytes_inj (by rw [Nat.pow_succ] at hm; omega)
          (by rw [Nat.pow_succ] at hn; omega) h.2
      omega

/-! ## Self-delimiting encoders -/

variable {α β γ : Type}

/-- The output of `enc` can be cut off whatever follows it. -/
def SelfDelimiting (enc : α → List γ) : Prop :=
  ∀ a a' r r', enc a ++ r = enc a' ++ r' → a = a' ∧ r = r'

namespace SelfDelimiting

theorem injective {enc : α → List γ} (h : SelfDelimiting enc) : Function.Injective enc := by
  intro a a' heq
  exact (h a a' [] [] (by rw [heq])).1

theorem of_length {enc : α → List γ} {w : Nat} (hlen : ∀ a, (enc a).length = w)
    (hinj : Function.Injective enc) : SelfDelimiting enc := by
  intro a a' r r' h
  obtain ⟨h₁, h₂⟩ := List.append_inj h (by rw [hlen, hlen])
  exact ⟨hinj h₁, h₂⟩

theorem comap {enc : β → List γ} (h : SelfDelimiting enc) {f : α → β}
    (hf : Function.Injective f) : SelfDelimiting (fun a => enc (f a)) := by
  intro a a' r r' heq
  obtain ⟨h₁, h₂⟩ := h _ _ r r' heq
  exact ⟨hf h₁, h₂⟩

theorem prod {enc₁ : α → List γ} {enc₂ : β → List γ} (h₁ : SelfDelimiting enc₁)
    (h₂ : SelfDelimiting enc₂) : SelfDelimiting (fun p : α × β => enc₁ p.1 ++ enc₂ p.2) := by
  intro p p' r r' heq
  simp only [List.append_assoc] at heq
  obtain ⟨ha, heq₂⟩ := h₁ _ _ _ _ heq
  obtain ⟨hb, hr⟩ := h₂ _ _ _ _ heq₂
  exact ⟨Prod.ext ha hb, hr⟩

end SelfDelimiting

/-! ## The fixed-width encoders in use -/

theorem selfDelimiting_u64 : SelfDelimiting (fun x : UInt64 => leBytes 8 x.toNat) := by
  refine SelfDelimiting.of_length (fun _ => length_leBytes 8 _) ?_
  intro x y h
  exact UInt64.toNat_inj.mp (leBytes_inj x.toNat_lt y.toNat_lt h)

theorem selfDelimiting_u32 : SelfDelimiting (fun x : UInt32 => leBytes 4 x.toNat) := by
  refine SelfDelimiting.of_length (fun _ => length_leBytes 4 _) ?_
  intro x y h
  exact UInt32.toNat_inj.mp (leBytes_inj x.toNat_lt y.toNat_lt h)

theorem selfDelimiting_vector (n : Nat) :
    SelfDelimiting (fun v : List.Vector γ n => v.toList) :=
  SelfDelimiting.of_length (fun v => v.toList_length) (fun _ _ h => List.Vector.eq _ _ h)

end Codec
