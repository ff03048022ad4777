/-
# `VotingChain.Lib.Windows` — the windows of a list

The windows of size `n` of a list are its contiguous parts of that length, from the left to
the right.  Those of size two are the pairs of neighbours, and so a relation holds all along
a list exactly if it holds in every one of them.
-/
import Mathlib.Data.List.Chain
import Mathlib.Data.List.Infix

namespace Windows

section
variable {α : Type}

/-- The contiguous parts of length `n`, where `n` is not zero. -/
def windows (n : ℕ) : List α → List (List α)
  | [] => []
  | x :: xs => if n ≤ xs.length + 1 then (x :: xs).take n :: windows n xs else []

theorem mem_windows {n : ℕ} (hn : 1 ≤ n) {xs w : List α} :
    w ∈ windows n xs ↔ w.length = n ∧ w <:+: xs := by
  induction xs with
  | nil =>
      simp only [windows, List.not_mem_nil, List.infix_nil, false_iff]
      rintro ⟨hlen, rfl⟩
      simp at hlen
      omega
  | cons x xs ih =>
      rw [windows, List.infix_cons_iff]
      split
      · next hlong =>
          have htake : ((x :: xs).take n).length = n := by
            rw [List.length_take, List.length_cons]
            omega
          rw [List.mem_cons, ih]
          constructor
          · rintro (rfl | ⟨hlen, hin⟩)
            · exact ⟨htake, Or.inl (List.take_prefix n (x :: xs))⟩
            · exact ⟨hlen, Or.inr hin⟩
          · rintro ⟨hlen, hpre | hin⟩
            · left
              rw [List.prefix_iff_eq_take.mp hpre, hlen]
            · exact Or.inr ⟨hlen, hin⟩
      · next hshort =>
          refine iff_of_false List.not_mem_nil ?_
          rintro ⟨hlen, hpre | hin⟩
          · have hle := hpre.length_le
            rw [List.length_cons] at hle
            omega
          · have hle := hin.length_le
            omega

theorem isChain_iff_forall_windows {R : α → α → Prop} {xs : List α} :
    xs.IsChain R ↔ ∀ a b, [a, b] ∈ windows 2 xs → R a b := by
  rw [List.isChain_iff_forall_rel_of_append_cons_cons]
  constructor
  · intro h a b hmem
    obtain ⟨-, before, after, heq⟩ := (mem_windows (by decide)).mp hmem
    rw [List.append_assoc] at heq
    exact h heq.symm
  · intro h a b before after heq
    refine h a b ((mem_windows (by decide)).mpr ⟨rfl, before, after, ?_⟩)
    rw [heq, List.append_assoc]
    rfl

theorem exists_pair {xs w : List α} (h : w ∈ windows 2 xs) : ∃ a b, w = [a, b] := by
  obtain ⟨hlen, -⟩ := (mem_windows (by decide)).mp h
  exact List.length_eq_two.mp hlen

end

end Windows
