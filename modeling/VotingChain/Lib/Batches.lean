/-
# `VotingChain.Lib.Batches` — a range cut into batches

`[start, stop)` cut from its start into pieces of some size, the last one shorter if need be.
What such a cutting is (`Cuts`), that every number of the range is in one piece and in no
other, and where the last piece would end if it were not cut short (`lastEnd`): that is the
largest number a program has to be able to hold that takes the pieces one by one.
-/
import Mathlib.Data.List.Basic

namespace Batches

/-- The pieces follow one another from `start` to `stop`; none is empty, and none is larger
than `size`. -/
inductive Cuts (size : Nat) : Nat → Nat → List (Nat × Nat) → Prop
  | done (stop : Nat) : Cuts size stop stop []
  | piece {start middle stop : Nat} {ranges : List (Nat × Nat)} : start < middle →
      middle ≤ start + size → Cuts size middle stop ranges →
      Cuts size start stop ((start, middle) :: ranges)

namespace Cuts
variable {size start stop : Nat} {ranges : List (Nat × Nat)}

theorem le (h : Cuts size start stop ranges) : start ≤ stop := by
  induction h with
  | done stop => exact Nat.le_refl stop
  | piece hlt _ _ ih => exact Nat.le_trans (Nat.le_of_lt hlt) ih

theorem start_le (h : Cuts size start stop ranges) : ∀ r ∈ ranges, start ≤ r.1 := by
  induction h with
  | done stop => simp
  | piece hlt _ _ ih =>
      refine List.forall_mem_cons.mpr ⟨Nat.le_refl _, ?_⟩
      intro r hr
      exact Nat.le_trans (Nat.le_of_lt hlt) (ih r hr)

theorem pairwise (h : Cuts size start stop ranges) :
    ranges.Pairwise fun r r' => r.2 ≤ r'.1 := by
  induction h with
  | done stop => exact List.Pairwise.nil
  | piece _ _ hrest ih => exact List.pairwise_cons.mpr ⟨hrest.start_le, ih⟩

theorem mem_iff (h : Cuts size start stop ranges) (n : Nat) :
    (∃ r ∈ ranges, r.1 ≤ n ∧ n < r.2) ↔ start ≤ n ∧ n < stop := by
  induction h with
  | done stop => simp
  | piece hlt _ hrest ih =>
      rw [List.exists_mem_cons_iff, ih]
      have hle := hrest.le
      omega

end Cuts

/-- Where the last of these pieces would end, had it the full size. -/
def lastEnd (size start stop : Nat) : Nat := start + (stop - start + size - 1) / size * size

section
variable {size start stop : Nat}

theorem lastEnd_self (hsize : 0 < size) : lastEnd size stop stop = stop := by
  have hzero : (size - 1) / size = 0 := Nat.div_eq_of_lt (Nat.sub_lt hsize Nat.one_pos)
  rw [lastEnd, Nat.sub_self, Nat.zero_add, hzero, Nat.zero_mul, Nat.add_zero]

theorem lastEnd_add (hsize : 0 < size) (hle : start + size ≤ stop) :
    lastEnd size (start + size) stop = lastEnd size start stop := by
  have hsub : stop - start + size - 1 = stop - (start + size) + size - 1 + size := by
    omega
  rw [lastEnd, lastEnd, hsub, Nat.add_div_right _ hsize, Nat.succ_mul]
  omega

theorem lastEnd_of_le (hlt : start < stop) (hle : stop ≤ start + size) :
    lastEnd size start stop = start + size := by
  have hone : (stop - start + size - 1) / size = 1 := by
    refine Nat.div_eq_of_lt_le ?_ ?_
    · rw [Nat.one_mul]
      omega
    · rw [Nat.succ_mul, Nat.one_mul]
      omega
  rw [lastEnd, hone, Nat.one_mul]

end

end Batches
