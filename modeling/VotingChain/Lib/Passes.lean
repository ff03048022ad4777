/-
# `VotingChain.Lib.Passes` — what a pass over a list comes to

`Iterator::max_by_key` goes through a list with the best element so far and keeps it only
as long as its key is *strictly* greater than the next one.  What it returns has the
greatest key (`maxByKey_eq_some`), and of several elements with that key it is the last
(`maxByKey_concat`).

Another pass puts every element into a set and counts those that were in it already.  Starting
from the empty set that is the length of the list less the number of its different elements
(`repeats_empty`), whatever the order (`repeats_perm`).
-/
import Mathlib.Data.Finset.Card
import Mathlib.Order.Lattice

/-! ## The maximum by a key -/

namespace List

variable {α κ : Type} [LinearOrder κ]

/-- The better of two by their keys: the second, if the keys are the same. -/
def better (key : α → κ) (best x : α) : α := if key x < key best then best else x

/-- The last element with the greatest key. -/
def maxByKey (key : α → κ) : List α → Option α
  | [] => none
  | x :: xs => some (xs.foldl (better key) x)

theorem better_eq (key : α → κ) (x y : α) : better key x y = x ∨ better key x y = y := by
  rw [better]
  split
  · exact Or.inl rfl
  · exact Or.inr rfl

theorem le_key_better (key : α → κ) (x y : α) :
    key x ≤ key (better key x y) ∧ key y ≤ key (better key x y) := by
  rw [better]
  split
  · next h => exact ⟨le_rfl, h.le⟩
  · next h => exact ⟨not_lt.mp h, le_rfl⟩

theorem foldl_better (key : α → κ) (xs : List α) : ∀ x : α,
    xs.foldl (better key) x ∈ x :: xs ∧ ∀ y ∈ x :: xs, key y ≤ key (xs.foldl (better key) x) := by
  induction xs with
  | nil =>
      intro x
      refine ⟨List.mem_singleton_self x, ?_⟩
      intro y hy
      rw [List.mem_singleton.mp hy]
      exact le_rfl
  | cons z xs ih =>
      intro x
      obtain ⟨hmem, hle⟩ := ih (better key x z)
      obtain ⟨hx, hz⟩ := le_key_better key x z
      have hbest := hle _ List.mem_cons_self
      rw [List.foldl_cons]
      constructor
      · rcases List.mem_cons.mp hmem with h | h
        · rw [h]
          rcases better_eq key x z with hb | hb
          · rw [hb]
            exact List.mem_cons_self
          · rw [hb]
            exact List.mem_cons_of_mem _ List.mem_cons_self
        · exact List.mem_cons_of_mem _ (List.mem_cons_of_mem _ h)
      · intro y hy
        rcases List.mem_cons.mp hy with rfl | hy
        · exact hx.trans hbest
        · rcases List.mem_cons.mp hy with rfl | hy
          · exact hz.trans hbest
          · exact hle y (List.mem_cons_of_mem _ hy)

@[simp] theorem maxByKey_eq_none {key : α → κ} {l : List α} : maxByKey key l = none ↔ l = [] := by
  cases l with
  | nil => exact iff_of_true rfl rfl
  | cons x xs => exact iff_of_false (Option.some_ne_none _) (List.cons_ne_nil x xs)

theorem maxByKey_eq_some {key : α → κ} {l : List α} {x : α} (h : maxByKey key l = some x) :
    x ∈ l ∧ ∀ y ∈ l, key y ≤ key x := by
  cases l with
  | nil => cases h
  | cons z xs =>
      cases h
      exact foldl_better key xs z

theorem maxByKey_concat {key : α → κ} {l : List α} {x : α} (hle : ∀ y ∈ l, key y ≤ key x) :
    maxByKey key (l ++ [x]) = some x := by
  cases l with
  | nil => rfl
  | cons z xs =>
      have hbest := hle _ (foldl_better key xs z).1
      rw [List.cons_append, maxByKey, List.foldl_append, List.foldl_cons, List.foldl_nil, better,
        if_neg (not_lt.mpr hbest)]

end List

/-! ## Repeats -/

namespace Repeats
variable {α : Type} [DecidableEq α]

/-- How many elements the pass has seen before, with `seen` at the start. -/
def repeats (seen : Finset α) : List α → Nat
  | [] => 0
  | x :: xs => (if x ∈ seen then 1 else 0) + repeats (insert x seen) xs

theorem repeats_add_card (seen : Finset α) (xs : List α) :
    repeats seen xs + (seen ∪ xs.toFinset).card = xs.length + seen.card := by
  induction xs generalizing seen with
  | nil => rw [repeats, List.toFinset_nil, Finset.union_empty, List.length_nil]
  | cons x xs ih =>
      have hrest := ih (insert x seen)
      rw [Finset.insert_union, ← Finset.union_insert, ← List.toFinset_cons] at hrest
      rw [repeats, List.length_cons]
      by_cases hx : x ∈ seen
      · have hcard : (insert x seen).card = seen.card := by rw [Finset.insert_eq_of_mem hx]
        rw [if_pos hx]
        omega
      · have hcard : (insert x seen).card = seen.card + 1 := Finset.card_insert_of_notMem hx
        rw [if_neg hx]
        omega

theorem repeats_empty (xs : List α) : repeats ∅ xs = xs.length - xs.toFinset.card := by
  have h := repeats_add_card ∅ xs
  rw [Finset.empty_union, Finset.card_empty] at h
  omega

theorem repeats_perm {xs ys : List α} (h : xs.Perm ys) : repeats ∅ xs = repeats ∅ ys := by
  rw [repeats_empty, repeats_empty, h.length_eq, List.toFinset_eq_of_perm xs ys h]

theorem repeats_eq_zero_iff {xs : List α} : repeats ∅ xs = 0 ↔ xs.Nodup := by
  have hle : xs.toFinset.card ≤ xs.length := List.toFinset_card_le xs
  rw [repeats_empty, ← Multiset.coe_nodup, ← Multiset.toFinset_card_eq_card_iff_nodup,
    Multiset.coe_card]
  show xs.length - xs.toFinset.card = 0 ↔ xs.toFinset.card = xs.length
  omega

end Repeats
