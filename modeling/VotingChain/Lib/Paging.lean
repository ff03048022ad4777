/-
# `VotingChain.Lib.Paging` — counting what matches, and collecting one page of it

A list is walked through once.  What matches is counted, and a page of it is collected: what
comes after the first `offset` of the matches, up to `limit` of them.  The loop may stop with
an error where an item of the page cannot be shown.

`found` is what the loop comes to, whatever the list was cut into on the way
(`foldlM_visit`); and the pages, one after the other, are the list (`flatMap_page`).
-/
import Mathlib.Data.List.Basic

namespace Paging

/-! ## Pages -/

/-- The items after the first `offset`, up to `limit` of them. -/
def page {α : Type} (offset limit : Nat) (xs : List α) : List α := (xs.drop offset).take limit

theorem length_page {α : Type} (offset limit : Nat) (xs : List α) :
    (page offset limit xs).length = min limit (xs.length - offset) := by
  rw [page, List.length_take, List.length_drop]

theorem page_concat_of_lt {α : Type} {offset limit : Nat} {xs : List α} (x : α)
    (hoffset : offset ≤ xs.length) (hlimit : (page offset limit xs).length < limit) :
    page offset limit (xs ++ [x]) = page offset limit xs ++ [x] := by
  rw [length_page] at hlimit
  have hall : xs.length - offset + 1 ≤ limit := by omega
  rw [page, page, List.drop_append_of_le_length hoffset, List.take_of_length_le,
    List.take_of_length_le]
  · rw [List.length_drop]
    omega
  · rw [List.length_append, List.length_drop, List.length_singleton]
    exact hall

theorem page_concat_of_before {α : Type} {offset limit : Nat} {xs : List α} (x : α)
    (hoffset : xs.length < offset) : page offset limit (xs ++ [x]) = page offset limit xs := by
  rw [page, page, List.drop_of_length_le, List.drop_of_length_le]
  · omega
  · rw [List.length_append, List.length_singleton]
    omega

theorem page_concat_of_full {α : Type} {offset limit : Nat} {xs : List α} (x : α)
    (hoffset : offset ≤ xs.length) (hlimit : limit ≤ (page offset limit xs).length) :
    page offset limit (xs ++ [x]) = page offset limit xs := by
  rw [length_page] at hlimit
  rw [page, page, List.drop_append_of_le_length hoffset, List.take_append_of_le_length]
  rw [List.length_drop]
  omega

theorem flatMap_page {α : Type} (limit pages : Nat) (xs : List α) :
    (List.range pages).flatMap (fun i => page (i * limit) limit xs) = xs.take (pages * limit) := by
  induction pages with
  | zero => rw [Nat.zero_mul, List.range_zero, List.flatMap_nil, List.take_zero]
  | succ pages ih =>
      rw [List.range_succ, List.flatMap_append, List.flatMap_singleton, ih, page, ← List.take_add,
        Nat.succ_mul]

/-! ## The loop -/

/-- How many matches there were, and what was collected of them. -/
structure Found (ρ : Type) where
  total : Nat
  items : List ρ

section Loop
variable {α ρ ε : Type} (offset limit : Nat) (isMatch : α → Bool) (toResponse : α → Except ε ρ)

/-- One item of the list. -/
def visit (acc : Found ρ) (x : α) : Except ε (Found ρ) :=
  if isMatch x then
    if offset < acc.total + 1 ∧ acc.items.length < limit then do
      let item ← toResponse x
      return ⟨acc.total + 1, acc.items ++ [item]⟩
    else return ⟨acc.total + 1, acc.items⟩
  else return acc

/-- What there is to be found, if the matches are these and are shown like this. -/
def found (shown : α → ρ) (matched : List α) : Found ρ :=
  ⟨matched.length, (page offset limit matched).map shown⟩

theorem found_nil (shown : α → ρ) : found offset limit shown [] = ⟨0, []⟩ := by
  rw [found, page, List.drop_nil, List.take_nil]
  rfl

variable {offset limit isMatch toResponse}

theorem visit_found {shown : α → ρ} (hshow : ∀ x, toResponse x = .ok (shown x))
    (matched : List α) (x : α) :
    visit offset limit isMatch toResponse (found offset limit shown matched) x =
      .ok (found offset limit shown (matched ++ [x].filter isMatch)) := by
  rw [visit]
  split
  · rename_i hmatch
    rw [List.filter_cons_of_pos hmatch, List.filter_nil]
    split
    · rename_i hpage
      obtain ⟨hoffset, hlimit⟩ := hpage
      have hlimit' : (page offset limit matched).length < limit := by
        rwa [found, List.length_map] at hlimit
      have hmore : found offset limit shown (matched ++ [x]) =
          ⟨matched.length + 1, (page offset limit matched).map shown ++ [shown x]⟩ := by
        rw [found, page_concat_of_lt x (Nat.le_of_lt_succ hoffset) hlimit', List.map_append,
          List.length_append]
        rfl
      rw [hshow, hmore]
      rfl
    · rename_i hpage
      have hsame : page offset limit (matched ++ [x]) = page offset limit matched := by
        by_cases hoffset : offset ≤ matched.length
        · refine page_concat_of_full x hoffset (Nat.le_of_not_lt fun hlimit => hpage ⟨?_, ?_⟩)
          · exact Nat.lt_succ_of_le hoffset
          · rwa [found, List.length_map]
        · exact page_concat_of_before x (Nat.lt_of_not_le hoffset)
      have hcounted : found offset limit shown (matched ++ [x]) =
          ⟨matched.length + 1, (page offset limit matched).map shown⟩ := by
        rw [found, hsame, List.length_append]
        rfl
      rw [hcounted]
      rfl
  · rename_i hmatch
    rw [List.filter_cons_of_neg hmatch, List.filter_nil, List.append_nil]
    rfl

theorem foldlM_visit {shown : α → ρ} (hshow : ∀ x, toResponse x = .ok (shown x))
    (matched xs : List α) :
    xs.foldlM (visit offset limit isMatch toResponse) (found offset limit shown matched) =
      .ok (found offset limit shown (matched ++ xs.filter isMatch)) := by
  induction xs generalizing matched with
  | nil =>
      rw [List.filter_nil, List.append_nil, List.foldlM_nil]
      rfl
  | cons x xs ih =>
      rw [List.foldlM_cons, visit_found hshow]
      show xs.foldlM _ (found offset limit shown (matched ++ [x].filter isMatch)) = _
      rw [ih, List.append_assoc, ← List.filter_append, List.singleton_append]

end Loop

end Paging
