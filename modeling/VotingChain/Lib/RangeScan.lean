/-
# `VotingChain.Lib.RangeScan` — reading a range out of sorted entries

A sorted store is read from a place on, entry after entry, up to the first that is out of
range.  Nothing is missed if what is in range is an interval that begins at that place:

    · · · lo ─────────────────┤ · · · ·
          └─ in range, all of it

What comes from `lo` on is then all that is not before it (`dropWhile_eq_filter`), and of that
the range is a first part (`takeWhile_eq_filter`).  The lists that begin with a given list are
such an interval in the dictionary order (`interval_prefix`).
-/
import Mathlib.Data.List.Lex
import Mathlib.Order.Lattice

namespace RangeScan

theorem dropWhile_eq_filter {β : Type} {p : β → Bool} {entries : List β}
    (hafter : entries.Pairwise fun e e' => p e = true → p e' = true) :
    (entries.dropWhile fun e => !p e) = entries.filter p := by
  induction entries with
  | nil => rfl
  | cons e entries ih =>
      rw [List.pairwise_cons] at hafter
      by_cases he : p e = true
      · have hall : ∀ e' ∈ e :: entries, p e' = true :=
          List.forall_mem_cons.mpr ⟨he, fun e' he' => hafter.1 e' he' he⟩
        rw [List.filter_eq_self.mpr hall]
        simp [he]
      · simp [he, ih hafter.2]

section
variable {κ β : Type} [LinearOrder κ]

/-- What is in range begins at `lo` and has no gaps. -/
structure Interval (lo : κ) (InRange : κ → Prop) : Prop where
  le : ∀ k, InRange k → lo ≤ k
  between : ∀ k k', lo ≤ k → k ≤ k' → InRange k' → InRange k

variable {key : β → κ} {lo : κ} {InRange : κ → Prop} [DecidablePred InRange]

theorem takeWhile_eq_filter (h : Interval lo InRange) {entries : List β}
    (hsorted : (entries.map key).Pairwise (· ≤ ·)) (hlo : ∀ e ∈ entries, lo ≤ key e) :
    (entries.takeWhile fun e => decide (InRange (key e))) =
      entries.filter fun e => decide (InRange (key e)) := by
  induction entries with
  | nil => rfl
  | cons e entries ih =>
      rw [List.map_cons, List.pairwise_cons] at hsorted
      rw [List.forall_mem_cons] at hlo
      by_cases he : InRange (key e)
      · simp only [List.takeWhile_cons, List.filter_cons, he, decide_true, if_true,
          ih hsorted.2 hlo.2]
      · have hnone : entries.filter (fun e => decide (InRange (key e))) = [] := by
          rw [List.filter_eq_nil_iff]
          intro e' he' hin
          exact he (h.between _ _ hlo.1 (hsorted.1 _ (List.mem_map_of_mem he'))
            (of_decide_eq_true hin))
        simp [he, hnone]

end

section
variable {α : Type} [LinearOrder α]

theorem cons_le_cons_cases {a b : α} {k k' : List α} (h : a :: k ≤ b :: k') :
    a < b ∨ a = b ∧ k ≤ k' := by
  rcases le_iff_lt_or_eq.mp h with hlt | heq
  · cases hlt with
    | rel hab => exact Or.inl hab
    | cons hk => exact Or.inr ⟨rfl, le_of_lt hk⟩
  · cases heq
    exact Or.inr ⟨rfl, le_refl k⟩

theorem le_of_prefix {p k : List α} (h : p <+: k) : p ≤ k := by
  induction p generalizing k with
  | nil =>
      cases k with
      | nil => exact le_refl []
      | cons a k => exact le_of_lt List.Lex.nil
  | cons a p ih =>
      obtain ⟨rest, rfl⟩ := h
      exact List.cons_le_cons a (ih (List.prefix_append p rest))

theorem prefix_of_between {p k k' : List α} (hp : p ≤ k) (hk : k ≤ k') (h : p <+: k') :
    p <+: k := by
  induction p generalizing k k' with
  | nil => exact List.nil_prefix
  | cons a p ih =>
      obtain ⟨rest, rfl⟩ := h
      cases k with
      | nil => exact absurd List.Lex.nil (not_lt_of_ge hp)
      | cons b k =>
          rcases cons_le_cons_cases hp with hab | ⟨rfl, hp'⟩
          · rcases cons_le_cons_cases hk with hba | ⟨rfl, -⟩
            · exact absurd hba (lt_asymm hab)
            · exact absurd hab (lt_irrefl _)
          · rcases cons_le_cons_cases hk with haa | ⟨-, hk'⟩
            · exact absurd haa (lt_irrefl _)
            · exact List.cons_prefix_cons.mpr ⟨rfl, ih hp' hk' (List.prefix_append p rest)⟩

theorem interval_prefix (p : List α) : Interval p (p <+: ·) where
  le _ := le_of_prefix
  between _ _ := prefix_of_between

end

end RangeScan
