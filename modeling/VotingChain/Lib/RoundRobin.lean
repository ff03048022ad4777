/-
# `VotingChain.Lib.RoundRobin` — taking turns in the order of a list

Round `h` belongs to the element at position `h mod n` of a list of length `n`.
If the list has no repeated element, the rounds of an element are a residue class:

    turn xs h = some x   ↔   h ≡ idxOf x xs  [MOD n]

and everything else is counting in a residue class.  A window of `n` rounds has one
round of each element, a window of `k` rounds between `k / n` and `k / n + 1`, so the
shares of two elements in any window differ by at most one.
-/
import Mathlib.Data.Int.CardIntervalMod
import Mathlib.Data.List.Nodup
import Mathlib.Data.List.Induction

namespace RoundRobin

variable {α : Type} [DecidableEq α] {xs : List α}

/-- Whose round `h` is. -/
def turn (xs : List α) (h : Nat) : Option α := xs[h % xs.length]?

omit [DecidableEq α] in
theorem exists_turn (hne : xs ≠ []) (h : Nat) : ∃ x ∈ xs, turn xs h = some x := by
  have hlt : h % xs.length < xs.length := Nat.mod_lt _ (List.length_pos_of_ne_nil hne)
  exact ⟨xs[h % xs.length], List.getElem_mem hlt, List.getElem?_eq_getElem hlt⟩

omit [DecidableEq α] in
theorem mem_of_turn {h : Nat} {x : α} (hx : turn xs h = some x) : x ∈ xs :=
  List.mem_of_getElem? hx

theorem turn_idxOf {x : α} (hmem : x ∈ xs) : turn xs (xs.idxOf x) = some x := by
  rw [turn, Nat.mod_eq_of_lt (List.idxOf_lt_length_of_mem hmem)]
  exact List.getElem?_idxOf hmem

theorem turn_eq_some_iff (hnodup : xs.Nodup) {x : α} (hmem : x ∈ xs) (h : Nat) :
    turn xs h = some x ↔ h ≡ xs.idxOf x [MOD xs.length] := by
  have hpos : 0 < xs.length := List.length_pos_of_mem hmem
  have hidx : xs.idxOf x < xs.length := List.idxOf_lt_length_of_mem hmem
  rw [Nat.ModEq, Nat.mod_eq_of_lt hidx]
  constructor
  · intro hturn
    obtain ⟨hlt, hget⟩ := List.getElem?_eq_some_iff.mp hturn
    rw [← hget]
    exact (hnodup.idxOf_getElem _ hlt).symm
  · intro hmod
    rw [turn, hmod]
    exact List.getElem?_idxOf hmem

/-! ## Windows -/

theorem exists_shift {n : Nat} (hn : 0 < n) (s v : Nat) :
    ∃ w < n, ∀ i, s + i ≡ v [MOD n] ↔ i ≡ w [MOD n] := by
  have hshift : s + (v + (n - 1) * s) ≡ v [MOD n] := by
    obtain ⟨m, rfl⟩ : ∃ m, n = m + 1 := ⟨n - 1, by omega⟩
    have hsum : s + (v + (m + 1 - 1) * s) = v + (m + 1) * s := by
      rw [Nat.add_sub_cancel]
      ring
    rw [hsum]
    exact Nat.add_modulus_mul_modEq_iff.mpr rfl
  refine ⟨(v + (n - 1) * s) % n, Nat.mod_lt _ hn, fun i => ?_⟩
  have hmod : i ≡ (v + (n - 1) * s) % n [MOD n] ↔ i ≡ v + (n - 1) * s [MOD n] := by
    simp only [Nat.ModEq, Nat.mod_mod]
  rw [hmod]
  constructor
  · intro h
    exact Nat.ModEq.add_left_cancel' s (h.trans hshift.symm)
  · intro h
    exact (h.add_left s).trans hshift

theorem existsUnique_turn (hnodup : xs.Nodup) {x : α} (hmem : x ∈ xs) (s : Nat) :
    ∃! i, i < xs.length ∧ turn xs (s + i) = some x := by
  obtain ⟨w, hw, hshift⟩ := exists_shift (List.length_pos_of_mem hmem) s (xs.idxOf x)
  have hiff : ∀ i, turn xs (s + i) = some x ↔ i ≡ w [MOD xs.length] := by
    intro i
    rw [turn_eq_some_iff hnodup hmem, hshift]
  refine ⟨w, ⟨hw, (hiff w).mpr rfl⟩, ?_⟩
  rintro i ⟨hi, hturn⟩
  exact Nat.ModEq.eq_of_lt_of_lt ((hiff i).mp hturn) hi hw

theorem count_turn_bounds (hnodup : xs.Nodup) {x : α} (hmem : x ∈ xs) (s k : Nat) :
    k / xs.length ≤ Nat.count (fun i => turn xs (s + i) = some x) k ∧
      Nat.count (fun i => turn xs (s + i) = some x) k ≤ k / xs.length + 1 := by
  have hpos := List.length_pos_of_mem hmem
  obtain ⟨w, -, hshift⟩ := exists_shift hpos s (xs.idxOf x)
  have hcount : Nat.count (fun i => turn xs (s + i) = some x) k =
      Nat.count (fun i => i ≡ w [MOD xs.length]) k := by
    congr 1
    funext i
    rw [turn_eq_some_iff hnodup hmem, hshift]
  rw [hcount, Nat.count_modEq_card _ hpos]
  split <;> omega

/-! ## Logs -/

/-- `log` is a log of turns from round `s` on: its entry at `i` is whose round `s + i`
is. -/
def IsLog (xs : List α) (s : Nat) (log : List α) : Prop :=
  ∀ i (hi : i < log.length), turn xs (s + i) = some log[i]

omit [DecidableEq α] in
theorem isLog_concat {s : Nat} {log : List α} {x : α} :
    IsLog xs s (log ++ [x]) ↔ IsLog xs s log ∧ turn xs (s + log.length) = some x := by
  constructor
  · intro h
    refine ⟨fun i hi => ?_, ?_⟩
    · have := h i (by rw [List.length_append]; omega)
      rwa [List.getElem_append_left hi] at this
    · simpa using h log.length (by simp)
  · rintro ⟨hlog, hlast⟩ i hi
    rw [List.length_append, List.length_singleton] at hi
    rcases Nat.lt_or_ge i log.length with hlt | hge
    · rw [List.getElem_append_left hlt]
      exact hlog i hlt
    · obtain rfl : i = log.length := by omega
      simpa using hlast

theorem count_of_isLog {s : Nat} {log : List α} (h : IsLog xs s log) (x : α) :
    log.count x = Nat.count (fun i => turn xs (s + i) = some x) log.length := by
  induction log using List.reverseRecOn with
  | nil => simp
  | append_singleton log y ih =>
      obtain ⟨hlog, hlast⟩ := isLog_concat.mp h
      rw [List.count_append, ih hlog, List.length_append, List.length_singleton, Nat.count_succ,
        hlast, List.count_singleton]
      simp

/-- **Fairness.**  The shares of two elements in a log differ by at most one. -/
theorem count_le_count_add_one (hnodup : xs.Nodup) {s : Nat} {log : List α}
    (h : IsLog xs s log) {x y : α} (hx : x ∈ xs) (hy : y ∈ xs) :
    log.count x ≤ log.count y + 1 := by
  rw [count_of_isLog h, count_of_isLog h]
  have hupper := (count_turn_bounds hnodup hx s log.length).2
  have hlower := (count_turn_bounds hnodup hy s log.length).1
  omega

end RoundRobin
